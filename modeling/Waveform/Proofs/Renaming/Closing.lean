import Waveform.Proofs.Capture.Closing
import Waveform.Proofs.Renaming.Tree

/-!
# Closed trees under other names

A tree with expressions in place of its free names, under a renaming that leaves alone what the
tree binds: only the expressions get other names.
-/

namespace Waveform

variable {ν : Type}

/-! ## Bound names -/

mutual

/-- The names that functions in the expression bind, as parameters or in their bodies. -/
def Expression.binders : Expression ν → List String
  | .literal _ | .builtin _ | .identifier _ | .update _ _ _ => []
  | .array items => Expression.allBinders items
  | .member object property => object.binders ++ property.binders
  | .unary _ argument => argument.binders
  | .binary _ left right | .logical _ left right => left.binders ++ right.binders
  | .conditional test consequent alternate =>
    test.binders ++ (consequent.binders ++ alternate.binders)
  | .call callee arguments => callee.binders ++ Expression.allBinders arguments
  | .function params body _ => params ++ Statement.allBinders body
  | .assignment _ _ value => value.binders

def Expression.allBinders : List (Expression ν) → List String
  | [] => []
  | e :: es => e.binders ++ Expression.allBinders es

def Expression.optionBinders : Option (Expression ν) → List String
  | none => []
  | some e => e.binders

/-- The names that the statement declares and those that are bound inside it. -/
def Statement.binders : Statement ν → List String
  | .block body => Statement.allBinders body
  | .expression e => e.binders
  | .result value => Expression.optionBinders value
  | .branch test consequent none => test.binders ++ consequent.binders
  | .branch test consequent (some alternate) =>
    test.binders ++ (consequent.binders ++ alternate.binders)
  | .loop start test update body =>
    start.binders ++
      (Expression.optionBinders test ++ (Expression.optionBinders update ++ body.binders))
  | .declaration _ name init => name :: Expression.optionBinders init
  | .function name params body => name :: (params ++ Statement.allBinders body)

def Statement.allBinders : List (Statement ν) → List String
  | [] => []
  | s :: ss => s.binders ++ Statement.allBinders ss

def LoopStart.binders : LoopStart ν → List String
  | .absent => []
  | .declaration _ name init => name :: Expression.optionBinders init
  | .expression e => e.binders

end

/-- The names that a function binds, in its own body and in the functions inside it. -/
def Function.binders (f : Function ν) : List String :=
  f.params ++ Statement.allBinders f.body

theorem Statement.boundNames_subset_binders : (s : Statement ν) → s.boundNames ⊆ s.binders
  | .declaration _ name init => by
    rw [boundNames, binders]
    exact List.cons_subset_cons _ (List.nil_subset _)
  | .branch test consequent none => by
    rw [boundNames, binders]
    exact List.subset_append_of_subset_right _ (boundNames_subset_binders consequent)
  | .branch test consequent (some alternate) => by
    rw [boundNames, binders]
    refine List.subset_append_of_subset_right _ (List.append_subset.2 ⟨?_, ?_⟩)
    · exact List.subset_append_of_subset_left _ (boundNames_subset_binders consequent)
    · exact List.subset_append_of_subset_right _ (boundNames_subset_binders alternate)
  | .block _ | .expression _ | .result _ | .loop _ _ _ _ | .function _ _ _ =>
    List.nil_subset _

theorem Statement.declaredNames_subset_allBinders (ss : List (Statement ν)) :
    Statement.declaredNames ss ⊆ Statement.allBinders ss := by
  induction ss with
  | nil => exact List.Subset.refl _
  | cons s rest ih =>
    have hrest : Statement.declaredNames rest ⊆ Statement.allBinders (s :: rest) :=
      List.subset_append_of_subset_right _ ih
    cases s with
    | declaration kind name init =>
      exact List.cons_subset.2 ⟨List.mem_append_left _ (List.mem_cons_self ..), hrest⟩
    | function name params body =>
      exact List.cons_subset.2 ⟨List.mem_append_left _ (List.mem_cons_self ..), hrest⟩
    | _ => exact hrest

theorem LoopStart.declaredNames_subset_binders (start : LoopStart ν) :
    start.declaredNames ⊆ start.binders := by
  cases start with
  | declaration kind name init => exact List.cons_subset_cons _ (List.nil_subset _)
  | _ => exact List.nil_subset _

/-! ## Free names -/

/-- The name is read, and what stands in its place gets other names. -/
def Occurrence.IsRenamedBy (ρ : String → String) (q q' : String → Expression ν) :
    Occurrence → Prop
  | .read name => (q name).rename ρ = q' name
  | .write _ => False

section

variable {ρ : String → String} {q q' : String → Expression ν}

theorem map_eq_self {names : List String} (h : ∀ name ∈ names, ρ name = name) :
    names.map ρ = names :=
  (List.map_congr_left h).trans (List.map_id names)

mutual

theorem Expression.rename_close {bound : List String} (hbound : ∀ name ∈ bound, ρ name = name) :
    (e : Expression ν) → (∀ name ∈ e.binders, ρ name = name) →
      (∀ o ∈ e.free bound, o.IsRenamedBy ρ q q') → (e.close q bound).rename ρ = e.close q' bound
  | .literal _, _, _ | .builtin _, _, _ => rfl
  | .identifier name, _, hfree => by
    rw [Expression.free] at hfree
    rw [Expression.close, Expression.close]
    by_cases hname : name ∈ bound
    · rw [if_pos hname, if_pos hname, Expression.rename, hbound name hname]
    · rw [if_neg hname] at hfree ⊢
      rw [if_neg hname]
      exact hfree (.read name) (List.mem_singleton_self _)
  | .array items, hown, hfree => by
    rw [Expression.close, Expression.rename, Expression.renameAll_closeAll hbound items hown hfree,
      Expression.close]
  | .member object property, hown, hfree => by
    simp only [Expression.binders, Expression.free, List.forall_mem_append] at hown hfree
    rw [Expression.close, Expression.rename, object.rename_close hbound hown.1 hfree.1,
      property.rename_close hbound hown.2 hfree.2, Expression.close]
  | .unary _ argument, hown, hfree => by
    rw [Expression.close, Expression.rename, argument.rename_close hbound hown hfree,
      Expression.close]
  | .binary _ left right, hown, hfree | .logical _ left right, hown, hfree => by
    simp only [Expression.binders, Expression.free, List.forall_mem_append] at hown hfree
    rw [Expression.close, Expression.rename, left.rename_close hbound hown.1 hfree.1,
      right.rename_close hbound hown.2 hfree.2, Expression.close]
  | .conditional test consequent alternate, hown, hfree => by
    simp only [Expression.binders, Expression.free, List.forall_mem_append] at hown hfree
    rw [Expression.close, Expression.rename, test.rename_close hbound hown.1 hfree.1,
      consequent.rename_close hbound hown.2.1 hfree.2.1,
      alternate.rename_close hbound hown.2.2 hfree.2.2, Expression.close]
  | .call callee arguments, hown, hfree => by
    simp only [Expression.binders, Expression.free, List.forall_mem_append] at hown hfree
    rw [Expression.close, Expression.rename, callee.rename_close hbound hown.1 hfree.1,
      Expression.renameAll_closeAll hbound arguments hown.2 hfree.2, Expression.close]
  | .function params body _, hown, hfree => by
    obtain ⟨hparams, hbody⟩ := List.forall_mem_append.1 hown
    have hdeclared : ∀ name ∈ params ++ Statement.declaredNames body, ρ name = name :=
      List.forall_mem_append.2 ⟨hparams, fun name hname =>
        hbody name (Statement.declaredNames_subset_allBinders body hname)⟩
    have hinner := List.forall_mem_append.2 ⟨hbound, hdeclared⟩
    rw [Expression.close, Expression.rename, map_eq_self hparams,
      Statement.renameAll_closeAll hinner body hbody hfree, Expression.close]
  | .assignment op target value, hown, hfree => by
    simp only [Expression.free, List.forall_mem_append] at hfree
    have htarget : target ∈ bound := by
      by_contra hnot
      rw [if_neg hnot] at hfree
      exact hfree.1 _ (List.mem_singleton_self _)
    rw [Expression.close, Expression.rename, hbound target htarget,
      value.rename_close hbound hown hfree.2, Expression.close]
  | .update _ _ target, _, hfree => by
    have htarget : target ∈ bound := by
      by_contra hnot
      rw [Expression.free, if_neg hnot] at hfree
      exact hfree _ (List.mem_singleton_self _)
    rw [Expression.close, Expression.rename, hbound target htarget, Expression.close]

theorem Expression.renameAll_closeAll {bound : List String}
    (hbound : ∀ name ∈ bound, ρ name = name) : (es : List (Expression ν)) →
      (∀ name ∈ Expression.allBinders es, ρ name = name) →
        (∀ o ∈ Expression.allFree bound es, o.IsRenamedBy ρ q q') →
          Expression.renameAll ρ (Expression.closeAll q bound es) = Expression.closeAll q' bound es
  | [], _, _ => rfl
  | e :: es, hown, hfree => by
    simp only [Expression.allBinders, Expression.allFree, List.forall_mem_append] at hown hfree
    rw [Expression.closeAll, Expression.renameAll, e.rename_close hbound hown.1 hfree.1,
      Expression.renameAll_closeAll hbound es hown.2 hfree.2, Expression.closeAll]

theorem Expression.renameOption_closeOption {bound : List String}
    (hbound : ∀ name ∈ bound, ρ name = name) : (e : Option (Expression ν)) →
      (∀ name ∈ Expression.optionBinders e, ρ name = name) →
        (∀ o ∈ Expression.optionFree bound e, o.IsRenamedBy ρ q q') →
          Expression.renameOption ρ (Expression.closeOption q bound e) =
            Expression.closeOption q' bound e
  | none, _, _ => rfl
  | some e, hown, hfree => by
    rw [Expression.closeOption, Expression.renameOption, e.rename_close hbound hown hfree,
      Expression.closeOption]

theorem Statement.rename_close {bound : List String} (hbound : ∀ name ∈ bound, ρ name = name) :
    (s : Statement ν) → (∀ name ∈ s.binders, ρ name = name) →
      (∀ o ∈ s.free bound, o.IsRenamedBy ρ q q') → (s.close q bound).rename ρ = s.close q' bound
  | .block body, hown, hfree => by
    have hinner := List.forall_mem_append.2 ⟨hbound, fun name hname =>
      hown name (Statement.declaredNames_subset_allBinders body hname)⟩
    rw [Statement.close, Statement.rename, Statement.renameAll_closeAll hinner body hown hfree,
      Statement.close]
  | .expression e, hown, hfree => by
    rw [Statement.close, Statement.rename, e.rename_close hbound hown hfree, Statement.close]
  | .result value, hown, hfree => by
    rw [Statement.close, Statement.rename,
      Expression.renameOption_closeOption hbound value hown hfree, Statement.close]
  | .branch test consequent none, hown, hfree => by
    simp only [Statement.binders, Statement.free, List.forall_mem_append] at hown hfree
    rw [Statement.close, Statement.rename, test.rename_close hbound hown.1 hfree.1,
      consequent.rename_close hbound hown.2 hfree.2, Statement.close]
    rfl
  | .branch test consequent (some alternate), hown, hfree => by
    simp only [Statement.binders, Statement.free, List.forall_mem_append] at hown hfree
    have hinner := List.forall_mem_append.2 ⟨hbound, fun name hname =>
      hown.2.1 name (consequent.boundNames_subset_binders hname)⟩
    rw [Statement.close, Statement.rename, test.rename_close hbound hown.1 hfree.1,
      consequent.rename_close hbound hown.2.1 hfree.2.1, Statement.renameOption,
      alternate.rename_close hinner hown.2.2 hfree.2.2, Statement.close]
  | .loop start test update body, hown, hfree => by
    simp only [Statement.binders, Statement.free, List.forall_mem_append] at hown hfree
    have hinner := List.forall_mem_append.2 ⟨hbound, fun name hname =>
      hown.1 name (start.declaredNames_subset_binders hname)⟩
    rw [Statement.close, Statement.rename, start.rename_close hbound hown.1 hfree.1,
      Expression.renameOption_closeOption hinner test hown.2.1 hfree.2.1,
      Expression.renameOption_closeOption hinner update hown.2.2.1 hfree.2.2.1,
      body.rename_close hinner hown.2.2.2 hfree.2.2.2, Statement.close]
  | .declaration kind name init, hown, hfree => by
    obtain ⟨hname, hinit⟩ := List.forall_mem_cons.1 hown
    rw [Statement.close, Statement.rename, hname,
      Expression.renameOption_closeOption hbound init hinit hfree, Statement.close]
  | .function name params body, hown, hfree => by
    obtain ⟨hname, hown⟩ := List.forall_mem_cons.1 hown
    obtain ⟨hparams, hbody⟩ := List.forall_mem_append.1 hown
    have hdeclared : ∀ name ∈ params ++ Statement.declaredNames body, ρ name = name :=
      List.forall_mem_append.2 ⟨hparams, fun name hname =>
        hbody name (Statement.declaredNames_subset_allBinders body hname)⟩
    have hinner := List.forall_mem_append.2 ⟨hbound, hdeclared⟩
    rw [Statement.close, Statement.rename, hname, map_eq_self hparams,
      Statement.renameAll_closeAll hinner body hbody hfree, Statement.close]

theorem Statement.renameAll_closeAll {bound : List String}
    (hbound : ∀ name ∈ bound, ρ name = name) : (ss : List (Statement ν)) →
      (∀ name ∈ Statement.allBinders ss, ρ name = name) →
        (∀ o ∈ Statement.allFree bound ss, o.IsRenamedBy ρ q q') →
          Statement.renameAll ρ (Statement.closeAll q bound ss) = Statement.closeAll q' bound ss
  | [], _, _ => rfl
  | s :: rest, hown, hfree => by
    simp only [Statement.allBinders, Statement.allFree, List.forall_mem_append] at hown hfree
    have hinner := List.forall_mem_append.2 ⟨hbound, fun name hname =>
      hown.1 name (s.boundNames_subset_binders hname)⟩
    rw [Statement.closeAll, Statement.renameAll, s.rename_close hbound hown.1 hfree.1,
      Statement.renameAll_closeAll hinner rest hown.2 hfree.2, Statement.closeAll]

theorem LoopStart.rename_close {bound : List String} (hbound : ∀ name ∈ bound, ρ name = name) :
    (start : LoopStart ν) → (∀ name ∈ start.binders, ρ name = name) →
      (∀ o ∈ start.free bound, o.IsRenamedBy ρ q q') →
        (start.close q bound).rename ρ = start.close q' bound
  | .absent, _, _ => rfl
  | .declaration kind name init, hown, hfree => by
    obtain ⟨hname, hinit⟩ := List.forall_mem_cons.1 hown
    rw [LoopStart.close, LoopStart.rename, hname,
      Expression.renameOption_closeOption hbound init hinit hfree, LoopStart.close]
  | .expression e, hown, hfree => by
    rw [LoopStart.close, LoopStart.rename, e.rename_close hbound hown hfree, LoopStart.close]

end

/-- A renaming that leaves alone what a function binds reaches only the expressions that stand for
its free names. -/
theorem Function.rename_close {f : Function ν} (hown : ∀ name ∈ f.binders, ρ name = name)
    (hfree : ∀ o ∈ f.free, o.IsRenamedBy ρ q q') : (f.close q).rename ρ = f.close q' := by
  obtain ⟨hparams, hbody⟩ := List.forall_mem_append.1 hown
  have hbound : ∀ name ∈ f.params ++ Statement.declaredNames f.body, ρ name = name :=
    List.forall_mem_append.2 ⟨hparams, fun name hname =>
      hbody name (Statement.declaredNames_subset_allBinders f.body hname)⟩
  rw [Function.close, Function.rename, map_eq_self hparams,
    Statement.renameAll_closeAll hbound f.body hbody hfree, Function.close]

end

end Waveform
