import Waveform.Proofs.Inlining.Outcome
import Waveform.Proofs.Renaming.Simplification

/-!
# Inlining under other names

Two runs of the inliner, the second with other names. `Scopes.Renamed` relates what they keep track
of, and `Inlining.Renames` says that from related scopes both reductions fail, or both succeed and
leave related scopes behind. No helper may get another name, because the scopes know the helpers by
the names that programs use for them.
-/

namespace Waveform

variable {ν : Type} {ρ : String → String}

/-! ## Scopes -/

def Scope.Binding.rename (ρ : String → String) : Scope.Binding ν → Scope.Binding ν
  | .parameter => .parameter
  | .mutable value => .mutable (value.rename ρ)
  | .constant value => .constant (value.rename ρ)
  | .hardcoded value => .hardcoded (value.rename ρ)

/-- The second frame lies where the first one does, and binds the new names. Only its path may be
another. -/
structure Scope.Renamed (ρ : String → String) (s s' : Scope ν) : Prop where
  kind : s'.kind = s.kind
  outer : s'.outer = s.outer
  find? (name) : s'.bindings.find? (ρ name) = (s.bindings.find? name).map (Binding.rename ρ)

theorem Scope.renamed_empty (ρ : String → String) (kind : Kind) (path path' : String)
    (outer : List Nat) :
    Renamed (ν := ν) ρ ⟨kind, path, .empty, outer⟩ ⟨kind, path', .empty, outer⟩ :=
  ⟨rfl, rfl, fun _ => rfl⟩

namespace Scopes

structure Renamed (ρ : String → String) (σ σ' : Scopes ν) : Prop where
  size : σ'.size = σ.size
  frame (i) : (σ.frame i).Renamed ρ (σ'.frame i)
  helper (name) : σ'.hardcoded.find? (·.globalName == ρ name) =
    σ.hardcoded.find? (·.globalName == name)

variable {σ σ' : Scopes ν}

theorem Renamed.findIn? (h : σ.Renamed ρ σ') (name : String) (js : List Nat) :
    σ'.findIn? (ρ name) js = (σ.findIn? name js).map fun p => (p.1, p.2.rename ρ) := by
  induction js with
  | nil => rfl
  | cons j js ih =>
    rw [Scopes.findIn?, Scopes.findIn?, (h.frame j).find?, ih]
    cases (σ.frame j).bindings.find? name <;> rfl

theorem Renamed.lookup? (h : σ.Renamed ρ σ') (i : Nat) (name : String) :
    σ'.lookup? i (ρ name) = (σ.lookup? i name).map fun p => (p.1, p.2.rename ρ) := by
  rw [Scopes.lookup?, Scopes.lookup?, (h.frame i).outer, h.findIn?, h.helper]
  cases σ.findIn? name (i :: (σ.frame i).outer) with
  | some found => rfl
  | none => cases σ.hardcoded.find? (·.globalName == name) <;> rfl

theorem Renamed.findForWriteIn? (h : σ.Renamed ρ σ') (name : String) (js : List Nat) :
    (∃ e e', σ.findForWriteIn? name js = .error e ∧ σ'.findForWriteIn? (ρ name) js = .error e') ∨
      ∃ found, σ.findForWriteIn? name js = .ok found ∧
        σ'.findForWriteIn? (ρ name) js = .ok (found.map fun p => (p.1, p.2.rename ρ)) := by
  induction js with
  | nil => exact .inr ⟨none, rfl, rfl⟩
  | cons j js ih =>
    rw [Scopes.findForWriteIn?, Scopes.findForWriteIn?, (h.frame j).find?, (h.frame j).kind]
    cases (σ.frame j).bindings.find? name with
    | some b => exact .inr ⟨some (j, b), rfl, rfl⟩
    | none =>
      dsimp only [Option.map_none]
      split
      · exact .inl ⟨_, _, rfl, rfl⟩
      · exact ih

/-! ### Binding names -/

theorem Renamed.define (h : σ.Renamed ρ σ') (hρ : Function.Injective ρ) (i : Nat) (name : String)
    (b : Scope.Binding ν) :
    (σ.define i name b).Renamed ρ (σ'.define i (ρ name) (b.rename ρ)) := by
  refine ⟨by rw [size_define, size_define, h.size], fun j => ?_, h.helper⟩
  by_cases hj : j = i
  · subst hj
    by_cases hlt : j < σ.size
    · have hlt' : j < σ'.size := by rwa [h.size]
      rw [frame_define_self hlt, frame_define_self hlt']
      refine ⟨(h.frame j).kind, (h.frame j).outer, fun other => ?_⟩
      dsimp only
      rw [Bindings.find?_insert, Bindings.find?_insert, (h.frame j).find?]
      by_cases hother : other = name
      · rw [if_pos hother, if_pos (congrArg ρ hother), Option.map_some]
      · rw [if_neg hother, if_neg fun heq => hother (hρ heq)]
    · have hle : σ.size ≤ j := Nat.le_of_not_lt hlt
      rw [frame_of_le (by rwa [size_define]), frame_of_le (by rwa [size_define, h.size])]
      exact Scope.renamed_empty ..
  · rw [frame_define_of_ne hj, frame_define_of_ne hj]
    exact h.frame j

theorem Renamed.hoist (h : σ.Renamed ρ σ') (hρ : Function.Injective ρ) (scope : Nat)
    (body : List (Statement ν)) :
    (σ.hoist scope body).Renamed ρ (σ'.hoist scope (Statement.renameAll ρ body)) := by
  induction body generalizing σ σ' with
  | nil => exact h
  | cons s rest ih =>
    cases s with
    | function name params body => exact ih (h.define hρ scope name _)
    | _ => exact ih h

theorem Renamed.defineParameters (h : σ.Renamed ρ σ') (hρ : Function.Injective ρ) (scope : Nat)
    (params : List String) :
    (σ.defineParameters scope params).Renamed ρ (σ'.defineParameters scope (params.map ρ)) := by
  induction params generalizing σ σ' with
  | nil => exact h
  | cons p ps ih => exact ih (h.define hρ scope p .parameter)

theorem Renamed.defineArguments (h : σ.Renamed ρ σ') (hρ : Function.Injective ρ) (scope : Nat)
    (params : List String) (arguments : List (Expression ν)) :
    (σ.defineArguments scope params arguments).Renamed ρ
      (σ'.defineArguments scope (params.map ρ) (Expression.renameAll ρ arguments)) := by
  induction params generalizing σ σ' arguments with
  | nil => exact h
  | cons p ps ih =>
    cases arguments with
    | nil => exact ih (h.define hρ scope p (.constant .undefined)) []
    | cons e es => exact ih (h.define hρ scope p (.constant e)) es

/-! ### Making frames -/

theorem frame_child (σ : Scopes ν) (i : Nat) (kind : Scope.Kind) :
    (σ.child i kind).2.frame σ.size =
      ⟨kind, (σ.frame i).path ++ kind.letter ++ toString σ.size, .empty, σ.chain i⟩ := by
  simp [child, frame, size, chain]

theorem Renamed.child (h : σ.Renamed ρ σ') (i : Nat) (kind : Scope.Kind) :
    (σ.child i kind).2.Renamed ρ (σ'.child i kind).2 := by
  refine ⟨by rw [size_child, size_child, h.size], fun j => ?_, h.helper⟩
  rcases Nat.lt_trichotomy j σ.size with hlt | rfl | hgt
  · rw [frame_child_of_lt _ _ _ _ hlt, frame_child_of_lt _ _ _ _ (by rwa [h.size])]
    exact h.frame j
  · have hnew := frame_child σ' i kind
    rw [h.size, chain, (h.frame i).outer] at hnew
    rw [frame_child, hnew]
    exact Scope.renamed_empty ..
  · rw [frame_of_le (by rwa [size_child]), frame_of_le (by rwa [size_child, h.size])]
    exact Scope.renamed_empty ..

theorem renamed_root (hρ : Function.Injective ρ) {hardcoded : List Builtin}
    (hhelper : ∀ b ∈ hardcoded, ρ b.globalName = b.globalName) (kind : Scope.Kind)
    (path path' : String) :
    ((empty (ν := ν) hardcoded).root kind path).2.Renamed ρ
      ((empty hardcoded).root kind path').2 := by
  refine ⟨rfl, fun j => ?_, fun name => ?_⟩
  · cases j with
    | zero => exact Scope.renamed_empty ..
    | succ j => exact Scope.renamed_empty ..
  · change hardcoded.find? _ = hardcoded.find? _
    induction hardcoded with
    | nil => rfl
    | cons b bs ih =>
      have hb : (b.globalName == ρ name) = (b.globalName == name) := by
        rw [← beq_rename hρ b.globalName name, hhelper b (List.mem_cons_self ..)]
      rw [List.find?_cons, List.find?_cons, hb, ih fun c hc => hhelper c (.tail b hc)]

end Scopes

namespace Inlining

/-! ## Pairs of reductions -/

section

variable {α α' β β' : Type}

/-- From related scopes both reductions fail, or both succeed and leave related scopes behind. The
second result is what the function makes of the first one. -/
def Renames (ρ : String → String) (f : α → α') (m : Inlining ν α) (m' : Inlining ν α') : Prop :=
  ∀ σ σ', σ.Renamed ρ σ' →
    (∃ e e', m.run σ = .error e ∧ m'.run σ' = .error e') ∨
    ∃ a τ τ', m.run σ = .ok (a, τ) ∧ m'.run σ' = .ok (f a, τ') ∧ τ.Renamed ρ τ'

variable {f : α → α'} {g : β → β'}

theorem renames_pure (a : α) : Renames (ν := ν) ρ f (pure a) (pure (f a)) :=
  fun σ σ' hσ => .inr ⟨a, σ, σ', rfl, rfl, hσ⟩

theorem renames_throw (e e' : SpecializationError ν) :
    Renames (ν := ν) ρ f (throw e) (throw e') :=
  fun _ _ _ => .inl ⟨e, e', rfl, rfl⟩

theorem Renames.bind {m : Inlining ν α} {m' : Inlining ν α'} {k : α → Inlining ν β}
    {k' : α' → Inlining ν β'} (hm : Renames ρ f m m') (hk : ∀ a, Renames ρ g (k a) (k' (f a))) :
    Renames ρ g (m >>= k) (m' >>= k') := by
  intro σ σ' hσ
  rw [StateT.run_bind, StateT.run_bind]
  rcases hm σ σ' hσ with ⟨e, e', he, he'⟩ | ⟨a, τ, τ', ha, ha', hτ⟩
  · rw [he, he']
    exact .inl ⟨e, e', rfl, rfl⟩
  · rw [ha, ha']
    exact hk a τ τ' hτ

theorem Renames.map {m : Inlining ν α} {m' : Inlining ν α'} {h : α → β} {h' : α' → β'}
    (hm : Renames ρ f m m') (hh : ∀ a, h' (f a) = g (h a)) :
    Renames ρ g (m >>= fun a => pure (h a)) (m' >>= fun a => pure (h' a)) := by
  refine hm.bind fun a => ?_
  rw [hh]
  exact renames_pure _

theorem renames_get {k : Scopes ν → Inlining ν α} {k' : Scopes ν → Inlining ν α'}
    (hk : ∀ σ σ', σ.Renamed ρ σ' → Renames ρ f (k σ) (k' σ')) :
    Renames ρ f (get >>= k) (get >>= k') :=
  fun σ σ' hσ => hk σ σ' hσ σ σ' hσ

theorem renames_lift {x : Except (SpecializationError ν) α} {x' : Except (SpecializationError ν) α'}
    (h : (∃ e e', x = .error e ∧ x' = .error e') ∨ ∃ a, x = .ok a ∧ x' = .ok (f a)) :
    Renames (ν := ν) ρ f (liftM x) (liftM x') := by
  rcases h with ⟨e, e', rfl, rfl⟩ | ⟨a, rfl, rfl⟩
  · exact fun _ _ _ => .inl ⟨e, e', rfl, rfl⟩
  · exact fun σ σ' hσ => .inr ⟨a, σ, σ', rfl, rfl, hσ⟩

theorem renames_modify {h h' : Scopes ν → Scopes ν}
    (hh : ∀ σ σ', σ.Renamed ρ σ' → (h σ).Renamed ρ (h' σ')) :
    Renames ρ id (modify h) (modify h') :=
  fun σ σ' hσ => .inr ⟨⟨⟩, h σ, h' σ', rfl, rfl, hh σ σ' hσ⟩

theorem renames_child (scope : Nat) (kind : Scope.Kind) :
    Renames (ν := ν) ρ id (child scope kind) (child scope kind) := by
  intro σ σ' hσ
  refine .inr ⟨σ.size, _, (σ'.child scope kind).2, rfl, ?_, hσ.child scope kind⟩
  rw [id, ← hσ.size]
  rfl

theorem renames_branching (floors : Floors) {inner : Floors → Inlining ν α}
    {inner' : Floors → Inlining ν α'} (h : ∀ floors, Renames ρ f (inner floors) (inner' floors)) :
    Renames ρ f (branching floors inner) (branching floors inner') := by
  refine renames_get fun σ σ' hσ => ?_
  rw [hσ.size]
  exact h _

end

/-! ## Steps -/

theorem renames_define (hρ : Function.Injective ρ) (scope : Nat) (name : String)
    (b : Scope.Binding ν) :
    Renames ρ id (define scope name b) (define scope (ρ name) (b.rename ρ)) :=
  renames_modify fun _ _ hσ => hσ.define hρ scope name b

theorem renames_hoist (hρ : Function.Injective ρ) (scope : Nat) (body : List (Statement ν)) :
    Renames ρ id (modify (·.hoist scope body))
      (modify (·.hoist scope (Statement.renameAll ρ body))) :=
  renames_modify fun _ _ hσ => hσ.hoist hρ scope body

theorem renames_read (scope : Nat) (name : String) :
    Renames (ν := ν) ρ (Expression.rename ρ) (read scope name) (read scope (ρ name)) := by
  refine renames_get fun σ σ' hσ => ?_
  rw [hσ.lookup?]
  rcases σ.lookup? scope name with _ | ⟨i, _ | value | value | value⟩
  · exact renames_throw _ _
  · exact renames_pure (Expression.identifier name)
  · exact renames_pure value
  · exact renames_pure value
  · exact renames_pure value

theorem renames_assign (hρ : Function.Injective ρ) (floors : Floors) (scope : Nat)
    (target : String) {update update' : Expression ν → Expression ν}
    (hupdate : ∀ e : Expression ν, update' (e.rename ρ) = (update e).rename ρ) :
    Renames ρ (Prod.map (Expression.rename ρ) (Expression.rename ρ))
      (assign floors scope target update) (assign floors scope (ρ target) update') := by
  refine renames_get fun σ σ' hσ => ?_
  have hfound : (∃ e e', σ.lookupForWrite? scope target = .error e ∧
      σ'.lookupForWrite? scope (ρ target) = .error e') ∨
      ∃ found, σ.lookupForWrite? scope target = .ok found ∧
        σ'.lookupForWrite? scope (ρ target) = .ok (found.map fun p => (p.1, p.2.rename ρ)) := by
    rw [Scopes.lookupForWrite?, Scopes.lookupForWrite?, (hσ.frame scope).outer]
    exact hσ.findForWriteIn? target _
  refine (renames_lift hfound).bind fun found => ?_
  rcases found with _ | ⟨owner, _ | current | _ | _⟩
  · exact renames_throw _ _
  · exact renames_throw _ _
  · dsimp only [Option.map_some, Scope.Binding.rename]
    split
    · exact renames_throw _ _
    · rw [hupdate, Scopes.assign, Scopes.assign, (hσ.frame owner).find?]
      rcases (σ.frame owner).bindings.find? target with _ | _ | _ | _ | _
      · exact fun _ _ _ => .inl ⟨_, _, rfl, rfl⟩
      · exact fun _ _ _ => .inl ⟨_, _, rfl, rfl⟩
      · have hdefine := hσ.define hρ owner target (.mutable (update current))
        exact fun _ _ _ => .inr ⟨(current, update current), _, _, rfl, rfl, hdefine⟩
      · exact fun _ _ _ => .inl ⟨_, _, rfl, rfl⟩
      · exact fun _ _ _ => .inl ⟨_, _, rfl, rfl⟩
  · exact renames_throw _ _
  · exact renames_throw _ _

variable [Numeric ν]

theorem renames_member (object property : Expression ν) :
    Renames ρ (Expression.rename ρ) (member object property)
      (member (object.rename ρ) (property.rename ρ)) := by
  unfold member
  rw [Expression.asNumber?_rename]
  cases object with
  | array items =>
    cases property.asNumber? with
    | none => exact renames_pure (Expression.member (.array items) property)
    | some x =>
      have hitem : ((Numeric.toNat? x).bind fun i => (Expression.renameAll ρ items)[i]?).getD
          .undefined = (((Numeric.toNat? x).bind fun i => items[i]?).getD .undefined).rename ρ := by
        cases Numeric.toNat? x with
        | none => rfl
        | some i =>
          rw [Option.bind_some, Option.bind_some, Expression.renameAll_eq_map, List.getElem?_map]
          cases items[i]? <;> rfl
      dsimp only [Expression.rename]
      rw [hitem]
      exact renames_pure _
  | literal l => exact renames_throw _ _
  | _ => exact renames_pure _

end Inlining

/-! ## Calls of builtins -/

theorem Expression.listLength?_rename : (e : Expression ν) →
    (e.rename ρ).listLength? = e.listLength?
  | .array [] | .array [_] | .array (_ :: _ :: _ :: _) => rfl
  | .array [head, tail] => by
    have htail := tail.listLength?_rename
    simp only [rename, renameAll, listLength?, htail]
  | .literal _ | .identifier _ | .builtin _ | .member _ _ | .unary _ _ | .binary _ _ _
  | .logical _ _ _ | .conditional _ _ _ | .call _ _ | .function _ _ _ | .assignment _ _ _
  | .update _ _ _ => rfl

theorem Expression.ofList_rename (items : List (Expression ν)) :
    ofList (renameAll ρ items) = (ofList items).rename ρ := by
  induction items with
  | nil => rfl
  | cons e es ih =>
    change Expression.array [e.rename ρ, ofList (renameAll ρ es)] = _
    rw [ih]
    rfl

namespace Inlining

variable [Numeric ν]

theorem foldBuiltin?_rename (b : Builtin) (arguments : List (Expression ν)) :
    foldBuiltin? b (Expression.renameAll ρ arguments) = foldBuiltin? b arguments := by
  have hliterals : (Expression.renameAll ρ arguments).mapM (·.asLiteral?) =
      arguments.mapM (·.asLiteral?) := by
    induction arguments with
    | nil => rfl
    | cons e es ih => rw [Expression.renameAll, List.mapM_cons, List.mapM_cons, ih,
        Expression.asLiteral?_rename]
  rw [foldBuiltin?, foldBuiltin?, hliterals]

theorem applyBuiltin_of_ne {residual : List Builtin} {b : Builtin}
    {arguments : List (Expression ν)} (hlength : b ≠ .length) (hlist : b ≠ .list) :
    applyBuiltin residual b arguments =
      if residual.contains b then
        pure ((foldBuiltin? b arguments).elim (.call (.builtin b) arguments) .number)
      else throw (.notCallable (.builtin b)) := by
  unfold applyBuiltin
  split
  · exact absurd rfl hlength
  · exact absurd rfl hlist
  · cases foldBuiltin? b arguments <;> rfl

theorem renames_applyBuiltin (residual : List Builtin) (b : Builtin)
    (arguments : List (Expression ν)) :
    Renames ρ (Expression.rename ρ) (applyBuiltin residual b arguments)
      (applyBuiltin residual b (Expression.renameAll ρ arguments)) := by
  by_cases hlength : b = .length
  · subst hlength
    have hlist : (Expression.renameAll ρ arguments).headD .undefined =
        (arguments.headD .undefined).rename ρ := by
      cases arguments <;> rfl
    simp only [applyBuiltin]
    rw [hlist, Expression.listLength?_rename]
    cases (arguments.headD .undefined).listLength? with
    | some n => exact renames_pure (Expression.number (Numeric.ofNat n))
    | none => exact renames_throw _ _
  by_cases hlist : b = .list
  · subst hlist
    simp only [applyBuiltin]
    rw [Expression.ofList_rename]
    exact renames_pure _
  rw [applyBuiltin_of_ne hlength hlist, applyBuiltin_of_ne hlength hlist, foldBuiltin?_rename]
  split
  · cases foldBuiltin? b arguments with
    | some x => exact renames_pure (Expression.number x)
    | none => exact renames_pure (Expression.call (.builtin b) arguments)
  · exact renames_throw _ _

end Inlining

end Waveform
