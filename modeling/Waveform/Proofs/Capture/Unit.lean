import Waveform.Proofs.Capture.Captured
import Waveform.Proofs.Capture.Closing

/-!
# Closed trees as captured trees

A scoped tree with values for its free names is what the tree is captured as. A block declares its
names before its first statement, so no statement of a scoped block binds one that is new.
-/

namespace Waveform

variable {ν : Type}

theorem Statement.boundNames_of_standsAlone : {s : Statement ν} → s.isScoped = true →
    s.standsAlone = true → s.boundNames = []
  | .branch test consequent none, hscoped, _ => by
    simp only [isScoped, Bool.and_eq_true] at hscoped
    rw [boundNames, boundNames_of_standsAlone hscoped.1.2 hscoped.1.1.2]
  | .branch test consequent (some alternate), hscoped, _ => by
    simp only [isScoped, optionScoped, Bool.and_eq_true] at hscoped
    rw [boundNames, boundNames_of_standsAlone hscoped.1.2 hscoped.1.1.2,
      boundNames_of_standsAlone hscoped.2.2 hscoped.2.1, List.append_nil]
  | .block _, _, _ | .expression _, _, _ | .result _, _, _ | .loop _ _ _ _, _, _ => rfl
  | .declaration _ _ _, _, h | .function _ _ _, _, h => by cases h

theorem Statement.boundNames_subset_of_isScoped {s : Statement ν} (h : s.isScoped = true) :
    s.boundNames ⊆ Statement.declaredNames [s] := by
  by_cases halone : s.standsAlone = true
  · rw [boundNames_of_standsAlone h halone]
    exact List.nil_subset _
  · cases s with
    | declaration kind name init => exact List.Subset.refl _
    | function name params body => exact List.nil_subset _
    | _ => exact absurd rfl halone

/-! ## Values for free names -/

/-- The free names are read, and the expressions in their place make the values again that a capture
takes them for. -/
def Origin.Fills (o : Origin ν) (env : Environment) (q : String → Expression ν)
    (free : List Occurrence) : Prop :=
  ∀ occurrence ∈ free, ∃ name v, occurrence = .read name ∧
    o.store.captured? o.hardcoded env name = some v ∧ o.Quotes v (q name)

section

variable {o : Origin ν} {env : Environment} {q : String → Expression ν}

theorem Origin.Fills.left {free free' : List Occurrence} (h : o.Fills env q (free ++ free')) :
    o.Fills env q free :=
  fun occurrence hmem => h occurrence (List.mem_append_left _ hmem)

theorem Origin.Fills.right {free free' : List Occurrence} (h : o.Fills env q (free ++ free')) :
    o.Fills env q free' :=
  fun occurrence hmem => h occurrence (List.mem_append_right _ hmem)

theorem Origin.Fills.mem_of_write {bound : List String} {name : String}
    (h : o.Fills env q (if name ∈ bound then [] else [.write name])) : name ∈ bound := by
  by_contra hmem
  rw [if_neg hmem] at h
  obtain ⟨_, _, heq, -⟩ := h _ (List.mem_singleton_self _)
  cases heq

theorem Expression.captured_identifier {bound : List String} {l : Locals} {name : String}
    (hl : ∀ name, l name ↔ name ∈ bound)
    (h : o.Fills env q ((Expression.identifier name).free (ν := ν) bound)) :
    Expression.Captured o env l (.identifier name)
      ((Expression.identifier name).close q bound) := by
  rw [close]
  rw [free] at h
  by_cases hmem : name ∈ bound
  · rw [if_pos hmem]
    exact .bound ((hl name).2 hmem)
  · rw [if_neg hmem] at h ⊢
    have hfree : ¬ l name := fun hname => hmem ((hl name).1 hname)
    obtain ⟨_, v, ⟨⟩, hv, hquotes⟩ := h _ (List.mem_singleton_self _)
    rw [Store.captured?] at hv
    cases hb : o.hardcoded.find? (·.globalName == name) with
    | none =>
      rw [hb] at hv
      exact .free hfree hv hquotes
    | some b =>
      rw [hb] at hv
      obtain rfl : Value.builtin b = v := Option.some.inj hv
      generalize q name = e at hquotes
      cases hquotes
      exact .hardcoded hfree hb

theorem Locals.extend_iff {bound : List String} {l : Locals} (hl : ∀ name, l name ↔ name ∈ bound)
    (names : List String) (name : String) : l.extend names name ↔ name ∈ bound ++ names := by
  rw [Locals.extend, hl, List.mem_append]

/-! ## Trees -/

mutual

theorem Expression.captured_close : (bound : List String) → (l : Locals) → (e : Expression ν) →
    (∀ name, l name ↔ name ∈ bound) → e.isScoped = true → o.Fills env q (e.free bound) →
      Expression.Captured o env l e (e.close q bound)
  | _, _, .literal v, _, _, _ => .literal v
  | _, _, .builtin b, _, _, _ => .builtin b
  | _, _, .identifier _, hl, _, h => Expression.captured_identifier hl h
  | bound, l, .array items, hl, hscoped, h => by
    rw [Expression.isScoped] at hscoped
    rw [Expression.free] at h
    rw [Expression.close]
    exact .array (Expression.captured_closeAll bound l items hl hscoped h)
  | bound, l, .member object property, hl, hscoped, h => by
    rw [Expression.isScoped, Bool.and_eq_true] at hscoped
    rw [Expression.free] at h
    rw [Expression.close]
    exact .member (object.captured_close bound l hl hscoped.1 h.left)
      (property.captured_close bound l hl hscoped.2 h.right)
  | bound, l, .unary op argument, hl, hscoped, h => by
    rw [Expression.isScoped] at hscoped
    rw [Expression.free] at h
    rw [Expression.close]
    exact .unary (argument.captured_close bound l hl hscoped h)
  | bound, l, .binary op left right, hl, hscoped, h => by
    rw [Expression.isScoped, Bool.and_eq_true] at hscoped
    rw [Expression.free] at h
    rw [Expression.close]
    exact .binary (left.captured_close bound l hl hscoped.1 h.left)
      (right.captured_close bound l hl hscoped.2 h.right)
  | bound, l, .logical op left right, hl, hscoped, h => by
    rw [Expression.isScoped, Bool.and_eq_true] at hscoped
    rw [Expression.free] at h
    rw [Expression.close]
    exact .logical (left.captured_close bound l hl hscoped.1 h.left)
      (right.captured_close bound l hl hscoped.2 h.right)
  | bound, l, .conditional test consequent alternate, hl, hscoped, h => by
    rw [Expression.isScoped, Bool.and_eq_true, Bool.and_eq_true] at hscoped
    rw [Expression.free] at h
    rw [Expression.close]
    exact .conditional (test.captured_close bound l hl hscoped.1.1 h.left)
      (consequent.captured_close bound l hl hscoped.1.2 h.right.left)
      (alternate.captured_close bound l hl hscoped.2 h.right.right)
  | bound, l, .call callee arguments, hl, hscoped, h => by
    rw [Expression.isScoped, Bool.and_eq_true] at hscoped
    rw [Expression.free] at h
    rw [Expression.close]
    exact .call (callee.captured_close bound l hl hscoped.1 h.left)
      (Expression.captured_closeAll bound l arguments hl hscoped.2 h.right)
  | bound, l, .function params body home, hl, hscoped, h => by
    rw [Expression.isScoped] at hscoped
    rw [Expression.free] at h
    rw [Expression.close]
    exact .function (Statement.captured_closeAll _ _ body (Locals.extend_iff hl _) hscoped
      (fun _ hname => List.mem_append_right _ (List.mem_append_right _ hname)) h)
  | bound, l, .assignment op assigned value, hl, hscoped, h => by
    rw [Expression.isScoped] at hscoped
    rw [Expression.free] at h
    rw [Expression.close]
    exact .assignment ((hl assigned).2 h.left.mem_of_write)
      (value.captured_close bound l hl hscoped h.right)
  | bound, l, .update op isBefore assigned, hl, _, h => by
    rw [Expression.free] at h
    rw [Expression.close]
    exact .update ((hl assigned).2 h.mem_of_write)

theorem Expression.captured_closeAll : (bound : List String) → (l : Locals) →
    (es : List (Expression ν)) → (∀ name, l name ↔ name ∈ bound) →
      Expression.allScoped es = true → o.Fills env q (Expression.allFree bound es) →
        Expression.CapturedAll o env l es (Expression.closeAll q bound es)
  | _, _, [], _, _, _ => .nil
  | bound, l, e :: es, hl, hscoped, h => by
    rw [Expression.allScoped, Bool.and_eq_true] at hscoped
    rw [Expression.allFree] at h
    rw [Expression.closeAll]
    exact .cons (e.captured_close bound l hl hscoped.1 h.left)
      (Expression.captured_closeAll bound l es hl hscoped.2 h.right)

theorem Expression.captured_closeOption : (bound : List String) → (l : Locals) →
    (e : Option (Expression ν)) → (∀ name, l name ↔ name ∈ bound) →
      Expression.optionScoped e = true → o.Fills env q (Expression.optionFree bound e) →
        Expression.CapturedOption o env l e (Expression.closeOption q bound e)
  | _, _, none, _, _, _ => .none
  | bound, l, some e, hl, hscoped, h => by
    rw [Expression.optionScoped] at hscoped
    rw [Expression.optionFree] at h
    rw [Expression.closeOption]
    exact .some (e.captured_close bound l hl hscoped h)

theorem Statement.captured_close : (bound : List String) → (l : Locals) → (s : Statement ν) →
    (∀ name, l name ↔ name ∈ bound) → s.isScoped = true → o.Fills env q (s.free bound) →
      Statement.Captured o env l s (s.close q bound)
  | bound, l, .block body, hl, hscoped, h => by
    rw [Statement.isScoped] at hscoped
    rw [Statement.free] at h
    rw [Statement.close]
    exact .block (Statement.captured_closeAll _ _ body (Locals.extend_iff hl _) hscoped
      (fun _ hname => List.mem_append_right _ hname) h)
  | bound, l, .expression e, hl, hscoped, h => by
    rw [Statement.isScoped] at hscoped
    rw [Statement.free] at h
    rw [Statement.close]
    exact .expression (e.captured_close bound l hl hscoped h)
  | bound, l, .result value, hl, hscoped, h => by
    rw [Statement.isScoped] at hscoped
    rw [Statement.free] at h
    rw [Statement.close]
    exact .result (Expression.captured_closeOption bound l value hl hscoped h)
  | bound, l, .branch test consequent none, hl, hscoped, h => by
    simp only [Statement.isScoped, Bool.and_eq_true] at hscoped
    obtain ⟨⟨⟨htest, halone⟩, hconsequent⟩, -⟩ := hscoped
    rw [Statement.free] at h
    rw [Statement.close]
    exact .branch (test.captured_close bound l hl htest h.left) halone
      (consequent.captured_close bound l hl hconsequent h.right) .none
  | bound, l, .branch test consequent (some alternate), hl, hscoped, h => by
    simp only [Statement.isScoped, Statement.optionScoped, Bool.and_eq_true] at hscoped
    obtain ⟨⟨⟨htest, halone⟩, hconsequent⟩, halone', halternate⟩ := hscoped
    have hnames := Statement.boundNames_of_standsAlone hconsequent halone
    rw [Statement.free, hnames, List.append_nil] at h
    rw [Statement.close, hnames, List.append_nil]
    exact .branch (test.captured_close bound l hl htest h.left) halone
      (consequent.captured_close bound l hl hconsequent h.right.left)
      (.some halone' (alternate.captured_close bound l hl halternate h.right.right))
  | bound, l, .loop start test update body, hl, hscoped, h => by
    simp only [Statement.isScoped, Bool.and_eq_true] at hscoped
    obtain ⟨⟨⟨⟨hstart, htest⟩, hupdate⟩, halone⟩, hbody⟩ := hscoped
    have hl' := Locals.extend_iff hl start.declaredNames
    rw [Statement.free] at h
    rw [Statement.close]
    exact .loop (start.captured_close bound l hl hstart h.left)
      (Expression.captured_closeOption _ _ test hl' htest h.right.left)
      (Expression.captured_closeOption _ _ update hl' hupdate h.right.right.left) halone
      (body.captured_close _ _ hl' hbody h.right.right.right)
  | bound, l, .declaration kind name init, hl, hscoped, h => by
    rw [Statement.isScoped] at hscoped
    rw [Statement.free] at h
    rw [Statement.close]
    exact .declaration (Expression.captured_closeOption bound l init hl hscoped h)
  | bound, l, .function name params body, hl, hscoped, h => by
    rw [Statement.isScoped] at hscoped
    rw [Statement.free] at h
    rw [Statement.close]
    exact .function (Statement.captured_closeAll _ _ body (Locals.extend_iff hl _) hscoped
      (fun _ hname => List.mem_append_right _ (List.mem_append_right _ hname)) h)

/-- The names of the statements are bound before the first one, so that none binds another. -/
theorem Statement.captured_closeAll : (bound : List String) → (l : Locals) →
    (ss : List (Statement ν)) → (∀ name, l name ↔ name ∈ bound) → Statement.allScoped ss = true →
      Statement.declaredNames ss ⊆ bound → o.Fills env q (Statement.allFree bound ss) →
        Statement.CapturedAll o env l ss (Statement.closeAll q bound ss)
  | _, _, [], _, _, _, _ => .nil
  | bound, l, s :: ss, hl, hscoped, hdeclared, h => by
    rw [Statement.allScoped, Bool.and_eq_true] at hscoped
    rw [Statement.declaredNames_cons, List.append_subset] at hdeclared
    have hbound : s.boundNames ⊆ bound :=
      List.Subset.trans (Statement.boundNames_subset_of_isScoped hscoped.1) hdeclared.1
    have hl' (name : String) : l name ↔ name ∈ bound ++ s.boundNames := by
      rw [hl, List.mem_append, or_iff_left_of_imp fun hname => hbound hname]
    rw [Statement.allFree] at h
    rw [Statement.closeAll]
    exact .cons (s.captured_close bound l hl hscoped.1 h.left)
      (Statement.captured_closeAll _ l ss hl' hscoped.2
        (List.Subset.trans hdeclared.2 (List.subset_append_left _ _)) h.right)

/-- The value that a loop starts with is closed before the loop's own name is bound, which makes no
difference to a value that does not mention it. -/
theorem LoopStart.captured_close : (bound : List String) → (l : Locals) → (start : LoopStart ν) →
    (∀ name, l name ↔ name ∈ bound) → start.isScoped = true → o.Fills env q (start.free bound) →
      LoopStart.Captured o env (l.extend start.declaredNames) start (start.close q bound)
  | _, _, .absent, _, _, _ => .absent
  | bound, l, .declaration kind name init, hl, hscoped, h => by
    rw [LoopStart.isScoped, Bool.and_eq_true, Bool.not_eq_true'] at hscoped
    rw [LoopStart.free] at h
    rw [LoopStart.close]
    have hinit := Expression.captured_closeOption bound l init hl hscoped.1 h
    refine .declaration (hinit.congr fun other hother => ?_)
    have hne : other ≠ name := by
      rintro rfl
      rw [hscoped.2] at hother
      cases hother
    simp [Locals.extend, LoopStart.declaredNames, hne]
  | bound, l, .expression e, hl, hscoped, h => by
    rw [LoopStart.isScoped] at hscoped
    rw [LoopStart.free] at h
    have hnames : (LoopStart.expression e).declaredNames = [] := rfl
    rw [LoopStart.close, hnames, Locals.extend_nil]
    exact .expression (e.captured_close bound l hl hscoped h)

end

end

end Waveform
