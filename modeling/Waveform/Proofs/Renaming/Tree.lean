import Mathlib.Data.List.Basic
import Waveform.Syntax.Program

/-!
# Renamed trees

A tree with other names in place of its own, both where they are bound and where they are used. As
long as no two names become one, all that can be asked of a tree has the same answer after it.
-/

namespace Waveform

variable {ν : Type}

section

variable (ρ : String → String)

mutual

def Expression.rename : Expression ν → Expression ν
  | .literal l => .literal l
  | .identifier name => .identifier (ρ name)
  | .builtin b => .builtin b
  | .array items => .array (Expression.renameAll items)
  | .member object property => .member object.rename property.rename
  | .unary op argument => .unary op argument.rename
  | .binary op left right => .binary op left.rename right.rename
  | .logical op left right => .logical op left.rename right.rename
  | .conditional test consequent alternate =>
    .conditional test.rename consequent.rename alternate.rename
  | .call callee arguments => .call callee.rename (Expression.renameAll arguments)
  | .function params body home => .function (params.map ρ) (Statement.renameAll body) home
  | .assignment op target value => .assignment op (ρ target) value.rename
  | .update op isBefore target => .update op isBefore (ρ target)

def Expression.renameAll : List (Expression ν) → List (Expression ν)
  | [] => []
  | e :: es => e.rename :: Expression.renameAll es

def Expression.renameOption : Option (Expression ν) → Option (Expression ν)
  | none => none
  | some e => some e.rename

def Statement.rename : Statement ν → Statement ν
  | .block body => .block (Statement.renameAll body)
  | .expression e => .expression e.rename
  | .result value => .result (Expression.renameOption value)
  | .branch test consequent alternate =>
    .branch test.rename consequent.rename (Statement.renameOption alternate)
  | .loop start test update body =>
    .loop start.rename (Expression.renameOption test) (Expression.renameOption update) body.rename
  | .declaration kind name init => .declaration kind (ρ name) (Expression.renameOption init)
  | .function name params body => .function (ρ name) (params.map ρ) (Statement.renameAll body)

def Statement.renameAll : List (Statement ν) → List (Statement ν)
  | [] => []
  | s :: ss => s.rename :: Statement.renameAll ss

def Statement.renameOption : Option (Statement ν) → Option (Statement ν)
  | none => none
  | some s => some s.rename

def LoopStart.rename : LoopStart ν → LoopStart ν
  | .absent => .absent
  | .declaration kind name init => .declaration kind (ρ name) (Expression.renameOption init)
  | .expression e => .expression e.rename

end

def Function.rename (f : Function ν) : Function ν :=
  ⟨f.params.map ρ, Statement.renameAll ρ f.body⟩

def FunctionDeclaration.rename (d : FunctionDeclaration ν) : FunctionDeclaration ν :=
  ⟨ρ d.name, d.function.rename ρ⟩

theorem Expression.renameAll_eq_map (es : List (Expression ν)) :
    Expression.renameAll ρ es = es.map (Expression.rename ρ) := by
  induction es with
  | nil => rfl
  | cons e es ih => rw [renameAll, ih, List.map_cons]

theorem Statement.renameAll_append (ss ss' : List (Statement ν)) :
    Statement.renameAll ρ (ss ++ ss') = Statement.renameAll ρ ss ++ Statement.renameAll ρ ss' := by
  induction ss with
  | nil => rfl
  | cons s ss ih => rw [List.cons_append, renameAll, ih, renameAll, List.cons_append]

theorem Statement.renameAll_ofDeclaration (ds : List (FunctionDeclaration ν)) :
    Statement.renameAll ρ (ds.map Statement.ofDeclaration) =
      (ds.map (FunctionDeclaration.rename ρ)).map Statement.ofDeclaration := by
  induction ds with
  | nil => rfl
  | cons d ds ih =>
    rw [List.map_cons, renameAll, ih]
    rfl

@[simp] theorem Expression.asLiteral?_rename (e : Expression ν) :
    (e.rename ρ).asLiteral? = e.asLiteral? := by
  cases e <;> rfl

@[simp] theorem Expression.asNumber?_rename (e : Expression ν) :
    (e.rename ρ).asNumber? = e.asNumber? := by
  cases e <;> rfl

@[simp] theorem Statement.isEmpty_renameAll (ss : List (Statement ν)) :
    (Statement.renameAll ρ ss).isEmpty = ss.isEmpty := by
  cases ss <;> rfl

end

section

variable {ρ : String → String}

/-! ## Names -/

theorem beq_rename (hρ : Function.Injective ρ) (a b : String) : (ρ a == ρ b) = (a == b) := by
  by_cases h : a = b
  · rw [h, beq_self_eq_true, beq_self_eq_true]
  · rw [beq_eq_false_iff_ne.2 h, beq_eq_false_iff_ne.2 fun heq => h (hρ heq)]

theorem beq_map_rename (hρ : Function.Injective ρ) (as bs : List String) :
    (as.map ρ == bs.map ρ) = (as == bs) := by
  by_cases h : as = bs
  · rw [h, beq_self_eq_true, beq_self_eq_true]
  · have hne : as.map ρ ≠ bs.map ρ := fun heq => h (List.map_injective_iff.2 hρ heq)
    rw [beq_eq_false_iff_ne.2 h, beq_eq_false_iff_ne.2 hne]

mutual

/-- A tree mentions a name exactly when it mentions the new name after the renaming. -/
theorem Expression.references_rename (hρ : Function.Injective ρ) (name : String) :
    (e : Expression ν) →
    (e.rename ρ).references (ρ name) = e.references name
  | .literal _ | .builtin _ => rfl
  | .identifier n => beq_rename hρ n name
  | .array items => Expression.anyReferences_rename hρ name items
  | .member object property => by
    rw [Expression.rename, Expression.references, object.references_rename hρ name,
      property.references_rename hρ name, Expression.references]
  | .unary _ argument => argument.references_rename hρ name
  | .binary _ left right | .logical _ left right => by
    rw [Expression.rename, Expression.references, left.references_rename hρ name,
      right.references_rename hρ name, Expression.references]
  | .conditional test consequent alternate => by
    rw [Expression.rename, Expression.references, test.references_rename hρ name,
      consequent.references_rename hρ name, alternate.references_rename hρ name,
      Expression.references]
  | .call callee arguments => by
    rw [Expression.rename, Expression.references, callee.references_rename hρ name,
      Expression.anyReferences_rename hρ name arguments, Expression.references]
  | .function _ body _ => Statement.anyReferences_rename hρ name body
  | .assignment _ target value => by
    rw [Expression.rename, Expression.references, beq_rename hρ, value.references_rename hρ name,
      Expression.references]
  | .update _ _ target => beq_rename hρ target name

theorem Expression.anyReferences_rename (hρ : Function.Injective ρ) (name : String) :
    (es : List (Expression ν)) →
    Expression.anyReferences (ρ name) (Expression.renameAll ρ es) =
      Expression.anyReferences name es
  | [] => rfl
  | e :: es => by
    rw [Expression.renameAll, Expression.anyReferences, e.references_rename hρ name,
      Expression.anyReferences_rename hρ name es, Expression.anyReferences]

theorem Expression.optionReferences_rename (hρ : Function.Injective ρ) (name : String) :
    (e : Option (Expression ν)) →
    Expression.optionReferences (ρ name) (Expression.renameOption ρ e) =
      Expression.optionReferences name e
  | none => rfl
  | some e => e.references_rename hρ name

theorem Statement.references_rename (hρ : Function.Injective ρ) (name : String) :
    (s : Statement ν) →
    (s.rename ρ).references (ρ name) = s.references name
  | .block body => Statement.anyReferences_rename hρ name body
  | .expression e => e.references_rename hρ name
  | .result value => Expression.optionReferences_rename hρ name value
  | .branch test consequent alternate => by
    rw [Statement.rename, Statement.references, test.references_rename hρ name,
      consequent.references_rename hρ name, Statement.optionReferences_rename hρ name alternate,
      Statement.references]
  | .loop start test update body => by
    rw [Statement.rename, Statement.references, start.references_rename hρ name,
      Expression.optionReferences_rename hρ name test,
      Expression.optionReferences_rename hρ name update,
      body.references_rename hρ name, Statement.references]
  | .declaration _ _ init => Expression.optionReferences_rename hρ name init
  | .function _ _ body => Statement.anyReferences_rename hρ name body

theorem Statement.anyReferences_rename (hρ : Function.Injective ρ) (name : String) :
    (ss : List (Statement ν)) →
    Statement.anyReferences (ρ name) (Statement.renameAll ρ ss) = Statement.anyReferences name ss
  | [] => rfl
  | s :: ss => by
    rw [Statement.renameAll, Statement.anyReferences, s.references_rename hρ name,
      Statement.anyReferences_rename hρ name ss, Statement.anyReferences]

theorem Statement.optionReferences_rename (hρ : Function.Injective ρ) (name : String) :
    (s : Option (Statement ν)) →
    Statement.optionReferences (ρ name) (Statement.renameOption ρ s) =
      Statement.optionReferences name s
  | none => rfl
  | some s => s.references_rename hρ name

theorem LoopStart.references_rename (hρ : Function.Injective ρ) (name : String) :
    (start : LoopStart ν) →
    (start.rename ρ).references (ρ name) = start.references name
  | .absent => rfl
  | .declaration _ _ init => Expression.optionReferences_rename hρ name init
  | .expression e => e.references_rename hρ name

end

/-! ## Comparisons -/

section

variable [Numeric ν]

mutual

theorem Expression.same_rename (hρ : Function.Injective ρ) :
    (a b : Expression ν) →
    (a.rename ρ).same (b.rename ρ) = a.same b
  | .literal _, b => by cases b <;> rfl
  | .identifier n, b => by
    cases b with
    | identifier m => exact beq_rename hρ n m
    | _ => rfl
  | .builtin _, b => by cases b <;> rfl
  | .array as, b => by
    cases b with
    | array bs => exact Expression.sameList_rename hρ as bs
    | _ => rfl
  | .member a a', b => by
    cases b with
    | member b b' =>
      rw [Expression.rename, Expression.rename, Expression.same, a.same_rename hρ,
        a'.same_rename hρ, Expression.same]
    | _ => rfl
  | .unary _ a, b => by
    cases b with
    | unary _ b => rw [Expression.rename, Expression.rename, Expression.same, a.same_rename hρ,
        Expression.same]
    | _ => rfl
  | .binary _ a a', b => by
    cases b with
    | binary _ b b' =>
      rw [Expression.rename, Expression.rename, Expression.same, a.same_rename hρ,
        a'.same_rename hρ, Expression.same]
    | _ => rfl
  | .logical _ a a', b => by
    cases b with
    | logical _ b b' =>
      rw [Expression.rename, Expression.rename, Expression.same, a.same_rename hρ,
        a'.same_rename hρ, Expression.same]
    | _ => rfl
  | .conditional a a' a'', b => by
    cases b with
    | conditional b b' b'' =>
      rw [Expression.rename, Expression.rename, Expression.same, a.same_rename hρ,
        a'.same_rename hρ, a''.same_rename hρ, Expression.same]
    | _ => rfl
  | .call a as, b => by
    cases b with
    | call b bs =>
      rw [Expression.rename, Expression.rename, Expression.same, a.same_rename hρ,
        Expression.sameList_rename hρ as, Expression.same]
    | _ => rfl
  | .function ps as _, b => by
    cases b with
    | function qs bs _ =>
      rw [Expression.rename, Expression.rename, Expression.same, beq_map_rename hρ,
        Statement.sameList_rename hρ as, Expression.same]
    | _ => rfl
  | .assignment _ t a, b => by
    cases b with
    | assignment _ u b =>
      rw [Expression.rename, Expression.rename, Expression.same, beq_rename hρ, a.same_rename hρ,
        Expression.same]
    | _ => rfl
  | .update _ _ t, b => by
    cases b with
    | update _ _ u => rw [Expression.rename, Expression.rename, Expression.same, beq_rename hρ,
        Expression.same]
    | _ => rfl

theorem Expression.sameList_rename (hρ : Function.Injective ρ) :
    (as bs : List (Expression ν)) →
    Expression.sameList (Expression.renameAll ρ as) (Expression.renameAll ρ bs) =
      Expression.sameList as bs
  | [], bs => by cases bs <;> rfl
  | a :: as, bs => by
    cases bs with
    | nil => rfl
    | cons b bs =>
      rw [Expression.renameAll, Expression.renameAll, Expression.sameList, a.same_rename hρ,
        Expression.sameList_rename hρ as, Expression.sameList]

theorem Expression.sameOption_rename (hρ : Function.Injective ρ) :
    (a b : Option (Expression ν)) →
    Expression.sameOption (Expression.renameOption ρ a) (Expression.renameOption ρ b) =
      Expression.sameOption a b
  | none, b => by cases b <;> rfl
  | some a, b => by
    cases b with
    | none => rfl
    | some b => exact a.same_rename hρ b

theorem Statement.same_rename (hρ : Function.Injective ρ) :
    (a b : Statement ν) →
    (a.rename ρ).same (b.rename ρ) = a.same b
  | .block as, b => by
    cases b with
    | block bs => exact Statement.sameList_rename hρ as bs
    | _ => rfl
  | .expression a, b => by
    cases b with
    | expression b => exact a.same_rename hρ b
    | _ => rfl
  | .result a, b => by
    cases b with
    | result b => exact Expression.sameOption_rename hρ a b
    | _ => rfl
  | .branch a a' a'', b => by
    cases b with
    | branch b b' b'' =>
      rw [Statement.rename, Statement.rename, Statement.same, a.same_rename hρ, a'.same_rename hρ,
        Statement.sameOption_rename hρ a'', Statement.same]
    | _ => rfl
  | .loop a a' a'' a''', b => by
    cases b with
    | loop b b' b'' b''' =>
      rw [Statement.rename, Statement.rename, Statement.same, a.same_rename hρ,
        Expression.sameOption_rename hρ a', Expression.sameOption_rename hρ a'',
        a'''.same_rename hρ, Statement.same]
    | _ => rfl
  | .declaration _ n a, b => by
    cases b with
    | declaration _ m b =>
      rw [Statement.rename, Statement.rename, Statement.same, beq_rename hρ,
        Expression.sameOption_rename hρ a, Statement.same]
    | _ => rfl
  | .function n ps as, b => by
    cases b with
    | function m qs bs =>
      rw [Statement.rename, Statement.rename, Statement.same, beq_rename hρ, beq_map_rename hρ,
        Statement.sameList_rename hρ as, Statement.same]
    | _ => rfl

theorem Statement.sameList_rename (hρ : Function.Injective ρ) :
    (as bs : List (Statement ν)) →
    Statement.sameList (Statement.renameAll ρ as) (Statement.renameAll ρ bs) =
      Statement.sameList as bs
  | [], bs => by cases bs <;> rfl
  | a :: as, bs => by
    cases bs with
    | nil => rfl
    | cons b bs =>
      rw [Statement.renameAll, Statement.renameAll, Statement.sameList, a.same_rename hρ,
        Statement.sameList_rename hρ as, Statement.sameList]

theorem Statement.sameOption_rename (hρ : Function.Injective ρ) :
    (a b : Option (Statement ν)) →
    Statement.sameOption (Statement.renameOption ρ a) (Statement.renameOption ρ b) =
      Statement.sameOption a b
  | none, b => by cases b <;> rfl
  | some a, b => by
    cases b with
    | none => rfl
    | some b => exact a.same_rename hρ b

theorem LoopStart.same_rename (hρ : Function.Injective ρ) :
    (a b : LoopStart ν) →
    (a.rename ρ).same (b.rename ρ) = a.same b
  | .absent, b => by cases b <;> rfl
  | .declaration _ n a, b => by
    cases b with
    | declaration _ m b =>
      rw [LoopStart.rename, LoopStart.rename, LoopStart.same, beq_rename hρ,
        Expression.sameOption_rename hρ a, LoopStart.same]
    | _ => rfl
  | .expression a, b => by
    cases b with
    | expression b => exact a.same_rename hρ b
    | _ => rfl

end

end

end

end Waveform
