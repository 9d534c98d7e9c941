import Mathlib.Algebra.Order.Group.Multiset
import Mathlib.Data.Multiset.Filter
import Waveform.Proofs.Simplification.Rewriting

/-!
# What simplification spends

Three counts of an expression: all its nodes, the occurrences in it of what is neither a literal
nor an operator, and a weight. A step of simplification makes no more nodes, leaves every occurrence
at most as often as it found it, and lowers the weight. Regrouping a chain keeps its nodes and is
why the weight counts a right operand twice.
-/

namespace Waveform

variable {ν : Type}

section Parts

mutual

/-- The nodes of an expression: itself and what it is made of, also inside functions. -/
def Expression.parts : Expression ν → List (Expression ν ⊕ Statement ν)
  | .literal l => [.inl (.literal l)]
  | .identifier name => [.inl (.identifier name)]
  | .builtin b => [.inl (.builtin b)]
  | .array items => .inl (.array items) :: Expression.partsAll items
  | .member object property => .inl (.member object property) :: (object.parts ++ property.parts)
  | .unary op argument => .inl (.unary op argument) :: argument.parts
  | .binary op left right => .inl (.binary op left right) :: (left.parts ++ right.parts)
  | .logical op left right => .inl (.logical op left right) :: (left.parts ++ right.parts)
  | .conditional test consequent alternate =>
    .inl (.conditional test consequent alternate) ::
      (test.parts ++ consequent.parts ++ alternate.parts)
  | .call callee arguments =>
    .inl (.call callee arguments) :: (callee.parts ++ Expression.partsAll arguments)
  | .function params body home => .inl (.function params body home) :: Statement.partsAll body
  | .assignment op target value => .inl (.assignment op target value) :: value.parts
  | .update op isBefore target => [.inl (.update op isBefore target)]

def Expression.partsAll : List (Expression ν) → List (Expression ν ⊕ Statement ν)
  | [] => []
  | e :: es => e.parts ++ Expression.partsAll es

def Expression.partsOption : Option (Expression ν) → List (Expression ν ⊕ Statement ν)
  | none => []
  | some e => e.parts

def Statement.parts : Statement ν → List (Expression ν ⊕ Statement ν)
  | .block body => .inr (.block body) :: Statement.partsAll body
  | .expression value => .inr (.expression value) :: value.parts
  | .result value => .inr (.result value) :: Expression.partsOption value
  | .branch test consequent alternate =>
    .inr (.branch test consequent alternate) ::
      (test.parts ++ consequent.parts ++ Statement.partsOption alternate)
  | .loop start test update body =>
    .inr (.loop start test update body) ::
      (start.parts ++ Expression.partsOption test ++ Expression.partsOption update ++ body.parts)
  | .declaration kind name init =>
    .inr (.declaration kind name init) :: Expression.partsOption init
  | .function name params body => .inr (.function name params body) :: Statement.partsAll body

def Statement.partsAll : List (Statement ν) → List (Expression ν ⊕ Statement ν)
  | [] => []
  | s :: ss => s.parts ++ Statement.partsAll ss

def Statement.partsOption : Option (Statement ν) → List (Expression ν ⊕ Statement ν)
  | none => []
  | some s => s.parts

def LoopStart.parts : LoopStart ν → List (Expression ν ⊕ Statement ν)
  | .absent => []
  | .declaration _ _ init => Expression.partsOption init
  | .expression value => value.parts

end

end Parts

namespace Expression

variable {e e' a b c : Expression ν}

/-- The count of expressions and statements that the expression is made of. -/
def nodes (e : Expression ν) : ℕ :=
  e.parts.length

/-- Whether the expression is neither a literal nor an operator over operands. -/
def isOccurrence : Expression ν → Bool
  | .literal _ | .unary _ _ | .binary _ _ _ | .logical _ _ _ | .conditional _ _ _ => false
  | _ => true

/-- Names, builtins, pairs, members, calls, functions, assignments and updates, each as often as it
stands in the expression. -/
def occurrences (e : Expression ν) : Multiset (Expression ν) :=
  (e.parts.filterMap Sum.getLeft?).filter isOccurrence

def weight : Expression ν → ℕ
  | .unary _ argument => argument.weight + 1
  | .binary _ left right => left.weight + 2 * right.weight + 1
  | .logical _ left right => left.weight + right.weight + 1
  | .conditional test consequent alternate =>
    test.weight + consequent.weight + alternate.weight + 1
  | .assignment .assign _ _ => 2
  | _ => 1

@[simp] theorem nodes_literal (l : Literal ν) : (literal l).nodes = 1 := rfl

@[simp] theorem nodes_identifier (name : String) : (identifier name : Expression ν).nodes = 1 := rfl

@[simp] theorem nodes_update (op : UpdateOperator) (isBefore : Bool) (target : String) :
    (update op isBefore target : Expression ν).nodes = 1 := rfl

@[simp] theorem nodes_unary (op : UnaryOperator) (a : Expression ν) :
    (unary op a).nodes = a.nodes + 1 := rfl

@[simp] theorem nodes_binary (op : BinaryOperator) (a b : Expression ν) :
    (binary op a b).nodes = a.nodes + b.nodes + 1 :=
  congrArg Nat.succ List.length_append

@[simp] theorem nodes_logical (op : LogicalOperator) (a b : Expression ν) :
    (logical op a b).nodes = a.nodes + b.nodes + 1 :=
  congrArg Nat.succ List.length_append

@[simp] theorem nodes_conditional (a b c : Expression ν) :
    (conditional a b c).nodes = a.nodes + b.nodes + c.nodes + 1 := by
  refine congrArg Nat.succ ?_
  rw [List.length_append, List.length_append]
  rfl

@[simp] theorem nodes_assignment (op : AssignmentOperator) (target : String) (a : Expression ν) :
    (assignment op target a).nodes = a.nodes + 1 := rfl

@[simp] theorem occurrences_literal (l : Literal ν) : (literal l).occurrences = 0 := rfl

@[simp] theorem occurrences_number (x : ν) : (number x).occurrences = 0 := rfl

@[simp] theorem occurrences_identifier (name : String) :
    (identifier name : Expression ν).occurrences = {identifier name} := rfl

@[simp] theorem occurrences_update (op : UpdateOperator) (isBefore : Bool) (target : String) :
    (update op isBefore target : Expression ν).occurrences = {update op isBefore target} := rfl

@[simp] theorem occurrences_unary (op : UnaryOperator) (a : Expression ν) :
    (unary op a).occurrences = a.occurrences := rfl

theorem occurrences_append (ps qs : List (Expression ν ⊕ Statement ν)) :
    (((ps ++ qs).filterMap Sum.getLeft?).filter isOccurrence : Multiset (Expression ν)) =
      (ps.filterMap Sum.getLeft?).filter isOccurrence +
        (qs.filterMap Sum.getLeft?).filter isOccurrence := by
  rw [List.filterMap_append, List.filter_append, Multiset.coe_add]

@[simp] theorem occurrences_binary (op : BinaryOperator) (a b : Expression ν) :
    (binary op a b).occurrences = a.occurrences + b.occurrences :=
  occurrences_append a.parts b.parts

@[simp] theorem occurrences_logical (op : LogicalOperator) (a b : Expression ν) :
    (logical op a b).occurrences = a.occurrences + b.occurrences :=
  occurrences_append a.parts b.parts

@[simp] theorem occurrences_conditional (a b c : Expression ν) :
    (conditional a b c).occurrences = a.occurrences + b.occurrences + c.occurrences := by
  refine (occurrences_append (a.parts ++ b.parts) c.parts).trans ?_
  rw [occurrences_append]
  rfl

@[simp] theorem occurrences_assignment (op : AssignmentOperator) (target : String)
    (a : Expression ν) :
    (assignment op target a).occurrences = {assignment op target a} + a.occurrences := rfl

theorem weight_pos (e : Expression ν) : 0 < e.weight := by
  unfold weight
  split <;> omega

end Expression

section Stemming

variable [Numeric ν]

/-- Whether the first expression is the second, perhaps in a shorter form of assignment. -/
inductive ComesFrom : Expression ν → Expression ν → Prop
  | same (e) : ComesFrom e e
  | addAssign (target value) :
    ComesFrom (.assignment .addAssign target value)
      (.assignment .assign target (.binary .add (.identifier target) value))
  | increment (target x) (hx : Numeric.isOne x = true) :
    ComesFrom (.update .increment true target)
      (.assignment .assign target (.binary .add (.identifier target) (.number x)))

instance : IsTrans (Expression ν) ComesFrom where
  trans _ _ _ hab hbc := by
    cases hab with
    | same => exact hbc
    | addAssign | increment =>
      cases hbc
      first | exact .addAssign .. | exact .increment _ _ ‹_›

def Stems (new old : Multiset (Expression ν)) : Prop :=
  ∃ s ≤ old, Multiset.Rel ComesFrom new s

namespace Stems

variable {s s' t t' u : Multiset (Expression ν)}

theorem of_le (h : s ≤ t) : Stems s t :=
  ⟨s, h, Multiset.rel_refl_of_refl_on fun e _ => .same e⟩

theorem refl (s : Multiset (Expression ν)) : Stems s s :=
  of_le le_rfl

theorem single {e e' : Expression ν} (h : ComesFrom e e') : Stems {e} {e'} :=
  ⟨{e'}, le_rfl, .cons h .zero⟩

theorem add (h : Stems s t) (h' : Stems s' t') : Stems (s + s') (t + t') := by
  obtain ⟨v, hv, hs⟩ := h
  obtain ⟨v', hv', hs'⟩ := h'
  exact ⟨v + v', add_le_add hv hv', Multiset.rel_add_left.2 ⟨v, v', hs, hs', rfl⟩⟩

theorem trans (h : Stems s t) (h' : Stems t u) : Stems s u := by
  obtain ⟨v, hv, hs⟩ := h
  obtain ⟨w, hw, ht⟩ := h'
  obtain ⟨rest, rfl⟩ := Multiset.le_iff_exists_add.1 hv
  obtain ⟨w₁, w₂, hw₁, -, rfl⟩ := Multiset.rel_add_left.1 ht
  have hle : w₁ ≤ u := (Multiset.le_add_right w₁ w₂).trans hw
  exact ⟨w₁, hle, hs.trans ComesFrom hw₁⟩

end Stems

end Stemming

namespace Simplify

variable [Numeric ν] {e e' : Expression ν}

theorem Step.reach_le (h : Step e e') : e'.reach ≤ e.reach := by
  induction h <;> simp only [Expression.reach] <;> omega

theorem Step.nodes_le (h : Step e e') : e'.nodes ≤ e.nodes := by
  induction h <;> simp <;> omega

theorem Step.weight_lt (h : Step e e') : e'.weight < e.weight := by
  induction h with
  | foldUnary _ a | foldBinary _ a _ | foldLogical _ a _ =>
    have ha := a.weight_pos
    simp only [Expression.weight]
    omega
  | regroup _ _ _ r =>
    have hr := r.weight_pos
    simp only [Expression.weight]
    omega
  | addAssign | increment => exact Nat.one_lt_two
  | _ =>
    simp only [Expression.weight]
    omega

theorem Step.stems (h : Step e e') : Stems e'.occurrences e.occurrences := by
  induction h with
  | foldUnary | foldBinary | foldLogical => exact .of_le (Multiset.zero_le _)
  | left op a b | selectLeft op a b =>
    simp only [Expression.occurrences_binary, Expression.occurrences_logical]
    exact .of_le (Multiset.le_add_right _ _)
  | right op a b | selectRight op a b =>
    simp only [Expression.occurrences_binary, Expression.occurrences_logical]
    exact .of_le (Multiset.le_add_left _ _)
  | consequent t c a =>
    rw [Expression.occurrences_conditional]
    exact .of_le ((Multiset.le_add_left _ _).trans (Multiset.le_add_right _ _))
  | alternate t c a =>
    rw [Expression.occurrences_conditional]
    exact .of_le (Multiset.le_add_left _ _)
  | regroup op a l r =>
    simp only [Expression.occurrences_binary, add_assoc]
    exact .refl _
  | mergeLeft | mergeRight =>
    apply Stems.of_le
    simp
  | addAssign target value =>
    have hshort := Stems.single (.addAssign target value)
    have hvalue : Stems value.occurrences ({.identifier target} + value.occurrences) :=
      .of_le (Multiset.le_add_left _ _)
    rw [Expression.occurrences_assignment, Expression.occurrences_assignment,
      Expression.occurrences_binary]
    exact hshort.add hvalue
  | increment target x hx =>
    have hshort := Stems.single (.increment target x hx)
    have hname : Stems 0 ({.identifier target} : Multiset (Expression ν)) :=
      .of_le (Multiset.zero_le _)
    rw [Expression.occurrences_update, Expression.occurrences_assignment,
      Expression.occurrences_binary, Expression.occurrences_identifier,
      Expression.occurrences_number, add_zero]
    simpa only [add_zero] using hshort.add hname
  | inUnary _ _ ih => exact ih
  | inLeft _ b _ ih | inLogicalLeft _ b _ ih =>
    simp only [Expression.occurrences_binary, Expression.occurrences_logical]
    exact ih.add (.refl _)
  | inRight _ a _ ih | inLogicalRight _ a _ ih =>
    simp only [Expression.occurrences_binary, Expression.occurrences_logical]
    exact (Stems.refl _).add ih
  | inTest c a _ ih =>
    simp only [Expression.occurrences_conditional]
    exact (ih.add (.refl _)).add (.refl _)
  | inConsequent t a _ ih =>
    simp only [Expression.occurrences_conditional]
    exact ((Stems.refl _).add ih).add (.refl _)
  | inAlternate t c _ ih =>
    simp only [Expression.occurrences_conditional]
    exact (Stems.refl _).add ih

namespace Steps

theorem reach_le (h : Steps e e') : e'.reach ≤ e.reach := by
  induction h with
  | refl => exact le_rfl
  | tail _ hstep ih => exact hstep.reach_le.trans ih

theorem nodes_le (h : Steps e e') : e'.nodes ≤ e.nodes := by
  induction h with
  | refl => exact le_rfl
  | tail _ hstep ih => exact hstep.nodes_le.trans ih

theorem stems (h : Steps e e') : Stems e'.occurrences e.occurrences := by
  induction h with
  | refl => exact .refl _
  | tail _ hstep ih => exact hstep.stems.trans ih

theorem eq_or_weight_lt (h : Steps e e') : e' = e ∨ e'.weight < e.weight := by
  induction h with
  | refl => exact .inl rfl
  | tail _ hstep ih =>
    rcases ih with rfl | hlt
    · exact .inr hstep.weight_lt
    · exact .inr (hstep.weight_lt.trans hlt)

end Steps

end Simplify

end Waveform
