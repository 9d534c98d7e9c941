import Waveform.Proofs.Evaluation.Discipline
import Waveform.Proofs.Inlining.Outcome

/-!
# Isolation

Inlining changes no more frames than it may. `Keeps floor own` asks of a reduction that frames
from before it, if they lie under the floor and are not among its own, come out as they went in.
What is inlined under a test that is not known has the count of frames as its floor, so nothing
that was there before changes: `Keeps.branching` forgets about the floor outside.
-/

namespace Waveform

variable {ν : Type}

namespace Scopes

theorem extends_hoist (σ : Scopes ν) (scope : Nat) (body : List (Statement ν)) :
    σ.Extends (σ.hoist scope body) := by
  induction body generalizing σ with
  | nil => exact .refl σ
  | cons s rest ih =>
    cases s with
    | function name params body => exact (extends_define σ scope _ _).trans (ih _)
    | _ => exact ih σ

theorem frame_hoist_of_ne (σ : Scopes ν) {scope j : Nat} (h : j ≠ scope)
    (body : List (Statement ν)) : (σ.hoist scope body).frame j = σ.frame j := by
  induction body generalizing σ with
  | nil => rfl
  | cons s rest ih =>
    cases s with
    | function name params body =>
      rw [hoist, ih, frame_define_of_ne h]
    | _ => exact ih σ

theorem extends_defineArguments (σ : Scopes ν) (scope : Nat) (params : List String)
    (arguments : List (Expression ν)) : σ.Extends (σ.defineArguments scope params arguments) := by
  induction params generalizing σ arguments with
  | nil => exact .refl σ
  | cons p ps ih =>
    cases arguments with
    | nil => exact (extends_define σ scope _ _).trans (ih _ _)
    | cons e es => exact (extends_define σ scope _ _).trans (ih _ _)

theorem frame_defineArguments_of_ne (σ : Scopes ν) {scope j : Nat} (h : j ≠ scope)
    (params : List String) (arguments : List (Expression ν)) :
    (σ.defineArguments scope params arguments).frame j = σ.frame j := by
  induction params generalizing σ arguments with
  | nil => rfl
  | cons p ps ih =>
    cases arguments with
    | nil => rw [defineArguments, ih, frame_define_of_ne h]
    | cons e es => rw [defineArguments, ih, frame_define_of_ne h]

/-- The frames of the first state are still there in the second. Those under the floor that are
not among the own ones bind what they did. -/
structure Kept (floor : Nat) (own : Nat → Prop) (σ σ' : Scopes ν) : Prop where
  extend : σ.Extends σ'
  frame : ∀ j < σ.size, j < floor → ¬ own j → σ'.frame j = σ.frame j

variable {floor : Nat} {own : Nat → Prop}

theorem Kept.refl (σ : Scopes ν) : Kept floor own σ σ :=
  ⟨.refl σ, fun _ _ _ _ => rfl⟩

theorem Kept.trans {σ τ υ : Scopes ν} (h : Kept floor own σ τ) (h' : Kept floor own τ υ) :
    Kept floor own σ υ where
  extend := h.extend.trans h'.extend
  frame j hj hfloor hown := by
    have hτ : j < τ.size := Nat.lt_of_lt_of_le hj h.extend.size_le
    rw [h'.frame j hτ hfloor hown, h.frame j hj hfloor hown]

theorem Kept.mono {floor' : Nat} {own' : Nat → Prop} {σ τ : Scopes ν} (h : Kept floor own σ τ)
    (hfloor : floor' ≤ floor) (hown : ∀ j < σ.size, own j → own' j) : Kept floor' own' σ τ :=
  ⟨h.extend, fun j hj hlt hnot =>
    h.frame j hj (Nat.lt_of_lt_of_le hlt hfloor) fun ho => hnot (hown j hj ho)⟩

end Scopes

namespace Inlining

open Scopes

/-- Whatever the reduction starts from, it changes no other frames than it may. -/
def Keeps {α : Type} (floor : Nat) (own : Nat → Prop) (m : Inlining ν α) : Prop :=
  ∀ σ a σ', m.run σ = .ok (a, σ') → Kept floor own σ σ'

section

variable {α β : Type} {floor : Nat} {own : Nat → Prop}

theorem keeps_pure (a : α) : Keeps floor own (pure a : Inlining ν α) := by
  intro σ b σ' h
  obtain ⟨rfl, rfl⟩ := pure_ok.1 h
  exact .refl _

theorem keeps_throw (e : SpecializationError ν) : Keeps floor own (throw e : Inlining ν α) :=
  fun _ _ _ h => (throw_ok.1 h).elim

theorem Keeps.bind {m : Inlining ν α} {f : α → Inlining ν β} (hm : Keeps floor own m)
    (hf : ∀ a, Keeps floor own (f a)) : Keeps floor own (m >>= f) := by
  intro σ b σ' h
  obtain ⟨a, τ, ha, hb⟩ := bind_ok.1 h
  exact (hm σ a τ ha).trans (hf a τ b σ' hb)

theorem Keeps.mono {floor' : Nat} {own' : Nat → Prop} {m : Inlining ν α} (h : Keeps floor own m)
    (hfloor : floor' ≤ floor) (hown : ∀ j, own j → own' j) : Keeps floor' own' m :=
  fun σ a σ' ha => (h σ a σ' ha).mono hfloor fun j _ => hown j

theorem keeps_child {scope : Nat} {kind : Scope.Kind} {f : Nat → Inlining ν β}
    (hf : ∀ n, Keeps floor (fun j => own j ∨ j = n) (f n)) :
    Keeps floor own (child scope kind >>= f) := by
  intro σ b σ' h
  obtain ⟨n, τ, hn, hb⟩ := bind_ok.1 h
  obtain ⟨rfl, rfl⟩ := child_ok.1 hn
  have hrest := hf _ _ b σ' hb
  refine ⟨(extends_child σ scope kind).trans hrest.extend, fun j hj hfloor hown => ?_⟩
  have hlt : j < (σ.child scope kind).2.size := by
    rw [size_child]
    omega
  have hnot : ¬ (own j ∨ j = σ.size) := by
    rintro (ho | rfl)
    · exact hown ho
    · exact Nat.lt_irrefl _ hj
  rw [hrest.frame j hlt hfloor hnot, frame_child_of_lt _ _ _ _ hj]

theorem keeps_modify {f : Scopes ν → Scopes ν} (h : ∀ σ, Kept floor own σ (f σ)) :
    Keeps floor own (modify f : Inlining ν PUnit) := by
  intro σ a σ' ha
  rw [modify_ok.1 ha]
  exact h σ

theorem keeps_define {scope : Nat} (hown : own scope) (name : String) (b : Scope.Binding ν) :
    Keeps floor own (define scope name b) := by
  refine keeps_modify fun σ => ⟨extends_define σ scope name b, fun j _ _ hj => ?_⟩
  refine frame_define_of_ne ?_ name b
  rintro rfl
  exact hj hown

theorem keeps_hoist {scope : Nat} (hown : own scope) (body : List (Statement ν)) :
    Keeps floor own (modify (·.hoist scope body)) := by
  refine keeps_modify fun σ => ⟨extends_hoist σ scope body, fun j _ _ hj => ?_⟩
  refine frame_hoist_of_ne σ ?_ body
  rintro rfl
  exact hj hown

theorem keeps_defineArguments {scope : Nat} (hown : own scope) (params : List String)
    (arguments : List (Expression ν)) :
    Keeps floor own (modify (·.defineArguments scope params arguments)) := by
  refine keeps_modify fun σ =>
    ⟨extends_defineArguments σ scope params arguments, fun j _ _ hj => ?_⟩
  refine frame_defineArguments_of_ne σ ?_ params arguments
  rintro rfl
  exact hj hown

theorem keeps_read (scope : Nat) (name : String) : Keeps floor own (read (ν := ν) scope name) := by
  intro σ e σ' h
  obtain ⟨rfl, -⟩ := read_ok h
  exact .refl _

theorem keeps_assign (floors : Floors) (scope : Nat) (target : String)
    (update : Expression ν → Expression ν) :
    Keeps floors.branch own (assign floors scope target update) := by
  intro σ r σ' h
  obtain ⟨owner, current, -, hfloor, -, rfl⟩ := assign_ok h
  refine ⟨extends_define σ owner target _, fun j _ hj _ => ?_⟩
  exact frame_define_of_ne (by omega) target _

theorem keeps_branching {floors : Floors} {inner : Floors → Inlining ν α}
    (h : ∀ n, Keeps n own (inner { floors with branch := n })) :
    Keeps floor own (branching floors inner) := by
  intro σ a σ' ha
  have hk := h σ.size σ a σ' (branching_ok.1 ha)
  exact ⟨hk.extend, fun j hj _ hown => hk.frame j hj hj hown⟩

variable [Numeric ν]

theorem keeps_member (object property : Expression ν) :
    Keeps floor own (member object property) := by
  unfold member
  split
  · exact keeps_pure _
  · exact keeps_throw _
  · exact keeps_pure _

theorem keeps_applyBuiltin (residual : List Builtin) (b : Builtin)
    (arguments : List (Expression ν)) : Keeps floor own (applyBuiltin residual b arguments) := by
  unfold applyBuiltin
  split
  · dsimp only
    split
    · exact keeps_pure _
    · exact keeps_throw _
  · exact keeps_pure _
  · split
    · split
      · exact keeps_pure _
      · exact keeps_pure _
    · exact keeps_throw _

end

/-- The reductions of calls change nothing that is older than the call. -/
def ReducerKeeps (reduce : Reducer ν) : Prop :=
  ∀ floors scope f home arguments,
    Keeps floors.branch (fun _ => False) (reduce floors scope f home arguments)

end Inlining

open Inlining

section Expressions

variable [Numeric ν] {residual : List Builtin} {reduce : Reducer ν}

mutual

theorem Expression.inline_keeps (hreduce : ReducerKeeps reduce) (floors : Floors) (scope : Nat) :
    (e : Expression ν) →
      Keeps floors.branch (fun _ => False) (e.inline residual reduce floors scope)
  | .literal l => by
    rw [Expression.inline]
    exact keeps_pure _
  | .builtin b => by
    rw [Expression.inline]
    exact keeps_pure _
  | .identifier name => by
    rw [Expression.inline]
    exact keeps_read scope name
  | .array items => by
    rw [Expression.inline]
    exact (Expression.inlineAll_keeps hreduce floors scope items).bind fun _ => keeps_pure _
  | .member object property => by
    rw [Expression.inline]
    refine (object.inline_keeps hreduce floors scope).bind fun _ => ?_
    refine (property.inline_keeps hreduce floors scope).bind fun _ => ?_
    exact keeps_member _ _
  | .unary op argument => by
    rw [Expression.inline]
    exact (argument.inline_keeps hreduce floors scope).bind fun _ => keeps_pure _
  | .binary op left right => by
    rw [Expression.inline]
    refine (left.inline_keeps hreduce floors scope).bind fun _ => ?_
    exact (right.inline_keeps hreduce floors scope).bind fun _ => keeps_pure _
  | .logical op left right => by
    rw [Expression.inline]
    refine (left.inline_keeps hreduce floors scope).bind fun left => ?_
    split
    · split
      · exact keeps_pure _
      · exact right.inline_keeps hreduce floors scope
    · refine (keeps_branching fun n => ?_).bind fun _ => keeps_pure _
      exact right.inline_keeps hreduce { floors with branch := n } scope
  | .conditional test consequent alternate => by
    rw [Expression.inline]
    refine (test.inline_keeps hreduce floors scope).bind fun test => ?_
    split
    · split
      · exact consequent.inline_keeps hreduce floors scope
      · exact alternate.inline_keeps hreduce floors scope
    · refine (keeps_branching fun n => ?_).bind fun _ => ?_
      · exact consequent.inline_keeps hreduce { floors with branch := n } scope
      · refine (keeps_branching fun n => ?_).bind fun _ => keeps_pure _
        exact alternate.inline_keeps hreduce { floors with branch := n } scope
  | .call callee arguments => by
    rw [Expression.inline]
    refine (callee.inline_keeps hreduce floors scope).bind fun callee => ?_
    refine (Expression.inlineAll_keeps hreduce floors scope arguments).bind fun _ => ?_
    split
    · exact hreduce _ _ _ _ _
    · exact keeps_applyBuiltin _ _ _
    · exact keeps_throw _
  | .function params body home => by
    rw [Expression.inline]
    exact keeps_pure _
  | .assignment op target value => by
    rw [Expression.inline]
    refine (value.inline_keeps hreduce floors scope).bind fun _ => ?_
    exact (keeps_assign floors scope target _).bind fun _ => keeps_pure _
  | .update op isBefore target => by
    rw [Expression.inline]
    exact (keeps_assign floors scope target _).bind fun _ => keeps_pure _

theorem Expression.inlineAll_keeps (hreduce : ReducerKeeps reduce) (floors : Floors)
    (scope : Nat) : (es : List (Expression ν)) →
      Keeps floors.branch (fun _ => False) (Expression.inlineAll residual reduce floors scope es)
  | [] => by
    rw [Expression.inlineAll]
    exact keeps_pure _
  | e :: es => by
    rw [Expression.inlineAll]
    refine (e.inline_keeps hreduce floors scope).bind fun _ => ?_
    exact (Expression.inlineAll_keeps hreduce floors scope es).bind fun _ => keeps_pure _

end

end Expressions

section Loops

variable {floor : Nat} {inline : Nat → Expression ν → Inlining ν (Expression ν)}

theorem LoopStart.counter_keeps (hinline : ∀ scope e, Keeps floor (fun _ => False) (inline scope e))
    (scope : Nat) (start : LoopStart ν) :
    Keeps floor (fun _ => False) (start.counter inline scope) := by
  unfold LoopStart.counter
  split
  · refine (hinline scope _).bind fun _ => ?_
    split
    · exact keeps_pure _
    · exact keeps_throw _
  · exact keeps_throw _

theorem Expression.upperBound_keeps
    (hinline : ∀ scope e, Keeps floor (fun _ => False) (inline scope e)) (scope : Nat)
    (counter : String) (test : Option (Expression ν)) :
    Keeps floor (fun _ => False) (Expression.upperBound inline scope counter test) := by
  unfold Expression.upperBound
  split
  · split
    · refine (hinline scope _).bind fun _ => ?_
      split
      · exact keeps_pure _
      · exact keeps_throw _
    · exact keeps_throw _
  · exact keeps_throw _

variable [Numeric ν]

theorem Accumulation.unroll_keeps
    (hinline : ∀ scope e, Keeps floor (fun _ => False) (inline scope e)) (a : Accumulation ν)
    (limit scope rounds : Nat) (index : ν) (sum : Option (Expression ν)) :
    Keeps floor (fun _ => False) (a.unroll inline limit scope rounds index sum) := by
  induction rounds generalizing index sum with
  | zero =>
    unfold Accumulation.unroll
    split
    · exact keeps_throw _
    · exact keeps_pure _
  | succ rounds ih =>
    unfold Accumulation.unroll
    split
    · refine keeps_child fun n => ?_
      refine (keeps_define (.inr rfl) _ _).bind fun _ => ?_
      refine ((hinline n _).mono (Nat.le_refl _) fun _ => False.elim).bind fun _ => ?_
      exact (ih _ _).mono (Nat.le_refl _) fun _ => False.elim
    · exact keeps_pure _

theorem Inlining.loop_keeps {floors : Floors}
    (hinline : ∀ scope e, Keeps floors.branch (fun _ => False) (inline scope e)) (limit scope : Nat)
    (start : LoopStart ν) (test update : Option (Expression ν)) (body : Statement ν) :
    Keeps floors.branch (fun _ => False)
      (Inlining.loop inline limit floors scope start test update body) := by
  unfold Inlining.loop
  refine (start.counter_keeps hinline scope).bind fun (counter, first) => ?_
  refine (Expression.upperBound_keeps hinline scope _ test).bind fun (bound, isInclusive) => ?_
  dsimp only
  split
  · split
    · exact keeps_throw _
    · refine keeps_child fun n => ?_
      refine ((Accumulation.unroll_keeps hinline _ limit n limit _ none).mono (Nat.le_refl _)
        fun _ => False.elim).bind fun _ => ?_
      split
      · exact keeps_pure _
      · exact (keeps_assign floors scope _ _).bind fun _ => keeps_pure _
  · exact keeps_throw _

end Loops

/-- Whether inlining the statement binds a name in the frame that it stands in. -/
def Statement.bindsAround : Statement ν → Bool
  | .declaration _ _ _ => true
  | .branch _ consequent alternate =>
    consequent.isDeclaration || (alternate.map Statement.isDeclaration).getD false
  | _ => false

section Statements

theorem Inlining.finish_keeps {floor : Nat} {own : Nat → Prop} (isTail : Bool)
    (side following : Flow ν) : Keeps floor own (Inlining.finish isTail side following) := by
  unfold Inlining.finish
  split
  · exact keeps_pure _
  · exact keeps_pure _
  · split
    · exact keeps_pure _
    · exact keeps_throw _

theorem Inlining.declare_keeps {floor : Nat}
    {inline : Nat → Expression ν → Inlining ν (Expression ν)}
    (hinline : ∀ scope e, Keeps floor (fun _ => False) (inline scope e)) (scope : Nat)
    (kind : DeclarationKind) (name : String) (init : Option (Expression ν)) :
    Keeps floor (fun j => j = scope) (Inlining.declare inline scope kind name init) := by
  unfold Inlining.declare
  cases init with
  | none =>
    dsimp only
    rw [pure_bind]
    refine keeps_define ?_ name _
    rfl
  | some e =>
    refine ((hinline scope e).mono (Nat.le_refl _) fun _ => False.elim).bind fun _ => ?_
    refine keeps_define ?_ name _
    rfl

variable [Numeric ν] {options : SpecializationOptions} {reduce : Reducer ν}

theorem Inlining.choose_keeps {floors : Floors} {own : Nat → Prop} {test : Expression ν}
    {consequent alternate : Floors → Inlining ν (Flow ν)}
    (hc : ∀ floors, Keeps floors.branch own (consequent floors))
    (ha : ∀ floors, Keeps floors.branch own (alternate floors)) :
    Keeps floors.branch own (Inlining.choose floors test consequent alternate) := by
  unfold Inlining.choose
  split
  · split
    · exact (hc floors).bind fun _ => keeps_pure _
    · exact (ha floors).bind fun _ => keeps_pure _
  · refine (keeps_branching fun n => hc _).bind fun _ => ?_
    refine (keeps_branching fun n => ha _).bind fun _ => ?_
    exact keeps_pure _

theorem Inlining.merge_keeps {floors : Floors} {scope : Nat} {isTail : Bool}
    {test : Expression ν} {consequent alternate : Flow ν}
    {rest : Floors → Nat → Inlining ν (Flow ν)}
    (hrest : ∀ floors block, Keeps floors.branch (fun j => j = block) (rest floors block)) :
    Keeps floors.branch (fun _ => False)
      (Inlining.merge floors scope isTail test consequent alternate rest) := by
  have hfollow : Keeps floors.branch (fun _ => False)
      (Inlining.follow floors scope consequent alternate rest) := by
    unfold Inlining.follow
    split
    · exact keeps_pure _
    · refine keeps_child fun n => ?_
      exact (hrest _ n).mono (Nat.le_max_left _ _) fun _ => .inr
  refine hfollow.bind fun following => ?_
  refine (Inlining.finish_keeps isTail consequent following).bind fun _ => ?_
  exact (Inlining.finish_keeps isTail alternate following).bind fun _ => keeps_pure _

/-- A statement that stands alone leaves the frame around it as it is unless it declares a
name. -/
theorem Inlining.alone_keeps {floors : Floors} {scope : Nat} {isTail : Bool} {s : Statement ν}
    {step : Nat → Inlining ν (Step ν)}
    (hstep : ∀ place, Keeps floors.branch (fun j => j = place ∧ s.bindsAround = true)
      (step place)) :
    Keeps floors.branch (fun j => j = scope ∧ s.isDeclaration = true)
      (Inlining.alone floors scope isTail s step) := by
  have hrest {own : Nat → Prop} (place : Nat)
      (hhoist : Keeps floors.branch own (modify (·.hoist place [s])))
      (hown : ∀ j, j = place ∧ s.bindsAround = true → own j) :
      Keeps floors.branch own (do
        modify (·.hoist place [s])
        Inlining.conclude floors place isTail (← step place)) := by
    refine hhoist.bind fun _ => ?_
    refine ((hstep place).mono (Nat.le_refl _) hown).bind fun result => ?_
    cases result with
    | done flow => exact keeps_pure _
    | split test consequent alternate =>
      exact (Inlining.merge_keeps fun _ _ => keeps_pure _).mono (Nat.le_refl _) fun _ => False.elim
  unfold Inlining.alone Inlining.place
  cases s with
  | branch test consequent alternate | function name params body =>
    refine keeps_child fun n => hrest n (keeps_hoist (.inr rfl) _) ?_
    rintro j ⟨rfl, -⟩
    exact .inr rfl
  | _ =>
    rw [pure_bind]
    refine hrest scope (keeps_modify fun σ => .refl σ) ?_
    rintro j ⟨rfl, hj⟩
    exact ⟨rfl, hj⟩

mutual

theorem Statement.step_keeps (hreduce : ReducerKeeps reduce) (floors : Floors) (scope : Nat)
    (isTail : Bool) : (s : Statement ν) →
      Keeps floors.branch (fun j => j = scope ∧ s.bindsAround = true)
        (s.step options reduce floors scope isTail)
  | .block body => by
    rw [Statement.step]
    refine keeps_child fun n => ?_
    refine (keeps_hoist (.inr rfl) body).bind fun _ => ?_
    refine ((Statement.inlineAll_keeps hreduce floors n isTail body).mono (Nat.le_refl _)
      fun _ => .inr).bind fun _ => keeps_pure _
  | .branch test consequent alternate => by
    rw [Statement.step]
    refine ((test.inline_keeps hreduce floors scope).mono (Nat.le_refl _)
      fun _ => False.elim).bind fun test => ?_
    refine Inlining.choose_keeps (fun floors => ?_) fun floors => ?_
    · refine (Inlining.alone_keeps fun place =>
        consequent.step_keeps hreduce floors place isTail).mono (Nat.le_refl _) ?_
      rintro j ⟨rfl, hj⟩
      simp [Statement.bindsAround, hj]
    · cases alternate with
      | none => exact keeps_pure _
      | some s =>
        refine (Inlining.alone_keeps fun place =>
          s.step_keeps hreduce floors place isTail).mono (Nat.le_refl _) ?_
        rintro j ⟨rfl, hj⟩
        simp [Statement.bindsAround, hj]
  | .function name params body => by
    rw [Statement.step]
    exact keeps_pure _
  | .expression e => by
    rw [Statement.step]
    exact ((e.inline_keeps hreduce floors scope).mono (Nat.le_refl _)
      fun _ => False.elim).bind fun _ => keeps_pure _
  | .result none => by
    rw [Statement.step]
    exact keeps_pure _
  | .result (some e) => by
    rw [Statement.step]
    exact ((e.inline_keeps hreduce floors scope).mono (Nat.le_refl _)
      fun _ => False.elim).bind fun _ => keeps_pure _
  | .declaration kind name init => by
    rw [Statement.step]
    refine ((Inlining.declare_keeps (fun scope e => e.inline_keeps hreduce floors scope) scope kind
      name init).mono (Nat.le_refl _) fun j hj => ⟨hj, rfl⟩).bind fun _ => keeps_pure _
  | .loop start test update body => by
    rw [Statement.step]
    refine ((Inlining.loop_keeps (fun scope e => e.inline_keeps hreduce floors scope)
      options.maxLoopIterations scope start test update body).mono (Nat.le_refl _)
      fun _ => False.elim).bind fun _ => keeps_pure _

theorem Statement.inlineAll_keeps (hreduce : ReducerKeeps reduce) (floors : Floors)
    (scope : Nat) (isTail : Bool) : (body : List (Statement ν)) →
      Keeps floors.branch (fun j => j = scope)
        (Statement.inlineAll options reduce floors scope isTail body)
  | [] => by
    rw [Statement.inlineAll]
    exact keeps_pure _
  | s :: rest => by
    rw [Statement.inlineAll]
    refine ((s.step_keeps hreduce floors scope _).mono (Nat.le_refl _)
      fun _ => And.left).bind fun step => ?_
    split
    · exact keeps_pure _
    · exact Statement.inlineAll_keeps hreduce floors scope isTail rest
    · refine (Inlining.merge_keeps fun floors block => ?_).mono (Nat.le_refl _)
        fun _ => False.elim
      refine Keeps.bind (keeps_hoist ?_ rest) fun _ => ?_
      · rfl
      · exact Statement.inlineAll_keeps hreduce floors block isTail rest

end

/-- A call changes nothing that is older than the floor of the place that it is made from. -/
theorem Inlining.reduce_keeps (options : SpecializationOptions) (depth : Nat) :
    ReducerKeeps (Inlining.reduce (ν := ν) options depth) := by
  induction depth with
  | zero => exact fun _ _ _ _ _ => keeps_throw _
  | succ depth ih =>
    intro floors scope f home arguments
    unfold Inlining.reduce
    refine keeps_child fun substitute => ?_
    refine (keeps_defineArguments (.inr rfl) _ _).bind fun _ => ?_
    refine keeps_child fun block => ?_
    refine (keeps_hoist (.inr rfl) _).bind fun _ => ?_
    refine ((Statement.inlineAll_keeps ih { floors with call := substitute } block true
      f.body).mono (Nat.le_refl _) fun _ => .inr).bind fun flow => ?_
    cases flow with
    | continues => exact keeps_pure _
    | returned value => exact keeps_pure _

end Statements

end Waveform
