import Mathlib.Data.Rat.Floor
import Waveform.Proofs.Symbolic.Resolving

/-!
# Unrolling of sums

A loop that counts up by one from a number to a bound and adds a term to a variable in every round.
The count of rounds follows from the bounds. If it is within the limit, unrolling makes the sum of
the terms, each with its own number for the counter, and adds it to the variable; nothing else that
was bound before the loop changes. If it is not, the loop is rejected.
-/

namespace Waveform

theorem Expression.simplify_assignment {ν : Type} [Numeric ν] (op : AssignmentOperator)
    (target : String) (value : Expression ν) :
    (assignment op target value).simplify = Simplify.assignment op target value := rfl

/-- To the simplifier, a plain assignment of the variable and an expression adds the expression,
unless that is one. -/
theorem Expression.simplify_assign_add {M : Mathematics} {name : String}
    {e : Expression (Exact M)} (hone : e.asNumber? ≠ some Numeric.one) :
    (assignment .assign name (.binary .add (.identifier name) e)).simplify =
      .assignment .addAssign name e := by
  have hnot : (e.asNumber?.map Numeric.isOne).getD false = false := by
    cases hnumber : e.asNumber? with
    | none => rfl
    | some x =>
      refine Bool.eq_false_iff.2 fun hx => hone ?_
      rw [hnumber, Exact.isOne_iff.1 hx]
      rfl
  rw [simplify_assignment]
  simp [Simplify.assignment, hnot]

theorem Accumulation.ofBody?_eq {M : Mathematics} {counter name : String}
    {body : Statement (Exact M)} {e term : Expression (Exact M)}
    (hbody : bodyExpression? body = some e) (he : e.simplify = .assignment .addAssign name term)
    (hname : name ≠ counter) (hterm : term.references name = false) :
    ofBody? counter body = some (name, term) := by
  have hcondition : (name != counter && ! term.references name) = true := by
    rw [hterm, bne_iff_ne.2 hname]
    rfl
  rw [ofBody?, hbody, Option.map_some, he]
  exact if_pos hcondition

/-! ## Sums -/

/-- A loop that counts up by one and adds an arithmetic term to a variable. -/
structure Summation (M : Mathematics) where
  counter : String
  start : ℚ
  bound : ℚ
  isInclusive : Bool
  accumulator : String
  term : Expression (Exact M)
  distinct : accumulator ≠ counter
  arithmetic : term.isArithmetic = true
  independent : term.references accumulator = false

namespace Summation

variable {M : Mathematics} (L : Summation M)

def accumulation : Accumulation (Exact M) :=
  ⟨L.counter, .of L.start, .of L.bound, L.isInclusive, L.accumulator, L.term⟩

def rounds : ℕ :=
  if L.isInclusive then (⌊L.bound - L.start⌋ + 1).toNat else ⌈L.bound - L.start⌉.toNat

def index (k : ℕ) : ℚ := L.start + k

theorem index_succ (k : ℕ) : L.index (k + 1) = L.index k + 1 := by
  rw [index, index, Nat.cast_succ, add_assoc]

theorem index_lt_iff (k : ℕ) : L.index k < L.bound ↔ k < ⌈L.bound - L.start⌉.toNat := by
  rw [index, ← lt_sub_iff_add_lt']
  have hceil : (k : ℚ) < L.bound - L.start ↔ (k : ℤ) < ⌈L.bound - L.start⌉ := by
    rw [Int.lt_ceil, Int.cast_natCast]
  rw [hceil]
  omega

theorem index_le_iff (k : ℕ) : L.index k ≤ L.bound ↔ k < (⌊L.bound - L.start⌋ + 1).toNat := by
  rw [index, ← le_sub_iff_add_le']
  have hfloor : (k : ℚ) ≤ L.bound - L.start ↔ (k : ℤ) ≤ ⌊L.bound - L.start⌋ := by
    rw [Int.le_floor, Int.cast_natCast]
  rw [hfloor]
  omega

theorem hasRound_index (k : ℕ) :
    L.accumulation.hasRound (.of (L.index k)) = decide (k < L.rounds) := by
  rw [Accumulation.hasRound, rounds]
  change (if L.isInclusive = true then Numeric.le (.of (L.index k) : Exact M) (.of L.bound)
    else Numeric.lt (.of (L.index k) : Exact M) (.of L.bound)) = _
  split
  · rw [Exact.le_of]
    exact decide_eq_decide.2 (L.index_le_iff k)
  · rw [Exact.lt_of]
    exact decide_eq_decide.2 (L.index_lt_iff k)

def HasRound (k : ℕ) (b : ℚ) : Prop :=
  if L.isInclusive then L.index k ≤ b else L.index k < b

instance (k : ℕ) (b : ℚ) : Decidable (L.HasRound k b) :=
  inferInstanceAs (Decidable (if L.isInclusive then L.index k ≤ b else L.index k < b))

theorem hasRound_bound_iff (k : ℕ) : L.HasRound k L.bound ↔ k < L.rounds := by
  rw [HasRound, rounds]
  split
  · exact L.index_le_iff k
  · exact L.index_lt_iff k

theorem hasRound_adding (e : Expression (Exact M)) (k : ℕ) :
    Accumulation.hasRound { L.accumulation with term := e } (.of (L.index k)) =
      decide (k < L.rounds) :=
  L.hasRound_index k

/-! ### The loop as it is written -/

/-- The ways to count up by one. -/
inductive Counts (L : Summation M) : Expression (Exact M) → Prop
  | step (isBefore : Bool) : Counts L (.update .increment isBefore L.counter)
  | add : Counts L (.assignment .addAssign L.counter (.number Numeric.one))
  | assign : Counts L (.assignment .assign L.counter
      (.binary .add (.identifier L.counter) (.number Numeric.one)))

/-- The ways to add the term. A plain assignment of the variable and one is a step of the variable
to the simplifier, and no sum. -/
inductive Adds (L : Summation M) : Expression (Exact M) → Prop
  | add : Adds L (.assignment .addAssign L.accumulator L.term)
  | assign : L.term.asNumber? ≠ some Numeric.one →
    Adds L (.assignment .assign L.accumulator
      (.binary .add (.identifier L.accumulator) L.term))

/-- The bodies that the loop may have. -/
inductive IsBody (L : Summation M) : Statement (Exact M) → Prop
  | bare {e : Expression (Exact M)} : L.Adds e → IsBody L (.expression e)
  | block {e : Expression (Exact M)} : L.Adds e → IsBody L (.block [.expression e])

def begin : LoopStart (Exact M) :=
  .declaration .mutable L.counter (some (.number (.of L.start)))

def test : Expression (Exact M) :=
  .binary (if L.isInclusive then .lessThanOrEqual else .lessThan) (.identifier L.counter)
    (.number (.of L.bound))

def testing (e : Expression (Exact M)) : Expression (Exact M) :=
  .binary (if L.isInclusive then .lessThanOrEqual else .lessThan) (.identifier L.counter) e

theorem isIncrement_of_counts {u : Expression (Exact M)} (h : L.Counts u) :
    Accumulation.isIncrement L.counter (some u) = true := by
  have hone : Numeric.isOne (Numeric.one : Exact M) = true := Exact.isOne_iff.2 rfl
  cases h with
  | step isBefore => exact beq_self_eq_true L.counter
  | add =>
    change (L.counter == L.counter && Numeric.isOne (Numeric.one : Exact M)) = true
    rw [beq_self_eq_true, hone]
    rfl
  | assign =>
    have hsimplify : (Expression.assignment .assign L.counter (.binary .add
        (.identifier L.counter) (.number Numeric.one)) : Expression (Exact M)).simplify =
          .update .increment true L.counter := by
      rw [Expression.simplify_assignment]
      simp [Simplify.assignment, Expression.number, Expression.asNumber?]
    rw [Accumulation.isIncrement, Option.map_some, hsimplify]
    exact beq_self_eq_true L.counter

theorem exists_adds_of_isBody {body : Statement (Exact M)} (h : L.IsBody body) :
    ∃ e, Accumulation.bodyExpression? body = some e ∧ L.Adds e := by
  cases h with
  | bare he | block he => exact ⟨_, rfl, he⟩

theorem simplify_of_adds {e : Expression (Exact M)} (h : L.Adds e) :
    e.simplify = .assignment .addAssign L.accumulator L.term := by
  cases h with
  | add => rfl
  | assign hone => exact Expression.simplify_assign_add hone

theorem ofBody?_of_isBody {body : Statement (Exact M)} (h : L.IsBody body) :
    Accumulation.ofBody? L.counter body = some (L.accumulator, L.term) := by
  obtain ⟨e, hbody, he⟩ := L.exists_adds_of_isBody h
  exact Accumulation.ofBody?_eq hbody (L.simplify_of_adds he) L.distinct L.independent

/-! ### The sum that is made -/

variable {L} {residual : List Builtin} {reduce : Reducer (Exact M)} {floors : Floors}
  {scope outer owner limit : Nat} {current : Expression (Exact M)}
  {μ : String → Expression (Exact M)} {σ τ : Scopes (Exact M)}

def meaning (L : Summation M) (μ : String → Expression (Exact M)) (k : ℕ) (name : String) :
    Expression (Exact M) :=
  if name = L.counter then .number (.of (L.index k)) else μ name

def sumOf (addend : ℕ → Expression (Exact M)) : ℕ → Option (Expression (Exact M))
  | 0 => none
  | k + 1 =>
    match sumOf addend k with
    | some sum => some (Expression.binary .add sum (addend k)).simplify
    | none => some (addend k)

def plus (addend : ℕ → Expression (Exact M)) (rounds : ℕ) (current : Expression (Exact M)) :
    Expression (Exact M) :=
  match sumOf addend rounds with
  | some sum => (Expression.binary .add current sum).simplify
  | none => current

def partialSum (L : Summation M) (μ : String → Expression (Exact M)) :
    ℕ → Option (Expression (Exact M))
  | 0 => none
  | k + 1 =>
    match L.partialSum μ k with
    | some sum => some (Expression.binary .add sum (L.term.resolve (L.meaning μ k))).simplify
    | none => some (L.term.resolve (L.meaning μ k))

theorem partialSum_eq (L : Summation M) (μ : String → Expression (Exact M)) (k : ℕ) :
    L.partialSum μ k = sumOf (fun k => L.term.resolve (L.meaning μ k)) k := by
  induction k with
  | zero => rfl
  | succ k ih =>
    rw [partialSum, sumOf, ih]

def held (L : Summation M) (μ : String → Expression (Exact M)) (current : Expression (Exact M)) :
    Expression (Exact M) :=
  match L.partialSum μ L.rounds with
  | some sum => (Expression.binary .add current sum).simplify
  | none => current

theorem held_eq (L : Summation M) (μ : String → Expression (Exact M))
    (current : Expression (Exact M)) :
    L.held μ current = plus (fun k => L.term.resolve (L.meaning μ k)) L.rounds current := by
  rw [held, plus, partialSum_eq]

/-- The names of the term, other than the counter, can be read and stand for the expressions. -/
def Reads (L : Summation M) (σ : Scopes (Exact M)) (scope : Nat)
    (μ : String → Expression (Exact M)) : Prop :=
  ∀ name, L.term.references name = true → name ≠ L.counter →
    (Inlining.read scope name).run σ = .ok (μ name, σ)

open Inlining Scopes

theorem Reads.undisturbed (h : L.Reads σ scope μ) (hplace : σ.HasPlace scope)
    (hτ : σ.Undisturbed τ) : L.Reads τ scope μ :=
  fun name hname hcounter =>
    read_congr (by rw [seen?, seen?, hτ.lookup? hplace]) (h name hname hcounter)

theorem Reads.child (h : L.Reads σ scope μ) (hplace : σ.HasPlace scope) (kind : Scope.Kind) :
    L.Reads (σ.child scope kind).2 σ.size μ :=
  fun name hname hcounter => read_congr (seen?_child hplace kind name) (h name hname hcounter)

def iteration (L : Summation M) (σ : Scopes (Exact M)) (outer : Nat) (k : ℕ) : Scopes (Exact M) :=
  (σ.child outer .loop).2.define σ.size L.counter (.constant (.number (.of (L.index k))))

theorem Reads.resolves (h : L.Reads σ outer μ) (hplace : σ.HasPlace outer) (k : ℕ) :
    (L.iteration σ outer k).Resolves σ.size L.term (L.meaning μ k) := by
  intro name hname
  have hlookup := seen?_child_define hplace .loop L.counter
    (.constant (.number (.of (L.index k)))) name
  rw [meaning, iteration]
  by_cases hcounter : name = L.counter
  · rw [if_pos hcounter] at hlookup ⊢
    rw [read_run, hlookup]
    rfl
  · rw [if_neg hcounter] at hlookup ⊢
    exact read_congr hlookup (h name hname hcounter)

theorem undisturbed_iteration (h : σ.Undisturbed τ) (L : Summation M) (outer : Nat) (k : ℕ) :
    σ.Undisturbed (L.iteration τ outer k) :=
  (h.trans (undisturbed_child τ outer .loop)).define h.size_le L.counter _

/-- In the frame of a round the expression comes to its addend. What was there before the loop
stays. -/
def Yields (L : Summation M) (residual : List Builtin) (reduce : Reducer (Exact M))
    (floors : Floors) (outer : Nat) (σ : Scopes (Exact M)) (e : Expression (Exact M))
    (addend : ℕ → Expression (Exact M)) : Prop :=
  ∀ τ, σ.Undisturbed τ → ∀ k, ∃ τ', σ.Undisturbed τ' ∧
    (e.inline residual reduce floors τ.size).run (L.iteration τ outer k) = .ok (addend k, τ')

theorem Reads.yields (h : L.Reads σ outer μ) (hplace : σ.HasPlace outer) :
    L.Yields residual reduce floors outer σ L.term fun k => L.term.resolve (L.meaning μ k) :=
  fun _ hτ k => ⟨_, undisturbed_iteration hτ L outer k, Expression.inline_of_isArithmetic floors
    L.term L.arithmetic ((h.undisturbed hplace hτ).resolves (hτ.hasPlace hplace) k)⟩

variable {e : Expression (Exact M)} {addend : ℕ → Expression (Exact M)}

def unrollFrom (L : Summation M) (residual : List Builtin) (reduce : Reducer (Exact M))
    (floors : Floors) (limit outer : Nat) (e : Expression (Exact M))
    (addend : ℕ → Expression (Exact M)) (allowed k : ℕ) :
    Inlining (Exact M) (Option (Expression (Exact M))) :=
  Accumulation.unroll (Expression.inline residual reduce floors)
    { L.accumulation with term := e } limit outer allowed (.of (L.index k)) (sumOf addend k)

theorem unroll_round {τ' : Scopes (Exact M)} {k : ℕ}
    (hterm : (e.inline residual reduce floors τ.size).run (L.iteration τ outer k) =
      .ok (addend k, τ')) (allowed : Nat) (hk : k < L.rounds) :
    (L.unrollFrom residual reduce floors limit outer e addend (allowed + 1) k).run τ =
      (L.unrollFrom residual reduce floors limit outer e addend allowed (k + 1)).run τ' := by
  have hindex : Numeric.add (.of (L.index k) : Exact M) Numeric.one = .of (L.index (k + 1)) := by
    rw [Exact.one_eq, Exact.add_of, index_succ]
  have hdefine : (define τ.size L.counter (.constant (.number (.of (L.index k))))).run
      (τ.child outer .loop).2 = .ok ((), L.iteration τ outer k) := rfl
  rw [unrollFrom, Accumulation.unroll, hasRound_adding, decide_eq_true hk, if_pos rfl]
  refine (run_bind_of_ok (child_ok.2 ⟨rfl, rfl⟩)).trans ?_
  refine (run_bind_of_ok hdefine).trans ((run_bind_of_ok hterm).trans ?_)
  rw [hindex, unrollFrom, sumOf]
  cases sumOf addend k <;> rfl

/-- Unrolling adds up the addends of the rounds that are left, unless there are more of them than
may follow. -/
theorem Yields.unroll_run (h : L.Yields residual reduce floors outer σ e addend) (limit : Nat)
    (allowed k : ℕ) (hk : k ≤ L.rounds) (hτ : σ.Undisturbed τ) :
    (L.rounds ≤ k + allowed → ∃ τ', σ.Undisturbed τ' ∧
      (L.unrollFrom residual reduce floors limit outer e addend allowed k).run τ =
        .ok (sumOf addend L.rounds, τ')) ∧
    (k + allowed < L.rounds →
      (L.unrollFrom residual reduce floors limit outer e addend allowed k).run τ =
        .error (.loop (.tooLong L.counter limit))) := by
  induction allowed generalizing k τ with
  | zero =>
    rw [unrollFrom, Accumulation.unroll, hasRound_adding]
    constructor
    · intro hrounds
      have heq : k = L.rounds := by omega
      refine ⟨τ, hτ, ?_⟩
      rw [heq, decide_eq_false (Nat.lt_irrefl _)]
      rfl
    · intro hrounds
      rw [decide_eq_true (by omega : k < L.rounds)]
      rfl
  | succ allowed ih =>
    by_cases hround : k < L.rounds
    · obtain ⟨τ', hτ', hterm⟩ := h τ hτ k
      rw [unroll_round hterm allowed hround]
      have hnext := ih (k + 1) hround hτ'
      rwa [Nat.add_right_comm, Nat.add_assoc] at hnext
    · have heq : k = L.rounds := by omega
      refine ⟨fun _ => ⟨τ, hτ, ?_⟩, fun h => by omega⟩
      rw [unrollFrom, Accumulation.unroll, hasRound_adding, decide_eq_false hround, heq]
      rfl

/-! ### The unrolled loop -/

/-- Between the two states one binding changes, of those that were there before. -/
structure Rebinds (owner : Nat) (name : String) (value : Expression (Exact M))
    (σ σ' : Scopes (Exact M)) : Prop where
  extend : σ.Extends σ'
  find? : ∀ j < σ.size, ∀ other, (σ'.frame j).bindings.find? other =
    if j = owner ∧ other = name then some (.mutable value) else (σ.frame j).bindings.find? other

/-- Where the loop stands, its variable is one that may be written, and the names of its term can
be read. -/
structure Stands (L : Summation M) (σ : Scopes (Exact M)) (floors : Floors) (scope owner : Nat)
    (current : Expression (Exact M)) (μ : String → Expression (Exact M)) : Prop where
  place : σ.HasPlace scope
  writable : σ.lookupForWrite? scope L.accumulator = .ok (some (owner, .mutable current))
  floor : floors.branch ≤ owner
  reads : L.Reads σ scope μ

theorem begin_run (floors : Floors) (σ : Scopes (Exact M)) :
    (L.begin.counter (Expression.inline residual reduce floors) scope).run σ =
      .ok ((L.counter, .of L.start), σ) := by
  have hinit : ((Expression.number (.of L.start)).inline residual reduce floors scope).run σ =
      .ok (.number (.of L.start), σ) := by
    rw [Expression.number, Expression.inline]
    rfl
  exact run_bind_of_ok hinit

theorem testing_run {e : Expression (Exact M)}
    (he : (e.inline residual reduce floors scope).run σ = .ok (.number (.of L.bound), σ)) :
    (Expression.upperBound (Expression.inline residual reduce floors) scope L.counter
      (some (L.testing e))).run σ = .ok ((.of L.bound, L.isInclusive), σ) := by
  rw [testing, Expression.upperBound, beq_self_eq_true]
  cases L.isInclusive <;> exact run_bind_of_ok he

theorem test_run (floors : Floors) (σ : Scopes (Exact M)) :
    (Expression.upperBound (Expression.inline residual reduce floors) scope L.counter
      (some L.test)).run σ = .ok ((.of L.bound, L.isInclusive), σ) := by
  refine testing_run ?_
  rw [Expression.number, Expression.inline]
  rfl

theorem Stands.assign_run (h : L.Stands σ floors scope owner current μ) (hτ : σ.Undisturbed τ)
    (update : Expression (Exact M) → Expression (Exact M)) :
    (Inlining.assign floors scope L.accumulator update).run τ =
      .ok ((current, update current),
        τ.define owner L.accumulator (.mutable (update current))) := by
  obtain ⟨hmem, hfind⟩ := mem_of_findIn? (findIn?_of_findForWriteIn? h.writable)
  have hassign : τ.assign owner L.accumulator (update current) =
      .ok (τ.define owner L.accumulator (.mutable (update current))) := by
    rw [Scopes.assign, hτ.frame (h.place owner hmem), hfind]
    rfl
  rw [Inlining.assign_run, hτ.lookupForWrite? h.place, h.writable]
  change (if owner < floors.branch then _ else _) = _
  rw [if_neg (Nat.not_lt.2 h.floor), hassign]
  rfl

theorem Stands.rebinds_undisturbed (h : L.Stands σ floors scope owner current μ)
    (hτ : σ.Undisturbed τ) : Rebinds owner L.accumulator current σ τ where
  extend := ⟨hτ.size_le, fun j hj => by rw [hτ.frame hj], hτ.hardcoded⟩
  find? j hj other := by
    obtain ⟨-, hfind⟩ := mem_of_findIn? (findIn?_of_findForWriteIn? h.writable)
    rw [hτ.frame hj]
    split
    · next heq =>
      rw [heq.1, heq.2, hfind]
    · rfl

theorem Rebinds.define {name : String} {value e : Expression (Exact M)}
    (h : Rebinds owner name value σ τ) (howner : owner < σ.size) :
    Rebinds owner name e σ (τ.define owner name (.mutable e)) where
  extend := h.extend.trans (extends_define ..)
  find? j hj other := by
    by_cases hj' : j = owner
    · subst hj'
      rw [frame_define_self (howner.trans_le h.extend.size_le), Bindings.find?_insert,
        h.find? j hj]
      by_cases hother : other = name
      · rw [if_pos hother, if_pos ⟨rfl, hother⟩]
      · rw [if_neg hother, if_neg fun heq => hother heq.2, if_neg fun heq => hother heq.2]
    · rw [frame_define_of_ne hj', h.find? j hj, if_neg fun heq => hj' heq.1,
        if_neg fun heq => hj' heq.1]

theorem index_zero : L.index 0 = L.start := by
  rw [index, Nat.cast_zero, add_zero]

section

variable {test u : Expression (Exact M)} {body : Statement (Exact M)}

theorem loop_run_of_unroll
    (htest : (Expression.upperBound (Expression.inline residual reduce floors) scope L.counter
      (some test)).run σ = .ok ((.of L.bound, L.isInclusive), σ)) (hu : L.Counts u)
    (hbody : Accumulation.ofBody? L.counter body = some (L.accumulator, e))
    {result : Except (SpecializationError (Exact M))
      (Option (Expression (Exact M)) × Scopes (Exact M))}
    (hresult : (L.unrollFrom residual reduce floors limit σ.size e addend limit 0).run
      (σ.child scope .loop).2 = result) :
    (Inlining.loop (Expression.inline residual reduce floors) limit floors scope L.begin
      (some test) (some u) body).run σ =
      result.bind fun
        | (none, τ) => .ok ((), τ)
        | (some sum, τ) =>
          ((Inlining.assign floors scope L.accumulator fun current =>
            (Expression.binary .add current sum).simplify).run τ).map fun p => ((), p.2) := by
  rw [Inlining.loop, run_bind_of_ok (begin_run floors σ)]
  dsimp only
  rw [run_bind_of_ok htest]
  dsimp only
  rw [isIncrement_of_counts L hu, if_pos rfl, hbody]
  dsimp only
  rw [run_bind_of_ok (child_ok.2 ⟨rfl, rfl⟩), StateT.run_bind]
  rw [unrollFrom, index_zero, sumOf, accumulation] at hresult
  rw [hresult]
  rcases result with e | ⟨_ | sum, τ⟩ <;> rfl

/-- A loop whose bound comes to a number is unrolled exactly if its rounds are within the limit. It
adds the addends of all rounds to the variable, and changes nothing else that was bound before. -/
theorem Yields.loop_run
    (hyields : L.Yields residual reduce floors σ.size (σ.child scope .loop).2 e addend)
    (h : L.Stands σ floors scope owner current μ)
    (htest : (Expression.upperBound (Expression.inline residual reduce floors) scope L.counter
      (some test)).run σ = .ok ((.of L.bound, L.isInclusive), σ)) (hu : L.Counts u)
    (hbody : Accumulation.ofBody? L.counter body = some (L.accumulator, e)) (limit : Nat) :
    (L.rounds ≤ limit → ∃ σ', Rebinds owner L.accumulator (plus addend L.rounds current) σ σ' ∧
      (Inlining.loop (Expression.inline residual reduce floors) limit floors scope L.begin
        (some test) (some u) body).run σ = .ok ((), σ')) ∧
    (limit < L.rounds →
      (Inlining.loop (Expression.inline residual reduce floors) limit floors scope L.begin
        (some test) (some u) body).run σ = .error (.loop (.tooLong L.counter limit))) := by
  have hunroll := hyields.unroll_run limit limit 0 (Nat.zero_le _) (Undisturbed.refl _)
  have howner : owner < σ.size :=
    h.place owner (mem_of_findIn? (findIn?_of_findForWriteIn? h.writable)).1
  rw [Nat.zero_add] at hunroll
  constructor
  · intro hrounds
    obtain ⟨τ, hτ, hsum⟩ := hunroll.1 hrounds
    have hτ' : σ.Undisturbed τ := (undisturbed_child σ scope .loop).trans hτ
    rw [loop_run_of_unroll htest hu hbody hsum, plus]
    cases sumOf addend L.rounds with
    | none => exact ⟨τ, h.rebinds_undisturbed hτ', rfl⟩
    | some sum =>
      refine ⟨_, (h.rebinds_undisturbed hτ').define howner, ?_⟩
      dsimp only [Except.bind]
      rw [h.assign_run hτ']
      rfl
  · intro hrounds
    rw [loop_run_of_unroll htest hu hbody (hunroll.2 hrounds)]
    rfl

end

/-- The loop of a sum is unrolled exactly if its rounds are within the limit. It changes the
variable and nothing else that was bound before. -/
theorem loop_run (residual : List Builtin) (reduce : Reducer (Exact M))
    (h : L.Stands σ floors scope owner current μ) {u : Expression (Exact M)} (hu : L.Counts u)
    {body : Statement (Exact M)} (hbody : L.IsBody body) (limit : Nat) :
    (L.rounds ≤ limit → ∃ σ', Rebinds owner L.accumulator (L.held μ current) σ σ' ∧
      (Inlining.loop (Expression.inline residual reduce floors) limit floors scope L.begin
        (some L.test) (some u) body).run σ = .ok ((), σ')) ∧
    (limit < L.rounds →
      (Inlining.loop (Expression.inline residual reduce floors) limit floors scope L.begin
        (some L.test) (some u) body).run σ = .error (.loop (.tooLong L.counter limit))) := by
  have hyields : L.Yields residual reduce floors σ.size (σ.child scope .loop).2 L.term _ :=
    (h.reads.child h.place .loop).yields (hasPlace_child h.place .loop)
  rw [held_eq]
  exact hyields.loop_run h (test_run floors σ) hu (ofBody?_of_isBody L hbody) limit

end Summation

end Waveform
