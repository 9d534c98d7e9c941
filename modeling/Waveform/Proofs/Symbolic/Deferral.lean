import Mathlib.Tactic.IntervalCases
import Waveform.Proofs.Symbolic.Addend

/-!
# Deferred sums

The specializer evaluates the bound of a loop once, before the loop, and the terms of all rounds
before it adds any of them. A run evaluates the bound before every round and adds each term at once.
Where the bound reads the variable or the counter, or the term calls functions that read the
variable, the two may part.
-/

namespace Waveform

open Semantics (ofNames)

variable {M : Mathematics}

/-! ## Loops whose bound and term may read the variable -/

/-- A loop that counts up by one to a bound, which may read the variable and the counter, and in
every round adds to the variable what may call functions that read it. The number is what the bound
comes to before the loop. -/
structure Feedback (M : Mathematics) where
  counter : String
  start : ℚ
  bound : ℚ
  ceiling : Expression (Exact M)
  isInclusive : Bool
  accumulator : String
  addend : Addend M
  distinct : accumulator ≠ counter
  arithmetic : ceiling.isArithmetic = true
  independent : addend.expression.references accumulator = false
  visible : counter ∉ addend.calls

namespace Feedback

variable (F : Feedback M)

def frame : Summation M where
  counter := F.counter
  start := F.start
  bound := F.bound
  isInclusive := F.isInclusive
  accumulator := F.accumulator
  term := .number (.of 0)
  distinct := F.distinct
  arithmetic := rfl
  independent := rfl

/-- The ways to add to the variable. -/
inductive Adds : Expression (Exact M) → Prop
  | add : Adds (.assignment .addAssign F.accumulator F.addend.expression)
  | assign : F.addend.expression.asNumber? ≠ some Numeric.one →
    Adds (.assignment .assign F.accumulator
      (.binary .add (.identifier F.accumulator) F.addend.expression))

def names (ν : Literals M) (k : ℕ) (x : ℚ) : Literals M :=
  Function.update (F.frame.names ν k) F.accumulator (some (.number (.of x)))

/-- While the variable has the value, a round adds the number to it. -/
def Increases (ν ξ : Literals M) (k : ℕ) (x q : ℚ) : Prop :=
  F.addend.Comes (F.frame.names ν k) (Addend.recalling ξ F.accumulator x) q

/-- The variable runs through the values. Before each of the rounds the bound has that round, and
after the last of them it has none. -/
structure Runs (ν ξ : Literals M) (values : ℕ → ℚ) (n : ℕ) : Prop where
  test : ∀ k ≤ n, ∃ b, (ofNames (F.names ν k (values k))).denote F.ceiling = some (.number b) ∧
    (F.frame.HasRound k b ↔ k < n)
  round : ∀ k < n, ∃ q, F.Increases ν ξ k (values k) q ∧ values (k + 1) = values k + q

/-- Where the loop stands, its variable may be written, its bound comes to the number, and what it
adds can be inlined. -/
structure Stands (σ : Scopes (Exact M)) (floors : Floors) (scope home owner : Nat)
    (current : Expression (Exact M)) (μ κ : String → Expression (Exact M)) : Prop where
  place : σ.HasPlace scope
  inside : σ.HasPlace home
  writable : σ.lookupForWrite? scope F.accumulator = .ok (some (owner, .mutable current))
  floor : floors.branch ≤ owner
  ceiling : σ.Resolves scope F.ceiling μ
  bound : F.ceiling.resolve μ = .number (.of F.bound)
  addend : F.addend.Shown σ scope home μ κ [F.counter]

/-- Before the loop, names stand for the same in a run as to the specializer, for arguments that are
not negative. -/
structure Agrees (current : Expression (Exact M)) (μ κ : String → Expression (Exact M))
    (ρ : Valuation) (ν ξ : Literals M) (c : ℚ) (s : Store (Exact M)) (env home : Environment)
    (owner : Nat) : Prop where
  loop : F.frame.Agrees current μ ρ ν c s env owner
  inside : Addend.Home F.frame ξ s home owner
  denotes : ρ.Denotes (Addend.recalling ξ F.accumulator c) κ
  bound : F.addend.Bound s env home

def held (μ κ : String → Expression (Exact M)) (current : Expression (Exact M)) :
    Expression (Exact M) :=
  Summation.plus (fun k => F.addend.resolve (F.frame.meaning μ k) κ) F.frame.rounds current

variable {F}

section

variable {scope home owner : Nat} {floors : Floors} {current : Expression (Exact M)}
  {μ κ : String → Expression (Exact M)} {σ : Scopes (Exact M)} {e u : Expression (Exact M)}
  {body : Statement (Exact M)}

theorem simplify_of_adds (h : F.Adds e) :
    e.simplify = .assignment .addAssign F.accumulator F.addend.expression := by
  cases h with
  | add => rfl
  | assign hone => exact Expression.simplify_assign_add hone

theorem Stands.frame (h : F.Stands σ floors scope home owner current μ κ) :
    F.frame.Stands σ floors scope owner current μ :=
  ⟨h.place, h.writable, h.floor, fun _ hname => by cases hname⟩

theorem Stands.ceiling_run (h : F.Stands σ floors scope home owner current μ κ)
    (residual : List Builtin) (reduce : Reducer (Exact M)) :
    (F.ceiling.inline residual reduce floors scope).run σ = .ok (.number (.of F.bound), σ) := by
  rw [← h.bound]
  exact Expression.inline_of_isArithmetic floors F.ceiling F.arithmetic h.ceiling

/-- The loop is unrolled exactly if the rounds up to the number are within the limit. -/
theorem Stands.loop_run (h : F.Stands σ floors scope home owner current μ κ)
    (options : SpecializationOptions) (depth : Nat) (hu : F.frame.Counts u)
    (hbody : Accumulation.bodyExpression? body = some e) (he : F.Adds e) (limit : Nat) :
    (F.frame.rounds ≤ limit → ∃ σ',
      Summation.Rebinds owner F.accumulator (F.held μ κ current) σ σ' ∧
      (Inlining.loop (Expression.inline options.residualBuiltins
        (Inlining.reduce options (depth + 1)) floors) limit floors scope F.frame.begin
        (some (F.frame.testing F.ceiling)) (some u) body).run σ = .ok ((), σ')) ∧
    (limit < F.frame.rounds →
      (Inlining.loop (Expression.inline options.residualBuiltins
        (Inlining.reduce options (depth + 1)) floors) limit floors scope F.frame.begin
        (some (F.frame.testing F.ceiling)) (some u) body).run σ =
          .error (.loop (.tooLong F.counter limit))) := by
  have hundisturbed := Scopes.undisturbed_child σ scope .loop
  have hyields : F.frame.Yields options.residualBuiltins (Inlining.reduce options (depth + 1))
      floors σ.size (σ.child scope .loop).2 F.addend.expression _ :=
    (h.addend.child h.place h.inside .loop).yields (Scopes.hasPlace_child h.place .loop)
      (hundisturbed.hasPlace h.inside) F.visible floors
  exact hyields.loop_run h.frame (Summation.testing_run (h.ceiling_run ..)) hu
    (Accumulation.ofBody?_eq hbody (simplify_of_adds he) F.distinct F.independent) limit

end

section

variable {current : Expression (Exact M)} {μ κ : String → Expression (Exact M)} {ρ : Valuation}
  {ν ξ : Literals M} {c b x : ℚ} {s t : Store (Exact M)} {env home : Environment} {owner k n : ℕ}
  {values terms : ℕ → ℚ} {e : Expression (Exact M)}

theorem Agrees.gives_ceiling (hs : F.Agrees current μ κ ρ ν ξ c s env home owner)
    (h : (ofNames (F.names ν k x)).denote F.ceiling = some (.number b)) (call : Caller (Exact M)) :
    F.frame.Gives call s owner env k x F.ceiling b := by
  intro t inner hAt hinner
  have hnames : (F.names ν k x).HoldsIn t (inner ++ s.frames.size :: env) := by
    intro name l hl
    rw [names, Function.update_apply] at hl
    split at hl
    · next hname =>
      cases hl
      have hlookup := hAt.lookup?_accumulator hs.loop.frames hs.loop.owner
      rw [hname, hinner.lookup?_outer hAt F.distinct]
      exact hlookup
    · exact hinner.holdsIn_names hAt hs.loop.frames hs.loop.binds name l hl
  obtain ⟨_, ⟨⟩, hvalue⟩ := Expression.evaluate_of_denote call hnames F.ceiling h
  exact ⟨t, hvalue, hAt, hinner⟩

/-- A run takes the variable through its values. -/
theorem Agrees.course (hs : F.Agrees current μ κ ρ ν ξ c s env home owner)
    (h : F.Runs ν ξ values n) (he : F.Adds e) (patience depth : Nat) :
    F.frame.Course (Run.call none (patience + 1) depth) s owner env F.ceiling e values n where
  test k hk := by
    obtain ⟨b, hb, hround⟩ := h.test k hk
    exact ⟨b, hs.gives_ceiling hb _, hround⟩
  round k hk := by
    obtain ⟨q, hq, hnext⟩ := h.round k hk
    have hgives := Addend.Comes.gives hq hs.loop hs.inside hs.bound F.visible patience depth
    rw [hnext]
    cases he with
    | add => exact hs.loop.takes_addAssign _ hgives
    | assign _ => exact hs.loop.takes_assign _ hgives

/-- What the unrolled loop holds adds up what the rounds add while the variable has its value from
before the loop. -/
theorem Agrees.denote_held (hs : F.Agrees current μ κ ρ ν ξ c s env home owner)
    (hterms : ∀ k < F.frame.rounds, F.Increases ν ξ k c (terms k)) :
    (ofNames ρ.names).denote (F.held μ κ current) =
      some (.number (c + ∑ k ∈ Finset.range F.frame.rounds, terms k)) :=
  Summation.denote_plus hs.loop.nonneg
    (fun k hk => (hterms k hk).denote_resolve hs.loop.nonneg
      (Summation.denotes_meaning hs.loop.denotes k) hs.denotes)
    hs.loop.current

/-- While the loop runs, its bound has the rounds that it has before the loop, and every round adds
what it adds before the loop. -/
structure Steady (F : Feedback M) (ν ξ : Literals M) (values terms : ℕ → ℚ) (n : ℕ) : Prop where
  test : ∀ k ≤ n, ∀ b, (ofNames (F.names ν k (values k))).denote F.ceiling = some (.number b) →
    (F.frame.HasRound k b ↔ k < F.frame.rounds)
  round : ∀ k < n, F.Increases ν ξ k (values k) (terms k)

/-- In a steady loop the variable ends with the sum of the terms. -/
theorem Runs.eq_of_steady (h : F.Runs ν ξ values n) (hsteady : F.Steady ν ξ values terms n) :
    values n = values 0 + ∑ k ∈ Finset.range F.frame.rounds, terms k := by
  have hround (k : ℕ) (hk : k ≤ n) : k < F.frame.rounds ↔ k < n := by
    obtain ⟨b, hb, hround⟩ := h.test k hk
    rw [← hround, hsteady.test k hk b hb]
  have hrounds : F.frame.rounds = n := by
    rcases Nat.lt_trichotomy F.frame.rounds n with hlt | heq | hgt
    · exact absurd ((hround _ hlt.le).2 hlt) (Nat.lt_irrefl _)
    · exact heq
    · exact absurd ((hround n le_rfl).1 hgt) (Nat.lt_irrefl _)
  rw [hrounds]
  have hvalues (m : ℕ) (hm : m ≤ n) : values m = values 0 + ∑ k ∈ Finset.range m, terms k := by
    induction m with
    | zero => rw [Finset.sum_range_zero, add_zero]
    | succ m ih =>
      obtain ⟨q, hq, hnext⟩ := h.round m hm
      rw [hnext, hq.unique (hsteady.round m hm), ih (Nat.le_of_succ_le hm), Finset.sum_range_succ,
        add_assoc]
  exact hvalues n le_rfl

end

/-- A loop whose bound and term may read the variable is unrolled exactly if the rounds up to what
the bound comes to before the loop are within the limit. The variable then holds the sum of what
these rounds add before the loop, while a run leaves in it the last of the values that it runs
through. The two are equal if the loop is steady. Terms that write a variable and variables that
hold strings are not covered; they part in `Deferral.cutShort` and `Deferral.joined`. -/
theorem unrolled_loop_defers (options : SpecializationOptions) (depth : Nat) {floors : Floors}
    {scope home owner : Nat} {current : Expression (Exact M)} {μ κ : String → Expression (Exact M)}
    {σ : Scopes (Exact M)} (h : F.Stands σ floors scope home owner current μ κ)
    {u : Expression (Exact M)} (hu : F.frame.Counts u) {e : Expression (Exact M)}
    (he : F.Adds e) {body : Statement (Exact M)}
    (hbody : Accumulation.bodyExpression? body = some e) (limit : Nat) :
    (limit < F.frame.rounds →
      (Inlining.loop (Expression.inline options.residualBuiltins
        (Inlining.reduce options (depth + 1)) floors) limit floors scope F.frame.begin
        (some (F.frame.testing F.ceiling)) (some u) body).run σ =
          .error (.loop (.tooLong F.counter limit))) ∧
    (F.frame.rounds ≤ limit → ∃ σ',
      (Inlining.loop (Expression.inline options.residualBuiltins
        (Inlining.reduce options (depth + 1)) floors) limit floors scope F.frame.begin
        (some (F.frame.testing F.ceiling)) (some u) body).run σ = .ok ((), σ') ∧
      Summation.Rebinds owner F.accumulator (F.held μ κ current) σ σ') ∧
    ∀ ρ ν ξ c s env home place values n terms, F.Agrees current μ κ ρ ν ξ c s env home place →
      values 0 = c → F.Runs ν ξ values n →
      (∀ k < F.frame.rounds, F.Increases ν ξ k c (terms k)) →
      (∀ within depth patience, n < patience → ∃ t,
        ((Statement.loop F.frame.begin (some (F.frame.testing F.ceiling)) (some u) body).execute
          patience (Run.call none (within + 1) depth) env).outcome s = (.ok .normal, t) ∧
        s.Rebinds place F.accumulator (.number (.of (values n))) t) ∧
      (∀ call env t, ρ.names.HoldsIn t env → ((F.held μ κ current).evaluate call env).outcome t =
        (.ok (.number (.of (c + ∑ k ∈ Finset.range F.frame.rounds, terms k))), t)) ∧
      (F.Steady ν ξ values terms n →
        values n = c + ∑ k ∈ Finset.range F.frame.rounds, terms k) := by
  obtain ⟨hwithin, hbeyond⟩ := h.loop_run options depth hu hbody he limit
  refine ⟨hbeyond, fun hrounds => ?_, ?_⟩
  · obtain ⟨σ', hσ', hrun⟩ := hwithin hrounds
    exact ⟨σ', hrun, hσ'⟩
  · intro ρ ν ξ c s env home place values n terms hs hzero hruns hterms
    refine ⟨fun within depth patience hpatience => ?_, fun call env t ht => ?_, fun hsteady => ?_⟩
    · exact hs.loop.loop _ (hs.course hruns he within depth) hzero hu hbody hpatience
    · obtain ⟨_, ⟨⟩, hvalue⟩ := Expression.evaluate_of_denote call ht (F.held μ κ current)
        (hs.denote_held hterms)
      exact hvalue
    · rw [hruns.eq_of_steady hsteady, hzero]

def reader : Getter .zero := ⟨"f", .identifier "acc", rfl⟩

/-- Adds the variable to itself, by a function that reads it, up to a bound that falls as the
variable grows. -/
def draining : Feedback .zero where
  counter := "k"
  start := 0
  bound := 4
  ceiling := .binary .subtract (.number (.of 5)) (.identifier "acc")
  isInclusive := false
  accumulator := "acc"
  addend := .call reader
  distinct := by decide
  arithmetic := rfl
  independent := by decide
  visible h := absurd (List.mem_singleton.1 h) (by decide)

/-- Adds the quotient of the variable and itself, up to a bound that falls too slowly to lose a
round. -/
def easing : Feedback .zero where
  counter := "k"
  start := 0
  bound := 49 / 10
  ceiling := .binary .subtract (.number (.of 5))
    (.binary .divide (.identifier "acc") (.number (.of 10)))
  isInclusive := false
  accumulator := "acc"
  addend := .binary .divide (.call reader) (.call reader)
  distinct := by decide
  arithmetic := rfl
  independent := by decide
  visible := by decide

/-- The variable has the value one, and the function has been made beside it. -/
def readerScopes : Scopes (Exact .zero) :=
  Summation.oneSum.define 1 "f"
    (.constant (.function [] [.result (some (.identifier "acc"))] (some 1)))

def readerStore : Store (Exact .zero) :=
  Summation.oneSumStore.bindFunction 1 "f" ⟨[], [.result (some (.identifier "acc"))]⟩ [1, 0]

def one : String → Expression (Exact .zero) := fun _ => .number (.of 1)

theorem stands_one {G : Feedback .zero} (hname : G.accumulator = "acc")
    (hceiling : readerScopes.Resolves 1 G.ceiling one)
    (hbound : G.ceiling.resolve one = .number (.of G.bound))
    (haddend : G.addend.Shown readerScopes 1 1 one one [G.counter]) :
    G.Stands readerScopes ⟨0, 0⟩ 1 1 1 (.number (.of 1)) one one where
  place := by
    unfold Scopes.HasPlace
    decide
  inside := by
    unfold Scopes.HasPlace
    decide
  writable := by
    rw [hname]
    rfl
  floor := by decide
  ceiling := hceiling
  bound := hbound
  addend := haddend

theorem agrees_one {G : Feedback .zero} (hname : G.accumulator = "acc")
    (hbound : G.addend.Bound readerStore [1, 0] [1, 0]) :
    G.Agrees (.number (.of 1)) one one (fun _ => none) (fun _ => none) (fun _ => none) 1
      readerStore [1, 0] [1, 0] 1 := by
  have hframes : readerStore.HasFrames [1, 0] := by
    unfold Store.HasFrames
    decide
  have howner : readerStore.owner? G.accumulator [1, 0] = some 1 := by
    rw [hname]
    rfl
  refine ⟨⟨nofun, rfl, nofun, hframes, nofun, howner, ?_⟩, ⟨hframes, nofun, howner⟩, ?_, hbound⟩
  · change readerStore.lookup? G.accumulator [1, 0] = _
    rw [hname]
    rfl
  · intro name l h
    rw [Addend.recalling, Function.update_apply] at h
    obtain ⟨-, ⟨⟩⟩ := Option.ite_none_right_eq_some.1 h
    rfl

theorem resolves_acc {e : Expression (Exact .zero)}
    (h : ∀ name, e.references name = true → "acc" = name) : readerScopes.Resolves 1 e one := by
  intro name hname
  obtain rfl := h name hname
  rfl

theorem draining_stands :
    draining.Stands readerScopes ⟨0, 0⟩ 1 1 1 (.number (.of 1)) one one := by
  have hfour : (5 : ℚ) - 1 = 4 := by norm_num
  refine stands_one rfl (resolves_acc fun name h => ?_) ?_ ⟨rfl, resolves_acc fun name h => ?_⟩
  · simpa [draining, Expression.references, Expression.number] using h
  · change (Expression.number (.of (5 - 1)) : Expression (Exact .zero)) = .number (.of 4)
    rw [hfour]
  · simpa [reader, Expression.references] using h

theorem easing_stands : easing.Stands readerScopes ⟨0, 0⟩ 1 1 1 (.number (.of 1)) one one := by
  have hbound : (5 : ℚ) - 1 / 10 = 49 / 10 := by norm_num
  have hreader : (Addend.call reader).Shown readerScopes 1 1 one one ["k"] := by
    refine ⟨rfl, resolves_acc fun name h => ?_⟩
    simpa [reader, Expression.references] using h
  refine stands_one rfl (resolves_acc fun name h => ?_) ?_ ⟨hreader, hreader⟩
  · simpa [easing, Expression.references, Expression.number] using h
  · change (Expression.number (.of (5 - 1 / 10)) : Expression (Exact .zero)) =
      .number (.of (49 / 10))
    rw [hbound]

/-- What the variable of `draining` holds before each round. -/
def drained : ℕ → ℚ
  | 0 => 1
  | 1 => 2
  | _ => 4

theorem draining_runs : draining.Runs (fun _ => none) (fun _ => none) drained 2 where
  test k hk := by
    refine ⟨5 - drained k, rfl, ?_⟩
    interval_cases k <;> norm_num [Summation.HasRound, Summation.index, draining, frame, drained]
  round k hk := by
    interval_cases k
    · exact ⟨1, rfl, by norm_num [drained]⟩
    · exact ⟨2, rfl, by norm_num [drained]⟩

theorem draining_rounds : draining.frame.rounds = 4 := by
  norm_num [Summation.rounds, frame, draining]
  rfl

theorem easing_rounds : easing.frame.rounds = 5 := by
  norm_num [Summation.rounds, frame, easing]
  rfl

theorem easing_increases (k : ℕ) {x : ℚ} (hx : x ≠ 0) :
    easing.Increases (fun _ => none) (fun _ => none) k x 1 := by
  refine ⟨x, x, rfl, rfl, (BinaryOperator.combine?_eq_some rfl).2 ⟨x, x, rfl, rfl, ?_⟩⟩
  change _ = Literal.number (Numeric.div (Exact.of x) (.of x))
  rw [Exact.div_of _ hx, div_self hx]

theorem easing_ceiling (k : ℕ) (x : ℚ) :
    (ofNames (easing.names (fun _ => none) k x)).denote easing.ceiling =
      some (.number (5 - x / 10)) :=
  rfl

theorem easing_hasRound {k : ℕ} (hk : k ≤ 5) :
    easing.frame.HasRound k (5 - (k + 1) / 10) ↔ k < 5 := by
  interval_cases k <;> norm_num [Summation.HasRound, Summation.index, easing, frame]

theorem easing_runs : easing.Runs (fun _ => none) (fun _ => none) (fun k => k + 1) 5 where
  test k hk := ⟨_, easing_ceiling k (k + 1), easing_hasRound hk⟩
  round k hk := ⟨1, easing_increases k (Nat.cast_add_one_ne_zero k), by push_cast; rfl⟩

theorem easing_steady : easing.Steady (fun _ => none) (fun _ => none) (fun k => k + 1)
    (fun _ => 1) 5 where
  test k hk b hb := by
    rw [easing_ceiling] at hb
    rw [← Meaning.number_inj (Option.some.inj hb), easing_hasRound hk, easing_rounds]
  round k hk := easing_increases k (Nat.cast_add_one_ne_zero k)

theorem draining_unrolled :
    (∃ σ', (Inlining.loop (Expression.inline SpecializationOptions.tight.residualBuiltins
        (Inlining.reduce .tight 1) ⟨0, 0⟩) 64 ⟨0, 0⟩ 1 draining.frame.begin
        (some (draining.frame.testing draining.ceiling)) (some (.update .increment false "k"))
        (.expression (.assignment .addAssign "acc" (.call (.identifier "f") [])))).run
          readerScopes = .ok ((), σ') ∧
      Summation.Rebinds 1 "acc" (draining.held one one (.number (.of 1))) readerScopes σ') ∧
    (∃ t, ((Statement.loop draining.frame.begin
        (some (draining.frame.testing draining.ceiling)) (some (.update .increment false "k"))
        (.expression (.assignment .addAssign "acc" (.call (.identifier "f") [])))).execute 3
          (Run.call none 3 0) [1, 0]).outcome readerStore = (.ok .normal, t) ∧
      readerStore.Rebinds 1 "acc" (.number (.of 4)) t) ∧
    ((draining.held one one (.number (.of 1))).evaluate (fun _ _ => throw .exhausted)
      [1, 0]).outcome readerStore = (.ok (.number (.of 5)), readerStore) ∧
    (∃ t, ((Statement.loop easing.frame.begin
        (some (easing.frame.testing easing.ceiling)) (some (.update .increment false "k"))
        (.expression (.assignment .addAssign "acc" easing.addend.expression))).execute 6
          (Run.call none 3 0) [1, 0]).outcome readerStore = (.ok .normal, t) ∧
      readerStore.Rebinds 1 "acc" (.number (.of (5 + 1))) t) ∧
    ((easing.held one one (.number (.of 1))).evaluate (fun _ _ => throw .exhausted)
      [1, 0]).outcome readerStore = (.ok (.number (.of (5 + 1))), readerStore) := by
  have htotal : (1 : ℚ) + ∑ _k ∈ Finset.range draining.frame.rounds, (1 : ℚ) = 5 := by
    rw [draining_rounds]
    norm_num
  have hbody (e : Expression (Exact .zero)) :
      Accumulation.bodyExpression? (.expression (.assignment .addAssign "acc" e)) =
        some (.assignment .addAssign "acc" e) := rfl
  obtain ⟨-, hwithin, hagrees⟩ :=
    unrolled_loop_defers .tight 0 draining_stands (.step false) .add (hbody _) 64
  obtain ⟨σ', hrun, hrebinds⟩ := hwithin (by rw [draining_rounds]; decide)
  obtain ⟨hexecute, hevaluate, -⟩ := hagrees _ _ _ _ _ _ _ _ _ _ (fun _ => 1)
    (agrees_one rfl ⟨0, rfl⟩) rfl draining_runs fun _ _ => rfl
  rw [htotal] at hevaluate
  -- the steady loop ends with what it is unrolled to
  have hfirst : ((0 : ℕ) : ℚ) + 1 = 1 := by norm_num
  obtain ⟨-, -, heasing⟩ :=
    unrolled_loop_defers .tight 0 easing_stands (.step false) .add (hbody _) 64
  obtain ⟨hends, hgives, hequal⟩ := heasing _ _ _ _ _ _ _ _ _ _ (fun _ => 1)
    (agrees_one rfl ⟨⟨0, rfl⟩, 0, rfl⟩) hfirst easing_runs
    fun k _ => easing_increases k one_ne_zero
  rw [← hequal easing_steady] at hgives
  exact ⟨⟨σ', hrun, hrebinds⟩, hexecute 2 0 3 (by decide), hevaluate _ _ _ nofun,
    hends 2 0 6 (by decide), hgives _ _ _ nofun⟩

end Feedback

/-! ## Loops that part -/

namespace Deferral

/-- Counts `i` up from zero to a bound and adds a term to `acc` in every round. -/
def summing (first : Expression (Exact .zero)) (before : List (Statement (Exact .zero)))
    (bound term : Expression (Exact .zero)) : Function (Exact .zero) where
  params := ["t"]
  body :=
    .declaration .mutable "acc" (some first) :: before ++
      [.loop (.declaration .mutable "i" (some (.number (.of 0))))
        (some (.binary .lessThan (.identifier "i") bound)) (some (.update .increment false "i"))
        (.expression (.assignment .addAssign "acc" term)),
      .result (some (.identifier "acc"))]

def helper (body : List (Statement (Exact .zero))) : Statement (Exact .zero) :=
  .declaration .constant "f" (some (.function [] body none))

def shrinking : Function (Exact .zero) :=
  summing (.number (.of 3)) [] (.identifier "acc") (.number (.of (-1)))

def shadowed : Function (Exact .zero) :=
  summing (.number (.of 0)) [.declaration .constant "i" (some (.number (.of 3)))]
    (.identifier "i") (.number (.of 1))

def doubled : Function (Exact .zero) :=
  summing (.number (.of 1)) [helper [.result (some (.identifier "acc"))]] (.number (.of 3))
    (.call (.identifier "f") [])

def cutShort : Function (Exact .zero) :=
  summing (.number (.of 0))
    [.declaration .mutable "n" (some (.number (.of 3))),
      helper [.expression (.assignment .assign "n" (.number (.of 1))),
        .result (some (.number (.of 1)))]]
    (.identifier "n") (.call (.identifier "f") [])

def joined : Function (Exact .zero) :=
  summing (.literal (.string "a")) [] (.number (.of 3)) (.identifier "i")

/-- What the function is specialized to, and what it returns, both for an argument of three. -/
def comesTo (f : Function (Exact .zero)) (residual value : Literal (Exact .zero)) : Prop :=
  f.residual "wave" .tight = .ok (.literal residual) ∧
    ((Run.call none 34 0 (.closure ⟨0, none, f, .global⟩) (Value.ofNumbers [3])).outcome
      .initial).1 = .ok (.primitive value)

/-- The literals that `comesTo` speaks of, where the specialization and the run come to such. -/
def outcomes? (f : Function (Exact .zero)) :
    Option (Literal (Exact .zero) × Literal (Exact .zero)) :=
  match f.residual "wave" .tight,
    ((Run.call none 34 0 (.closure ⟨0, none, f, .global⟩) (Value.ofNumbers [3])).outcome
      .initial).1 with
  | .ok (.literal residual), .ok (.primitive value) => some (residual, value)
  | _, _ => none

deriving instance DecidableEq for Literal

theorem comesTo_of_outcomes? {f : Function (Exact .zero)} {residual value : Literal (Exact .zero)}
    (h : outcomes? f = some (residual, value)) : comesTo f residual value := by
  unfold outcomes? at h
  split at h
  · cases h
    exact ⟨‹_›, ‹_›⟩
  · cases h

/-- Each way in which a loop may depend on its own state makes the unrolled sum differ from what a
run leaves in the variable. -/
theorem unrolled_loops_differ :
    comesTo shrinking (.number (.of 0)) (.number (.of 1)) ∧
      comesTo shadowed (.number (.of 3)) (.number (.of 0)) ∧
      comesTo doubled (.number (.of 4)) (.number (.of 8)) ∧
      comesTo cutShort (.number (.of 3)) (.number (.of 1)) ∧
      comesTo joined (.string "a3") (.string "a012") :=
  ⟨comesTo_of_outcomes? (by decide +kernel), comesTo_of_outcomes? (by decide +kernel),
    comesTo_of_outcomes? (by decide +kernel), comesTo_of_outcomes? (by decide +kernel),
    comesTo_of_outcomes? (by decide +kernel)⟩

end Deferral

end Waveform
