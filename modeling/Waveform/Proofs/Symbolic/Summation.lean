import Mathlib.Algebra.BigOperators.Group.Finset.Basic
import Waveform.Proofs.Evaluation.Identities
import Waveform.Proofs.Symbolic.Unrolling

/-!
# Runs of sums

A run of the loop of a sum takes its rounds one by one, each in a frame with a copy of the counter.
Every round adds the value of its term to the variable, so that the loop leaves in the variable what
the unrolled sum denotes.
-/

namespace Waveform

namespace Store

variable {ν : Type}

/-- Between the two stores one binding changes, of those that were there before. -/
structure Rebinds (owner : Nat) (name : String) (value : Value ν) (s t : Store ν) : Prop where
  size_le : s.frames.size ≤ t.frames.size
  find? : ∀ j < s.frames.size, ∀ other, (t.frame j).find? other =
    if j = owner ∧ other = name then some value else (s.frame j).find? other

end Store

namespace Summation

open Semantics (ofNames lawful_ofNames)

variable {M : Mathematics} {L : Summation M}

/-! ## What the unrolled sum denotes -/

/-- What the names of the term stand for in a round. The variable is not among them. -/
def names (L : Summation M) (ν : Literals M) (k : ℕ) : Literals M := fun name =>
  if name = L.counter then some (.number (.of (L.index k)))
  else if name = L.accumulator then none
  else ν name

def HasTerms (L : Summation M) (ν : Literals M) (terms : ℕ → ℚ) : Prop :=
  ∀ k < L.rounds, (ofNames (L.names ν k)).denote L.term = some (.number (terms k))

section

variable {ρ : Valuation} {ν : Literals M} {μ : String → Expression (Exact M)} {terms : ℕ → ℚ}

theorem denote_add (hρ : ∀ name q, ρ name = some q → 0 ≤ q) {a b : Expression (Exact M)} {p q : ℚ}
    (ha : (ofNames ρ.names).denote a = some (.number p))
    (hb : (ofNames ρ.names).denote b = some (.number q)) :
    (ofNames ρ.names).denote (Expression.binary .add a b).simplify = some (.number (p + q)) := by
  refine (lawful_ofNames hρ).denote_simplify (Semantics.denote_binary.2 ⟨_, _, ha, hb, ?_⟩)
  rw [(lawful_ofNames hρ).total .add rfl]
  rfl

theorem denotes_meaning (hμ : ρ.Denotes ν μ) (k : ℕ) : ρ.Denotes (L.names ν k) (L.meaning μ k) := by
  intro name l h
  rw [names] at h
  rw [meaning]
  split at h
  · next hcounter =>
    cases h
    rw [if_pos hcounter]
    rfl
  · next hcounter =>
    rw [if_neg hcounter]
    exact hμ name l (Option.ite_none_left_eq_some.1 h).2

theorem denote_term (hρ : ∀ name q, ρ name = some q → 0 ≤ q) (hμ : ρ.Denotes ν μ)
    (hterms : L.HasTerms ν terms) {k : ℕ} (hk : k < L.rounds) :
    (ofNames ρ.names).denote (L.term.resolve (L.meaning μ k)) = some (.number (terms k)) :=
  Expression.denote_resolve hρ (denotes_meaning hμ k) L.term (hterms k hk)

variable {addend : ℕ → Expression (Exact M)} {rounds : ℕ}

theorem denote_sumOf (hρ : ∀ name q, ρ name = some q → 0 ≤ q)
    (hterms : ∀ k < rounds, (ofNames ρ.names).denote (addend k) = some (.number (terms k))) {k : ℕ}
    (hk : k < rounds) :
    ∃ sum, sumOf addend (k + 1) = some sum ∧
      (ofNames ρ.names).denote sum = some (.number (∑ i ∈ Finset.range (k + 1), terms i)) := by
  induction k with
  | zero =>
    refine ⟨_, rfl, ?_⟩
    rw [Finset.sum_range_one]
    exact hterms 0 hk
  | succ k ih =>
    obtain ⟨sum, hsum, hdenote⟩ := ih (Nat.lt_of_succ_lt hk)
    rw [sumOf, hsum, Finset.sum_range_succ]
    exact ⟨_, rfl, denote_add hρ hdenote (hterms (k + 1) hk)⟩

/-- What the variable holds denotes what it held before and the terms of all rounds. -/
theorem denote_plus (hρ : ∀ name q, ρ name = some q → 0 ≤ q)
    (hterms : ∀ k < rounds, (ofNames ρ.names).denote (addend k) = some (.number (terms k)))
    {current : Expression (Exact M)} {c : ℚ}
    (hcurrent : (ofNames ρ.names).denote current = some (.number c)) :
    (ofNames ρ.names).denote (plus addend rounds current) =
      some (.number (c + ∑ k ∈ Finset.range rounds, terms k)) := by
  rw [plus]
  cases rounds with
  | zero => rw [Finset.sum_range_zero, add_zero, sumOf, hcurrent]
  | succ k =>
    obtain ⟨sum, hsum, hdenote⟩ := denote_sumOf hρ hterms (Nat.lt_succ_self k)
    rw [hsum]
    exact denote_add hρ hcurrent hdenote

theorem denote_held (hρ : ∀ name q, ρ name = some q → 0 ≤ q) (hμ : ρ.Denotes ν μ)
    (hterms : L.HasTerms ν terms) {current : Expression (Exact M)} {c : ℚ}
    (hcurrent : (ofNames ρ.names).denote current = some (.number c)) :
    (ofNames ρ.names).denote (L.held μ current) =
      some (.number (c + ∑ k ∈ Finset.range L.rounds, terms k)) := by
  rw [held_eq]
  exact denote_plus hρ (fun _ hk => denote_term hρ hμ hterms hk) hcurrent

end

/-! ## Rounds of a run -/

section

variable {s t : Store (Exact M)} {owner : Nat} {a : ℚ} {k : ℕ}

/-- Before a round the variable holds a number, and the counter the number of the round. Of what was
bound before the loop, nothing else has changed. -/
structure At (L : Summation M) (s : Store (Exact M)) (owner : Nat) (a : ℚ) (k : ℕ)
    (t : Store (Exact M)) : Prop where
  rebinds : s.Rebinds owner L.accumulator (.number (.of a)) t
  counter : ∀ other, (t.frame s.frames.size).find? other =
    if other = L.counter then some (.number (.of (L.index k))) else none
  made : s.frames.size < t.frames.size

theorem At.extend (h : L.At s owner a k t) (env : Environment) :
    L.At s owner a k (t.extend env).2 where
  rebinds := {
    size_le := h.rebinds.size_le.trans (by simp)
    find? := fun j hj other => by rw [Store.frame_extend, h.rebinds.find? j hj] }
  counter other := by rw [Store.frame_extend, h.counter]
  made := by
    rw [Store.size_extend]
    exact h.made.trans (Nat.lt_succ_self _)

theorem At.bind_inner (h : L.At s owner a k t) {j : Nat} (hj : s.frames.size < j)
    (hmade : j < t.frames.size) (name : String) (v : Value (Exact M)) :
    L.At s owner a k (t.bind j name v) where
  rebinds := {
    size_le := by simpa using h.rebinds.size_le
    find? := fun i hi other => by
      rw [Store.find?_bind hmade, if_neg (by omega), h.rebinds.find? i hi] }
  counter other := by rw [Store.find?_bind hmade, if_neg (by omega), h.counter]
  made := by simpa using h.made

theorem At.bind_accumulator (h : L.At s owner a k t) (howner : owner < s.frames.size) (b : ℚ) :
    L.At s owner b k (t.bind owner L.accumulator (.number (.of b))) where
  rebinds := {
    size_le := by simpa using h.rebinds.size_le
    find? := fun i hi other => by
      rw [Store.find?_bind (howner.trans h.made), h.rebinds.find? i hi]
      split <;> rfl }
  counter other := by
    rw [Store.find?_bind (howner.trans h.made), if_neg (by omega), h.counter]
  made := by simpa using h.made

theorem At.bind_counter (h : L.At s owner a k t) (k' : ℕ) :
    L.At s owner a k' (t.bind s.frames.size L.counter (.number (.of (L.index k')))) where
  rebinds := {
    size_le := by simpa using h.rebinds.size_le
    find? := fun i hi other => by
      rw [Store.find?_bind h.made, if_neg (by omega), h.rebinds.find? i hi] }
  counter other := by
    rw [Store.find?_bind h.made, h.counter]
    by_cases hother : other = L.counter <;> simp [hother]
  made := by simpa using h.made

/-- Frames of a round, which bind nothing but the counter. -/
def Inside (L : Summation M) (s : Store (Exact M)) (k : ℕ) (inner : List Nat)
    (t : Store (Exact M)) : Prop :=
  ∀ j ∈ inner, s.frames.size < j ∧ j < t.frames.size ∧
    ∀ name v, (t.frame j).find? name = some v →
      name = L.counter ∧ v = .number (.of (L.index k))

theorem Inside.nil : L.Inside s k [] t := fun _ h => by cases h

theorem Inside.tail {j : Nat} {inner : List Nat} (h : L.Inside s k (j :: inner) t) :
    L.Inside s k inner t :=
  fun i hi => h i (List.mem_cons_of_mem _ hi)

theorem Inside.extend {inner : List Nat} (h : L.Inside s k inner t) (hAt : L.At s owner a k t)
    (env : Environment) : L.Inside s k (t.frames.size :: inner) (t.extend env).2 := by
  intro j hj
  rw [Store.size_extend]
  rcases List.mem_cons.1 hj with rfl | hj
  · refine ⟨hAt.made, Nat.lt_succ_self _, fun name v hv => ?_⟩
    rw [Store.frame_extend, Store.frame_of_le (Nat.le_refl _)] at hv
    cases hv
  · obtain ⟨hlt, hmade, hfind⟩ := h j hj
    refine ⟨hlt, hmade.trans (Nat.lt_succ_self _), fun name v hv => ?_⟩
    rw [Store.frame_extend] at hv
    exact hfind name v hv

theorem Inside.bind_before {inner : List Nat} (h : L.Inside s k inner t) {j : Nat}
    (hj : j ≤ s.frames.size) (hmade : j < t.frames.size) (name : String) (v : Value (Exact M)) :
    L.Inside s k inner (t.bind j name v) := by
  intro i hi
  obtain ⟨hlt, hsize, hfind⟩ := h i hi
  rw [Store.size_bind]
  refine ⟨hlt, hsize, fun other w hw => hfind other w ?_⟩
  rwa [Store.find?_bind hmade, if_neg (by omega)] at hw

theorem Inside.bind_counter {inner : List Nat} (h : L.Inside s k inner t) {j : Nat}
    (hj : j < t.frames.size) :
    L.Inside s k inner (t.bind j L.counter (.number (.of (L.index k)))) := by
  intro i hi
  obtain ⟨hlt, hmade, hfind⟩ := h i hi
  rw [Store.size_bind]
  refine ⟨hlt, hmade, fun name v hv => ?_⟩
  rw [Store.find?_bind hj] at hv
  split at hv
  · next heq =>
    cases hv
    exact ⟨heq.2, rfl⟩
  · exact hfind name v hv

end

/-! ### What a round sees -/

section

variable {s t : Store (Exact M)} {owner : Nat} {a : ℚ} {k : ℕ} {env : Environment}
  {inner : List Nat}

theorem Inside.lookup?_counter (h : L.Inside s k inner t) (hAt : L.At s owner a k t) :
    t.lookup? L.counter (inner ++ s.frames.size :: env) =
      some (.number (.of (L.index k))) := by
  induction inner with
  | nil => rw [List.nil_append, Store.lookup?, hAt.counter, if_pos rfl]
  | cons j inner ih =>
    rw [List.cons_append, Store.lookup?]
    cases hj : (t.frame j).find? L.counter with
    | none => exact ih fun i hi => h i (List.mem_cons_of_mem _ hi)
    | some v =>
      dsimp only
      rw [((h j (List.mem_cons_self ..)).2.2 _ v hj).2]

theorem Inside.find?_eq_none (h : L.Inside s k inner t) {name : String} (hname : name ≠ L.counter)
    {j : Nat} (hj : j ∈ inner) : (t.frame j).find? name = none := by
  cases hfind : (t.frame j).find? name with
  | none => rfl
  | some v => exact absurd ((h j hj).2.2 name v hfind).1 hname

theorem Inside.lookup?_outer (h : L.Inside s k inner t) (hAt : L.At s owner a k t) {name : String}
    (hname : name ≠ L.counter) :
    t.lookup? name (inner ++ s.frames.size :: env) = t.lookup? name env := by
  induction inner with
  | nil => rw [List.nil_append, Store.lookup?, hAt.counter, if_neg hname]
  | cons j inner ih =>
    rw [List.cons_append, Store.lookup?, h.find?_eq_none hname (List.mem_cons_self ..)]
    exact ih fun i hi => h i (List.mem_cons_of_mem _ hi)

theorem Inside.owner?_outer (h : L.Inside s k inner t) (hAt : L.At s owner a k t) {name : String}
    (hname : name ≠ L.counter) :
    t.owner? name (inner ++ s.frames.size :: env) = t.owner? name env := by
  induction inner with
  | nil =>
    rw [List.nil_append, Store.owner?, Bindings.contains, hAt.counter, if_neg hname]
    rfl
  | cons j inner ih =>
    rw [List.cons_append, Store.owner?, Bindings.contains,
      h.find?_eq_none hname (List.mem_cons_self ..)]
    exact ih fun i hi => h i (List.mem_cons_of_mem _ hi)

theorem At.owner?_accumulator (hAt : L.At s owner a k t) (henv : s.HasFrames env)
    (howner : s.owner? L.accumulator env = some owner) :
    t.owner? L.accumulator env = some owner := by
  obtain ⟨-, -, hcontains⟩ := Store.owner?_eq_some_iff howner
  rw [← howner]
  refine Store.owner?_congr fun j hj => ?_
  rw [Bindings.contains, Bindings.contains, hAt.rebinds.find? j (henv j hj)]
  split
  · next heq =>
    rw [heq.1]
    exact hcontains.symm
  · rfl

theorem At.lookup?_accumulator (hAt : L.At s owner a k t) (henv : s.HasFrames env)
    (howner : s.owner? L.accumulator env = some owner) :
    t.lookup? L.accumulator env = some (.number (.of a)) := by
  obtain ⟨hmem, hlookup, -⟩ := Store.owner?_eq_some_iff (hAt.owner?_accumulator henv howner)
  rw [hlookup, hAt.rebinds.find? owner (henv owner hmem), if_pos ⟨rfl, rfl⟩]

theorem At.lookup?_before (hAt : L.At s owner a k t) (henv : s.HasFrames env) {name : String}
    (hname : name ≠ L.accumulator) : t.lookup? name env = s.lookup? name env :=
  Store.lookup?_congr fun j hj => by
    rw [hAt.rebinds.find? j (henv j hj), if_neg fun heq => hname heq.2]

theorem Inside.holdsIn_names (h : L.Inside s k inner t) (hAt : L.At s owner a k t)
    (henv : s.HasFrames env) {ν : Literals M} (hν : ν.HoldsIn s env) :
    (L.names ν k).HoldsIn t (inner ++ s.frames.size :: env) := by
  intro name l hl
  rw [names] at hl
  split at hl
  · next hcounter =>
    cases hl
    rw [hcounter, h.lookup?_counter hAt]
    rfl
  · next hcounter =>
    obtain ⟨haccumulator, hl⟩ := Option.ite_none_left_eq_some.1 hl
    rw [h.lookup?_outer hAt hcounter, hAt.lookup?_before henv haccumulator, hν name l hl]

end

/-! ### The steps of a round -/

/-- Wherever it stands in a round, the expression gives the number and changes nothing that was
bound. -/
def Gives (L : Summation M) (call : Caller (Exact M)) (s : Store (Exact M)) (owner : Nat)
    (env : Environment) (k : ℕ) (a : ℚ) (e : Expression (Exact M)) (q : ℚ) : Prop :=
  ∀ t inner, L.At s owner a k t → L.Inside s k inner t →
    ∃ t', (e.evaluate call (inner ++ s.frames.size :: env)).outcome t =
        (.ok (.number (.of q)), t') ∧
      L.At s owner a k t' ∧ L.Inside s k inner t'

/-- Wherever it stands in a round, the expression changes the variable to the number. -/
def Takes (L : Summation M) (call : Caller (Exact M)) (s : Store (Exact M)) (owner : Nat)
    (env : Environment) (k : ℕ) (a : ℚ) (e : Expression (Exact M)) (b : ℚ) : Prop :=
  ∀ t inner, L.At s owner a k t → L.Inside s k inner t →
    ∃ v t', (e.evaluate call (inner ++ s.frames.size :: env)).outcome t = (.ok v, t') ∧
      L.At s owner b k t' ∧ L.Inside s k inner t'

/-- The variable runs through the values, one before each round, and the loop ends at the first
round that its bound does not have. -/
structure Course (L : Summation M) (call : Caller (Exact M)) (s : Store (Exact M)) (owner : Nat)
    (env : Environment) (bound e : Expression (Exact M)) (values : ℕ → ℚ) (n : ℕ) : Prop where
  test : ∀ k ≤ n, ∃ b, L.Gives call s owner env k (values k) bound b ∧ (L.HasRound k b ↔ k < n)
  round : ∀ k < n, L.Takes call s owner env k (values k) e (values (k + 1))

section

variable {s t : Store (Exact M)} {owner : Nat} {env : Environment} {k : ℕ} {a b : ℚ}
  {inner : List Nat} {e : Expression (Exact M)} (call : Caller (Exact M))

theorem Takes.body (he : L.Takes call s owner env k a e b) (hAt : L.At s owner a k t)
    (hinner : L.Inside s k inner t) {body : Statement (Exact M)}
    (hbody : Accumulation.bodyExpression? body = some e) (patience : Nat) :
    ∃ t', (do
        let env' ← Run.enter (inner ++ s.frames.size :: env) [body]
        body.execute patience call env' : Run (Exact M) (Completion (Exact M))).outcome t =
      (.ok .normal, t') ∧ L.At s owner b k t' ∧ L.Inside s k inner t' := by
  have hAt₁ := hAt.extend (inner ++ s.frames.size :: env)
  have hinner₁ := hinner.extend hAt (inner ++ s.frames.size :: env)
  unfold Accumulation.bodyExpression? at hbody
  split at hbody
  · cases hbody
    obtain ⟨v, t', hv, hAt', hinner'⟩ := he _ (_ :: inner) hAt₁ hinner₁
    refine ⟨t', ?_, hAt', hinner'.tail⟩
    refine Run.bind_ok.2 ⟨_, _, Run.outcome_enter rfl _ _, ?_⟩
    exact Run.bind_ok.2 ⟨v, _, hv, rfl⟩
  · cases hbody
    have hAt₂ := hAt₁.extend (t.frames.size :: (inner ++ s.frames.size :: env))
    have hinner₂ := hinner₁.extend hAt₁ (t.frames.size :: (inner ++ s.frames.size :: env))
    obtain ⟨v, t', hv, hAt', hinner'⟩ := he _ (_ :: _ :: inner) hAt₂ hinner₂
    refine ⟨t', ?_, hAt', hinner'.tail.tail⟩
    refine Run.bind_ok.2 ⟨_, _, Run.outcome_enter rfl _ _, ?_⟩
    refine Run.bind_ok.2 ⟨_, _, Run.outcome_enter rfl _ _, ?_⟩
    refine Run.bind_ok.2 ⟨.normal, _, ?_, rfl⟩
    exact Run.bind_ok.2 ⟨v, _, hv, rfl⟩
  · cases hbody

theorem At.owner?_counter (hAt : L.At s owner a k t) :
    t.owner? L.counter (s.frames.size :: env) = some s.frames.size := by
  rw [Store.owner?, Bindings.contains, hAt.counter, if_pos rfl]
  rfl

theorem At.lookup?_counter (hAt : L.At s owner a k t) :
    t.lookup? L.counter (s.frames.size :: env) = some (.number (.of (L.index k))) :=
  Inside.nil.lookup?_counter hAt

theorem At.counts (hAt : L.At s owner a k t) {u : Expression (Exact M)} (hu : L.Counts u) :
    ∃ v, (u.evaluate call (s.frames.size :: env)).outcome t =
      (.ok v, t.bind s.frames.size L.counter (.number (.of (L.index (k + 1))))) := by
  have hread : (Run.read (s.frames.size :: env) L.counter).outcome t =
      (.ok (.number (.of (L.index k))), t) := Run.outcome_read_of_lookup hAt.lookup?_counter
  have hassign (v : Value (Exact M)) : (Run.assign (s.frames.size :: env) L.counter v).outcome t =
      (.ok (), t.bind s.frames.size L.counter v) :=
    Run.outcome_assign_of_owner hAt.owner?_counter v
  have hnext : Numeric.add (.of (L.index k) : Exact M) Numeric.one = .of (L.index (k + 1)) := by
    rw [Exact.one_eq, Exact.add_of, index_succ]
  rw [← hnext]
  cases hu with
  | step isBefore =>
    rw [Expression.evaluate]
    exact ⟨_, Run.bind_ok.2 ⟨_, t, hread, Run.bind_ok.2 ⟨(), _, hassign _, rfl⟩⟩⟩
  | add =>
    rw [Expression.evaluate]
    exact ⟨_, Run.bind_ok.2 ⟨_, t, rfl, Run.bind_ok.2 ⟨_, t, hread,
      Run.bind_ok.2 ⟨_, t, rfl, Run.bind_ok.2 ⟨(), _, hassign _, rfl⟩⟩⟩⟩⟩
  | assign =>
    have hvalue : ((Expression.binary .add (.identifier L.counter)
        (.number Numeric.one)).evaluate call (s.frames.size :: env)).outcome t =
          (.ok (.number (Numeric.add (.of (L.index k)) Numeric.one)), t) := by
      rw [Expression.evaluate, Expression.evaluate]
      exact Run.bind_ok.2 ⟨_, t, hread, Run.bind_ok.2 ⟨_, t, rfl, rfl⟩⟩
    rw [Expression.evaluate]
    exact ⟨_, Run.bind_ok.2 ⟨_, t, hvalue,
      Run.bind_ok.2 ⟨_, t, rfl, Run.bind_ok.2 ⟨(), _, hassign _, rfl⟩⟩⟩⟩

theorem At.holds_of_gives (hAt : L.At s owner a k t) (he : L.Gives call s owner env k a e b) :
    ∃ t', (Run.holds call (s.frames.size :: env) (some (L.testing e))).outcome t =
        (.ok (decide (L.HasRound k b)), t') ∧ L.At s owner a k t' := by
  have hread : (Run.read (s.frames.size :: env) L.counter).outcome t =
      (.ok (.number (.of (L.index k))), t) := Run.outcome_read_of_lookup hAt.lookup?_counter
  obtain ⟨t', ht', hAt', -⟩ := he t [] hAt .nil
  refine ⟨t', Run.bind_ok.2 ⟨.boolean (decide (L.HasRound k b)), t', ?_, rfl⟩, hAt'⟩
  rw [testing, Expression.evaluate, Expression.evaluate]
  refine Run.bind_ok.2 ⟨_, t, hread, Run.bind_ok.2 ⟨_, t', ht', ?_⟩⟩
  have hcompare : (if L.isInclusive = true then Numeric.le (.of (L.index k) : Exact M) (.of b)
      else Numeric.lt (.of (L.index k) : Exact M) (.of b)) = decide (L.HasRound k b) := by
    unfold HasRound
    split
    · exact Exact.le_of ..
    · exact Exact.lt_of ..
  rw [← hcompare]
  cases L.isInclusive <;> rfl

theorem Takes.round (he : L.Takes call s owner env k a e b)
    (hAt : L.At s owner a k t) {u : Expression (Exact M)} (hu : L.Counts u)
    {body : Statement (Exact M)} (hbody : Accumulation.bodyExpression? body = some e)
    (patience : Nat) :
    ∃ t', (Run.round call (s.frames.size :: env) (some L.counter) (some u) fun iteration => do
        let inner ← Run.enter iteration [body]
        body.execute patience call inner).outcome t = (.ok .normal, t') ∧
      L.At s owner b (k + 1) t' := by
  have hAt₁ := hAt.extend (s.frames.size :: env)
  have hinner₁ := Inside.nil.extend hAt (s.frames.size :: env)
  have hmade : t.frames.size < (t.extend (s.frames.size :: env)).2.frames.size := by simp
  have hAt₂ := hAt₁.bind_inner hAt.made hmade L.counter (.number (.of (L.index k)))
  have hinner₂ := hinner₁.bind_counter hmade
  obtain ⟨t₃, ht₃, hAt₃, hinner₃⟩ := he.body call hAt₂ hinner₂ hbody patience
  have hAt₄ := hAt₃.bind_counter k
  have hcopyIn : (Run.copyIn (s.frames.size :: env) (t.frames.size :: s.frames.size :: env)
      (some L.counter)).outcome (t.extend (s.frames.size :: env)).2 =
        (.ok (), (t.extend (s.frames.size :: env)).2.bind t.frames.size L.counter
          (.number (.of (L.index k)))) := by
    rw [Run.outcome_copyIn, hAt₁.lookup?_counter]
    rfl
  have hcopyOut : (Run.copyOut ([t.frames.size] ++ s.frames.size :: env) (s.frames.size :: env)
      (some L.counter)).outcome t₃ =
        (.ok (), t₃.bind s.frames.size L.counter (.number (.of (L.index k)))) := by
    rw [Run.outcome_copyOut, hinner₃.lookup?_counter hAt₃]
    exact Run.outcome_assign_of_owner hAt₃.owner?_counter _
  obtain ⟨v, hv⟩ := hAt₄.counts call hu
  refine ⟨_, ?_, hAt₄.bind_counter (k + 1)⟩
  refine Run.bind_ok.2 ⟨_, _, Run.outcome_extend _ _, ?_⟩
  refine Run.bind_ok.2 ⟨(), _, hcopyIn, ?_⟩
  refine Run.bind_ok.2 ⟨.normal, t₃, ht₃, ?_⟩
  refine Run.bind_ok.2 ⟨(), _, hcopyOut, ?_⟩
  exact Run.bind_ok.2 ⟨(), _, Run.bind_ok.2 ⟨v, _, hv, rfl⟩, rfl⟩

theorem Course.rounds {bound : Expression (Exact M)} {values : ℕ → ℚ} {n : ℕ}
    (h : L.Course call s owner env bound e values n) {u : Expression (Exact M)} (hu : L.Counts u)
    {body : Statement (Exact M)} (hbody : Accumulation.bodyExpression? body = some e) (within : Nat)
    (m : ℕ) {patience : Nat} (hm : k + m = n) (hpatience : m < patience)
    (hAt : L.At s owner (values k) k t) :
    ∃ t', (Run.rounds (Run.holds call (s.frames.size :: env) (some (L.testing bound)))
        (Run.round call (s.frames.size :: env) (some L.counter) (some u) fun iteration => do
          let inner ← Run.enter iteration [body]
          body.execute within call inner) patience).outcome t = (.ok .normal, t') ∧
      L.At s owner (values n) n t' := by
  induction m generalizing k t patience with
  | zero =>
    obtain ⟨patience, rfl⟩ := Nat.exists_eq_succ_of_ne_zero (Nat.ne_zero_of_lt hpatience)
    obtain rfl : k = n := hm
    obtain ⟨b, hb, hround⟩ := h.test k le_rfl
    obtain ⟨t', ht', hAt'⟩ := hAt.holds_of_gives call hb
    refine ⟨t', Run.bind_ok.2 ⟨_, t', ht', ?_⟩, hAt'⟩
    rw [decide_eq_false fun hk => Nat.lt_irrefl _ (hround.1 hk)]
    rfl
  | succ m ih =>
    obtain ⟨patience, rfl⟩ := Nat.exists_eq_succ_of_ne_zero (Nat.ne_zero_of_lt hpatience)
    have hk : k < n := by omega
    obtain ⟨b, hb, hround⟩ := h.test k hk.le
    obtain ⟨t₁, ht₁, hAt₁⟩ := hAt.holds_of_gives call hb
    obtain ⟨t₂, ht₂, hAt₂⟩ := (h.round k hk).round call hAt₁ hu hbody within
    obtain ⟨t', ht', hAt'⟩ := ih (by omega) (Nat.lt_of_succ_lt_succ hpatience) hAt₂
    refine ⟨t', Run.bind_ok.2 ⟨_, t₁, ht₁, ?_⟩, hAt'⟩
    rw [decide_eq_true (hround.2 hk), if_pos rfl]
    exact Run.bind_ok.2 ⟨.normal, t₂, ht₂, ht'⟩

end

/-! ### The course of a loop -/

/-- Before the loop, names stand for the same in a run as to the specializer, for arguments that
are not negative. -/
structure Agrees (L : Summation M) (current : Expression (Exact M))
    (μ : String → Expression (Exact M)) (ρ : Valuation) (ν : Literals M) (c : ℚ)
    (s : Store (Exact M)) (env : Environment) (owner : Nat) : Prop where
  nonneg : ∀ name q, ρ name = some q → 0 ≤ q
  current : (ofNames ρ.names).denote current = some (.number c)
  denotes : ρ.Denotes ν μ
  frames : s.HasFrames env
  binds : ν.HoldsIn s env
  owner : s.owner? L.accumulator env = some owner
  value : s.lookup? L.accumulator env = some (.number (.of c))

section

variable {current : Expression (Exact M)} {μ : String → Expression (Exact M)} {ρ : Valuation}
  {ν : Literals M} {c a q : ℚ} {s t : Store (Exact M)} {env : Environment} {owner k : ℕ}
  {inner : List Nat} (hs : L.Agrees current μ ρ ν c s env owner) (call : Caller (Exact M))

include hs

theorem Agrees.owner_lt : owner < s.frames.size :=
  hs.frames owner (Store.owner?_eq_some_iff hs.owner).1

theorem Agrees.gives_term (hterm : (ofNames (L.names ν k)).denote L.term = some (.number q)) :
    L.Gives call s owner env k a L.term q := by
  intro t inner hAt hinner
  obtain ⟨l, hl, hvalue⟩ := Expression.evaluate_of_denote call
    (hinner.holdsIn_names hAt hs.frames hs.binds) L.term hterm
  cases hl
  exact ⟨t, hvalue, hAt, hinner⟩

theorem Agrees.read_accumulator (hAt : L.At s owner a k t) (hinner : L.Inside s k inner t) :
    (Run.read (inner ++ s.frames.size :: env) L.accumulator).outcome t =
      (.ok (.number (.of a)), t) := by
  refine Run.outcome_read_of_lookup ?_
  rw [hinner.lookup?_outer hAt L.distinct, hAt.lookup?_accumulator hs.frames hs.owner]

theorem Agrees.assign_accumulator (hAt : L.At s owner a k t) (hinner : L.Inside s k inner t)
    (b : ℚ) :
    (Run.assign (inner ++ s.frames.size :: env) L.accumulator (.number (.of b))).outcome t =
        (.ok (), t.bind owner L.accumulator (.number (.of b))) ∧
      L.At s owner b k (t.bind owner L.accumulator (.number (.of b))) ∧
      L.Inside s k inner (t.bind owner L.accumulator (.number (.of b))) := by
  refine ⟨Run.outcome_assign_of_owner ?_ _, hAt.bind_accumulator hs.owner_lt b,
    hinner.bind_before hs.owner_lt.le (hs.owner_lt.trans hAt.made) _ _⟩
  rw [hinner.owner?_outer hAt L.distinct, hAt.owner?_accumulator hs.frames hs.owner]

theorem Agrees.takes_addAssign {e : Expression (Exact M)} (he : L.Gives call s owner env k a e q) :
    L.Takes call s owner env k a (.assignment .addAssign L.accumulator e) (a + q) := by
  intro t inner hAt hinner
  obtain ⟨t₁, hvalue, hAt₁, hinner₁⟩ := he t inner hAt hinner
  have hread := hs.read_accumulator hAt₁ hinner₁
  obtain ⟨hassign, hAt₂, hinner₂⟩ := hs.assign_accumulator hAt₁ hinner₁ (a + q)
  refine ⟨.number (.of (a + q)), _, ?_, hAt₂, hinner₂⟩
  rw [Expression.evaluate]
  refine Run.bind_ok.2 ⟨_, t₁, hvalue, ?_⟩
  refine Run.bind_ok.2 ⟨_, t₁, hread, Run.bind_ok.2 ⟨_, t₁, rfl, ?_⟩⟩
  exact Run.bind_ok.2 ⟨(), _, hassign, rfl⟩

theorem Agrees.takes_assign {e : Expression (Exact M)} (he : L.Gives call s owner env k a e q) :
    L.Takes call s owner env k a
      (.assignment .assign L.accumulator (.binary .add (.identifier L.accumulator) e))
      (a + q) := by
  intro t inner hAt hinner
  have hread := hs.read_accumulator hAt hinner
  obtain ⟨t₁, hvalue, hAt₁, hinner₁⟩ := he t inner hAt hinner
  obtain ⟨hassign, hAt₂, hinner₂⟩ := hs.assign_accumulator hAt₁ hinner₁ (a + q)
  refine ⟨.number (.of (a + q)), _, ?_, hAt₂, hinner₂⟩
  rw [Expression.evaluate]
  refine Run.bind_ok.2 ⟨.number (.of (a + q)), t₁, ?_, ?_⟩
  · rw [Expression.evaluate, Expression.evaluate]
    exact Run.bind_ok.2 ⟨_, t, hread, Run.bind_ok.2 ⟨_, t₁, hvalue, rfl⟩⟩
  · exact Run.bind_ok.2 ⟨_, t₁, rfl, Run.bind_ok.2 ⟨(), _, hassign, rfl⟩⟩

theorem Agrees.takes_adds (hterm : (ofNames (L.names ν k)).denote L.term = some (.number q))
    {e : Expression (Exact M)} (he : L.Adds e) : L.Takes call s owner env k a e (a + q) := by
  cases he with
  | add => exact hs.takes_addAssign call (hs.gives_term call hterm)
  | assign _ => exact hs.takes_assign call (hs.gives_term call hterm)

theorem Agrees.begin :
    ∃ t, (L.begin.run call (s.frames.size :: env)).outcome (s.extend env).2 =
        (.ok (some L.counter), t) ∧ L.At s owner c 0 t := by
  have hmade : s.frames.size < (s.extend env).2.frames.size := by simp
  refine ⟨(s.extend env).2.bind s.frames.size L.counter (.number (.of L.start)), ?_, ?_⟩
  · exact Run.bind_ok.2 ⟨(), _, Run.bind_ok.2 ⟨_, _, rfl, rfl⟩, rfl⟩
  · refine ⟨⟨by simp, fun j hj other => ?_⟩, fun other => ?_, by simp⟩
    · rw [Store.find?_bind hmade, if_neg (by omega), Store.frame_extend]
      split
      · next heq =>
        rw [heq.1, heq.2, ← hs.value, (Store.owner?_eq_some_iff hs.owner).2.1]
      · rfl
    · rw [Store.find?_bind hmade, Store.frame_extend, Store.frame_of_le (Nat.le_refl _), index_zero]
      by_cases hother : other = L.counter <;> simp [hother]

/-- A run of a loop takes the variable to its last value. -/
theorem Agrees.loop {bound e : Expression (Exact M)} {values : ℕ → ℚ} {n : ℕ}
    (h : L.Course call s owner env bound e values n) (hzero : values 0 = c)
    {u : Expression (Exact M)} (hu : L.Counts u) {body : Statement (Exact M)}
    (hbody : Accumulation.bodyExpression? body = some e) {patience : Nat}
    (hpatience : n < patience) :
    ∃ t, ((Statement.loop L.begin (some (L.testing bound)) (some u) body).execute patience call
        env).outcome s = (.ok .normal, t) ∧
      s.Rebinds owner L.accumulator (.number (.of (values n))) t := by
  obtain ⟨t₀, ht₀, hAt₀⟩ := hs.begin call
  rw [← hzero] at hAt₀
  obtain ⟨t, ht, hAt⟩ := h.rounds call hu hbody patience n (Nat.zero_add _) hpatience hAt₀
  refine ⟨t, ?_, hAt.rebinds⟩
  rw [Statement.execute]
  refine Run.bind_ok.2 ⟨_, _, Run.outcome_extend env s, ?_⟩
  exact Run.bind_ok.2 ⟨_, t₀, ht₀, ht⟩

/-- A run of the loop of a sum adds the terms one by one. -/
theorem Agrees.course {terms : ℕ → ℚ} (hterms : L.HasTerms ν terms) {e : Expression (Exact M)}
    (he : L.Adds e) :
    L.Course call s owner env (.number (.of L.bound)) e
      (fun k => c + ∑ i ∈ Finset.range k, terms i) L.rounds where
  test k _ := ⟨L.bound, fun t _ hAt hinner => ⟨t, rfl, hAt, hinner⟩, L.hasRound_bound_iff k⟩
  round k hk := by
    rw [Finset.sum_range_succ, ← add_assoc]
    exact hs.takes_adds call (hterms k hk) he

end

/-! ## Unrolled loops and their runs -/

/-- The loop of a sum is unrolled exactly if its rounds are within the limit, and then changes the
variable and nothing else that was bound before. What the variable holds is what a run of the loop
leaves in it, where names stand for the same before the loop and the arguments are not negative. -/
theorem unrolled_loop_agrees (residual : List Builtin) (reduce : Reducer (Exact M))
    {floors : Floors} {scope owner : Nat} {current : Expression (Exact M)}
    {μ : String → Expression (Exact M)} {σ : Scopes (Exact M)}
    (h : L.Stands σ floors scope owner current μ) {u : Expression (Exact M)} (hu : L.Counts u)
    {body : Statement (Exact M)} (hbody : L.IsBody body) (limit : Nat) :
    (limit < L.rounds →
      (Inlining.loop (Expression.inline residual reduce floors) limit floors scope L.begin
        (some L.test) (some u) body).run σ = .error (.loop (.tooLong L.counter limit))) ∧
    (L.rounds ≤ limit → ∃ σ',
      (Inlining.loop (Expression.inline residual reduce floors) limit floors scope L.begin
        (some L.test) (some u) body).run σ = .ok ((), σ') ∧
      Rebinds owner L.accumulator (L.held μ current) σ σ' ∧
      (L.rounds = 0 → L.held μ current = current)) ∧
    ∀ ρ ν c s env place terms, L.Agrees current μ ρ ν c s env place → L.HasTerms ν terms →
      (∀ call patience, L.rounds < patience → ∃ t,
        ((Statement.loop L.begin (some L.test) (some u) body).execute patience call env).outcome s =
          (.ok .normal, t) ∧
        s.Rebinds place L.accumulator
          (.number (.of (c + ∑ k ∈ Finset.range L.rounds, terms k))) t) ∧
      ∀ call env t, (∀ name q, ρ name = some q → t.lookup? name env = some (.number (.of q))) →
        ((L.held μ current).evaluate call env).outcome t =
          (.ok (.number (.of (c + ∑ k ∈ Finset.range L.rounds, terms k))), t) := by
  obtain ⟨hwithin, hbeyond⟩ := loop_run residual reduce h hu hbody limit
  refine ⟨hbeyond, fun hrounds => ?_, fun ρ ν c s env place terms hs hterms => ⟨?_, ?_⟩⟩
  · obtain ⟨σ', hσ', hrun⟩ := hwithin hrounds
    refine ⟨σ', hrun, hσ', fun hzero => ?_⟩
    rw [held, hzero]
    rfl
  · intro call patience hpatience
    obtain ⟨e, he, hadds⟩ := L.exists_adds_of_isBody hbody
    exact hs.loop call (hs.course call hterms hadds) (by simp) hu he hpatience
  · intro call env t ht
    have hnames : ρ.names.HoldsIn t env := by
      intro name l hl
      obtain ⟨q, hq, rfl⟩ := Option.map_eq_some_iff.1 hl
      exact ht name q hq
    obtain ⟨l, hl, hvalue⟩ := Expression.evaluate_of_denote call hnames (L.held μ current)
      (denote_held hs.nonneg hs.denotes hterms hs.current)
    cases hl
    exact hvalue

def multiples : Summation .zero where
  counter := "i"
  start := 0
  bound := 3
  isInclusive := false
  accumulator := "acc"
  term := .binary .multiply (.identifier "i") (.identifier "t")
  distinct := by decide
  arithmetic := rfl
  independent := by decide

/-- The variable `acc` with the value one, in a function with the parameter `t`. -/
def oneSum : Scopes (Exact .zero) :=
  let (root, scopes) := (Scopes.empty []).root .closure "wave"
  let (block, scopes) := (scopes.defineParameters root ["t"]).child root .block
  scopes.define block "acc" (.mutable (.number (.of 1)))

def oneSumStore : Store (Exact .zero) :=
  (((Store.empty.extend []).2.bind 0 "t" (.number (.of 2))).extend [0]).2.bind 1 "acc"
    (.number (.of 1))

def two : Valuation := fun name => if name = "t" then some 2 else none

theorem multiples_stands :
    multiples.Stands oneSum ⟨0, 0⟩ 1 1 (.number (.of 1)) .identifier where
  place := by
    unfold Scopes.HasPlace
    decide
  writable := rfl
  floor := by decide
  reads name hname hcounter := by
    have hor : "i" = name ∨ "t" = name := by
      simpa [multiples, Expression.references] using hname
    obtain rfl := hor.resolve_left (Ne.symm hcounter)
    rfl

theorem multiples_agrees :
    multiples.Agrees (.number (.of 1)) .identifier two two.names 1 oneSumStore [1, 0] 1 := by
  have htwo (name : String) (q : ℚ) (h : two name = some q) : name = "t" ∧ q = 2 := by
    obtain ⟨hname, hq⟩ := Option.ite_none_right_eq_some.1 h
    exact ⟨hname, (Option.some.inj hq).symm⟩
  have hnames (name : String) (l : Literal (Exact .zero)) (h : two.names name = some l) :
      name = "t" ∧ l = .number (.of 2) := by
    obtain ⟨q, hq, rfl⟩ := Option.map_eq_some_iff.1 h
    obtain ⟨hname, rfl⟩ := htwo name q hq
    exact ⟨hname, rfl⟩
  exact {
    nonneg := fun name q h => by
      obtain ⟨-, rfl⟩ := htwo name q h
      norm_num
    current := rfl
    denotes := fun name l h => by
      obtain ⟨rfl, rfl⟩ := hnames name l h
      rfl
    frames := by
      unfold Store.HasFrames
      decide
    binds := fun name l h => by
      obtain ⟨rfl, rfl⟩ := hnames name l h
      rfl
    owner := rfl
    value := rfl }

theorem multiples_rounds : multiples.rounds = 3 := by
  norm_num [rounds, multiples]
  rfl

theorem multiples_unrolled :
    (∃ σ', (Inlining.loop (Expression.inline [] (fun _ _ _ _ _ => throw .conditionalResult)
        ⟨0, 0⟩) 64 ⟨0, 0⟩ 1 multiples.begin (some multiples.test)
        (some (.update .increment false "i"))
        (.expression (.assignment .addAssign "acc" multiples.term))).run oneSum = .ok ((), σ') ∧
      Rebinds 1 "acc" (multiples.held .identifier (.number (.of 1))) oneSum σ') ∧
    (∃ t, ((Statement.loop multiples.begin (some multiples.test)
        (some (.update .increment false "i"))
        (.expression (.assignment .addAssign "acc" multiples.term))).execute 4
          (fun _ _ => throw .exhausted) [1, 0]).outcome oneSumStore = (.ok .normal, t) ∧
      oneSumStore.Rebinds 1 "acc" (.number (.of 7)) t) ∧
    ((multiples.held .identifier (.number (.of 1))).evaluate (fun _ _ => throw .exhausted)
      [1, 0]).outcome oneSumStore = (.ok (.number (.of 7)), oneSumStore) := by
  have hterms : multiples.HasTerms two.names fun k => (0 + k) * 2 := fun k _ => rfl
  have htotal : (1 : ℚ) + ∑ k ∈ Finset.range multiples.rounds, (0 + (k : ℚ)) * 2 = 7 := by
    rw [multiples_rounds]
    norm_num [Finset.sum_range_succ]
  have hunrolled := unrolled_loop_agrees (L := multiples) []
    (fun _ _ _ _ _ => throw .conditionalResult) multiples_stands (.step false) (.bare .add) 64
  obtain ⟨-, hwithin, hagrees⟩ := hunrolled
  obtain ⟨σ', hrun, hrebinds, -⟩ := hwithin (by rw [multiples_rounds]; decide)
  obtain ⟨hexecute, hevaluate⟩ := hagrees _ _ _ _ _ _ _ multiples_agrees hterms
  rw [htotal] at hexecute hevaluate
  refine ⟨⟨σ', hrun, hrebinds⟩, hexecute _ 4 (by rw [multiples_rounds]; decide), hevaluate _ _ _ ?_⟩
  intro name q h
  obtain ⟨rfl, hq⟩ := Option.ite_none_right_eq_some.1 h
  cases hq
  rfl

def counting : Summation .zero where
  __ := multiples
  term := .number Numeric.one
  arithmetic := rfl
  independent := rfl

/-- A variable that is assigned itself and one is taken for one that is stepped, so that its loop is
rejected, while the loop that adds one to it is not. -/
theorem counting_rejected :
    counting.rounds ≤ 64 ∧
    (Inlining.loop (Expression.inline [] (fun _ _ _ _ _ => throw .conditionalResult)
        ⟨0, 0⟩) 64 ⟨0, 0⟩ 1 counting.begin (some counting.test)
        (some (.update .increment false "i"))
        (.expression (.assignment .assign "acc"
          (.binary .add (.identifier "acc") counting.term)))).run oneSum =
      .error (.loop .noAccumulation) ∧
    ∃ σ', (Inlining.loop (Expression.inline [] (fun _ _ _ _ _ => throw .conditionalResult)
        ⟨0, 0⟩) 64 ⟨0, 0⟩ 1 counting.begin (some counting.test)
        (some (.update .increment false "i"))
        (.expression (.assignment .addAssign "acc" counting.term))).run oneSum = .ok ((), σ') := by
  have hrounds : counting.rounds = 3 := multiples_rounds
  have hstands : counting.Stands oneSum ⟨0, 0⟩ 1 1 (.number (.of 1)) .identifier :=
    ⟨multiples_stands.place, rfl, by decide, fun name h => by cases h⟩
  have hwithin : counting.rounds ≤ 64 := by
    rw [hrounds]
    decide
  obtain ⟨σ', -, hrun⟩ := (loop_run [] (fun _ _ _ _ _ => throw .conditionalResult) hstands
    (.step false) (.bare .add) 64).1 hwithin
  exact ⟨hwithin, rfl, σ', hrun⟩

end Summation

end Waveform
