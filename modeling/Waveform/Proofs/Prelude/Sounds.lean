import Waveform.Proofs.Prelude.Functions

/-!
# Sounds

A sound is a pair of a wave and a duration. `Sound.sequence` and `Sound.mixture` say what becomes of
sounds that are played one after the other or all at once, and the functions of the prelude make
such sounds out of a list. A wave is a function that can be called at any later time, so what it
needs must not change: the names that a function binds after its sounds have been put together are
the ones that no wave reads.
-/

namespace Waveform

namespace Prelude

/-- How long a sound takes, and how strong it is at every time. -/
structure Sound where
  duration : ℚ
  wave : ℚ → ℚ

namespace Sound

/-- When the first sounds of a list are over that are played one after the other. -/
def endOf (xs : List Sound) (n : Nat) : ℚ :=
  ((xs.take n).map duration).sum

/-- The sounds one after the other. At every time the first sound is heard that is not over. -/
def sequence (xs : List Sound) : Sound where
  duration := (xs.map duration).sum
  wave t :=
    match (List.range xs.length).find? fun k => t < endOf xs (k + 1) with
    | some k => (xs[k]?.map fun x => x.wave (t - endOf xs k)).getD 0
    | none => 0

/-- The sounds all at once, with their strength divided by their number. -/
def mixture (xs : List Sound) : Sound where
  duration := (xs.map duration).max?.getD 0
  wave t := (xs.map fun x => x.wave t).sum / xs.length

def silence : Sound := ⟨0, fun _ => 0⟩

theorem endOf_zero (xs : List Sound) : endOf xs 0 = 0 := rfl

theorem endOf_cons (x : Sound) (xs : List Sound) (n : Nat) :
    endOf (x :: xs) (n + 1) = x.duration + endOf xs n := by
  rw [endOf, List.take_succ_cons, List.map_cons, List.sum_cons]
  rfl

theorem sequence_nil : sequence [] = silence := rfl

theorem sequence_cons (x : Sound) (xs : List Sound) :
    sequence (x :: xs) = ⟨x.duration + (sequence xs).duration, fun t =>
      if t < x.duration then x.wave t else (sequence xs).wave (t - x.duration)⟩ := by
  rw [sequence, Sound.mk.injEq]
  constructor
  · rw [List.map_cons, List.sum_cons]
    rfl
  funext t
  rw [List.length_cons, List.range_succ_eq_map, List.find?_cons, endOf_cons, endOf_zero, add_zero]
  by_cases h : t < x.duration
  · simp [h, endOf_zero]
  · have hlater (k : Nat) :
        t < endOf (x :: xs) (k + 1 + 1) ↔ t - x.duration < endOf xs (k + 1) := by
      rw [endOf_cons, sub_lt_iff_lt_add']
    simp only [h, decide_false, if_false, List.find?_map, Function.comp_def, Nat.succ_eq_add_one,
      hlater, sequence]
    cases (List.range xs.length).find? fun k => decide (t - x.duration < endOf xs (k + 1)) with
    | none => rfl
    | some k => simp only [Option.map_some, List.getElem?_cons_succ, endOf_cons, sub_sub]

/-- The sounds all at once, as strong as they are together, for no less than no time. -/
def together (xs : List Sound) : Sound where
  duration := (xs.map duration).foldr max 0
  wave t := (xs.map fun x => x.wave t).sum

theorem together_nil : together [] = silence := rfl

theorem together_cons (x : Sound) (xs : List Sound) :
    together (x :: xs) = ⟨max x.duration (together xs).duration,
      fun t => x.wave t + (together xs).wave t⟩ := rfl

/-- Where no duration is negative, the longest one is no less than no time. -/
theorem duration_mixture {xs : List Sound} (h : ∀ x ∈ xs, 0 ≤ x.duration) :
    (mixture xs).duration = (together xs).duration := by
  induction xs with
  | nil => rfl
  | cons x xs ih =>
    have hrest := ih fun y hy => h y (List.mem_cons_of_mem x hy)
    have hx := h x (List.mem_cons_self ..)
    rw [together_cons, ← hrest]
    simp only [mixture, List.map_cons, List.max?_cons]
    cases (xs.map duration).max? with
    | none => simp [hx]
    | some d => rfl

end Sound

variable {M : Mathematics} {identity : String → Nat} {s t : Store (Exact M)}
  {v w : Value (Exact M)} {free : Set (Nat × String)} {f : ℚ → ℚ} {x : Sound} {xs : List Sound}

/-! ## Waves -/

def amount (q : ℚ) : Value (Exact M) :=
  .number (.of q)

/-- The value can be called with every number as long as nothing changes but the free names. It
comes to a number and changes nothing. -/
def Plays (free : Set (Nat × String)) (s : Store (Exact M)) (v : Value (Exact M))
    (f : ℚ → ℚ) : Prop :=
  ∀ t, s.Extends free t → ∀ q, Run.Returns v [amount q] t fun w _ => w = amount (f q)

namespace Plays

theorem later (h : Plays free s v f) (hst : s.Extends ∅ t) : Plays free t v f :=
  fun u htu => h u ((hst.widen free).trans htu)

theorem narrow (h : Plays ∅ s v f) (hst : s.Extends ∅ t)
    (hfree : ∀ p ∈ free, s.frames.size ≤ p.1) : Plays free t v f :=
  fun u htu => h u (hst.narrow hfree htu)

theorem of_body {known : List (String × Value (Exact M))} {env : Environment} {i : Nat}
    {name : Option String} {e : Expression (Exact M)} (hmade : s.HasFrames env)
    (hknows : s.Knows env known) (hfree : ∀ i ∈ env, ∀ p ∈ known, (i, p.1) ∉ free)
    (h : ∀ t, s.Extends free t → ∀ q k u,
      Store.InFrame t k env (("t", amount q) :: known) u →
        e.Yields (k :: env) u fun w _ => w = amount (f q)) :
    Plays free s (.closure ⟨i, name, ⟨["t"], [.result (some e)]⟩, env⟩) f := by
  intro t hst q
  apply Run.returns_closure (hmade.later hst) (hknows.later_of_notMem hmade hst hfree)
  intro k u hu
  apply Statement.returning_block rfl
  apply Statement.allReturn_result hu.kept
  exact h t hst q k u hu

end Plays

def IsSound (free : Set (Nat × String)) (s : Store (Exact M)) (v : Value (Exact M))
    (x : Sound) : Prop :=
  ∃ i wave, v = .pair i wave (amount x.duration) ∧ Plays free s wave x.wave

theorem IsSound.later (h : IsSound free s v x) (hst : s.Extends ∅ t) : IsSound free t v x := by
  obtain ⟨i, wave, rfl, hwave⟩ := h
  exact ⟨i, wave, rfl, hwave.later hst⟩

theorem IsSound.narrow (h : IsSound ∅ s v x) (hst : s.Extends ∅ t)
    (hfree : ∀ p ∈ free, s.frames.size ≤ p.1) : IsSound free t v x := by
  obtain ⟨i, wave, rfl, hwave⟩ := h
  exact ⟨i, wave, rfl, hwave.narrow hst hfree⟩

section Amounts

variable (a b : ℚ)

theorem isTruthy_less :
    (BinaryOperator.lessThan.apply (amount a : Value (Exact M)) (amount b)).isTruthy =
      decide (a < b) :=
  rfl

theorem isTruthy_atLeast :
    (BinaryOperator.greaterThanOrEqual.apply (amount a : Value (Exact M)) (amount b)).isTruthy =
      decide (b ≤ a) :=
  Exact.le_of b a

theorem apply_add :
    BinaryOperator.add.apply (amount a : Value (Exact M)) (amount b) = amount (a + b) :=
  rfl

theorem apply_divide {b : ℚ} (hb : b ≠ 0) :
    BinaryOperator.divide.apply (amount a : Value (Exact M)) (amount b) = amount (a / b) :=
  congrArg Value.number (Exact.div_of a hb)

end Amounts

def AreEarly (known : List (String × Value (Exact M))) : Prop :=
  ∀ p ∈ known, p.1 ∉ lateNames

theorem areEarly_known (identity : String → Nat) :
    AreEarly (known identity : List (String × Value (Exact M))) := by
  simp [AreEarly, known, functions, lateNames]

theorem AreEarly.cons {known : List (String × Value (Exact M))} (h : AreEarly known)
    (name : String) (hname : name ∉ lateNames) (v : Value (Exact M)) :
    AreEarly ((name, v) :: known) :=
  List.forall_mem_cons.2 ⟨hname, h⟩

theorem AreEarly.notMem {known : List (String × Value (Exact M))} (h : AreEarly known)
    (hfree : ∀ p ∈ free, p.2 ∈ lateNames) {env : Environment} :
    ∀ i ∈ env, ∀ p ∈ known, (i, p.1) ∉ free :=
  fun _ _ p hp hmem => h p hp (hfree _ hmem)

namespace Ready

theorem returns_makeSound {d : ℚ} (h : Ready identity s) (hfree : ∀ p ∈ free, p.2 ∈ lateNames)
    (hwave : Plays free s w f) :
    Run.Returns (global identity "make_sound" (makeSound Numeric.ofNat)) [w, amount d] s
      fun v t => IsSound free t v ⟨d, fun q => if d ≤ q then 0 else f q⟩ := by
  apply Run.returns_closure h.made h.knows
  intro k t ht
  apply Statement.returning_block rfl
  apply Statement.allReturn_result ht.kept
  apply Expression.yields_call_name ht.knows rfl
  apply Expression.allYield_cons
  apply Expression.yields_function
  intro u htu i
  apply Expression.allYield_identifier (ht.knows.later ht.made htu) rfl
  apply Expression.allYield_nil
  apply (h.later (ht.kept.trans htu)).returns_pair
  intro r hur j
  have htr := htu.trans hur
  have hearly := ((areEarly_known identity).cons "wave" (by decide) w).cons "duration" (by decide)
    (amount d)
  refine ⟨j, _, rfl, .of_body (ht.made.later htr) (ht.knows.later ht.made htr)
    (hearly.notMem hfree) ?_⟩
  intro r' hrr' q k' u' hu'
  apply Expression.yields_conditional
  apply Expression.yields_binary
  apply Expression.yields_identifier hu'.knows rfl
  apply Expression.yields_identifier hu'.knows rfl
  rw [isTruthy_atLeast]
  by_cases hq : d ≤ q
  · simp only [hq, decide_true, if_true]
    exact Expression.yields_literal rfl
  · simp only [hq, decide_false, Bool.false_eq_true, if_false]
    apply Expression.yields_call_known hu'.knows rfl rfl
    exact hwave u' (((ht.kept.trans htr).widen free).trans (hrr'.trans (hu'.kept.widen free))) q

theorem returns_silenceSound (h : Ready identity s) (hfree : ∀ p ∈ free, p.2 ∈ lateNames) :
    Run.Returns (global identity "silence_sound" (silenceSound Numeric.ofNat)) [amount 0] s
      fun v t => IsSound free t v .silence := by
  apply Run.returns_closure h.made h.knows
  intro k t ht
  apply Statement.returning_block rfl
  apply Statement.allReturn_result ht.kept
  apply Expression.yields_call_name ht.knows rfl
  apply Expression.allYield_cons
  apply Expression.yields_function
  intro u htu i
  have hknows := ht.knows.later ht.made htu
  have hplays : Plays free u (.closure ⟨i, none, ⟨["t"],
      [.result (some (.number (Numeric.ofNat 0)))]⟩, k :: Environment.global⟩) fun _ => 0 :=
    .of_body (ht.made.later htu) hknows
      (((areEarly_known identity).cons "duration" (by decide) (amount 0)).notMem hfree)
      fun _ _ _ _ _ _ => Expression.yields_literal rfl
  apply Expression.allYield_identifier hknows rfl
  apply Expression.allYield_nil
  apply ((h.later (ht.kept.trans htu)).returns_makeSound hfree hplays).mono
  intro v r _ hv
  simpa only [ite_self, Sound.silence] using hv

end Ready

end Prelude

end Waveform
