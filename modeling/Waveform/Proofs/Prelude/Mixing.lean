import Waveform.Proofs.Prelude.Sounds
import Waveform.Proofs.Prelude.Loading

/-!
# Sounds one after the other and all at once

What `consecutively` and `simultaneously` make of a list of sounds of any length, once the prelude
has been loaded. Both put the list together from its end, starting from silence, with a function of
their own for two sounds.
-/

namespace Waveform

namespace Prelude

variable {M : Mathematics} {identity : String → Nat} {s : Store (Exact M)}
  {v w : Value (Exact M)} {free : Set (Nat × String)} {x : Sound} {xs : List Sound}

namespace Ready

theorem allReturn_partsOfTwo {base : Store (Exact M)} {k i j : Nat} {outer : Environment}
    {known' : List (String × Value (Exact M))} {rest : List (Statement (Exact M))}
    {w₁ d₁ w₂ d₂ : Value (Exact M)} {P : Value (Exact M) → Store (Exact M) → Prop}
    (h : Ready identity base) (hs : Store.InFrame base k outer known' s)
    (hhead : known'.lookup "head" = some (global identity "head" (head Numeric.ofNat)))
    (htail : known'.lookup "tail" = some (global identity "tail" (tail Numeric.ofNat)))
    (hfirst : known'.lookup "ss1" = some (.pair i w₁ d₁))
    (hsecond : known'.lookup "ss2" = some (.pair j w₂ d₂))
    (hrest : ∀ t, Store.InFrame base k outer
      (("dur2", d₂) :: ("dur1", d₁) :: ("wave2", w₂) :: ("wave1", w₁) :: known') t →
        Statement.AllReturn rest (k :: outer) base t P) :
    Statement.AllReturn (partsOfTwo ++ rest) (k :: outer) base s P := by
  have hlater {t : Store (Exact M)} {K : List (String × Value (Exact M))}
      (ht : Store.InFrame base k outer K t) : Ready identity t := h.later ht.kept
  apply Statement.allReturn_call hs hhead hfirst ((hlater hs).returns_head fun _ _ => rfl)
  intro t _ ht
  apply Statement.allReturn_call ht hhead hsecond ((hlater ht).returns_head fun _ _ => rfl)
  intro u _ hu
  apply Statement.allReturn_call hu htail hfirst ((hlater hu).returns_tail fun _ _ => rfl)
  intro r _ hr
  apply Statement.allReturn_call hr htail hsecond ((hlater hr).returns_tail fun _ _ => rfl)
  exact fun r' _ => hrest r'

/-- Sounds are put together by a function for two of them, starting from silence at the end. -/
theorem yields_accumulated {env : Environment} {known' : List (String × Value (Exact M))}
    {name : String} {op : Value (Exact M)} {combine : List Sound → Sound} (h : Ready identity s)
    (hmade : s.HasFrames env) (hknows : s.Knows env known')
    (hfree : ∀ p ∈ free, p.2 ∈ lateNames)
    (haccumulate : known'.lookup "accumulate" = some (global identity "accumulate" accumulate))
    (hsilence : known'.lookup "silence_sound" =
      some (global identity "silence_sound" (silenceSound Numeric.ofNat)))
    (hop : known'.lookup name = some op) (hv : known'.lookup "list_of_sounds" = some v)
    (hnil : combine [] = .silence)
    (hcons : ∀ t, s.Extends ∅ t → ∀ x xs a b, IsSound free t a x → IsSound free t b (combine xs) →
      Run.Returns op [a, b] t fun w u => IsSound free u w (combine (x :: xs)))
    (hlist : IsList (IsSound free s) v xs) :
    (Expression.call (.identifier "accumulate") [.identifier name,
      .call (.identifier "silence_sound") [.number (Numeric.ofNat 0)],
        .identifier "list_of_sounds"]).Yields env s fun w t => IsSound free t w (combine xs) := by
  apply Expression.yields_call_name hknows haccumulate
  apply Expression.allYield_identifier hknows hop
  apply Expression.allYield_cons
  apply Expression.yields_call_name hknows hsilence
  apply Expression.allYield_cons
  apply Expression.yields_literal
  apply Expression.allYield_nil
  apply (h.returns_silenceSound hfree).mono
  intro silence t hst hplays
  apply Expression.allYield_identifier (hknows.later hmade hst) hv
  apply Expression.allYield_nil
  apply (h.later hst).returns_accumulate (R := fun s v xs => IsSound free s v (combine xs))
    (I := IsSound free) (fun _ _ _ _ hst hx => hx.later hst)
    (fun _ _ _ _ hst hxs => hxs.later hst)
  · exact fun u htu => hcons u (hst.trans htu)
  · rwa [hnil]
  · exact hlist.mono fun _ _ hx => hx.later hst

/-! ## One after the other -/

theorem returns_consecTwo {c l : Value (Exact M)} {k i : Nat} {y : Sound} (h : Ready identity s)
    (hmade : s.HasFrames (k :: Environment.global))
    (hknows : s.Knows (k :: Environment.global)
      (("consec_two", c) :: ("list_of_sounds", l) :: known identity))
    (hx : IsSound ∅ s v x) (hy : IsSound ∅ s w y) :
    Run.Returns (.closure ⟨i, some "consec_two", consecTwo, k :: Environment.global⟩) [v, w] s
      fun r t => IsSound ∅ t r ⟨x.duration + y.duration, fun q =>
        if q < x.duration then x.wave q else y.wave (q - x.duration)⟩ := by
  obtain ⟨_, wave₁, rfl, hwave₁⟩ := hx
  obtain ⟨_, wave₂, rfl, hwave₂⟩ := hy
  apply Run.returns_closure hmade hknows
  intro k' t ht
  apply Statement.returning_block rfl
  apply h.allReturn_partsOfTwo ht rfl rfl rfl rfl
  intro u hu
  apply Statement.allReturn_function hu
  intro j r _ hr
  apply Statement.allReturn_result hr.kept
  apply Expression.yields_call_name hr.knows rfl
  apply Expression.allYield_identifier hr.knows rfl
  apply Expression.allYield_cons
  apply Expression.yields_binary
  apply Expression.yields_identifier hr.knows rfl
  apply Expression.yields_identifier hr.knows rfl
  rw [apply_add]
  apply Expression.allYield_nil
  apply (h.later hr.kept).returns_pair
  intro r₁ hr₁ j'
  refine ⟨j', _, rfl, .of_body (hr.made.later hr₁) (hr.knows.later hr.made hr₁)
    (fun _ _ _ _ => Set.notMem_empty _) ?_⟩
  intro r₂ hr₂ q k₁ r₃ hr₃
  have hur₃ := hr.kept.trans (hr₁.trans (hr₂.trans hr₃.kept))
  apply Expression.yields_conditional
  apply Expression.yields_binary
  apply Expression.yields_identifier hr₃.knows rfl
  apply Expression.yields_identifier hr₃.knows rfl
  rw [isTruthy_less]
  by_cases hq : q < x.duration
  · simp only [hq, decide_true, if_true]
    apply Expression.yields_call_known hr₃.knows rfl rfl
    exact hwave₁ r₃ hur₃ q
  · simp only [hq, decide_false, Bool.false_eq_true, if_false]
    apply Expression.yields_call_name hr₃.knows rfl
    apply Expression.allYield_cons
    apply Expression.yields_binary
    apply Expression.yields_identifier hr₃.knows rfl
    apply Expression.yields_identifier hr₃.knows rfl
    apply Expression.allYield_nil
    exact hwave₂ r₃ hur₃ (q - x.duration)

theorem returns_consecutively (h : Ready identity s) (hlist : IsList (IsSound ∅ s) v xs) :
    Run.Returns (global identity "consecutively" (consecutively Numeric.ofNat)) [v] s
      fun w t => IsSound ∅ t w (.sequence xs) := by
  apply Run.returns_closure h.made h.knows
  intro k t ht
  apply Statement.returning_block_function rfl ht
  intro i u hu
  apply Statement.allReturn_result hu.kept
  apply (h.later hu.kept).yields_accumulated hu.made hu.knows
    (fun _ hp => absurd hp (Set.notMem_empty _)) rfl rfl rfl rfl Sound.sequence_nil
  · intro r hr x xs a b hx hxs
    rw [Sound.sequence_cons]
    exact (h.later (hu.kept.trans hr)).returns_consecTwo (hu.made.later hr)
      (hu.knows.later hu.made hr) hx hxs
  · exact hlist.mono fun _ _ hx => hx.later hu.kept

/-! ## All at once -/

theorem returns_musher {c l : Value (Exact M)} {k i : Nat} {y : Sound} (h : Ready identity s)
    (hfree : ∀ p ∈ free, p.2 ∈ lateNames) (hmade : s.HasFrames (k :: Environment.global))
    (hknows : s.Knows (k :: Environment.global)
      (("musher", c) :: ("list_of_sounds", l) :: known identity))
    (hx : IsSound free s v x) (hy : IsSound free s w y) :
    Run.Returns (.closure ⟨i, some "musher", musher, k :: Environment.global⟩) [v, w] s
      fun r t => IsSound free t r ⟨max x.duration y.duration, fun q => x.wave q + y.wave q⟩ := by
  obtain ⟨a, wave₁, rfl, hwave₁⟩ := hx
  obtain ⟨b, wave₂, rfl, hwave₂⟩ := hy
  apply Run.returns_closure hmade hknows
  intro k' t ht
  apply Statement.returning_block rfl
  apply h.allReturn_partsOfTwo ht rfl rfl rfl rfl
  intro u hu
  apply Statement.allReturn_function hu
  intro j r _ hr
  have hlonger : (Expression.conditional
      (.binary .lessThan (.identifier "dur1") (.identifier "dur2"))
      (.identifier "dur2") (.identifier "dur1")).Yields (k' :: k :: Environment.global) r
        fun v _ => v = amount (max x.duration y.duration) := by
    apply Expression.yields_conditional
    apply Expression.yields_binary
    apply Expression.yields_identifier hr.knows rfl
    apply Expression.yields_identifier hr.knows rfl
    rw [isTruthy_less]
    by_cases hlt : x.duration < y.duration
    · simp only [hlt, decide_true, if_true]
      apply Expression.yields_identifier hr.knows rfl
      rw [max_eq_right hlt.le]
    · simp only [hlt, decide_false, Bool.false_eq_true, if_false]
      apply Expression.yields_identifier hr.knows rfl
      rw [max_eq_left (not_lt.1 hlt)]
  apply Statement.allReturn_constant hr hlonger fun _ _ _ => nofun
  rintro _ r₀ - rfl hr₀
  apply Statement.allReturn_result hr₀.kept
  apply Expression.yields_call_name hr₀.knows rfl
  apply Expression.allYield_identifier hr₀.knows rfl
  apply Expression.allYield_identifier hr₀.knows rfl
  apply Expression.allYield_nil
  apply (h.later hr₀.kept).returns_pair
  intro r₁ hr₁ j'
  refine ⟨j', _, rfl, .of_body (hr₀.made.later hr₁) (hr₀.knows.later hr₀.made hr₁)
    (AreEarly.notMem (by simp [AreEarly, Store.entered, musher, known, functions, lateNames]) hfree)
    ?_⟩
  intro r₂ hr₂ q k₁ r₃ hr₃
  have hsr₃ := ((hr₀.kept.trans hr₁).widen free).trans (hr₂.trans (hr₃.kept.widen free))
  apply Expression.yields_binary
  apply Expression.yields_call_known hr₃.knows rfl rfl
  apply (hwave₁ r₃ hsr₃ q).mono
  rintro _ r₄ hr₄ rfl
  apply Expression.yields_call_known (hr₃.knows.later hr₃.made hr₄) rfl rfl
  apply (hwave₂ r₄ (hsr₃.trans (hr₄.widen free)) q).mono
  rintro _ _ _ rfl
  exact apply_add _ _

theorem returns_simultaneously (h : Ready identity s) (hne : xs ≠ [])
    (hduration : ∀ x ∈ xs, 0 ≤ x.duration) (hlist : IsList (IsSound ∅ s) v xs) :
    Run.Returns (global identity "simultaneously" (simultaneously Numeric.ofNat)) [v] s
      fun w t => IsSound ∅ t w (.mixture xs) := by
  apply Run.returns_closure h.made h.knows
  intro k t ht
  apply Statement.returning_block_function rfl ht
  intro i u hu
  -- the frame of the call still gets names that no wave of a part reads
  let free : Set (Nat × String) := {p | p.1 = k ∧ p.2 ∈ lateNames}
  have hlate : ∀ p ∈ free, p.2 ∈ lateNames := fun p hp => hp.2
  have hmake : ∀ p ∈ free, s.frames.size ≤ p.1 := fun p hp => hp.1 ▸ ht.own
  have hmushed : (Expression.call (.identifier "accumulate") [.identifier "musher",
      .call (.identifier "silence_sound") [.number (Numeric.ofNat 0)],
        .identifier "list_of_sounds"]).Yields (k :: Environment.global) u
          fun w t => IsSound free t w (.together xs) := by
    apply (h.later hu.kept).yields_accumulated hu.made hu.knows hlate rfl rfl rfl rfl
      Sound.together_nil
    · intro r hr x xs a b hx hxs
      rw [Sound.together_cons]
      exact (h.later (hu.kept.trans hr)).returns_musher hlate (hu.made.later hr)
        (hu.knows.later hu.made hr) hx hxs
    · exact hlist.mono fun _ _ hx => hx.narrow hu.kept hmake
  apply Statement.allReturn_constant hu hmushed fun _ _ _ => nofun
  rintro _ r - ⟨j, wave, rfl, hwave⟩ hr
  apply Statement.allReturn_function hr
  intro j' r₁ hrr₁ hr₁
  apply Statement.allReturn_call hr₁ rfl rfl ((h.later hr₁.kept).returns_tail fun _ _ => rfl)
  intro r₂ hr₁r₂ hr₂
  have hbound {name : String} (hname : name ∈ lateNames) : {(k, name)} ⊆ free :=
    Set.singleton_subset_iff.2 ⟨rfl, hname⟩
  have hrr₂ : r.Extends free r₂ :=
    ((Store.Extends.refl free r).bind (.inr ⟨rfl, List.mem_cons_self ..⟩) _).trans
      ((hrr₁.mono (hbound (by decide))).trans (hr₁r₂.mono (hbound (by decide))))
  apply Statement.allReturn_result hr₂.kept
  apply Expression.yields_call_name hr₂.knows rfl
  apply Expression.allYield_identifier hr₂.knows rfl
  apply Expression.allYield_identifier hr₂.knows rfl
  apply Expression.allYield_nil
  apply (h.later hr₂.kept).returns_pair
  intro r₃ hr₃ i'
  rw [← Sound.duration_mixture hduration]
  refine ⟨i', _, rfl, .of_body (hr₂.made.later hr₃) (hr₂.knows.later hr₂.made hr₃)
    (fun _ _ _ _ => Set.notMem_empty _) ?_⟩
  intro r₄ hr₄ q k₁ r₅ hr₅
  have hr₂r₅ := hr₃.trans (hr₄.trans hr₅.kept)
  apply Expression.yields_binary
  apply Expression.yields_call
  apply Expression.yields_call_known hr₅.knows rfl rfl
  apply (h.later (hr₂.kept.trans hr₂r₅)).returns_head
  intro r₆ hr₆
  apply Expression.allYield_identifier (hr₅.knows.later hr₅.made hr₆) rfl
  apply Expression.allYield_nil
  apply (hwave r₆ (hrr₂.trans ((hr₂r₅.trans hr₆).widen free)) q).mono
  rintro _ r₇ hr₇ rfl
  apply Expression.yields_call_known (hr₅.knows.later hr₅.made (hr₆.trans hr₇)) rfl rfl
  apply hlist.returns_length
  have hcount : (xs.length : ℚ) ≠ 0 := by simpa using hne
  exact apply_divide _ hcount

end Ready

/-- Sounds of a list that last for some time each are played one after the other by `consecutively`
and, if there is a sound at all, all at once by `simultaneously`. -/
theorem Loaded.combine_sounds (h : Loaded s) (hlist : IsList (IsSound ∅ s) v xs)
    (hduration : ∀ x ∈ xs, 0 ≤ x.duration) :
    (∃ f, s.lookup? "consecutively" .global = some f ∧
      Run.Returns f [v] s fun w t => IsSound ∅ t w (.sequence xs)) ∧
    (xs ≠ [] → ∃ f, s.lookup? "simultaneously" .global = some f ∧
      Run.Returns f [v] s fun w t => IsSound ∅ t w (.mixture xs)) := by
  obtain ⟨identity, hready⟩ := h.ready
  refine ⟨⟨_, hready.knows _ _ rfl, hready.returns_consecutively hlist⟩, fun hne => ?_⟩
  exact ⟨_, hready.knows _ _ rfl, hready.returns_simultaneously hne hduration hlist⟩

def ramp : Value (Exact M) :=
  .closure ⟨0, none, ⟨["t"], [.result (some (.identifier "t"))]⟩, .global⟩

theorem plays_ramp (hmade : s.HasFrames .global) : Plays ∅ s ramp id :=
  .of_body hmade (nofun : s.Knows .global []) (fun _ _ _ => nofun) fun _ _ _ _ _ hu =>
    Expression.yields_identifier hu.knows rfl rfl

/-- A sound of no time and one of some time, which is heard at once. -/
def ramps : List Sound := [⟨0, id⟩, ⟨1, id⟩]

def rampList : Value (Exact M) :=
  .pair 1 (.pair 2 ramp (amount 0)) (.pair 3 (.pair 4 ramp (amount 1)) .null)

theorem ramps_combined : ∃ s : Store (Exact .zero), Loaded s ∧
    IsList (IsSound ∅ s) rampList ramps ∧ (∀ x ∈ ramps, 0 ≤ x.duration) ∧
    (∃ f, s.lookup? "consecutively" .global = some f ∧
      Run.Returns f [rampList] s fun w t => IsSound ∅ t w (.sequence ramps)) ∧
    (ramps ≠ [] → ∃ f, s.lookup? "simultaneously" .global = some f ∧
      Run.Returns f [rampList] s fun w t => IsSound ∅ t w (.mixture ramps)) := by
  obtain ⟨s, hs⟩ := exists_loaded
  obtain ⟨identity, hready⟩ := hs.ready
  have hplays := plays_ramp hready.made
  have hlist : IsList (IsSound ∅ s) rampList ramps :=
    ⟨_, _, _, rfl, ⟨_, _, rfl, hplays⟩, _, _, _, rfl, ⟨_, _, rfl, hplays⟩, rfl⟩
  have hduration : ∀ x ∈ ramps, 0 ≤ x.duration := by simp [ramps]
  exact ⟨s, hs, hlist, hduration, hs.combine_sounds hlist hduration⟩

end Prelude

end Waveform
