import Waveform.Proofs.Evaluation.Tracking

/-!
# Identities

All pairs and closures of a run have identities of their own, and closures stand in frames that have
been made.
-/

namespace Waveform

variable {ν : Type}

theorem Store.holds_of_lookup {s : Store ν} {name : String} {env : Environment} {v : Value ν}
    {c : Closure ν} (h : s.lookup? name env = some v) (hc : v.Holds c) : s.Holds c := by
  obtain ⟨i, hi⟩ := exists_find?_of_lookup h
  exact ⟨i, name, v, hi, hc⟩

/-- Closures have identities that were given out, each its own, and stand in frames that have been
made. -/
structure Store.Sound (s : Store ν) : Prop where
  made {c} : s.Holds c → c.identity < s.made
  unique {c d} : s.Holds c → s.Holds d → c.identity = d.identity → c = d
  environment {c i} : s.Holds c → i ∈ c.environment → i < s.frames.size

/-- All identities in the frames have been given out, as in every store that a run comes to
(`Program.given_of_run`). -/
def Store.Given (s : Store ν) : Prop :=
  ∀ ⦃x⦄, s.Includes x → x.identity < s.made

/-- All frames of the environment have been made. -/
def Store.HasFrames (s : Store ν) (env : Environment) : Prop :=
  ∀ i ∈ env, i < s.frames.size

theorem Store.HasFrames.mono {s t : Store ν} {env : Environment} (h : s.HasFrames env)
    (hsize : s.frames.size ≤ t.frames.size) : t.HasFrames env :=
  fun i hi => Nat.lt_of_lt_of_le (h i hi) hsize

/-! ## What a run makes -/

/-- The pairs and closures have identities of their own that were given out, and closures stand in
frames that have been made. -/
structure Store.Identifies (s : Store ν) (K : Set (Made ν)) : Prop where
  made {x} : x ∈ K → x.identity < s.made
  unique {x y} : x ∈ K → y ∈ K → x.identity = y.identity → x = y
  environment {c i} : .closure c ∈ K → i ∈ c.environment → i < s.frames.size

theorem Store.Identifies.insert {s : Store ν} {K : Set (Made ν)} (h : s.Identifies K) {x : Made ν}
    (hx : x.identity = s.made) (henv : ∀ c, .closure c = x → s.HasFrames c.environment) :
    ({ s with made := s.made + 1 } : Store ν).Identifies (Insert.insert x K) where
  made hy := by
    rcases hy with rfl | hy
    · rw [hx]
      exact Nat.lt_succ_self _
    · exact Nat.lt_succ_of_lt (h.made hy)
  unique := by
    rintro y z (rfl | hy) (rfl | hz) heq
    · rfl
    · exact absurd (heq.symm.trans hx) (Nat.ne_of_lt (h.made hz))
    · exact absurd (heq.trans hx) (Nat.ne_of_lt (h.made hy))
    · exact h.unique hy hz heq
  environment := by
    rintro c i (heq | hc) hi
    · exact henv c heq i hi
    · exact h.environment hc hi

theorem Store.HasFrames.extend {s : Store ν} {env : Environment} (h : s.HasFrames env) :
    (s.extend env).2.HasFrames (s.frames.size :: env) := by
  intro i hi
  rw [size_extend]
  rcases List.mem_cons.1 hi with rfl | hi
  · exact Nat.lt_succ_self _
  · exact Nat.lt_succ_of_lt (h i hi)

/-- Keeping track of identities and of the frames that closures stand in. -/
def Tracking.identities : Tracking ν := ⟨Store.Identifies, Store.HasFrames⟩

theorem Tracking.identities_lawful : (identities : Tracking ν).Lawful where
  grow h hsize hmade :=
    ⟨fun hx => hmade ▸ h.made hx, h.unique, fun hc hi => (h.environment hc hi).trans_le hsize⟩
  pair h := h.insert rfl nofun
  closure h henv name f := h.insert rfl fun c hc => by
    cases hc
    exact henv
  inner _ henv := henv.extend
  called h hc := Store.HasFrames.extend fun i hi => h.environment hc hi
  later henv hsize := henv.mono hsize

theorem Store.Tracks.sound {s : Store ν} {K : Set (Made ν)} (h : s.Tracks .identities K) :
    s.Sound where
  made hc := h.holds.made (h.mem_of_holds hc)
  unique hc hd heq :=
    Made.closure.inj (h.holds.unique (h.mem_of_holds hc) (h.mem_of_holds hd) heq)
  environment hc := h.holds.environment (h.mem_of_holds hc)

theorem Store.Tracks.given {s : Store ν} {K : Set (Made ν)} (h : s.Tracks .identities K) :
    s.Given :=
  fun _ hx => h.holds.made (h.includes hx)

/-! ## Programs -/

section

variable [Numeric ν]

theorem Store.tracks_initial : (Store.initial : Store ν).Tracks .identities ∅ where
  includes := by
    rintro x ⟨i, name, v, hv, hx⟩
    have hi : i = 0 := by
      by_contra hi
      rw [frame_of_le (Nat.pos_of_ne_zero hi)] at hv
      cases hv
    subst hi
    have hmem : (name, v) ∈ globals := by
      obtain ⟨before, after, heq, -⟩ := List.lookup_eq_some_iff.1 hv
      have hglobals : globals = before ++ (name, v) :: after := heq
      rw [hglobals]
      exact List.mem_append_right _ (List.mem_cons_self ..)
    simp only [globals, List.mem_append, List.mem_map, List.mem_cons, Prod.mk.injEq,
      List.not_mem_nil, or_false] at hmem
    obtain (⟨b, -, -, rfl⟩ | ⟨k, -, -, rfl⟩) | ⟨-, rfl⟩ | ⟨-, rfl⟩ := hmem <;> exact hx.elim
  holds := ⟨fun hx => hx.elim, fun hx => hx.elim, fun hc => hc.elim⟩

theorem Program.exists_tracks_of_run {options : RunOptions} {p : Program ν} {s : Store ν}
    (h : p.run options = .ok s) : ∃ K, s.Tracks .identities K := by
  have hglobal : (Store.initial : Store ν).HasFrames .global := by
    intro i hi
    obtain rfl := List.mem_singleton.1 hi
    exact Nat.zero_lt_one
  unfold Program.run at h
  split at h
  · next u t hrun =>
    cases h
    obtain ⟨c, t', hblock, hend⟩ := Run.bind_ok.1 hrun
    have hcalls := Run.call_isTracked (ν := ν) Tracking.identities_lawful options.callLimit
      patience 0
    obtain ⟨K, -, htracks, -⟩ := Run.tracked_block Tracking.identities_lawful hcalls patience
      Store.tracks_initial hglobal p.body c t' hblock
    cases c with
    | normal =>
      cases hend
      exact ⟨K, htracks⟩
    | returned v => cases hend
  · cases h

/-- The store that a program leaves behind is sound. -/
theorem Program.sound_of_run {options : RunOptions} {p : Program ν} {s : Store ν}
    (h : p.run options = .ok s) : s.Sound :=
  let ⟨_, htracks⟩ := exists_tracks_of_run h
  htracks.sound

/-- All identities in the store that a program leaves behind have been given out by the run. -/
theorem Program.given_of_run {options : RunOptions} {p : Program ν} {s : Store ν}
    (h : p.run options = .ok s) : s.Given :=
  let ⟨_, htracks⟩ := exists_tracks_of_run h
  htracks.given

end

end Waveform
