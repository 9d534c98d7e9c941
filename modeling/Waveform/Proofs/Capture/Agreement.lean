import Waveform.Proofs.Capture.Mirroring
import Waveform.Proofs.Evaluation.Guarding

/-!
# Stores of mirrored runs

What the stores of two mirrored runs have in common after each step: frames that mirror each other,
the closure's environment as it was, and the units where the merged function binds them. A name that
the captured tree binds itself is found in frames that mirror each other. Any other name is looked
up in the closure's environment, and there is nothing between it and the tree that hides it.
-/

namespace Waveform

variable {ν : Type}

namespace Mirror

variable {m : Mirror ν} {W W' : Twins} {s s' t t' : Store ν}

/-- What the stores of two mirrored runs have in common. -/
structure Agrees (m : Mirror ν) (W : Twins) (s s' : Store ν) : Prop where
  opened : m.base < s.frames.size
  size : s'.frames.size = m.frame s.frames.size
  old {i} : i < m.base → s.frame i = m.store.frame i
  declared {i name} : m.base ≤ i → (s.frame i).contains name = true → name ∈ m.declared i
  plain {i name} : m.base ≤ i → (s.frame i).contains name = true → ¬ m.IsReserved name
  mirrored {i name} : m.base ≤ i → (i = m.base → ¬ m.IsReserved name) →
    Option.Rel (m.Mirrors W) ((s.frame i).find? name) ((s'.frame (m.frame i)).find? name)
  units {c name} : m.store.Holds c → m.names.name? c.identity = some name →
    m.names.isReferenced name = true → m.IsReserved name ∧
      ∃ v, (s'.frame 1).find? name = some v ∧ m.Mirrors W (.closure c) v
  made {i j} : (i, j) ∈ W → i < s.made ∧ j < s'.made
  twins : W.Match

theorem frame_base (m : Mirror ν) : m.frame m.base = 1 := by
  rw [frame, Nat.sub_self]

theorem frame_inj {i j : Nat} (hi : m.base ≤ i) (hj : m.base ≤ j) :
    m.frame i = m.frame j ↔ i = j := by
  unfold frame
  omega

theorem rel_mono {v v' : Option (Value ν)} (h : Option.Rel (m.Mirrors W) v v') (hW : W ⊆ W') :
    Option.Rel (m.Mirrors W') v v' := by
  cases h with
  | some hv => exact .some (hv.mono hW)
  | none => exact .none

/-! ## Finding names -/

/-- A name that the captured tree binds itself is found in frames that mirror each other. -/
theorem Placed.find {home env env' : Environment} {l : Locals} {name : String}
    (hplaced : m.Placed home l env env') (h : m.Agrees W s s') (hname : l name)
    (hsettled : s.IsSettled m.base m.declared name env) :
    ∃ i v v', m.base ≤ i ∧ s.owner? name env = some i ∧ s'.owner? name env' = some (m.frame i) ∧
      s.lookup? name env = some v ∧ s'.lookup? name env' = some v' ∧ m.Mirrors W v v' := by
  have hfound {i : Nat} (hi : m.base ≤ i) (hcontains : (s.frame i).contains name = true) :
      ∃ v v', (s.frame i).find? name = some v ∧ (s'.frame (m.frame i)).find? name = some v' ∧
        m.Mirrors W v v' := by
    have hmirrored := h.mirrored hi fun _ => h.plain hi hcontains
    obtain ⟨v, hv⟩ := Option.isSome_iff_exists.1 hcontains
    rw [hv] at hmirrored
    generalize hfind : (s'.frame (m.frame i)).find? name = found at hmirrored
    cases hmirrored with
    | some hvv' => exact ⟨_, _, hv, rfl, hvv'⟩
  induction hplaced with
  | unit => exact hname.elim
  | root hhosts =>
    have hdeclared : name ∈ m.declared m.base := hname.resolve_left id
    have hcontains := hsettled.1 (Nat.le_refl _) hdeclared
    obtain ⟨v, v', hv, hv', hvv'⟩ := hfound (Nat.le_refl _) hcontains
    rw [m.frame_base] at hv'
    refine ⟨m.base, v, v', Nat.le_refl _, ?_, ?_, ?_, ?_, hvv'⟩
    · rw [Store.owner?, if_pos hcontains]
    · rw [Store.owner?, Bindings.contains, hv', m.frame_base]
      rfl
    · rw [Store.lookup?, hv]
    · rw [Store.lookup?, hv']
  | @frame l env env' i hplaced hi ih =>
    by_cases hcontains : (s.frame i).contains name = true
    · obtain ⟨v, v', hv, hv', hvv'⟩ := hfound (Nat.le_of_lt hi) hcontains
      refine ⟨i, v, v', Nat.le_of_lt hi, ?_, ?_, ?_, ?_, hvv'⟩
      · rw [Store.owner?, if_pos hcontains]
      · rw [Store.owner?, Bindings.contains, hv']
        rfl
      · rw [Store.lookup?, hv]
      · rw [Store.lookup?, hv']
    · have hdeclared : name ∉ m.declared i := fun hmem =>
        hcontains (hsettled.1 (Nat.le_of_lt hi) hmem)
      obtain ⟨j, v, v', hj, howner, howner', hv, hv', hvv'⟩ :=
        ih (hname.resolve_right hdeclared) (hsettled.2 fun _ => hdeclared)
      have hnone : (s.frame i).find? name = none := by simpa [Bindings.contains] using hcontains
      have hmirrored : Option.Rel (m.Mirrors W) ((s.frame i).find? name)
          ((s'.frame (m.frame i)).find? name) :=
        h.mirrored (Nat.le_of_lt hi) fun heq => absurd heq (Nat.ne_of_gt hi)
      rw [hnone] at hmirrored
      have hnone' : (s'.frame (m.frame i)).find? name = none := by
        generalize (s'.frame (m.frame i)).find? name = found at hmirrored
        cases hmirrored
        rfl
      refine ⟨j, v, v', hj, ?_, ?_, ?_, ?_, hvv'⟩
      · rw [Store.owner?, if_neg hcontains, howner]
      · rw [Store.owner?, Bindings.contains, hnone']
        exact howner'
      · rw [Store.lookup?, hnone, hv]
      · rw [Store.lookup?, hnone', hv']

theorem Placed.lookup?_free {home env env' : Environment} {l : Locals} {name : String}
    (hplaced : m.Placed home l env env') (h : m.Agrees W s s') (hname : ¬ l name) :
    s.lookup? name env = m.store.lookup? name home := by
  have hhome (hhosts : m.Hosts home) : s.lookup? name home = m.store.lookup? name home := by
    have hold := fun i hi => h.old (hhosts.old (i := i) hi)
    clear hhosts hplaced
    induction home with
    | nil => rfl
    | cons i outer ih =>
      rw [Store.lookup?, Store.lookup?, hold i (List.mem_cons_self ..),
        ih fun j hj => hold j (List.mem_cons_of_mem _ hj)]
  have hskip {i : Nat} (hi : m.base ≤ i) (hdeclared : name ∉ m.declared i) :
      (s.frame i).find? name = none := by
    by_contra hne
    exact hdeclared (h.declared hi (Option.isSome_iff_ne_none.2 hne))
  induction hplaced with
  | unit hhosts => exact hhome hhosts
  | root hhosts =>
    rw [Store.lookup?, hskip (Nat.le_refl _) fun hmem => hname (.inr hmem)]
    exact hhome hhosts
  | frame hplaced hi ih =>
    rw [Store.lookup?, hskip (Nat.le_of_lt hi) fun hmem => hname (.inr hmem)]
    exact ih fun hl => hname (.inl hl)

theorem Placed.lookup?_unit {home env env' : Environment} {l : Locals} {name : String} {v : Value ν}
    (hplaced : m.Placed home l env env') (h : m.Agrees W s s') (hname : m.IsReserved name)
    (hv : (s'.frame 1).find? name = some v) : s'.lookup? name env' = some v := by
  induction hplaced with
  | unit | root => rw [Store.lookup?, hv]
  | @frame l env env' i hplaced hi ih =>
    have hmirrored : Option.Rel (m.Mirrors W) ((s.frame i).find? name)
        ((s'.frame (m.frame i)).find? name) :=
      h.mirrored (Nat.le_of_lt hi) fun heq => absurd heq (Nat.ne_of_gt hi)
    have hnone : (s.frame i).find? name = none := by
      by_contra hne
      exact h.plain (Nat.le_of_lt hi) (Option.isSome_iff_ne_none.2 hne) hname
    rw [hnone] at hmirrored
    generalize hfound : (s'.frame (m.frame i)).find? name = found at hmirrored
    cases hmirrored
    rw [Store.lookup?, hfound]
    exact ih

/-! ## Steps -/

theorem Agrees.extend (h : m.Agrees W s s') (env env' : Environment) :
    m.Agrees W (s.extend env).2 (s'.extend env').2 where
  opened := by
    rw [Store.size_extend]
    exact Nat.lt_succ_of_lt h.opened
  size := by
    have hopened := h.opened
    rw [Store.size_extend, Store.size_extend, h.size, frame, frame]
    omega
  old hi := by rw [Store.frame_extend, h.old hi]
  declared hi hname := h.declared hi (by rwa [Store.frame_extend] at hname)
  plain hi hname := h.plain hi (by rwa [Store.frame_extend] at hname)
  mirrored hi hname := by
    rw [Store.frame_extend, Store.frame_extend]
    exact h.mirrored hi hname
  units hc hname hreferenced := by
    rw [Store.frame_extend]
    exact h.units hc hname hreferenced
  made := h.made
  twins := h.twins

theorem Agrees.make (h : m.Agrees W s s') {n n' : Nat} (hn : s.made ≤ n) (hn' : s'.made ≤ n') :
    m.Agrees W { s with made := n } { s' with made := n' } where
  opened := h.opened
  size := h.size
  old := h.old
  declared := h.declared
  plain := h.plain
  mirrored := h.mirrored
  units := h.units
  made hij := ⟨Nat.lt_of_lt_of_le (h.made hij).1 hn, Nat.lt_of_lt_of_le (h.made hij).2 hn'⟩
  twins := h.twins

theorem Agrees.twin (h : m.Agrees W s s') :
    m.Agrees (insert (s.made, s'.made) W) { s with made := s.made + 1 }
      { s' with made := s'.made + 1 } where
  opened := h.opened
  size := h.size
  old := h.old
  declared := h.declared
  plain := h.plain
  mirrored hi hname := rel_mono (h.mirrored hi hname) (Set.subset_insert _ _)
  units hc hname hreferenced := by
    obtain ⟨hreserved, v, hv, hmirrors⟩ := h.units hc hname hreferenced
    exact ⟨hreserved, v, hv, hmirrors.mono (Set.subset_insert _ _)⟩
  made hij := by
    rcases Set.mem_insert_iff.1 hij with heq | hij
    · cases heq
      exact ⟨Nat.lt_succ_self _, Nat.lt_succ_self _⟩
    · exact ⟨Nat.lt_succ_of_lt (h.made hij).1, Nat.lt_succ_of_lt (h.made hij).2⟩
  twins := by
    intro i j i' j' hij hij'
    rcases Set.mem_insert_iff.1 hij with heq | hij <;>
      rcases Set.mem_insert_iff.1 hij' with heq' | hij'
    · cases heq
      cases heq'
      exact ⟨fun _ => rfl, fun _ => rfl⟩
    · cases heq
      have hmade := h.made hij'
      omega
    · cases heq'
      have hmade := h.made hij
      omega
    · exact h.twins hij hij'

theorem Agrees.bind (h : m.Agrees W s s') {i : Nat} {name : String} {v v' : Value ν}
    (hi : m.base ≤ i) (hdeclared : name ∈ m.declared i) (hplain : ¬ m.IsReserved name)
    (hv : m.Mirrors W v v') :
    m.Agrees W (s.bind i name v) (s'.bind (m.frame i) name v') := by
  by_cases hlt : i < s.frames.size
  · have hsize : m.frame i < s'.frames.size := by
      rw [h.size, frame, frame]
      omega
    have hcontains {j : Nat} {other : String}
        (hj : ((s.bind i name v).frame j).contains other = true) :
        j = i ∧ other = name ∨ (s.frame j).contains other = true := by
      rw [Bindings.contains, Store.find?_bind hlt] at hj
      split at hj
      · next hji => exact .inl hji
      · exact .inr hj
    refine ⟨by rw [Store.size_bind]; exact h.opened,
      by rw [Store.size_bind, Store.size_bind, h.size],
      fun {j} hj => ?_, fun {j other} hj hb => ?_, fun {j other} hj hb => ?_,
      fun {j other} hj hname => ?_, fun {c other} hc hname hreferenced => ?_, h.made, h.twins⟩
    · rw [Store.frame_bind _ _ _ _ _ hlt, if_neg (by omega), h.old hj]
    · rcases hcontains hb with ⟨rfl, rfl⟩ | hb
      · exact hdeclared
      · exact h.declared hj hb
    · rcases hcontains hb with ⟨rfl, rfl⟩ | hb
      · exact hplain
      · exact h.plain hj hb
    · rw [Store.find?_bind hlt, Store.find?_bind hsize]
      simp only [frame_inj hj hi]
      split
      · exact .some hv
      · exact h.mirrored hj hname
    · obtain ⟨hreserved, w, hw, hmirrors⟩ := h.units hc hname hreferenced
      refine ⟨hreserved, w, ?_, hmirrors⟩
      rw [Store.find?_bind hsize, if_neg, hw]
      rintro ⟨-, rfl⟩
      exact hplain hreserved
  · have hle : s'.frames.size ≤ m.frame i := by
      rw [h.size, frame, frame]
      omega
    rw [Store.bind_of_le (Nat.le_of_not_lt hlt), Store.bind_of_le hle]
    exact h

/-! ## Quoted values -/

/-- The expression for a value that the environment of a closure holds makes that value again. -/
theorem Agrees.quoted [Numeric ν] {home env env' : Environment} {l : Locals} {v : Value ν}
    {e : Expression ν} (h : m.Agrees W s s') (hplaced : m.Placed home l env env')
    (hv : ∀ c, v.Holds c → m.store.Holds c) (hq : m.toOrigin.Quotes v e) (call : Caller ν) :
    ∃ v' t', (e.evaluate call env').outcome s' = (.ok v', t') ∧ m.Mirrors W v v' ∧
      m.Agrees W s t' := by
  induction hq generalizing s' with
  | primitive l => exact ⟨.primitive l, s', rfl, .primitive l, h⟩
  | builtin b => exact ⟨.builtin b, s', rfl, .builtin b, h⟩
  | pair _ _ ihead itail =>
    obtain ⟨head', t', hhead, hmhead, h₁⟩ := ihead h fun c hc => hv c (.inl hc)
    obtain ⟨tail', u', htail, hmtail, h₂⟩ := itail h₁ fun c hc => hv c (.inr hc)
    refine ⟨.pair u'.made head' tail', { u' with made := u'.made + 1 }, ?_, .pair hmhead hmtail,
      h₂.make (Nat.le_refl _) (Nat.le_succ _)⟩
    rw [Expression.evaluate, Run.bind_ok]
    refine ⟨head', t', hhead, ?_⟩
    rw [Run.bind_ok]
    exact ⟨tail', u', htail, rfl⟩
  | closure hname hreferenced =>
    obtain ⟨hreserved, v', hv', hmirrors⟩ := h.units (hv _ rfl) hname hreferenced
    refine ⟨v', s', ?_, hmirrors, h⟩
    rw [Expression.evaluate]
    exact Run.outcome_read_of_lookup (hplaced.lookup?_unit h hreserved hv')

end Mirror

end Waveform
