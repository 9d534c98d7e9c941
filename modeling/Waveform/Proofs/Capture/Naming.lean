import Mathlib.Data.List.Nodup
import Mathlib.Data.List.Perm.Subperm
import Waveform.Specialize.ClosureNames

/-!
# Closure names

No two closures go by one name: a name that is taken is never given again. Names that are given
stay given, and so does whether something refers to them.
-/

namespace Waveform

namespace ClosureNames

/-! ## Free names -/

theorem numbered_injective {candidate : String} {i j : Nat}
    (h : numbered candidate i = numbered candidate j) : i = j := by
  have hlength (number : Nat) : (candidate ++ "_" ++ toString number) ≠ candidate := by
    intro heq
    have := congrArg (fun s : String => s.toList.length) heq
    simp only [String.toList_append, List.length_append] at this
    have hunderscore : "_".toList.length = 1 := rfl
    omega
  unfold numbered at h
  by_cases hi : (i == 0) = true
  · by_cases hj : (j == 0) = true
    · exact (beq_iff_eq.1 hi).trans (beq_iff_eq.1 hj).symm
    · rw [if_pos hi, if_neg hj] at h
      exact absurd h.symm (hlength j)
  · by_cases hj : (j == 0) = true
    · rw [if_neg hi, if_pos hj] at h
      exact absurd h (hlength i)
    · rw [if_neg hi, if_neg hj] at h
      have hlists := congrArg String.toList h
      rw [String.toList_append, String.toList_append (t := toString j)] at hlists
      have hdigits := List.append_cancel_left hlists
      simp only [Nat.toString_eq_repr, Nat.toList_repr] at hdigits
      simpa using congrArg (fun digits => Nat.ofDigitChars 10 digits 0) hdigits

theorem firstFree_eq (taken : List String) (candidate : String) (tries number : Nat) :
    firstFree taken candidate tries number ∉ taken ∨
      firstFree taken candidate tries number = numbered candidate (number + tries) ∧
        ∀ i, number ≤ i → i < number + tries → numbered candidate i ∈ taken := by
  induction tries generalizing number with
  | zero =>
    right
    exact ⟨rfl, fun i hi hlt => absurd hlt (by omega)⟩
  | succ tries ih =>
    rw [firstFree]
    by_cases htaken : taken.contains (numbered candidate number) = true
    · rw [if_pos htaken]
      rcases ih (number + 1) with hfree | ⟨heq, hall⟩
      · exact .inl hfree
      · refine .inr ⟨by rw [heq]; congr 1; omega, fun i hi hlt => ?_⟩
        by_cases hnumber : i = number
        · rw [hnumber]
          exact List.contains_iff_mem.1 htaken
        · exact hall i (by omega) (by omega)
    · rw [if_neg htaken]
      left
      exact fun hmem => htaken (List.contains_iff_mem.2 hmem)

theorem freeName_not_mem (names : ClosureNames) (candidate : String) :
    names.freeName candidate ∉ names.taken := by
  intro hmem
  rcases firstFree_eq names.taken candidate names.taken.length 0 with hfree | ⟨heq, hall⟩
  · exact hfree hmem
  · let candidates := (List.range (names.taken.length + 1)).map (numbered candidate)
    have hnodup : candidates.Nodup :=
      List.Nodup.map (fun _ _ h => numbered_injective h) List.nodup_range
    have hsubset : candidates ⊆ names.taken := by
      intro name hname
      obtain ⟨i, hi, rfl⟩ := List.mem_map.1 hname
      rw [List.mem_range] at hi
      by_cases hlast : i = names.taken.length
      · rw [hlast]
        rw [freeName, heq, Nat.zero_add] at hmem
        exact hmem
      · exact hall i (Nat.zero_le i) (by omega)
    have hlength := (hnodup.subperm hsubset).length_le
    rw [List.length_map, List.length_range] at hlength
    omega

/-! ## Names that are set apart -/

def IsMarked (name : String) : Prop :=
  name.toList.head? = some '$'

instance : DecidablePred IsMarked :=
  fun name => inferInstanceAs (Decidable (name.toList.head? = some '$'))

theorem IsMarked.append {name : String} (h : IsMarked name) (suffix : String) :
    IsMarked (name ++ suffix) := by
  unfold IsMarked at h ⊢
  rw [String.toList_append]
  cases hname : name.toList with
  | nil =>
    rw [hname] at h
    cases h
  | cons first rest =>
    rw [hname] at h
    exact h

theorem isMarked_numbered {candidate : String} (h : IsMarked candidate) (number : Nat) :
    IsMarked (numbered candidate number) := by
  unfold numbered
  split
  · exact h
  · exact (h.append _).append _

theorem exists_freeName_eq (names : ClosureNames) (candidate : String) :
    ∃ number, names.freeName candidate = numbered candidate number := by
  have hfirst (tries number : Nat) :
      ∃ last, firstFree names.taken candidate tries number = numbered candidate last := by
    induction tries generalizing number with
    | zero => exact ⟨number, rfl⟩
    | succ tries ih =>
      rw [firstFree]
      split
      · exact ih (number + 1)
      · exact ⟨number, rfl⟩
  exact hfirst _ _

theorem isMarked_freeName (names : ClosureNames) {candidate : String} (h : IsMarked candidate) :
    IsMarked (names.freeName candidate) := by
  obtain ⟨number, hname⟩ := names.exists_freeName_eq candidate
  rw [hname]
  exact isMarked_numbered h number

/-! ## Tables of names -/

/-- Names are given once, and all of them are taken. -/
structure Distinct (names : ClosureNames) : Prop where
  taken {i name} : names.name? i = some name → name ∈ names.taken
  injective {i j name} : names.name? i = some name → names.name? j = some name → i = j

/-- Names are given once, all of them are taken, and but for the one of the closure that the table
starts with they are marked. -/
structure WellNamed (target : String) (names : ClosureNames) : Prop where
  taken {i name} : names.name? i = some name → name ∈ names.taken
  injective {i j name} : names.name? i = some name → names.name? j = some name → i = j
  marked {i name} : names.name? i = some name → name = target ∨ IsMarked name

theorem WellNamed.distinct {target : String} {names : ClosureNames} (h : names.WellNamed target) :
    names.Distinct :=
  ⟨h.taken, h.injective⟩

/-- What a table says, another says too. -/
structure Grows (names names' : ClosureNames) : Prop where
  name? {i name} : names.name? i = some name → names'.name? i = some name
  isReferenced {name} : names.isReferenced name = true → names'.isReferenced name = true

theorem Grows.refl (names : ClosureNames) : names.Grows names :=
  ⟨id, id⟩

theorem Grows.trans {names names' names'' : ClosureNames} (h : names.Grows names')
    (h' : names'.Grows names'') : names.Grows names'' :=
  ⟨fun hname => h'.name? (h.name? hname), fun hname => h'.isReferenced (h.isReferenced hname)⟩

theorem name?_refer (names : ClosureNames) (name : String) (i : Nat) :
    (names.refer name).name? i = names.name? i := rfl

theorem isReferenced_refer (names : ClosureNames) (name other : String) :
    (names.refer name).isReferenced other = (other == name || names.isReferenced other) := by
  rw [isReferenced, refer, List.contains_cons]
  rfl

theorem wellNamed_register (target : String) (closure : Nat) :
    (empty.register closure target).WellNamed target := by
  have hname {i : Nat} {name : String}
      (h : (empty.register closure target).name? i = some name) : i = closure ∧ name = target := by
    rw [name?_register] at h
    split at h
    · next hi => exact ⟨hi, (Option.some.inj h).symm⟩
    · cases h
  refine ⟨fun h => ?_, fun h h' => ?_, fun h => .inl (hname h).2⟩
  · rw [(hname h).2]
    exact List.mem_cons_self ..
  · rw [(hname h).1, (hname h').1]

section Resolve

variable {target : String} {names : ClosureNames} {closure : Nat} {candidate : String}

theorem resolve_grows (names : ClosureNames) (closure : Nat) (candidate : String) :
    names.Grows (names.resolve closure candidate).2 := by
  unfold resolve
  split
  · refine ⟨fun h => h, fun h => ?_⟩
    rw [isReferenced_refer, h, Bool.or_true]
  · next hnone =>
    refine ⟨fun {i name} h => ?_, fun {name} h => ?_⟩
    · rw [name?_refer, name?_register, if_neg, h]
      rintro rfl
      rw [hnone] at h
      cases h
    · rw [isReferenced_refer]
      have : (names.register closure (names.freeName candidate)).isReferenced name = true := h
      rw [this, Bool.or_true]

theorem name?_resolve_of_some {known : String} (candidate : String)
    (h : names.name? closure = some known) (i : Nat) :
    (names.resolve closure candidate).2.name? i = names.name? i := by
  simp [resolve, h, name?_refer]

theorem resolve_of_none (candidate : String) (h : names.name? closure = none) :
    (names.resolve closure candidate).1 = (names.freeName candidate, true) ∧
      ∀ i, (names.resolve closure candidate).2.name? i =
        if i = closure then some (names.freeName candidate) else names.name? i := by
  simp [resolve, h, name?_refer, name?_register]

theorem taken_resolve_of_some {known : String} (candidate : String)
    (h : names.name? closure = some known) :
    (names.resolve closure candidate).2.taken = names.taken := by
  simp [resolve, h, refer]

theorem taken_resolve_of_none (candidate : String)
    (h : names.name? closure = none) :
    (names.resolve closure candidate).2.taken = names.freeName candidate :: names.taken := by
  simp [resolve, h, refer, register]

/-- The names that a table gives after a request are those that it gave before, and a name for the
closure that is asked for. -/
theorem name?_resolve_cases {i : Nat} {name : String}
    (h : (names.resolve closure candidate).2.name? i = some name) :
    names.name? i = some name ∨ i = closure ∧ name = names.freeName candidate := by
  cases hname : names.name? closure with
  | some known => exact .inl (name?_resolve_of_some candidate hname i ▸ h)
  | none =>
    rw [(resolve_of_none candidate hname).2] at h
    split at h
    · next heq => exact .inr ⟨heq, (Option.some.inj h).symm⟩
    · exact .inl h

theorem Distinct.resolve (h : names.Distinct) (closure : Nat) (candidate : String) :
    (names.resolve closure candidate).2.Distinct := by
  cases hname : names.name? closure with
  | some known =>
    refine ⟨fun hi => ?_, fun hi hj => ?_⟩
    · rw [name?_resolve_of_some candidate hname] at hi
      rw [taken_resolve_of_some candidate hname]
      exact h.taken hi
    · rw [name?_resolve_of_some candidate hname] at hi hj
      exact h.injective hi hj
  | none =>
    have hfree := names.freeName_not_mem candidate
    refine ⟨fun hi => ?_, fun hi hj => ?_⟩
    · rw [taken_resolve_of_none candidate hname]
      rcases name?_resolve_cases hi with hi | ⟨-, rfl⟩
      · exact List.mem_cons_of_mem _ (h.taken hi)
      · exact List.mem_cons_self ..
    · rcases name?_resolve_cases hi with hi | ⟨hi, hi'⟩
      · rcases name?_resolve_cases hj with hj | ⟨-, hj'⟩
        · exact h.injective hi hj
        · exact absurd (hj' ▸ h.taken hi) hfree
      · rcases name?_resolve_cases hj with hj | ⟨hj, -⟩
        · exact absurd (hi' ▸ h.taken hj) hfree
        · exact hi.trans hj.symm

theorem WellNamed.resolve (h : names.WellNamed target) (hcandidate : IsMarked candidate) :
    (names.resolve closure candidate).2.WellNamed target := by
  have hdistinct := h.distinct.resolve closure candidate
  refine ⟨hdistinct.taken, hdistinct.injective, fun hi => ?_⟩
  rcases name?_resolve_cases hi with hi | ⟨-, rfl⟩
  · exact h.marked hi
  · exact .inr (isMarked_freeName names hcandidate)

end Resolve

end ClosureNames

end Waveform
