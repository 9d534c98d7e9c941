import Waveform.Proofs.Number.Written
import Waveform.Proofs.Scopes.Histories

/-!
# Fresh names

The path of a frame begins with the number of its unit and spells out the way from the outermost
frame to the frame, each step by the letter of its kind and the number of the frame that it leads
to. A letter ends the digits before it and an underscore ends the whole path, so a name that is made
from a path can be read in one way only.
-/

namespace Waveform

variable {ν : Type}

namespace Scope

/-- The frames on the way from the outermost one to a frame. The outermost one is left out. -/
abbrev Trail := List (Kind × Nat)

def Trail.spelled (trail : Trail) : List Char :=
  trail.flatMap fun (kind, number) => kind.letter.toList ++ Nat.toDigits 10 number

def Trail.frame (trail : Trail) : Nat :=
  (trail.getLast?.map Prod.snd).getD 0

namespace Trail

@[simp] theorem spelled_nil : spelled [] = [] := rfl

theorem spelled_cons (kind : Kind) (number : Nat) (trail : Trail) :
    spelled ((kind, number) :: trail) =
      kind.letter.toList ++ (Nat.toDigits 10 number ++ spelled trail) := by
  rw [spelled, List.flatMap_cons, List.append_assoc]
  rfl

theorem spelled_concat (trail : Trail) (kind : Kind) (number : Nat) :
    spelled (trail ++ [(kind, number)]) =
      spelled trail ++ kind.letter.toList ++ Nat.toDigits 10 number := by
  simp [spelled]

theorem frame_concat (trail : Trail) (kind : Kind) (number : Nat) :
    frame (trail ++ [(kind, number)]) = number := by
  simp [frame]

end Trail

/-! ## Reading a path -/

theorem Kind.exists_letter (kind : Kind) :
    ∃ c, kind.letter.toList = [c] ∧ c.isDigit = false ∧ c ≠ '_' := by
  cases kind <;> exact ⟨_, rfl, by decide, by decide⟩

theorem Kind.letter_injective {kind kind' : Kind}
    (h : kind.letter.toList = kind'.letter.toList) : kind = kind' := by
  cases kind <;> cases kind' <;> first | rfl | (revert h; decide)

theorem digits_append_cancel {m n : Nat} {rest rest' : List Char}
    (hrest : ∀ c ∈ rest.head?, c.isDigit = false) (hrest' : ∀ c ∈ rest'.head?, c.isDigit = false)
    (h : Nat.toDigits 10 m ++ rest = Nat.toDigits 10 n ++ rest') : m = n ∧ rest = rest' := by
  have hdigits (n : Nat) : ∀ c ∈ Nat.toDigits 10 n, c.isDigit = true :=
    fun c hc => Nat.isDigit_of_mem_toDigits (by decide) (by decide) hc
  obtain ⟨htake, hdrop⟩ := Written.span_digits (hdigits m) hrest
  obtain ⟨htake', hdrop'⟩ := Written.span_digits (hdigits n) hrest'
  rw [h, htake'] at htake
  rw [h, hdrop'] at hdrop
  refine ⟨?_, hdrop.symm⟩
  calc
    m = Nat.ofDigitChars 10 (Nat.toDigits 10 m) 0 := Nat.ofDigitChars_ten_toDigits.symm
    _ = Nat.ofDigitChars 10 (Nat.toDigits 10 n) 0 := by rw [htake]
    _ = n := Nat.ofDigitChars_ten_toDigits

theorem Trail.head?_spelled (trail : Trail) (suffix : List Char) :
    ∀ c ∈ (trail.spelled ++ '_' :: suffix).head?, c.isDigit = false := by
  cases trail with
  | nil =>
    rintro c ⟨⟩
    decide
  | cons step trail =>
    obtain ⟨kind, number⟩ := step
    obtain ⟨letter, hletter, hdigit, -⟩ := kind.exists_letter
    rw [spelled_cons, hletter]
    rintro c ⟨⟩
    exact hdigit

theorem Trail.spelled_cancel {trail trail' : Trail} {suffix suffix' : List Char}
    (h : trail.spelled ++ '_' :: suffix = trail'.spelled ++ '_' :: suffix') :
    trail = trail' ∧ suffix = suffix' := by
  induction trail generalizing trail' with
  | nil =>
    cases trail' with
    | nil => exact ⟨rfl, (List.cons.inj h).2⟩
    | cons step' trail' =>
      -- where one path ends, the other goes on with a letter
      obtain ⟨letter, hletter, -, hne⟩ := step'.1.exists_letter
      rw [spelled_cons, hletter] at h
      exact absurd (List.cons.inj h).1.symm hne
  | cons step trail ih =>
    obtain ⟨kind, number⟩ := step
    cases trail' with
    | nil =>
      obtain ⟨letter, hletter, -, hne⟩ := kind.exists_letter
      rw [spelled_cons, hletter] at h
      exact absurd (List.cons.inj h).1 hne
    | cons step' trail' =>
      obtain ⟨kind', number'⟩ := step'
      obtain ⟨letter, hletter, -, -⟩ := kind.exists_letter
      obtain ⟨letter', hletter', -, -⟩ := kind'.exists_letter
      simp only [spelled_cons, List.append_assoc] at h
      obtain ⟨hkind, hsteps⟩ := List.append_inj h (by rw [hletter, hletter']; rfl)
      obtain ⟨rfl, htrail⟩ := digits_append_cancel (head?_spelled trail suffix)
        (head?_spelled trail' suffix') hsteps
      obtain ⟨rfl, hsuffix⟩ := ih htrail
      exact ⟨by rw [Kind.letter_injective hkind], hsuffix⟩

/-- A name is read as a number, a trail and a suffix in one way only. -/
theorem Trail.name_cancel {k l : Nat} {trail trail' : Trail} {suffix suffix' : List Char}
    (h : Nat.toDigits 10 k ++ (trail.spelled ++ '_' :: suffix) =
      Nat.toDigits 10 l ++ (trail'.spelled ++ '_' :: suffix')) :
    k = l ∧ trail = trail' ∧ suffix = suffix' := by
  obtain ⟨hunit, hrest⟩ := digits_append_cancel (head?_spelled trail suffix)
    (head?_spelled trail' suffix') h
  exact ⟨hunit, spelled_cancel hrest⟩

end Scope

namespace Scopes

/-! ## Units -/

/-- The frames of the unit with the given number. -/
inductive OfUnit (k : Nat) : Scopes ν → Prop
  | root (hardcoded : List Builtin) (kind : Scope.Kind) :
    OfUnit k ((empty hardcoded).root kind ("c" ++ toString k)).2
  | change {σ τ : Scopes ν} (h : OfUnit k σ) (hchange : σ.Change τ) : OfUnit k τ

variable {σ τ : Scopes ν} {k l : Nat}

theorem OfUnit.reached (h : σ.OfUnit k) : σ.Reached := by
  induction h with
  | root hardcoded kind => exact .root (.empty hardcoded) kind _
  | change _ hchange ih => exact ih.change hchange

def SpelledOut (k : Nat) (σ : Scopes ν) : Prop :=
  ∀ i < σ.size, ∃ trail : Scope.Trail, trail.frame = i ∧
    (σ.frame i).path.toList = 'c' :: (Nat.toDigits 10 k ++ trail.spelled)

theorem spelledOut_root (k : Nat) (hardcoded : List Builtin) (kind : Scope.Kind) :
    SpelledOut k ((empty (ν := ν) hardcoded).root kind ("c" ++ toString k)).2 := by
  intro i hi
  obtain rfl : i = 0 := Nat.lt_one_iff.1 hi
  refine ⟨[], rfl, ?_⟩
  simp [Scopes.root, empty, frame, Nat.toList_repr]

theorem SpelledOut.define (h : SpelledOut k σ) (i : Nat) (name : String) (b : Scope.Binding ν) :
    SpelledOut k (σ.define i name b) := by
  intro j hj
  rw [path_define]
  exact h j (by rwa [size_define] at hj)

theorem SpelledOut.child (h : SpelledOut k σ) {i : Nat} (hi : i < σ.size) (kind : Scope.Kind) :
    SpelledOut k (σ.child i kind).2 := by
  intro j hj
  rw [size_child] at hj
  rcases Nat.lt_succ_iff_lt_or_eq.1 hj with hlt | rfl
  · rw [frame_child_of_lt σ i j kind hlt]
    exact h j hlt
  · obtain ⟨trail, -, hpath⟩ := h i hi
    refine ⟨trail ++ [(kind, σ.size)], Scope.Trail.frame_concat trail kind _, ?_⟩
    have hnew : ((σ.child i kind).2.frame σ.size).path =
        (σ.frame i).path ++ kind.letter ++ toString σ.size := by
      simp [Scopes.child, frame, size]
    rw [hnew, Scope.Trail.spelled_concat]
    simp [hpath, Nat.toList_repr]

theorem SpelledOut.change (h : SpelledOut k σ) (hchange : σ.Change τ) : SpelledOut k τ := by
  cases hchange with
  | child hi kind => exact h.child hi kind
  | define _ name b => exact h.define _ name b
  | assign hassign =>
    obtain ⟨-, rfl⟩ := assign_eq_ok.1 hassign
    exact h.define _ _ _

theorem OfUnit.spelledOut (h : σ.OfUnit k) : SpelledOut k σ := by
  induction h with
  | root hardcoded kind => exact spelledOut_root k hardcoded kind
  | change _ hchange ih => exact ih.change hchange

/-- A name that is made for a frame spells out the unit, the trail and what it is made from. -/
theorem SpelledOut.exists_trail (h : SpelledOut k σ) {i : Nat} (hi : i < σ.size) (name : String) :
    ∃ trail : Scope.Trail, trail.frame = i ∧ (σ.freshName i name).toList =
      '$' :: 'c' :: (Nat.toDigits 10 k ++ (trail.spelled ++ '_' :: name.toList)) := by
  obtain ⟨trail, hframe, hpath⟩ := h i hi
  exact ⟨trail, hframe, by simp [freshName, hpath]⟩

/-- A name that is made for a frame tells the unit, the frame and what it was made from. -/
theorem OfUnit.freshName_injective (hσ : σ.OfUnit k) (hτ : τ.OfUnit l) {i j : Nat}
    (hi : i < σ.size) (hj : j < τ.size) {name name' : String}
    (h : σ.freshName i name = τ.freshName j name') : k = l ∧ i = j ∧ name = name' := by
  obtain ⟨trail, rfl, hname⟩ := hσ.spelledOut.exists_trail hi name
  obtain ⟨trail', rfl, hname'⟩ := hτ.spelledOut.exists_trail hj name'
  rw [h, hname', List.cons.injEq, List.cons.injEq] at hname
  obtain ⟨rfl, rfl, hsame⟩ := Scope.Trail.name_cancel hname.2.2
  exact ⟨rfl, rfl, String.toList_injective hsame.symm⟩

def functionInside : Scopes Float :=
  (((empty []).root .closure ("c" ++ toString 1)).2.child 0 .function).2

def blockInside : Scopes Float :=
  (functionInside.child 1 .block).2

theorem functionInside_freshName :
    functionInside.OfUnit 1 ∧ blockInside.OfUnit 1 ∧
      functionInside.freshName 1 "B2_f" = "$c1F1_B2_f" ∧
      blockInside.freshName 2 "f" = "$c1F1B2_f" ∧
      functionInside.freshName 1 "B2_f" ≠ blockInside.freshName 2 "f" ∧
      blockInside.freshName 1 "f_0" = "$c1F1_f_0" ∧
      ∀ i < functionInside.size, ∀ name,
        functionInside.freshName i name = blockInside.freshName 1 "f_0" → i = 1 ∧ name = "f_0" := by
  have hunit : functionInside.OfUnit 1 := .change (.root [] .closure) (.child (by decide) .function)
  have hgrown : blockInside.OfUnit 1 := .change hunit (.child (by decide) .block)
  refine ⟨hunit, hgrown, by decide, by decide, fun h => ?_, by decide, fun i hi name h => ?_⟩
  · exact absurd (OfUnit.freshName_injective hunit hgrown (by decide) (by decide) h).2.1 (by decide)
  · exact (OfUnit.freshName_injective hunit hgrown hi (by decide) h).2

end Scopes

end Waveform
