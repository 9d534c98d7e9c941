import Waveform.Proofs.Inlining.Outcome

/-!
# Histories of scopes

What is done to frames, one step after the other, and what holds of all frames that come about in
this way. A frame is younger than the one around it, so the way out of a frame, from each frame to
the one around it, comes to an end.
-/

namespace Waveform

variable {ν : Type}

namespace Scopes

/-- What is done to frames that are there. A variable that cannot be written stays as it is. -/
inductive Change (σ : Scopes ν) : Scopes ν → Prop
  | child {i : Nat} (h : i < σ.size) (kind : Scope.Kind) : Change σ (σ.child i kind).2
  | define {i : Nat} (h : i < σ.size) (name : String) (b : Scope.Binding ν) :
    Change σ (σ.define i name b)
  | assign {i : Nat} {name : String} {value : Expression ν} {τ : Scopes ν}
    (h : σ.assign i name value = .ok τ) : Change σ τ

/-- All frames that there can be. -/
inductive Reached : Scopes ν → Prop
  | empty (hardcoded : List Builtin) : Reached (empty hardcoded)
  | root {σ : Scopes ν} (h : Reached σ) (kind : Scope.Kind) (path : String) :
    Reached (σ.root kind path).2
  | change {σ τ : Scopes ν} (h : Reached σ) (hchange : σ.Change τ) : Reached τ

variable {σ τ : Scopes ν}

theorem assign_eq_ok {i : Nat} {name : String} {value : Expression ν} :
    σ.assign i name value = .ok τ ↔
      (∃ current, (σ.frame i).bindings.find? name = some (.mutable current)) ∧
        τ = σ.define i name (.mutable value) := by
  unfold assign
  split
  · next current hfind => simp [hfind, pure, Except.pure, eq_comm]
  · next b hne hfind =>
    refine ⟨nofun, fun ⟨⟨current, hcurrent⟩, _⟩ => ?_⟩
    rw [hfind] at hcurrent
    exact absurd (Option.some.inj hcurrent) (hne current)
  · next hfind => simp [hfind, throw, throwThe, MonadExceptOf.throw]

/-! ## Frames inside each other -/

/-- A frame has a greater number than the one around it, and around both lie the same frames. -/
structure Nested (σ : Scopes ν) : Prop where
  parent_lt {i p : Nat} : σ.parent? i = some p → p < i
  outer {i p : Nat} : σ.parent? i = some p → (σ.frame i).outer = σ.chain p

theorem nested_empty (hardcoded : List Builtin) : (empty (ν := ν) hardcoded).Nested :=
  ⟨nofun, nofun⟩

theorem Nested.of_outer (h : σ.Nested)
    (houter : ∀ i, (τ.frame i).outer = (σ.frame i).outer) : τ.Nested := by
  refine ⟨fun {i p} hp => h.parent_lt ?_, fun {i p} hp => ?_⟩
  · rwa [parent?, houter] at hp
  · rw [parent?, houter] at hp
    rw [houter, chain, houter]
    exact h.outer hp

theorem Nested.root (h : σ.Nested) (kind : Scope.Kind) (path : String) :
    (σ.root kind path).2.Nested := by
  refine h.of_outer fun i => ?_
  rcases Nat.lt_trichotomy i σ.frames.size with hlt | rfl | hgt
  · simp [Scopes.root, frame, Array.getElem?_push, Nat.ne_of_lt hlt]
  · simp [Scopes.root, frame]
  · simp [Scopes.root, frame, Array.getElem?_push, Nat.ne_of_gt hgt]

theorem Nested.define (h : σ.Nested) (i : Nat) (name : String) (b : Scope.Binding ν) :
    (σ.define i name b).Nested :=
  h.of_outer fun j => outer_define σ i j name b

theorem Nested.child (h : σ.Nested) {i : Nat} (hi : i < σ.size) (kind : Scope.Kind) :
    (σ.child i kind).2.Nested := by
  have hextend := extends_child σ i kind
  have hcases {j p : Nat} (hp : (σ.child i kind).2.parent? j = some p) :
      p < j ∧ p < σ.size ∧ ((σ.child i kind).2.frame j).outer = σ.chain p := by
    rw [parent?] at hp
    rcases Nat.lt_trichotomy j σ.size with hlt | rfl | hgt
    · rw [hextend.outer j hlt] at hp ⊢
      have hpj : p < j := h.parent_lt hp
      exact ⟨hpj, Nat.lt_trans hpj hlt, h.outer hp⟩
    · rw [(frame_child_size σ i kind).2] at hp ⊢
      obtain rfl : i = p := Option.some.inj hp
      exact ⟨hi, hi, rfl⟩
    · rw [frame_of_le (by rw [size_child]; omega)] at hp
      cases hp
  refine ⟨fun hp => (hcases hp).1, fun hp => ?_⟩
  obtain ⟨-, hlt, houter⟩ := hcases hp
  rw [houter, hextend.chain hlt]

theorem Nested.change (h : σ.Nested) (hchange : σ.Change τ) : τ.Nested := by
  cases hchange with
  | child hi kind => exact h.child hi kind
  | define _ name b => exact h.define _ name b
  | assign hassign =>
    obtain ⟨-, rfl⟩ := assign_eq_ok.1 hassign
    exact h.define _ _ _

theorem Reached.nested (h : σ.Reached) : σ.Nested := by
  induction h with
  | empty hardcoded => exact nested_empty hardcoded
  | root _ kind path ih => exact ih.root kind path
  | change _ hchange ih => exact ih.change hchange

/-! ## The way out of a frame -/

/-- From a frame one comes to another by leaving the frames in between, each for the one around
it. -/
inductive Way (σ : Scopes ν) : Nat → List Nat → Nat → Prop
  | here (i : Nat) : Way σ i [] i
  | out {i p j : Nat} {left : List Nat} (hp : σ.parent? i = some p) (h : Way σ p left j) :
    Way σ i (i :: left) j

namespace Nested

variable (h : σ.Nested)

include h

theorem chain_of_parent {i p : Nat} (hp : σ.parent? i = some p) :
    σ.chain i = i :: σ.chain p := by
  rw [chain, h.outer hp]

omit h in
theorem chain_of_outermost {i : Nat} (hp : σ.parent? i = none) : σ.chain i = [i] := by
  rw [chain, List.head?_eq_none_iff.1 hp]

/-- The frames that a name is looked up in are those on the way out. -/
theorem chain_eq {i j : Nat} {left : List Nat} (hway : σ.Way i left j) :
    σ.chain i = left ++ σ.chain j := by
  induction hway with
  | here i => rfl
  | out hp _ ih => rw [h.chain_of_parent hp, ih, List.cons_append]

theorem exists_outermost (i : Nat) :
    ∃ left last, σ.Way i left last ∧ σ.parent? last = none ∧ left.length + last ≤ i := by
  induction i using Nat.strongRecOn with
  | ind i ih =>
    cases hp : σ.parent? i with
    | none => exact ⟨[], i, .here i, hp, by simp⟩
    | some p =>
      have hlt := h.parent_lt hp
      obtain ⟨left, last, hway, hlast, hlength⟩ := ih p hlt
      refine ⟨i :: left, last, .out hp hway, hlast, ?_⟩
      rw [List.length_cons]
      omega

end Nested

end Scopes

end Waveform
