import Waveform.Proofs.Inlining.Branching

/-!
# Frames that are added

A frame that is opened sees what the frame around it sees, until something is bound in it. What is
bound in frames that are added changes nothing that could be read before.
-/

namespace Waveform

variable {ν : Type}

/-- What a name stands for, given what it is bound to. -/
def Scope.Binding.standsFor (name : String) : Scope.Binding ν → Expression ν
  | .parameter => .identifier name
  | .mutable value | .constant value | .hardcoded value => value

namespace Scopes

def seen? (σ : Scopes ν) (i : Nat) (name : String) : Option (Scope.Binding ν) :=
  (σ.lookup? i name).map Prod.snd

variable {σ τ υ : Scopes ν}

theorem Undisturbed.refl (σ : Scopes ν) : σ.Undisturbed σ :=
  ⟨List.prefix_refl _, rfl⟩

theorem Undisturbed.trans (h : σ.Undisturbed τ) (h' : τ.Undisturbed υ) : σ.Undisturbed υ :=
  ⟨h.frames.trans h'.frames, h'.hardcoded.trans h.hardcoded⟩

theorem undisturbed_child (σ : Scopes ν) (i : Nat) (kind : Scope.Kind) :
    σ.Undisturbed (σ.child i kind).2 :=
  Kept.undisturbed ⟨extends_child σ i kind, fun j hj _ _ => frame_child_of_lt σ i j kind hj⟩

theorem Undisturbed.define (h : σ.Undisturbed τ) {j : Nat} (hj : σ.size ≤ j) (name : String)
    (b : Scope.Binding ν) : σ.Undisturbed (τ.define j name b) := by
  refine Kept.undisturbed ⟨?_, fun i hi _ _ => ?_⟩
  · refine Extends.trans ⟨h.size_le, fun i hi => ?_, h.hardcoded⟩ (extends_define τ j name b)
    rw [h.frame hi]
  · rw [frame_define_of_ne (by omega), h.frame hi]

theorem hasPlace_child {i : Nat} (h : σ.HasPlace i) (kind : Scope.Kind) :
    (σ.child i kind).2.HasPlace σ.size := by
  intro j hj
  rw [chain, (frame_child_size σ i kind).2] at hj
  rw [size_child]
  rcases List.mem_cons.1 hj with rfl | hj
  · omega
  · have := h j hj
    omega

theorem Undisturbed.hasPlace (h : σ.Undisturbed τ) {i : Nat} (hi : σ.HasPlace i) :
    τ.HasPlace i := by
  intro j hj
  rw [h.chain hi] at hj
  exact Nat.lt_of_lt_of_le (hi j hj) h.size_le

theorem Undisturbed.seen? (h : σ.Undisturbed τ) {i : Nat} (hi : σ.HasPlace i) (name : String) :
    τ.seen? i name = σ.seen? i name := by
  rw [Scopes.seen?, Scopes.seen?, h.lookup? hi]

/-- A frame sees what it binds itself, and otherwise what is seen from the frame around it. -/
theorem Undisturbed.seen?_inner (h : σ.Undisturbed τ) {i j : Nat} (hi : σ.HasPlace i)
    (houter : (τ.frame j).outer = σ.chain i) (name : String) :
    τ.seen? j name = ((τ.frame j).bindings.find? name).or (σ.seen? i name) := by
  have hfind : τ.findIn? name (σ.chain i) = σ.findIn? name (σ.chain i) := h.findIn? hi name
  rw [Scopes.seen?, Scopes.seen?, Scopes.lookup?, Scopes.findIn?, houter, hfind]
  cases (τ.frame j).bindings.find? name with
  | some b => rfl
  | none =>
    rw [Option.none_or, Scopes.lookup?, ← Scopes.chain]
    cases σ.findIn? name (σ.chain i) with
    | some found => rfl
    | none =>
      dsimp only
      rw [Option.map_map, Option.map_map, h.hardcoded]
      rfl

theorem seen?_child {i : Nat} (h : σ.HasPlace i) (kind : Scope.Kind) (name : String) :
    (σ.child i kind).2.seen? σ.size name = σ.seen? i name := by
  obtain ⟨hbindings, houter⟩ := frame_child_size σ i kind
  rw [(undisturbed_child σ i kind).seen?_inner h houter, hbindings, Bindings.find?_empty,
    Option.none_or]

theorem seen?_child_define {i : Nat} (h : σ.HasPlace i) (kind : Scope.Kind) (name : String)
    (b : Scope.Binding ν) (other : String) :
    ((σ.child i kind).2.define σ.size name b).seen? σ.size other =
      if other = name then some b else σ.seen? i other := by
  obtain ⟨hbindings, houter⟩ := frame_child_size σ i kind
  have hnew : σ.size < (σ.child i kind).2.size := by
    rw [size_child]
    omega
  have hundisturbed := (undisturbed_child σ i kind).define (Nat.le_refl σ.size) name b
  rw [hundisturbed.seen?_inner h ((outer_define ..).trans houter), frame_define_self hnew,
    hbindings, Bindings.find?_insert, Bindings.find?_empty]
  split <;> rfl

end Scopes

namespace Inlining

variable {α β : Type}

theorem run_bind_of_ok {x : Inlining ν α} {f : α → Inlining ν β} {σ τ : Scopes ν} {a : α}
    (h : x.run σ = .ok (a, τ)) : (x >>= f).run σ = (f a).run τ := by
  rw [StateT.run_bind, h]
  rfl

theorem run_child_bind (i : Nat) (kind : Scope.Kind) (f : Nat → Inlining ν α)
    (σ : Scopes ν) : (child i kind >>= f).run σ = (f σ.size).run (σ.child i kind).2 := rfl

theorem run_modify_bind (g : Scopes ν → Scopes ν) (f : PUnit → Inlining ν α)
    (σ : Scopes ν) : (modify g >>= f).run σ = (f ⟨⟩).run (g σ) := rfl

theorem read_run (scope : Nat) (name : String) (σ : Scopes ν) :
    (read scope name).run σ =
      match σ.seen? scope name with
      | some b => .ok (b.standsFor name, σ)
      | none => .error (.unresolvedName name) := by
  rw [read, StateT.run_bind, StateT.run_get, pure_bind, Scopes.seen?]
  rcases σ.lookup? scope name with _ | ⟨i, _ | _ | _ | _⟩ <;> rfl

theorem read_congr {σ τ : Scopes ν} {scope scope' : Nat} {name : String} {e : Expression ν}
    (h : τ.seen? scope' name = σ.seen? scope name)
    (hread : (read scope name).run σ = .ok (e, σ)) : (read scope' name).run τ = .ok (e, τ) := by
  rw [read_run] at hread ⊢
  rw [h]
  cases hseen : σ.seen? scope name with
  | none =>
    rw [hseen] at hread
    cases hread
  | some b =>
    rw [hseen] at hread
    cases hread
    rfl

end Inlining

end Waveform
