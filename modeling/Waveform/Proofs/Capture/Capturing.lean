import Waveform.Proofs.Capture.Captured
import Waveform.Proofs.Capture.Naming
import Waveform.Proofs.Inlining.Entering

/-!
# Steps of a capture

What the steps of a capture that succeeds do, and the frames that they work in: a name is bound in
or around a frame exactly when it is among the locals of the tree that is captured there.
-/

namespace Waveform

variable {ν : Type}

/-! ## Frames of a capture -/

def Scope.Binding.isOwn : Scope.Binding ν → Bool
  | .parameter | .mutable _ => true
  | .constant _ | .hardcoded _ => false

theorem Capturing.isOwn_declared (kind : DeclarationKind) :
    (Capturing.declared kind : Scope.Binding ν).isOwn = true := by
  cases kind <;> rfl

theorem Locals.extend_append (l : Locals) (names names' : List String) :
    (l.extend names).extend names' = l.extend (names ++ names') := by
  funext name
  simp only [extend, List.mem_append, or_assoc]

namespace Scopes

def Binds (σ : Scopes ν) (j : Nat) (name : String) : Prop :=
  ((σ.frame j).bindings.find? name).isSome = true

def locals (σ : Scopes ν) (scope : Nat) : Locals :=
  fun name => ∃ j ∈ σ.chain scope, σ.Binds j name

/-- The names that are bound where a tree is captured, all of which stay names. -/
structure Stands (hardcoded : List Builtin) (scope : Nat) (l : Locals) (σ : Scopes ν) : Prop where
  own {j name b} : (σ.frame j).bindings.find? name = some b → b.isOwn = true
  outer {i j} : i < σ.size → j ∈ (σ.frame i).outer → j < i
  bound : scope < σ.size
  locals : σ.locals scope = l
  hardcoded : σ.hardcoded = hardcoded

/-- Frames other than the given one bind what they did. -/
structure Aside (scope : Nat) (σ σ' : Scopes ν) : Prop where
  extend : σ.Extends σ'
  binds {j} : j < σ.size → j ≠ scope → ∀ name, σ'.Binds j name ↔ σ.Binds j name

variable {hardcoded : List Builtin} {scope : Nat} {l l' : Locals} {σ τ υ : Scopes ν}

theorem Aside.refl (scope : Nat) (σ : Scopes ν) : Aside scope σ σ :=
  ⟨.refl σ, fun _ _ _ => .rfl⟩

theorem Aside.trans (h : Aside scope σ τ) (h' : Aside scope τ υ) : Aside scope σ υ where
  extend := h.extend.trans h'.extend
  binds hj hne name :=
    (h'.binds (Nat.lt_of_lt_of_le hj h.extend.size_le) hne name).trans (h.binds hj hne name)

theorem Stands.mem_chain (h : Stands hardcoded scope l σ) {j : Nat} (hj : j ∈ σ.chain scope) :
    j ≤ scope := by
  rcases List.mem_cons.1 hj with rfl | hj
  · exact Nat.le_refl _
  · exact Nat.le_of_lt (h.outer h.bound hj)

theorem Stands.findIn? (h : Stands hardcoded scope l σ) (name : String) :
    (∃ i b, σ.findIn? name (σ.chain scope) = some (i, b) ∧ b.isOwn = true ∧ l name) ∨
      σ.findIn? name (σ.chain scope) = none ∧ ¬ l name := by
  have hnone : ∀ {js : List Nat}, σ.findIn? name js = none → ∀ j ∈ js, ¬ σ.Binds j name := by
    intro js hjs j hj hbinds
    induction js with
    | nil => cases hj
    | cons k ks ih =>
      rw [Scopes.findIn?] at hjs
      cases hk : (σ.frame k).bindings.find? name with
      | some b =>
        rw [hk] at hjs
        cases hjs
      | none =>
        rw [hk] at hjs
        rcases List.mem_cons.1 hj with rfl | hj
        · rw [Binds, hk] at hbinds
          cases hbinds
        · exact ih hjs hj
  cases hfind : σ.findIn? name (σ.chain scope) with
  | some found =>
    obtain ⟨i, b⟩ := found
    obtain ⟨hi, hb⟩ := mem_of_findIn? hfind
    refine .inl ⟨i, b, rfl, h.own hb, ?_⟩
    rw [← h.locals]
    exact ⟨i, hi, by rw [Binds, hb]; rfl⟩
  | none =>
    refine .inr ⟨rfl, fun hl => ?_⟩
    rw [← h.locals] at hl
    obtain ⟨j, hj, hbinds⟩ := hl
    exact hnone hfind j hj hbinds

theorem binds_define (σ : Scopes ν) {i : Nat} (hi : i < σ.size) (name : String)
    (b : Scope.Binding ν) (j : Nat) (other : String) :
    (σ.define i name b).Binds j other ↔ j = i ∧ other = name ∨ σ.Binds j other := by
  unfold Binds
  by_cases hj : j = i
  · subst hj
    rw [frame_define_self hi, Bindings.find?_insert]
    by_cases hname : other = name <;> simp [hname]
  · rw [frame_define_of_ne hj]
    simp [hj]

theorem Stands.define (h : Stands hardcoded scope l σ) {name : String} {b : Scope.Binding ν}
    (hb : b.isOwn = true) :
    Stands hardcoded scope (l.extend [name]) (σ.define scope name b) := by
  refine ⟨fun {j other c} hc => ?_, fun {i j} hi hj => ?_, by simpa using h.bound, ?_, h.hardcoded⟩
  · by_cases hj : j = scope
    · subst hj
      rw [frame_define_self h.bound, Bindings.find?_insert] at hc
      split at hc
      · cases hc
        exact hb
      · exact h.own hc
    · rw [frame_define_of_ne hj] at hc
      exact h.own hc
  · rw [outer_define] at hj
    exact h.outer (by simpa using hi) hj
  · funext other
    refine propext ⟨?_, ?_⟩
    · rintro ⟨j, hj, hbinds⟩
      rw [(extends_define σ scope name b).chain h.bound] at hj
      rcases (binds_define σ h.bound name b j other).1 hbinds with ⟨-, rfl⟩ | hbinds
      · exact .inr (List.mem_singleton_self _)
      · refine .inl ?_
        rw [← h.locals]
        exact ⟨j, hj, hbinds⟩
    · intro hother
      rw [Scopes.locals, (extends_define σ scope name b).chain h.bound]
      rcases hother with hl | hmem
      · rw [← h.locals] at hl
        obtain ⟨j, hj, hbinds⟩ := hl
        exact ⟨j, hj, (binds_define σ h.bound name b j other).2 (.inr hbinds)⟩
      · obtain rfl := List.mem_singleton.1 hmem
        exact ⟨scope, List.mem_cons_self .., (binds_define σ h.bound other b scope other).2
          (.inl ⟨rfl, rfl⟩)⟩

theorem aside_define (h : scope < σ.size) (name : String) (b : Scope.Binding ν) :
    Aside scope σ (σ.define scope name b) := by
  refine ⟨extends_define σ scope name b, fun {j} _ hne other => ?_⟩
  rw [binds_define σ h]
  simp [hne]

theorem Stands.defineParameters (h : Stands hardcoded scope l σ) (params : List String) :
    Stands hardcoded scope (l.extend params) (σ.defineParameters scope params) ∧
      Aside scope σ (σ.defineParameters scope params) := by
  induction params generalizing σ l with
  | nil =>
    rw [Locals.extend_nil]
    exact ⟨h, .refl scope σ⟩
  | cons p ps ih =>
    have hfirst : Stands hardcoded scope (l.extend [p]) (σ.define scope p .parameter) :=
      h.define rfl
    obtain ⟨hstands, haside⟩ := ih hfirst
    rw [Locals.extend_append] at hstands
    rw [defineParameters_cons]
    exact ⟨hstands, (aside_define h.bound p .parameter).trans haside⟩

theorem Stands.child (h : Stands hardcoded scope l σ) (kind : Scope.Kind) :
    Stands hardcoded σ.size l (σ.child scope kind).2 := by
  have hnew := frame_child_size σ scope kind
  have hbinds (name : String) : ¬ (σ.child scope kind).2.Binds σ.size name := by
    rw [Binds, hnew.1]
    exact Bool.false_ne_true
  have hold {j : Nat} (hj : j ∈ σ.chain scope) (name : String) :
      (σ.child scope kind).2.Binds j name ↔ σ.Binds j name := by
    have hlt : j < σ.size := Nat.lt_of_le_of_lt (h.mem_chain hj) h.bound
    rw [Binds, Binds, frame_child_of_lt σ scope j kind hlt]
  refine ⟨fun {j name b} hb => ?_, fun {i j} hi hj => ?_, by simp, ?_, h.hardcoded⟩
  · by_cases hlt : j < σ.size
    · rw [frame_child_of_lt σ scope j kind hlt] at hb
      exact h.own hb
    · by_cases heq : j = σ.size
      · rw [heq, hnew.1] at hb
        cases hb
      · rw [frame_of_le (by rw [size_child]; omega)] at hb
        cases hb
  · rw [size_child] at hi
    by_cases hlt : i < σ.size
    · rw [frame_child_of_lt σ scope i kind hlt] at hj
      exact h.outer hlt hj
    · obtain rfl : i = σ.size := by omega
      rw [hnew.2] at hj
      exact Nat.lt_of_le_of_lt (h.mem_chain hj) h.bound
  · funext name
    rw [Scopes.locals, chain_child, ← h.locals]
    refine propext ⟨?_, ?_⟩
    · rintro ⟨j, hj, hname⟩
      rcases List.mem_cons.1 hj with rfl | hj
      · exact absurd hname (hbinds name)
      · exact ⟨j, hj, (hold hj name).1 hname⟩
    · rintro ⟨j, hj, hname⟩
      exact ⟨j, List.mem_cons_of_mem _ hj, (hold hj name).2 hname⟩

theorem Stands.leave (h : Stands hardcoded scope l σ) {kind : Scope.Kind}
    (hinner : Stands hardcoded σ.size l' τ) (haside : Aside σ.size (σ.child scope kind).2 τ) :
    Stands hardcoded scope l τ ∧ Aside scope σ τ := by
  have hextend := (extends_child σ scope kind).trans haside.extend
  have hbinds {j : Nat} (hj : j < σ.size) (name : String) : τ.Binds j name ↔ σ.Binds j name := by
    rw [haside.binds (by rw [size_child]; omega) (Nat.ne_of_lt hj)]
    rw [Binds, Binds, frame_child_of_lt σ scope j kind hj]
  refine ⟨⟨hinner.own, hinner.outer, Nat.lt_of_lt_of_le h.bound hextend.size_le, ?_,
    hinner.hardcoded⟩, hextend, fun hj _ => hbinds hj⟩
  rw [← h.locals]
  funext name
  rw [Scopes.locals, Scopes.locals, hextend.chain h.bound]
  refine propext (exists_congr fun j => and_congr_right fun hj => ?_)
  exact hbinds (Nat.lt_of_le_of_lt (h.mem_chain hj) h.bound) name

theorem stands_root (hardcoded : List Builtin) (kind : Scope.Kind) (path : String) :
    Stands (ν := ν) hardcoded 0 Locals.none ((Scopes.empty hardcoded).root kind path).2 := by
  have hframe (i : Nat) : (((Scopes.empty (ν := ν) hardcoded).root kind path).2.frame i).bindings =
      .empty ∧ (((Scopes.empty (ν := ν) hardcoded).root kind path).2.frame i).outer = [] := by
    cases i <;> exact ⟨rfl, rfl⟩
  refine ⟨fun {j name b} h => ?_, fun {i j} _ h => ?_, Nat.zero_lt_one, ?_, rfl⟩
  · rw [(hframe j).1] at h
    cases h
  · rw [(hframe i).2] at h
    cases h
  · funext name
    refine propext ⟨?_, False.elim⟩
    rintro ⟨j, -, hbinds⟩
    rw [Binds, (hframe j).1] at hbinds
    cases hbinds

end Scopes

/-! ## Captures that succeed -/

namespace Capturing

variable {α β : Type}

def Gives (x : Capturing ν α) (σ : CaptureState ν) (a : α) (σ' : CaptureState ν) : Prop :=
  StateT.run (ExceptT.run x) σ = (.ok a, σ')

theorem gives_pure {a b : α} {σ σ' : CaptureState ν} :
    Gives (pure a : Capturing ν α) σ b σ' ↔ b = a ∧ σ' = σ := by
  change (Except.ok a, σ) = (.ok b, σ') ↔ _
  simp [eq_comm]

theorem gives_bind {x : Capturing ν α} {f : α → Capturing ν β} {σ σ' : CaptureState ν} {b : β} :
    Gives (x >>= f) σ b σ' ↔ ∃ a τ, Gives x σ a τ ∧ Gives (f a) τ b σ' := by
  simp only [Gives, ExceptT.run_bind, StateT.run_bind]
  rcases StateT.run (ExceptT.run x) σ with ⟨_ | a, τ⟩
  · constructor
    · intro h
      cases h
    · rintro ⟨_, _, ⟨⟩, -⟩
  · constructor
    · exact fun h => ⟨a, τ, rfl, h⟩
    · rintro ⟨_, _, ⟨⟩, h⟩
      exact h

theorem gives_modifyGet {f : CaptureState ν → α × CaptureState ν} {b : α}
    {σ σ' : CaptureState ν} :
    Gives (modifyGet f : Capturing ν α) σ b σ' ↔ b = (f σ).1 ∧ σ' = (f σ).2 := by
  change (Except.ok (f σ).1, (f σ).2) = (.ok b, σ') ↔ _
  simp [eq_comm]

theorem gives_modify {f : CaptureState ν → CaptureState ν} {u : Unit} {σ σ' : CaptureState ν} :
    Gives (modify f : Capturing ν Unit) σ u σ' ↔ σ' = f σ := by
  change (Except.ok (), f σ) = (.ok u, σ') ↔ _
  simp [eq_comm]

theorem gives_get {b σ σ' : CaptureState ν} :
    Gives (get : Capturing ν (CaptureState ν)) σ b σ' ↔ b = σ ∧ σ' = σ := by
  change (Except.ok σ, σ) = (.ok b, σ') ↔ _
  simp [eq_comm]

theorem gives_child {scope i : Nat} {kind : Scope.Kind} {σ σ' : CaptureState ν} :
    Gives (child scope kind) σ i σ' ↔
      i = σ.scopes.size ∧ σ' = { σ with scopes := (σ.scopes.child scope kind).2 } :=
  gives_modifyGet

theorem gives_closure {scope : Nat} {hint : String} {c : Closure ν} {e : Expression ν}
    {σ σ' : CaptureState ν} :
    Gives (closure scope hint c) σ e σ' ↔
      let resolved := σ.names.resolve c.identity (σ.scopes.freshName scope hint)
      e = .identifier resolved.1.1 ∧ σ' =
        { σ with
          names := resolved.2
          found := if resolved.1.2 then ⟨resolved.1.1, c⟩ :: σ.found else σ.found } :=
  gives_modifyGet

theorem isMarked_freshName (σ : Scopes ν) (i : Nat) (name : String) :
    ClosureNames.IsMarked (σ.freshName i name) := by
  have hdollar : ClosureNames.IsMarked "$" := rfl
  exact ((hdollar.append _).append _).append _

end Capturing

end Waveform
