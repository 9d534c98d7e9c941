import Waveform.Proofs.Evaluation.Tracking

/-!
# Where functions stand

A function stands in the environment of the code that makes it. Code that is run in an environment
makes functions there, behind frames that it opens itself, or calls functions that were made before
and has them make functions behind frames of their calls.
-/

namespace Waveform

variable {ν : Type}

/-- The environment is the first one, or that of an older function in a call, behind frames that
were opened since. -/
def Environment.Extends (env : Environment) (first : Nat) (older : Closure ν → Prop)
    (home : Environment) : Prop :=
  ∃ inner base, env = inner ++ base ∧ (∀ i ∈ inner, first ≤ i) ∧
    (base = home ∨ inner ≠ [] ∧ ∃ c, older c ∧ base = c.environment)

namespace Environment.Extends

variable {first i : Nat} {older : Closure ν → Prop} {home env : Environment}

theorem start : home.Extends first older home :=
  ⟨[], home, rfl, nofun, .inl rfl⟩

theorem called {c : Closure ν} (hc : older c) (hi : first ≤ i) :
    Extends (i :: c.environment) first older home := by
  refine ⟨[i], c.environment, rfl, fun j hj => ?_, .inr ⟨List.cons_ne_nil i [], c, hc, rfl⟩⟩
  rwa [List.mem_singleton.1 hj]

theorem inner (h : env.Extends first older home) (hi : first ≤ i) :
    Extends (i :: env) first older home := by
  obtain ⟨inner, base, rfl, hinner, hbase⟩ := h
  exact ⟨i :: inner, base, rfl, List.forall_mem_cons.2 ⟨hi, hinner⟩,
    hbase.imp_right (And.imp_left fun _ => List.cons_ne_nil i inner)⟩

end Environment.Extends

/-- Keeping track of where functions stand that are not older than the first frame. -/
def Tracking.standing (first : Nat) (older : Closure ν → Prop) (home : Environment) :
    Tracking ν where
  holds s K := first ≤ s.frames.size ∧
    ∀ c, .closure c ∈ K → older c ∨ c.environment.Extends first older home
  allows _ env := env.Extends first older home

/-- Whether the closure occurs in what is returned. -/
def Completion.Holds (c : Closure ν) : Completion ν → Prop
  | .normal => False
  | .returned v => v.Holds c

/-- A run that starts in an environment makes functions there only, but for those that older
functions make. -/
theorem Run.Tracked.extends {x : Run ν (Completion ν)} {s t : Store ν} {home : Environment}
    (h : x.Tracked (.standing s.frames.size s.Holds home) {y | s.Includes y} s fun K c _ =>
      c.Within K) {r : Completion ν} (hrun : x.outcome s = (.ok r, t)) {c : Closure ν}
    (hc : t.Holds c ∨ r.Holds c) :
    s.Holds c ∨ c.environment.Extends s.frames.size s.Holds home := by
  obtain ⟨K, -, htracks, -, hr⟩ := h r t hrun
  refine htracks.holds.2 c ?_
  obtain hc | hc := hc
  · exact htracks.mem_of_holds hc
  · cases r with
    | normal => exact hc.elim
    | returned v => exact hr v rfl _ (Value.includes_closure_iff.2 hc)

end Waveform
