import Mathlib.Order.Nat
import Waveform.Proofs.Inlining.Known

/-!
# Branches under unknown tests

What is inlined under a test that is not known leaves every frame that was there before as it was.
The floors and the depth of calls are arguments of the inliner, so code after the branch has those
from before it, and with the same frames it reads the same values and may write the same
variables.
-/

namespace Waveform

variable {ν : Type}

namespace Scopes

/-- The frames of the first state are the oldest frames of the second, with the same bindings. -/
structure Undisturbed (σ σ' : Scopes ν) : Prop where
  frames : σ.frames.toList <+: σ'.frames.toList
  hardcoded : σ'.hardcoded = σ.hardcoded

/-- Code may stand in the frame: it and the frames around it are frames of the state. -/
def HasPlace (σ : Scopes ν) (place : Nat) : Prop :=
  ∀ j ∈ σ.chain place, j < σ.size

theorem frame_eq_getElem {σ : Scopes ν} {j : Nat} (h : j < σ.frames.size) :
    σ.frame j = σ.frames[j] := by
  simp [frame, h]

theorem Kept.undisturbed {σ σ' : Scopes ν} (h : Kept σ.size (fun _ => False) σ σ') :
    σ.Undisturbed σ' := by
  have hsize : σ.frames.size ≤ σ'.frames.size := h.extend.size_le
  refine ⟨List.prefix_iff_getElem.2 ⟨by simpa using hsize, fun j hj => ?_⟩, h.extend.hardcoded⟩
  have hlt : j < σ.frames.size := by simpa using hj
  have hframe := h.frame j hlt hlt id
  rw [frame_eq_getElem hlt, frame_eq_getElem (hlt.trans_le hsize)] at hframe
  simpa using hframe.symm

namespace Undisturbed

variable {σ σ' : Scopes ν}

theorem size_le (h : σ.Undisturbed σ') : σ.size ≤ σ'.size := by
  have hlength := h.frames.length_le
  simpa [Scopes.size] using hlength

theorem frame (h : σ.Undisturbed σ') {j : Nat} (hj : j < σ.size) : σ'.frame j = σ.frame j := by
  have hlt : j < σ.frames.size := hj
  have hlt' : j < σ'.frames.size := hlt.trans_le h.size_le
  have hget := h.frames.getElem (by simpa using hlt)
  rw [frame_eq_getElem hlt', frame_eq_getElem hlt]
  simpa using hget.symm

theorem chain (h : σ.Undisturbed σ') {place : Nat} (hplace : σ.HasPlace place) :
    σ'.chain place = σ.chain place := by
  have hlt : place < σ.size := hplace place (List.mem_cons_self ..)
  rw [Scopes.chain, Scopes.chain, h.frame hlt]

theorem findIn? (h : σ.Undisturbed σ') {js : List Nat} (hjs : ∀ j ∈ js, j < σ.size)
    (name : String) : σ'.findIn? name js = σ.findIn? name js :=
  findIn?_congr fun j hj => by rw [h.frame (hjs j hj)]

theorem findForWriteIn? (h : σ.Undisturbed σ') {js : List Nat} (hjs : ∀ j ∈ js, j < σ.size)
    (name : String) : σ'.findForWriteIn? name js = σ.findForWriteIn? name js := by
  induction js with
  | nil => rfl
  | cons j js ih =>
    have hrest := ih fun k hk => hjs k (List.mem_cons_of_mem _ hk)
    simp only [Scopes.findForWriteIn?, h.frame (hjs j (List.mem_cons_self ..)), hrest]

theorem lookup? (h : σ.Undisturbed σ') {place : Nat} (hplace : σ.HasPlace place) (name : String) :
    σ'.lookup? place name = σ.lookup? place name := by
  have hfind : σ'.findIn? name (σ'.chain place) = σ.findIn? name (σ.chain place) := by
    rw [h.chain hplace, h.findIn? hplace]
  simp only [Scopes.chain] at hfind
  simp only [Scopes.lookup?, hfind, h.hardcoded]

theorem lookupForWrite? (h : σ.Undisturbed σ') {place : Nat} (hplace : σ.HasPlace place)
    (name : String) : σ'.lookupForWrite? place name = σ.lookupForWrite? place name := by
  change σ'.findForWriteIn? name (σ'.chain place) = σ.findForWriteIn? name (σ.chain place)
  rw [h.chain hplace, h.findForWriteIn? hplace]

end Undisturbed

end Scopes

namespace Inlining

open Scopes

theorem read_value (scope : Nat) (name : String) (σ : Scopes ν) :
    ((read scope name).run σ).map Prod.fst =
      match σ.lookup? scope name with
      | some (_, .parameter) => .ok (.identifier name)
      | some (_, .mutable value) | some (_, .constant value) | some (_, .hardcoded value) =>
        .ok value
      | none => .error (.unresolvedName name) := by
  rw [read, StateT.run_bind, StateT.run_get, pure_bind]
  rcases σ.lookup? scope name with _ | ⟨i, _ | _ | _ | _⟩ <;> rfl

theorem assign_run (floors : Floors) (scope : Nat) (target : String)
    (update : Expression ν → Expression ν) (σ : Scopes ν) :
    (assign floors scope target update).run σ =
      (σ.lookupForWrite? scope target).bind fun
        | some (owner, .mutable current) =>
          if owner < floors.branch then .error (.conditionalAssignment target)
          else (σ.assign owner target (update current)).bind fun σ' =>
            .ok ((current, update current), σ')
        | some _ => .error (.impure target)
        | none => .error (.unbound target) := by
  rw [assign, StateT.run_bind, StateT.run_get, pure_bind, StateT.run_bind]
  rcases σ.lookupForWrite? scope target with e | _ | ⟨owner, _ | current | _ | _⟩
  case ok.some.mutable =>
    change StateT.run (if owner < floors.branch then _ else _) σ = ite _ _ _
    split
    · rfl
    · rw [StateT.run_bind]
      rcases σ.assign owner target (update current) with e | τ <;> rfl
  all_goals rfl

/-- What an assignment comes to is decided by the variable that it finds and by the floor. -/
theorem assign_value (floors : Floors) (scope : Nat) (target : String)
    (update : Expression ν → Expression ν) (σ : Scopes ν) :
    ((assign floors scope target update).run σ).map Prod.fst =
      match σ.lookupForWrite? scope target with
      | .ok (some (owner, .mutable current)) =>
        if owner < floors.branch then .error (.conditionalAssignment target)
        else .ok (current, update current)
      | .ok (some _) => .error (.impure target)
      | .ok none => .error (.unbound target)
      | .error e => .error e := by
  rw [assign_run]
  rcases h : σ.lookupForWrite? scope target with e | _ | ⟨owner, _ | current | _ | _⟩
  case ok.some.mutable =>
    have hfound := (mem_of_findIn? (findIn?_of_findForWriteIn? h)).2
    have hassign : σ.assign owner target (update current) =
        .ok (σ.define owner target (.mutable (update current))) := by
      simp only [Scopes.assign, hfound]
      rfl
    by_cases hfloor : owner < floors.branch
    · simp [Except.bind, Except.map, hfloor]
    · simp [Except.bind, Except.map, hfloor, hassign]
  all_goals rfl

/-- Code that stands anywhere in the first state reads the same values in the second one, and under
the same floors it replaces the values of the same variables. -/
structure SeenAlike (floors : Floors) (σ σ' : Scopes ν) : Prop where
  read : ∀ place, σ.HasPlace place → ∀ name,
    ((read place name).run σ').map Prod.fst = ((read place name).run σ).map Prod.fst
  assign : ∀ place, σ.HasPlace place → ∀ target update,
    ((assign floors place target update).run σ').map Prod.fst =
      ((assign floors place target update).run σ).map Prod.fst

theorem seenAlike_of_undisturbed {floors : Floors} {σ σ' : Scopes ν} (h : σ.Undisturbed σ') :
    SeenAlike floors σ σ' where
  read place hplace name := by
    rw [read_value, read_value, h.lookup? hplace]
  assign place hplace target update := by
    rw [assign_value, assign_value, h.lookupForWrite? hplace]

/-- No write gets past the count of frames that a branch starts with. -/
theorem Keeps.undisturbed {α : Type} {floors : Floors} {inner : Floors → Inlining ν α}
    (h : ∀ n, Keeps n (fun _ => False) (inner { floors with branch := n })) {σ σ' : Scopes ν}
    {a : α} (hrun : (branching floors inner).run σ = .ok (a, σ')) : σ.Undisturbed σ' :=
  (h σ.size σ a σ' (branching_ok.1 hrun)).undisturbed

variable [Numeric ν]

/-- However an expression or a statement is inlined under a test that is not known, the frames from
before it are as they were, and what comes after it reads and writes as if it had not been there.
The statement is no declaration, which would bind its name around the branch. -/
theorem branching_undisturbed (options : SpecializationOptions) (depth : Nat) (floors : Floors)
    (scope : Nat) (isTail : Bool) (σ σ' : Scopes ν) :
    (∀ (e : Expression ν) value,
      (branching floors fun floors =>
        e.inline options.residualBuiltins (reduce options depth) floors scope).run σ =
          .ok (value, σ') →
      σ.Undisturbed σ' ∧ SeenAlike floors σ σ') ∧
    (∀ (s : Statement ν) flow, s.isDeclaration = false →
      (branching floors fun floors => alone floors scope isTail s fun place =>
        s.step options (reduce options depth) floors place isTail).run σ = .ok (flow, σ') →
      σ.Undisturbed σ' ∧ SeenAlike floors σ σ') := by
  have hreduce := reduce_keeps (ν := ν) options depth
  constructor
  · intro e value hrun
    have hframes : σ.Undisturbed σ' :=
      Keeps.undisturbed (fun n => e.inline_keeps hreduce { floors with branch := n } scope) hrun
    exact ⟨hframes, seenAlike_of_undisturbed hframes⟩
  · intro s flow hs hrun
    have hkeeps (n : Nat) : Keeps n (fun _ => False)
        (alone { floors with branch := n } scope isTail s fun place =>
          s.step options (reduce options depth) { floors with branch := n } place isTail) := by
      refine (alone_keeps fun place =>
        s.step_keeps hreduce { floors with branch := n } place isTail).mono (Nat.le_refl _) ?_
      rintro j ⟨-, hdeclaration⟩
      rw [hs] at hdeclaration
      cases hdeclaration
    have hframes : σ.Undisturbed σ' := Keeps.undisturbed hkeeps hrun
    exact ⟨hframes, seenAlike_of_undisturbed hframes⟩

/-- A block with the variable x in a function with the parameter t. -/
def oneVariable : Scopes Float :=
  let (root, scopes) := (Scopes.empty []).root .closure "wave"
  let (block, scopes) := (scopes.defineParameters root ["t"]).child root .block
  scopes.define block "x" (.mutable (.number Numeric.zero))

/-- Returns early or counts a variable of its own, by a test that is not known. -/
def countOrReturn : Statement Float :=
  .block [.declaration .mutable "y" (some (.identifier "x")),
    .branch (.identifier "t") (.result (some (.identifier "y"))) none,
    .expression (.update .increment true "y"),
    .result (some (.identifier "y"))]

theorem counting_undisturbed :
    (∃ value σ', (branching ⟨0, 0⟩ fun floors =>
        (Expression.call (.function [] Function.counting.body none) []).inline
          SpecializationOptions.standard.residualBuiltins
          (reduce .standard 2) floors 1).run oneVariable = .ok (value, σ') ∧
      oneVariable.Undisturbed σ' ∧ SeenAlike ⟨0, 0⟩ oneVariable σ') ∧
    ∃ flow σ', (branching ⟨0, 0⟩ fun floors => alone floors 1 true countOrReturn fun place =>
        countOrReturn.step .standard (reduce .standard 2) floors place true).run oneVariable =
          .ok (flow, σ') ∧
      oneVariable.Undisturbed σ' ∧ SeenAlike ⟨0, 0⟩ oneVariable σ' := by
  constructor
  · obtain ⟨⟨value, σ'⟩, hrun⟩ : ∃ result, (branching ⟨0, 0⟩ fun floors =>
        (Expression.call (.function [] Function.counting.body none) []).inline
          SpecializationOptions.standard.residualBuiltins
          (reduce .standard 2) floors 1).run oneVariable = .ok result :=
      exists_ok_of_isOk (by decide +kernel)
    exact ⟨value, σ', hrun,
      (branching_undisturbed .standard 2 ⟨0, 0⟩ 1 true oneVariable σ').1 _ value hrun⟩
  · obtain ⟨⟨flow, σ'⟩, hrun⟩ : ∃ result,
        (branching ⟨0, 0⟩ fun floors => alone floors 1 true countOrReturn fun place =>
          countOrReturn.step .standard (reduce .standard 2) floors place true).run oneVariable =
            .ok result :=
      exists_ok_of_isOk (by decide +kernel)
    exact ⟨flow, σ', hrun,
      (branching_undisturbed .standard 2 ⟨0, 0⟩ 1 true oneVariable σ').2 _ flow rfl hrun⟩

end Inlining

end Waveform
