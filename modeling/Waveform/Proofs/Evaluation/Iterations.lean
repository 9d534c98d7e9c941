import Waveform.Proofs.Evaluation.Guarding
import Waveform.Proofs.Evaluation.Identities
import Waveform.Proofs.Evaluation.Standing
import Waveform.Proofs.Number.Exact

/-!
# The counters of loops

Every round of a loop has a frame of its own, with a copy of the counter that the loop declares.
Functions that are made in the body of a round find the counter there. What the counter is when the
body ends is copied back to the loop, which goes on with it. The copy of the round stays as it is
from then on, for whatever runs later, unless functions of that same round write to it.
-/

namespace Waveform

variable {ν : Type}

/-! ## One variable -/

namespace Store

/-- The variable has a value with the property. -/
def Has (s : Store ν) (i : Nat) (name : String) (P : Value ν → Prop) : Prop :=
  ∃ v, (s.frame i).find? name = some v ∧ P v

/-- The name stands for the variable of the given frame. -/
def Sees (s : Store ν) (i : Nat) (name : String) (env : Environment) : Prop :=
  s.owner? name env = some i

variable {s t : Store ν} {i : Nat} {name : String} {env : Environment} {P : Value ν → Prop}

theorem Has.contains (h : s.Has i name P) : (s.frame i).contains name = true := by
  obtain ⟨v, hv, -⟩ := h
  rw [Bindings.contains, hv]
  rfl

theorem Sees.lookup? (h : s.Sees i name env) : s.lookup? name env = (s.frame i).find? name :=
  (owner?_eq_some_iff h).2.1

end Store

theorem Store.Has.bind {s : Store ν} {i j : Nat} {name other : String} {P : Value ν → Prop}
    (h : s.Has i name P) (hne : j = i → other ≠ name) (v : Value ν) :
    (s.bind j other v).Has i name P := by
  obtain ⟨w, hw, hP⟩ := h
  by_cases hlt : j < s.frames.size
  · refine ⟨w, ?_, hP⟩
    rw [Store.find?_bind hlt, if_neg, hw]
    rintro ⟨hi, hname⟩
    exact hne hi.symm hname.symm
  · rw [Store.bind_of_le (Nat.le_of_not_lt hlt)]
    exact ⟨w, hw, hP⟩

namespace Store

variable {s t : Store ν} {i : Nat} {name : String} {env : Environment}

end Store

/-! ## Loops with a counter -/

/-- A loop that declares a variable. -/
structure LetLoop (ν : Type) where
  counter : String
  init : Option (Expression ν)
  test : Option (Expression ν)
  update : Option (Expression ν)
  body : Statement ν

namespace LetLoop

def statement (L : LetLoop ν) : Statement ν :=
  .loop (.declaration .mutable L.counter L.init) L.test L.update L.body

section Rounds

variable [Numeric ν] (L : LetLoop ν) (patience : Nat) (call : Caller ν) (scope : Environment)

/-- The body of a round, in a frame of its own inside the frame of the round. -/
def inside (iteration : Environment) : Run ν (Completion ν) := do
  let inner ← Run.enter iteration [L.body]
  L.body.execute patience call inner

def round : Run ν (Completion ν) :=
  Run.round call scope (some L.counter) L.update (L.inside patience call)

/-- The store in which the body of a round starts, with the counter of the loop in the frame of the
round. -/
def opened (s : Store ν) : Store ν :=
  (s.extend scope).2.bind s.frames.size L.counter ((s.lookup? L.counter scope).getD .undefined)

/-- The store in which the loop goes on after the body of a round, with the counter of the round in
the frame of the loop. -/
def closed (home : Nat) (iteration : Environment) (s : Store ν) : Store ν :=
  s.bind home L.counter ((s.lookup? L.counter iteration).getD .undefined)

def finish (iteration : Environment) : Completion ν → Run ν (Completion ν)
  | .returned value => pure (.returned value)
  | .normal => do
    Run.copyOut iteration scope (some L.counter)
    Run.proceed call scope L.update
    return .normal

/-- What is left of the loop after the body of a round, with the count of rounds that it may still
take. -/
def rest (left : Nat) : Run ν (Completion ν) := do
  Run.proceed call scope L.update
  Run.rounds (Run.holds call scope L.test) (L.round patience call scope) left

def insideObeys (follows : CallCheck ν) (iteration : Environment) (s : Store ν) : Prop :=
  Discipline.free.Enters iteration [L.body] s fun inner s =>
    L.body.Obeys .free call follows patience inner s

def Starts (env : Environment) (s t : Store ν) : Prop :=
  (Run.declare call (s.frames.size :: env) L.counter L.init).outcome (s.extend env).2 = (.ok (), t)

/-- Rounds of a loop that have been completed, by the frames that they opened. -/
inductive Completes (s : Store ν) : List Nat → Store ν → Prop
  | start : Completes s [] s
  | next {frames t a u} : Completes s frames t →
    (Run.holds call scope L.test).outcome t = (.ok true, a) →
    (L.round patience call scope).outcome a = (.ok .normal, u) →
    Completes s (frames ++ [a.frames.size]) u

end Rounds

/-! ### Guarded rounds -/

section Guarded

variable [Numeric ν] {L : LetLoop ν} {g : Guard ν} {call : Caller ν}
  {follows follows' : CallCheck ν} {patience : Nat} {scope : Environment} {s : Store ν}

theorem inside_guarded (hg : g.Lawful) (hcall : g.Guards call follows follows')
    (iteration : Environment) (s : Store ν)
    (h : L.insideObeys patience call follows iteration s) (hs : g.holds s)
    (henv : g.allows s iteration) :
    L.insideObeys patience call follows' iteration s ∧
      (L.inside patience call iteration).Guarded g s fun _ _ => True :=
  Run.entersGuarded hg (fun _ _ h ht hinner => L.body.guarded hg hcall h ht hinner) h hs henv

end Guarded

/-! ### What a round keeps -/

section Keeps

variable [Numeric ν] {L : LetLoop ν} {call : Caller ν} {patience : Nat}
  {scope env : Environment} {s t u : Store ν} {frames : List Nat}

theorem insideObeys_free (iteration : Environment) (s : Store ν) :
    L.insideObeys patience call (fun _ _ _ => True) iteration s :=
  ⟨trivial, fun _ => trivial, fun _ _ _ => L.body.obeys_free fun _ _ _ => trivial⟩

theorem outcome_round (s : Store ν) :
    (L.round patience call scope).outcome s =
      (do L.finish call scope (s.frames.size :: scope)
            (← L.inside patience call (s.frames.size :: scope)) :
        Run ν (Completion ν)).outcome (L.opened scope s) := by
  have hlookup : (s.extend scope).2.lookup? L.counter scope = s.lookup? L.counter scope :=
    Store.lookup?_congr fun j _ => by rw [Store.frame_extend]
  rw [round, Run.round, Run.outcome_bind, Run.outcome_extend]
  change (_ >>= _ : Run ν _).outcome (s.extend scope).2 = _
  rw [Run.outcome_bind, Run.outcome_copyIn, hlookup, Run.outcome_define]
  change Run.outcome _ (L.opened scope s) = _
  rw [Run.outcome_bind, Run.outcome_bind]
  rcases (L.inside patience call (s.frames.size :: scope)).outcome (L.opened scope s) with
    ⟨e | c, t⟩
  · rfl
  · cases c <;> rfl

omit [Numeric ν] in
theorem keeps_opened (s : Store ν) : (s.extend scope).2.Keeps (L.opened scope s) :=
  Store.keeps_bind ..

theorem declare_ok {name : String} {init : Option (Expression ν)}
    (h : (Run.declare call env name init).outcome s = (.ok (), t)) :
    ∃ v, ∃ u : Store ν, t = u.define env name v := by
  have hdefine {x : Run ν (Value ν)}
      (h : (do let v ← x; Run.define env name v : Run ν Unit).outcome s = (.ok (), t)) :
      ∃ v, ∃ u : Store ν, t = u.define env name v := by
    obtain ⟨v, u, -, hdefine⟩ := Run.bind_ok.1 h
    rw [Run.outcome_define] at hdefine
    cases hdefine
    exact ⟨v, u, rfl⟩
  cases init with
  | none => exact hdefine h
  | some e => cases e <;> exact hdefine h

variable (hcall : (Guard.none : Guard ν).Guards call (fun _ _ _ => True) fun _ _ _ => True)

include hcall

theorem keeps_holds {test : Option (Expression ν)} {b : Bool}
    (h : (Run.holds call scope test).outcome s = (.ok b, t)) : s.Keeps t :=
  ((Run.holdsGuarded Guard.none_lawful hcall test
    (Expression.optionObeys_free (fun _ _ _ => trivial) test) trivial trivial).ok h).1

theorem keeps_inside {iteration : Environment} {c : Completion ν}
    (h : (L.inside patience call iteration).outcome s = (.ok c, t)) : s.Keeps t :=
  ((inside_guarded Guard.none_lawful hcall iteration s (insideObeys_free iteration s) trivial
    trivial).2.ok h).1

theorem keeps_finish {iteration : Environment} {c c' : Completion ν}
    (h : (L.finish call scope iteration c).outcome s = (.ok c', t)) : s.Keeps t := by
  have hupdate (u : Store ν) :
      (Run.proceed call scope L.update).Guarded Guard.none u fun _ _ => True :=
    Run.proceedGuarded Guard.none_lawful hcall L.update
      (Expression.optionObeys_free (fun _ _ _ => trivial) L.update) trivial trivial
  have hfinish : (L.finish call scope iteration c).Guarded Guard.none s fun _ _ => True := by
    cases c with
    | returned v => exact .pure trivial trivial
    | normal =>
      refine (Run.guarded_copyOut Guard.none_lawful trivial iteration trivial _).bind ?_
      intro _ u _ _ _ _
      exact (hupdate u).bind fun _ _ _ _ _ _ => .pure trivial trivial
  exact (hfinish.ok h).1

theorem keeps_round {c : Completion ν} (h : (L.round patience call scope).outcome s = (.ok c, t)) :
    (L.opened scope s).Keeps t := by
  rw [outcome_round] at h
  obtain ⟨c, u, hinside, hfinish⟩ := Run.bind_ok.1 h
  exact (keeps_inside hcall hinside).trans (keeps_finish hcall hfinish)

/-- A loop starts with its counter in its frame. -/
theorem Starts.keeps (h : L.Starts call env s t) :
    s.Keeps t ∧ s.frames.size < t.frames.size ∧
      (t.frame s.frames.size).contains L.counter = true := by
  have hkeeps : (s.extend env).2.Keeps t :=
    ((Run.declareGuarded Guard.none_lawful hcall L.counter L.init
      (Expression.initObeys_free (fun _ _ _ => trivial) L.init) trivial trivial).2.ok h).1
  have hsize := hkeeps.size
  rw [Store.size_extend] at hsize
  refine ⟨(s.keeps_extend env).trans hkeeps, hsize, ?_⟩
  obtain ⟨v, u, rfl⟩ := declare_ok h
  rw [Store.size_define] at hsize
  rw [Store.define, Bindings.contains, Store.find?_bind (by omega), if_pos ⟨rfl, rfl⟩]
  rfl

/-- Rounds leave the frames that were there, and each opens one of its own. -/
theorem Completes.keeps (h : L.Completes patience call scope s frames t) :
    s.Keeps t ∧ frames.Nodup ∧ ∀ i ∈ frames, s.frames.size ≤ i ∧ i < t.frames.size := by
  induction h with
  | start => exact ⟨.refl s, List.nodup_nil, nofun⟩
  | @next frames t a u _ htest hround ih =>
    obtain ⟨hst, hnodup, hmade⟩ := ih
    have hta := keeps_holds hcall htest
    have hau := (keeps_opened a).trans (keeps_round hcall hround)
    have hsize := hau.size
    rw [Store.size_extend] at hsize
    refine ⟨hst.trans (hta.trans ((a.keeps_extend scope).trans hau)), ?_, ?_⟩
    · rw [List.nodup_append]
      refine ⟨hnodup, List.nodup_cons.2 ⟨nofun, List.nodup_nil⟩, fun i hi j hj => ?_⟩
      obtain rfl := List.mem_singleton.1 hj
      have hlt := (hmade i hi).2
      have hle := hta.size
      omega
    · intro i hi
      have hst := hst.size
      have hta := hta.size
      rcases List.mem_append.1 hi with hi | hi
      · have hmade := hmade i hi
        omega
      · obtain rfl := List.mem_singleton.1 hi
        omega

end Keeps

/-! ## The counter of a round -/

section Owns

variable [Numeric ν]

variable {L : LetLoop ν} {limit : Option Nat} {patience fuel depth : Nat} {env : Environment}
  {s s₀ t a : Store ν} {earlier : List Nat}

section Opened

variable {scope : Environment} {u : Store ν}

end Opened

end Owns

end LetLoop

namespace Iterations

def saving : LetLoop (Exact .zero) :=
  ⟨"i", some (.boolean false), none, some (.assignment .assign "i" (.boolean true)),
    .expression (.assignment .assign "f" (.function [] [.result (some (.identifier "i"))] none))⟩

def ready : Store (Exact .zero) :=
  Store.initial.bind 0 "f" .undefined

def second : Store (Exact .zero) :=
  ((saving.statement.execute 1 (Run.call none 2 0) .global).outcome ready).2

end Iterations

end Waveform
