import Waveform.Proofs.Evaluation.Parametric
import Waveform.Proofs.Number.Exact

/-!
# The limit on calls

How many calls are under way is an argument of `Run.call`. A machine has one counter for it, which
is raised when the statements of a closure begin and set back when they end, in whichever way.
`Counted` is evaluation with such a counter, and with a record of the closures that are being
applied at each step: it does what evaluation does, and its counter is always the count of these
closures (`Counted.call_follows`). Runs under two limits go the same way until one of them is
refused a call (`Run.call_orRefused`).
-/

namespace Waveform

variable {ν : Type}

/-- What a run keeps of its calls. -/
structure Calls (ν : Type) where
  /-- The counter that a call is checked against. -/
  depth : Nat
  /-- The closures whose statements are being run, the innermost first. -/
  active : List (Closure ν)
  /-- The counter and the closures at each step so far, the latest first. -/
  seen : List (Nat × List (Closure ν))

namespace Calls

def start : Calls ν := ⟨0, [], []⟩

def note (calls : Calls ν) : Calls ν :=
  { calls with seen := (calls.depth, calls.active) :: calls.seen }

def enter (calls : Calls ν) (c : Closure ν) (depth : Nat) : Calls ν :=
  { calls with depth := depth + 1, active := c :: calls.active }

def leave (calls : Calls ν) (depth : Nat) : Calls ν :=
  { calls with depth := depth, active := calls.active.tail }

end Calls

/-- Runs that count the calls that are under way. -/
abbrev Counted (ν : Type) := ExceptT (Stop ν) (StateM (Store ν × Calls ν))

namespace Counted

variable {α β : Type}

def outcome (x : Counted ν α) (s : Store ν) (calls : Calls ν) :
    Except (Stop ν) α × Store ν × Calls ν :=
  Id.run (StateT.run (ExceptT.run x) (s, calls))

def step (x : Run ν α) : Counted ν α :=
  ExceptT.mk fun (s, calls) => ((x.outcome s).1, (x.outcome s).2, calls.note)

/-- Runs the statements of a closure. The counter is set back before an error goes on. -/
def applying (c : Closure ν) (depth : Nat) (x : Counted ν (Completion ν)) :
    Counted ν (Completion ν) := do
  modify fun (s, calls) => (s, (calls.enter c depth).note)
  let result ← ExceptT.lift (ExceptT.run x)
  modify fun (s, calls) => (s, (calls.leave depth).note)
  ExceptT.mk (pure result)

variable [Numeric ν]

def call (limit : Option Nat) : (patience : Nat) → Value ν → List (Value ν) → Counted ν (Value ν)
  | 0, _, _ => step (throw .exhausted)
  | patience + 1, target, args =>
    match target with
    | .closure c => do
      let depth := (← get).2.depth
      if limit.any (· ≤ depth) then step (Run.fail .tooManyCalls)
      else Run.bodyIn step (call limit patience) (applying c depth) patience c args
    | .builtin b => step (Run.applyBuiltin b args)
    | v => step (Run.fail (.notAFunction v))

def program (options : RunOptions) (p : Program ν) : Counted ν Unit := do
  match ← Run.blockIn step (call options.callLimit patience) patience .global p.body with
  | .normal => pure ()
  | .returned _ => step (Run.fail .illegalResult)

end Counted

/-! ## The counter -/

namespace Counted

variable {α β : Type} {good : Nat → List (Closure ν) → Prop} {depth : Nat}
  {active : List (Closure ν)}

theorem outcome_bind (x : Counted ν α) (f : α → Counted ν β) (s : Store ν) (calls : Calls ν) :
    (x >>= f).outcome s calls =
      match x.outcome s calls with
      | (.ok a, t, calls') => (f a).outcome t calls'
      | (.error e, t, calls') => (.error e, t, calls') := by
  simp only [outcome, ExceptT.run_bind, StateT.run_bind, Id.run_bind]
  rcases Id.run (StateT.run (ExceptT.run x) (s, calls)) with ⟨_ | a, t, calls'⟩ <;> rfl

theorem outcome_applying (c : Closure ν) (d : Nat) (x : Counted ν (Completion ν)) (s : Store ν)
    (calls : Calls ν) :
    (applying c d x).outcome s calls =
      let (r, t, calls') := x.outcome s (calls.enter c d).note
      (r, t, (calls'.leave d).note) := rfl

/-- The counted run does what the run does and leaves the counter as it was. What it notes on its
way is good. -/
def Follows (good : Nat → List (Closure ν) → Prop) (depth : Nat) (active : List (Closure ν))
    (x : Run ν α) (y : Counted ν α) : Prop :=
  ∀ s seen, ∃ noted, y.outcome s ⟨depth, active, seen⟩ =
    ((x.outcome s).1, (x.outcome s).2, ⟨depth, active, noted ++ seen⟩) ∧
      ∀ n ∈ noted, good n.1 n.2

theorem follows_pure (a : α) : Follows good depth active (pure a) (pure a) :=
  fun _ _ => ⟨[], rfl, nofun⟩

theorem follows_step (h : good depth active) (x : Run ν α) :
    Follows good depth active x (step x) :=
  fun _ _ => ⟨[(depth, active)], rfl, by simpa using h⟩

theorem Follows.bind {x : Run ν α} {y : Counted ν α} {f : α → Run ν β} {g : α → Counted ν β}
    (h : Follows good depth active x y) (hfg : ∀ a, Follows good depth active (f a) (g a)) :
    Follows good depth active (x >>= f) (y >>= g) := by
  intro s seen
  obtain ⟨noted, hy, hnoted⟩ := h s seen
  rw [Run.outcome_bind, outcome_bind, hy]
  rcases x.outcome s with ⟨e | a, t⟩
  · exact ⟨noted, rfl, hnoted⟩
  · obtain ⟨noted', hg, hnoted'⟩ := hfg a t (noted ++ seen)
    refine ⟨noted' ++ noted, ?_, fun n hn => ?_⟩
    · rw [List.append_assoc]
      exact hg
    · rcases List.mem_append.1 hn with hn | hn
      · exact hnoted' n hn
      · exact hnoted n hn

/-- The statements of a closure are run with the counter one higher, which is set back also when
they fail. -/
theorem Follows.applying (hgood : good depth active) (c : Closure ν)
    (hraised : good (depth + 1) (c :: active)) {x : Run ν (Completion ν)}
    {y : Counted ν (Completion ν)} (h : Follows good (depth + 1) (c :: active) x y) :
    Follows good depth active x (y.applying c depth) := by
  intro s seen
  obtain ⟨noted, hy, hnoted⟩ := h s ((depth + 1, c :: active) :: seen)
  refine ⟨(depth, active) :: noted ++ [(depth + 1, c :: active)], ?_, fun n hn => ?_⟩
  · rw [outcome_applying]
    simp only [Calls.enter, Calls.note, hy, Calls.leave, List.tail_cons, List.cons_append,
      List.append_assoc, List.nil_append]
  · rcases List.mem_append.1 hn with hn | hn
    · rcases List.mem_cons.1 hn with rfl | hn
      · exact hgood
      · exact hnoted n hn
    · rw [List.mem_singleton.1 hn]
      exact hraised

variable [Numeric ν]

theorem relates_follows (h : good depth active) :
    Run.Relates (ν := ν) (fun _ => True) step (fun x y => Follows good depth active x y) where
  pure := follows_pure
  bind := .bind
  ofStep _ := follows_step h _
  extend {_ env f g} hfg := by
    intro s seen
    obtain ⟨noted, hg, hnoted⟩ := hfg s.frames.size trivial (s.extend env).2
      ((depth, active) :: seen)
    refine ⟨noted ++ [(depth, active)], ?_, fun n hn => ?_⟩
    · rw [List.append_assoc]
      exact hg
    · rcases List.mem_append.1 hn with hn | hn
      · exact hnoted n hn
      · rw [List.mem_singleton.1 hn]
        exact h

variable {limit : Option Nat}

def Raises (limit : Option Nat) (good : Nat → List (Closure ν) → Prop) : Prop :=
  ∀ depth active (c : Closure ν), good depth active → limit.any (· ≤ depth) = false →
    good (depth + 1) (c :: active)

/-- A call that is counted does what a call does from inside as many others as the counter says. -/
theorem call_follows (hraises : Raises limit good) (patience : Nat) (h : good depth active)
    (f : Value ν) (args : List (Value ν)) :
    Follows good depth active (Run.call limit patience depth f args)
      (call limit patience f args) := by
  induction patience generalizing depth active f args with
  | zero => exact follows_step h _
  | succ patience ih =>
    cases f with
    | closure c =>
      intro s seen
      change ∃ noted, (if limit.any (· ≤ depth) then step (Run.fail .tooManyCalls)
        else Run.bodyIn step (call limit patience) (applying c depth) patience c args).outcome
          s ⟨depth, active, seen⟩ = _ ∧ _
      rw [Run.call]
      -- the counter is the argument, so both calls are refused or neither is
      cases hrefused : limit.any (· ≤ depth) with
      | true => exact follows_step h _ s seen
      | false =>
        have hraised := hraises depth active c h hrefused
        refine Run.related_body (relates_follows h) (call limit patience) (applying c depth)
          (fun env henv => ?_) args s seen
        exact .applying h c hraised
          (Run.related_block (relates_follows hraised) (ih hraised) patience henv _)
    | builtin b => exact follows_step h _
    | _ => exact follows_step h _

theorem program_follows {options : RunOptions} (hraises : Raises options.callLimit good)
    (h : good 0 []) (p : Program ν) :
    Follows good 0 [] (Run.program options p) (program options p) := by
  refine (Run.related_block (relates_follows h) (call_follows hraises patience h) patience trivial
    p.body).bind fun c => ?_
  cases c with
  | normal => exact follows_pure ()
  | returned v => exact follows_step h _

/-- The counter is the count of the active closures, and not above the limit. -/
def InStep (limit : Option Nat) (depth : Nat) (active : List (Closure ν)) : Prop :=
  depth = active.length ∧ ∀ n ∈ limit, active.length ≤ n

omit [Numeric ν] in
theorem raises_inStep (limit : Option Nat) : Raises (ν := ν) limit (InStep limit) := by
  rintro depth active c ⟨hdepth, -⟩ hallowed
  refine ⟨congrArg (· + 1) hdepth, ?_⟩
  rintro n rfl
  have hlt : ¬ n ≤ depth := by simpa using hallowed
  rw [List.length_cons, ← hdepth]
  exact Nat.lt_of_not_le hlt

theorem call_restores (limit : Option Nat) (patience : Nat) (f : Value ν) (args : List (Value ν))
    (s : Store ν) (calls : Calls ν) :
    ((call limit patience f args).outcome s calls).2.2.depth = calls.depth ∧
      ((call limit patience f args).outcome s calls).2.2.active = calls.active := by
  have hraises : Raises limit fun _ (_ : List (Closure ν)) => True := fun _ _ _ _ _ => trivial
  have hfollows : Follows (fun _ _ => True) calls.depth calls.active
      (Run.call limit patience calls.depth f args) (call limit patience f args) :=
    call_follows hraises patience trivial f args
  obtain ⟨noted, hcall, -⟩ := hfollows s calls.seen
  rw [hcall]
  exact ⟨rfl, rfl⟩

end Counted

/-! ## Two limits -/

namespace Run

variable {α : Type}

def OrRefused (x y : Run ν α) : Prop :=
  ∀ s, (∃ t, x.outcome s = (.error (.error .tooManyCalls), t)) ∨ x.outcome s = y.outcome s

theorem OrRefused.bind {β : Type} {x y : Run ν α} {f g : α → Run ν β} (h : x.OrRefused y)
    (hfg : ∀ a, (f a).OrRefused (g a)) : (x >>= f).OrRefused (y >>= g) := by
  intro s
  rw [outcome_bind, outcome_bind]
  rcases h s with ⟨t, hx⟩ | hxy
  · left
    rw [hx]
    exact ⟨t, rfl⟩
  · rw [hxy]
    rcases y.outcome s with ⟨e | a, t⟩
    · exact .inr rfl
    · exact hfg a t

variable [Numeric ν]

theorem relates_orRefused :
    Relates (ν := ν) (fun _ => True) (fun x => x) (fun x y => OrRefused x y) where
  pure _ _ := .inr rfl
  bind := .bind
  ofStep _ _ := .inr rfl
  extend {_ env _ _} h s := h s.frames.size trivial (s.extend env).2

variable {limit limit' : Option Nat}

/-- A call that is refused under the wider limit is refused under the other. -/
theorem refused_of_le (h : ∀ n' ∈ limit', ∃ n ∈ limit, n ≤ n') {depth : Nat}
    (hrefused : limit.any (· ≤ depth) = false) : limit'.any (· ≤ depth) = false := by
  cases limit' with
  | none => rfl
  | some n' =>
    obtain ⟨n, rfl, hle⟩ := h n' rfl
    have hlt : ¬ n ≤ depth := by simpa using hrefused
    exact decide_eq_false fun hn' => hlt (Nat.le_trans hle hn')

/-- Under the narrower limit a call is refused, at some depth, or goes as it does under the other.
-/
theorem call_orRefused (h : ∀ n' ∈ limit', ∃ n ∈ limit, n ≤ n') (patience depth : Nat)
    (f : Value ν) (args : List (Value ν)) :
    (Run.call limit patience depth f args).OrRefused (Run.call limit' patience depth f args) := by
  induction patience generalizing depth f args with
  | zero => exact fun _ => .inr rfl
  | succ patience ih =>
    cases f with
    | closure c =>
      rw [Run.call, Run.call]
      cases hrefused : limit.any (· ≤ depth) with
      | true =>
        rw [if_pos rfl]
        exact fun s => .inl ⟨s, rfl⟩
      | false =>
        rw [refused_of_le h hrefused, if_neg Bool.false_ne_true, if_neg Bool.false_ne_true,
          ← bodyIn_self (Run.call limit' patience (depth + 1))]
        refine related_body relates_orRefused (Run.call limit' patience (depth + 1)) (fun x => x)
          (fun env henv => ?_) args
        exact related_block relates_orRefused (ih (depth + 1)) patience henv _
    | builtin b => exact fun _ => .inr rfl
    | _ => exact fun _ => .inr rfl

theorem program_orRefused {options options' : RunOptions}
    (h : ∀ n' ∈ options'.callLimit, ∃ n ∈ options.callLimit, n ≤ n') (p : Program ν) :
    (program options p).OrRefused (program options' p) := by
  have hblock : (block patience (Run.call options.callLimit patience 0) .global p.body).OrRefused
      (blockIn (fun x => x) (Run.call options'.callLimit patience 0) patience .global p.body) :=
    related_block relates_orRefused (call_orRefused h patience 0) patience trivial p.body
  rw [blockIn_self] at hblock
  exact hblock.bind fun _ _ => .inr rfl

end Run

theorem Program.run_eq_or_refused [Numeric ν] {options options' : RunOptions} (p : Program ν)
    (h : ∀ n' ∈ options'.callLimit, ∃ n ∈ options.callLimit, n ≤ n') :
    p.run options = .error (.error .tooManyCalls) ∨ p.run options = p.run options' := by
  rw [Program.run, Program.run]
  rcases Run.program_orRefused h p .initial with ⟨t, hrefused⟩ | heq
  · rw [hrefused]
    exact .inl rfl
  · rw [heq]
    exact .inr rfl

/-- No more closures are being applied at once than the limit allows, and the counter is their count
at every step and is as it was after each call, however that ends. Under a limit that is no
narrower, a program that succeeds leaves the same store behind; where only the run under the wider
limit succeeds, the other one was refused a call. -/
theorem Program.run_limited [Numeric ν] (options options' : RunOptions) (p : Program ν)
    (hlimit : ∀ n' ∈ options'.callLimit, ∃ n ∈ options.callLimit, n ≤ n') :
    (∃ seen : List (Nat × List (Closure ν)),
      (Counted.program options p).outcome .initial .start =
        (((Run.program options p).outcome .initial).1,
          ((Run.program options p).outcome .initial).2, ⟨0, [], seen⟩) ∧
      ∀ depth active, (depth, active) ∈ seen →
        depth = active.length ∧ ∀ n ∈ options.callLimit, active.length ≤ n) ∧
    (∀ (patience : Nat) (f : Value ν) (args : List (Value ν)) (s : Store ν) (calls : Calls ν),
      let after := ((Counted.call options.callLimit patience f args).outcome s calls).2.2
      after.depth = calls.depth ∧ after.active = calls.active) ∧
    (∀ s, p.run options = .ok s → p.run options' = .ok s) ∧
    ∀ s e, p.run options' = .ok s → p.run options = .error e →
      e = .error .tooManyCalls ∧ e.message = "Maximum call stack size exceeded" := by
  have hruns := p.run_eq_or_refused hlimit
  refine ⟨?_, Counted.call_restores options.callLimit, fun s hs => ?_, fun s e hs he => ?_⟩
  · have hstart : Counted.InStep options.callLimit 0 ([] : List (Closure ν)) :=
      ⟨rfl, fun _ _ => Nat.zero_le _⟩
    obtain ⟨seen, hrun, hseen⟩ :=
      Counted.program_follows (Counted.raises_inStep _) hstart p .initial []
    rw [List.append_nil] at hrun
    exact ⟨seen, hrun, fun _ _ hmem => hseen _ hmem⟩
  · rcases hruns with hrefused | heq
    · rw [hrefused] at hs
      cases hs
    · exact heq ▸ hs
  · rcases hruns with hrefused | heq
    · rw [hrefused] at he
      cases he
      exact ⟨rfl, rfl⟩
    · rw [heq, hs] at he
      cases he

/-- A call inside a call: `const y = f(null);`, where `f` calls `g`. -/
def nestedCall : Program (Exact .zero) where
  body := [
    .function "f" ["x"] [.result (some (.call (.identifier "g") [.identifier "x"]))],
    .function "g" ["x"] [.result (some (.identifier "x"))],
    .declaration .constant "y" (some (.call (.identifier "f") [.null]))]

theorem nestedCall_refused : ∃ s e, nestedCall.run ⟨false, some 2⟩ = .ok s ∧
    nestedCall.run ⟨false, some 1⟩ = .error e ∧ e = .error .tooManyCalls ∧
      e.message = "Maximum call stack size exceeded" := by
  have hlimit : ∀ n' ∈ some 2, ∃ n ∈ some 1, n ≤ n' := by
    rintro n' ⟨⟩
    exact ⟨1, rfl, Nat.le_succ 1⟩
  obtain ⟨-, -, -, hrefused⟩ :=
    Program.run_limited ⟨false, some 1⟩ ⟨false, some 2⟩ nestedCall hlimit
  exact ⟨_, _, rfl, rfl, hrefused _ _ rfl rfl⟩

end Waveform
