import Waveform.Evaluation.Program
import Waveform.Proofs.Capture.Outcome
import Waveform.Proofs.Number.Exact

/-!
# What captured names stand for

A name that a closure reads and does not bind is captured as the value that the nearest frame of
the closure's environment binds it to, and as a helper only where no frame binds it. The helpers are
looked up first: that is the same as long as a frame that binds the name of a helper binds it to
that helper, and a helper stands in the place of anything else that a program gives its name to.
-/

namespace Waveform

variable {ν : Type}

/-- The expression stands for what a name means in an environment. -/
inductive Origin.Means (o : Origin ν) (env : Environment) (name : String) : Expression ν → Prop
  | bound {v : Value ν} {e : Expression ν} (hv : o.store.lookup? name env = some v)
    (he : o.Quotes v e) : Means o env name e
  | helper {b : Builtin} (hnone : o.store.lookup? name env = none)
    (hb : o.builtin? name = some b) : Means o env name (.builtin b)

/-- The unit of a closure is its function with an expression for each name that it reads and does
not bind. The expression stands for what the name means in the closure's environment, unless the
environment binds the name of a helper to something else. -/
theorem ClosureTask.capture_means {store : Store ν} {hardcoded : List Builtin}
    {task : ClosureTask ν} {path : String} {names names' : ClosureNames}
    {unit : FunctionDeclaration ν} {tasks : List (ClosureTask ν)}
    (h : task.capture store path hardcoded names = (.ok (unit, tasks), names')) :
    ∃ q : String → Expression ν, unit.function = task.closure.function.close q ∧
      ∀ o ∈ task.closure.function.free, ∃ name, o = .read name ∧
        ((∀ b v, hardcoded.find? (·.globalName == name) = some b →
            store.lookup? name task.closure.environment = some v → v = .builtin b) →
          Origin.Means ⟨store, hardcoded, names'⟩ task.closure.environment name (q name)) := by
  obtain ⟨requests, hread, hasked, -, rfl, -, -, hunit⟩ := exists_requests h
  refine ⟨_, hunit _ (.refl _), fun o ho => ?_⟩
  obtain ⟨name, v, rfl, hv⟩ := hread o ho
  refine ⟨name, rfl, fun hhelper => ?_⟩
  have hvalue : store.capturedAs hardcoded (names.after requests) task.closure.environment name =
      (names.after requests).quote v := by
    rw [Store.capturedAs, hv, Option.map_some, Option.getD_some]
  have hquotes : Origin.Quotes ⟨store, hardcoded, names.after requests⟩ v
      ((names.after requests).quote v) :=
    ClosureNames.quotes_of_read hasked (.refl _) ho hv
  rw [hvalue]
  rw [Store.captured?] at hv
  cases hb : hardcoded.find? (·.globalName == name) with
  | none =>
    rw [hb] at hv
    exact .bound hv hquotes
  | some b =>
    rw [hb] at hv
    obtain rfl : Value.builtin b = v := Option.some.inj hv
    cases hlookup : store.lookup? name task.closure.environment with
    | none => exact .helper hlookup hb
    | some v =>
      obtain rfl := hhelper b v hb hlookup
      exact .bound hlookup hquotes

/-! ### A box of tools

Closures that refer to each other, in part through a list that holds two of them. -/

namespace Tools

def first : Function (Exact .zero) :=
  ⟨["n"], [.result (some (.conditional (.binary .lessThan (.identifier "n") (.number (.of 1)))
    (.identifier "tools") (.call (.identifier "first")
      [.binary .subtract (.identifier "n") (.number (.of 1))])))]⟩

def second : Function (Exact .zero) :=
  ⟨["x"], [.result (some (.call (.identifier "wave") [.identifier "x"]))]⟩

/-- A loop, and a function with a parameter of its own that goes by the name of the list. -/
def wave : Function (Exact .zero) :=
  let count : Expression (Exact .zero) :=
    .function ["tools"] [.result (some (.call (.identifier "length") [.identifier "tools"]))] none
  ⟨["t"], [.declaration .mutable "r" (some (.number (.of 0))),
    .loop (.declaration .mutable "i" (some (.identifier "r")))
      (some (.binary .lessThan (.identifier "i") (.identifier "t")))
      (some (.update .increment false "i"))
      (.block [.expression (.assignment .addAssign "r" (.identifier "i"))]),
    .result (some (.call count
      [.array [.call (.identifier "first") [.identifier "r"], .identifier "tools"]]))]⟩

def program : Program (Exact .zero) where
  body := [
    .declaration .constant "first" (some (.function first.params first.body none)),
    .declaration .constant "tools" (some (.array [.identifier "first",
      .array [.function second.params second.body none, .null]])),
    .declaration .constant "wave" (some (.function wave.params wave.body none))]

def firstClosure : Closure (Exact .zero) := ⟨0, some "first", first, .global⟩

def secondClosure : Closure (Exact .zero) := ⟨1, none, second, .global⟩

def waveClosure : Closure (Exact .zero) := ⟨4, some "wave", wave, .global⟩

def list : Value (Exact .zero) :=
  .pair 3 (.closure firstClosure) (.pair 2 (.closure secondClosure) .null)

def store : Store (Exact .zero) :=
  ⟨#[⟨("wave", .closure waveClosure) :: ("tools", list) :: ("first", .closure firstClosure) ::
    globals⟩], 5, 0⟩

theorem wave_capture : ∃ unit tasks names,
    (⟨"wave", waveClosure⟩ : ClosureTask _).capture store "c0" [.length]
      (.register .empty 4 "wave") = (.ok (unit, tasks), names) ∧
    tasks.map (·.closure.identity) = [0, 1] := by
  have htasks : ((⟨"wave", waveClosure⟩ : ClosureTask _).capture store "c0" [.length]
      (.register .empty 4 "wave")).1.toOption.map (·.2.map (·.closure.identity)) =
        some [0, 1] := by decide +kernel
  generalize (⟨"wave", waveClosure⟩ : ClosureTask _).capture store "c0" [.length]
    (.register .empty 4 "wave") = captured at htasks ⊢
  obtain ⟨result, names⟩ := captured
  cases result with
  | error e => cases htasks
  | ok captured => exact ⟨captured.1, captured.2, names, rfl, Option.some.inj htasks⟩

theorem wave_capture_means : program.run .standard = .ok store ∧
    ∃ unit tasks names q, (⟨"wave", waveClosure⟩ : ClosureTask _).capture store "c0" [.length]
        (.register .empty 4 "wave") = (.ok (unit, tasks), names) ∧
      unit.function = wave.close q ∧
      Origin.Means ⟨store, [.length], names⟩ .global "first" (q "first") ∧
      Origin.Means ⟨store, [.length], names⟩ .global "tools" (q "tools") ∧
      Origin.Means ⟨store, [.length], names⟩ .global "length" (q "length") := by
  have hrun : program.run .standard = .ok store := rfl
  obtain ⟨unit, tasks, names, hcapture, -⟩ := wave_capture
  obtain ⟨q, hunit, hmeans⟩ := ClosureTask.capture_means hcapture
  have hhelper : ∀ name ∈ ["first", "tools", "length"], ∀ b v,
      [Builtin.length].find? (·.globalName == name) = some b →
        store.lookup? name .global = some v → v = .builtin b := by
    rw [List.forall_mem_cons, List.forall_mem_cons, List.forall_mem_singleton]
    refine ⟨fun b v hb => ?_, fun b v hb => ?_, fun b v hb hv => ?_⟩
    · cases hb
    · cases hb
    · cases hb
      cases hv
      rfl
  have hall : ∀ name ∈ ["first", "tools", "length"],
      Origin.Means ⟨store, [.length], names⟩ .global name (q name) := by
    intro name hname
    have hfree : Occurrence.read name ∈ wave.free := by
      revert name
      decide
    obtain ⟨other, hother, hmean⟩ := hmeans _ hfree
    obtain rfl := Occurrence.read.inj hother
    exact hmean (hhelper name hname)
  rw [List.forall_mem_cons, List.forall_mem_cons, List.forall_mem_singleton] at hall
  exact ⟨hrun, unit, tasks, names, q, hcapture, hunit, hall⟩

end Tools

/-! ### A parameter named like a helper

A function that calls its parameter `length`, which is another function. -/

namespace Rebound

def make : Function (Exact .zero) :=
  ⟨["length"], [.result (some (.function ["t"] [.result (some (.call (.identifier "length")
    [.array [.identifier "t", .null]]))] none))]⟩

def five : Closure (Exact .zero) :=
  ⟨1, none, ⟨["xs"], [.result (some (.number (.of 5)))]⟩, .global⟩

def program : Program (Exact .zero) where
  body := [
    .declaration .constant "make" (some (.function make.params make.body none)),
    .declaration .constant "wave" (some (.call (.identifier "make")
      [.function five.function.params five.function.body none]))]

def wave : Closure (Exact .zero) :=
  ⟨2, none, ⟨["t"], [.result (some (.call (.identifier "length")
    [.array [.identifier "t", .null]]))]⟩, [1, 0]⟩

def store : Store (Exact .zero) :=
  ⟨#[⟨("wave", .closure wave) :: ("make", .closure ⟨0, some "make", make, .global⟩) :: globals⟩,
    ⟨[("length", .closure five)]⟩], 3, 0⟩

/-- The helper stands for the parameter, which the nearest frame binds to another function. -/
theorem length_captured_as_helper : program.run .standard = .ok store ∧
    store.lookup? "length" wave.environment = some (.closure five) ∧
    ∃ unit names, (⟨"wave", wave⟩ : ClosureTask _).capture store "c0" [.length]
        (.register .empty 2 "wave") = (.ok (unit, []), names) ∧
      unit.function = ⟨["t"], [.result (some (.call (.builtin .length)
        [.array [.identifier "t", .null]]))]⟩ ∧
      ∀ q : String → Expression (Exact .zero), unit.function = wave.function.close q →
        ¬ Origin.Means ⟨store, [.length], names⟩ wave.environment "length" (q "length") := by
  refine ⟨rfl, rfl, _, _, rfl, rfl, fun q hunit hmeans => ?_⟩
  have hclose : wave.function.close q = ⟨["t"], [.result (some (.call (q "length")
      [.array [.identifier "t", .null]]))]⟩ := rfl
  have hq : .builtin .length = q "length" := by
    rw [hclose] at hunit
    injection hunit with _ hbody
    simpa [Expression.null] using hbody
  rw [← hq] at hmeans
  cases hmeans with
  | bound hv he =>
    cases hv
    cases he
  | helper hnone => cases hnone

end Rebound

end Waveform
