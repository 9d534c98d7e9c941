import Waveform.Proofs.Capture.Merging
import Waveform.Proofs.Evaluation.Identities
import Waveform.Proofs.Number.Exact

/-!
# Captured closures

A closure that a program made, and the function that it is captured as, come to the same outcome
for every list of arguments, whatever the program left in its frames: the function mentions nothing
but the builtins.
-/

namespace Waveform

variable {ν : Type}

/-- Values that cannot be told apart but by calling the functions in them or by comparing pairs. -/
inductive Value.Resembles : Value ν → Value ν → Prop
  | primitive (l : Literal ν) : Resembles (.primitive l) (.primitive l)
  | builtin (b : Builtin) : Resembles (.builtin b) (.builtin b)
  | pair {i i' : Nat} {head tail head' tail' : Value ν} (hhead : Resembles head head')
    (htail : Resembles tail tail') : Resembles (.pair i head tail) (.pair i' head' tail')
  | closure {c c' : Closure ν} (hparams : c'.function.params = c.function.params) :
    Resembles (.closure c) (.closure c')

/-- Two outcomes: values that resemble each other, two errors, or two runs that were given up. -/
inductive Run.Alike : Except (Stop ν) (Value ν) → Except (Stop ν) (Value ν) → Prop
  | value {v v' : Value ν} (h : v.Resembles v') : Alike (.ok v) (.ok v')
  | error (cause cause' : RuntimeError ν) : Alike (.error (.error cause)) (.error (.error cause'))
  | exhausted : Alike (.error .exhausted) (.error .exhausted)

namespace Mirror

variable {m : Mirror ν} {W : Twins} {s : Store ν}

theorem Mirrors.resembles {v v' : Value ν} (h : m.Mirrors W v v') : v.Resembles v' := by
  induction h with
  | primitive l => exact .primitive l
  | builtin b => exact .builtin b
  | pair _ _ ihead itail => exact .pair ihead itail
  | closure _ hparams _ _ => exact .closure hparams

theorem Ends.alike {r r' : Except (Stop ν) (Value ν) × Store ν}
    (h : m.Ends m.Values W s r r') : Run.Alike r.1 r'.1 := by
  cases h with
  | ok _ _ _ hv => exact .value hv.resembles
  | error h =>
    next e e' _ _ =>
    cases e with
    | error cause =>
      cases e' with
      | error cause' => exact .error cause cause'
      | exhausted => exact absurd (h.2 rfl) (by simp)
    | exhausted =>
      obtain rfl := h.1 rfl
      exact .exhausted

/-- Environments of a sound store host its closures where no hardcoded builtin is rebound. -/
theorem hosts_of_sound (hsound : m.store.Sound) {d : Closure ν} (hd : m.store.Holds d)
    (hbuiltins : ∀ b ∈ m.hardcoded,
      m.store.lookup? b.globalName d.environment = some (.builtin b)) :
    m.Hosts d.environment where
  old hi := hsound.environment hd hi
  builtin {name b} hb := by
    have hname : b.globalName = name := by simpa using List.find?_some hb
    rw [← hname]
    exact hbuiltins b (List.mem_of_find?_eq_some hb)

end Mirror

namespace CapturedUnits

variable [Numeric ν]

/-- A closure that a program made and the function that its units are merged into come to the same
outcome for all arguments that hold no function, however long both may run: the same primitive
value, pairs of the same values, or errors. The call keeps to the discipline, loops do not start
from values that mention their own variables, and the hardcoded builtins are what their names stand
for. -/
theorem call_merged {options : RunOptions} {p : Program ν} {store : Store ν}
    {hardcoded : List Builtin} {target : String} {c : Closure ν} {units : CapturedUnits ν}
    (hrun : p.run options = .ok store) (hheld : store.Holds c)
    (hunits : ofClosure store hardcoded target c = .ok units)
    (hscoped : ∀ d, c.Reaches store d → Statement.allScoped d.function.body = true)
    (hbuiltins : ∀ d, c.Reaches store d → ∀ b ∈ hardcoded,
      store.lookup? b.globalName d.environment = some (.builtin b)) :
    ∃ merged, units.merge target = .ok merged ∧
      ∀ {declared : Nat → List String} {patience i : Nat} {name : Option String}
        {args : List (Value ν)}, (∀ v ∈ args, v.holdsFunction = false) →
          Run.callObeys (.capturable target store.frames.size declared) none patience 0
            (.closure c) args store →
          Run.Alike ((Run.call none patience 0 (.closure c) args).outcome store).1
            ((Run.call none patience 0 (.closure ⟨i, name, merged, .global⟩) args).outcome
              .initial).1 := by
  have hsound := Program.sound_of_run hrun
  obtain ⟨root, hlast, hname, hmerge⟩ := exists_merge hunits
  refine ⟨_, hmerge, ?_⟩
  intro declared patience i name args hargs hobeys
  cases patience with
  | zero => exact .exhausted
  | succ patience =>
    let m : Mirror ν := ⟨⟨store, hardcoded, units.names⟩, target, declared⟩
    have hstarts : m.Starts c units :=
      { sound := hsound
        held := hheld
        names := rfl
        covers := covers_ofClosure hscoped hunits
        last := fun hroot => Option.some.inj (hroot.symm.trans hlast) ▸ hname
        hosts := fun hd => Mirror.hosts_of_sound hsound (hd.held hheld) (hbuiltins _ hd) }
    exact (hstarts.ends_body hlast hargs (Mirror.calls_follow m patience 1) (hobeys rfl) i
      name).alike

end CapturedUnits

/-! ### Notes of a scale

A closure that calls another one, which calls itself, with a list that the program made. -/

namespace Scale

def last : Function (Exact .zero) :=
  let rest : Expression (Exact .zero) := .member (.identifier "notes") (.number Numeric.one)
  ⟨["notes"], [.result (some (.conditional (.binary .strictEqual rest .null)
    (.member (.identifier "notes") (.number Numeric.zero)) (.call (.identifier "last") [rest])))]⟩

def wave : Function (Exact .zero) :=
  ⟨["t"], [.declaration .constant "top" (some (.call (.identifier "last") [.identifier "scale"])),
    .result (some (.array [.identifier "t", .identifier "top"]))]⟩

def program : Program (Exact .zero) where
  body := [
    .declaration .constant "scale"
      (some (.array [.number (.of 2), .array [.number (.of 3), .null]])),
    .declaration .constant "last" (some (.function last.params last.body none)),
    .declaration .constant "wave" (some (.function wave.params wave.body none))]

def lastClosure : Closure (Exact .zero) := ⟨2, some "last", last, .global⟩

def waveClosure : Closure (Exact .zero) := ⟨3, some "wave", wave, .global⟩

def store : Store (Exact .zero) :=
  ⟨#[⟨("wave", .closure waveClosure) :: ("last", .closure lastClosure) ::
    ("scale", .pair 1 (.number (.of 2)) (.pair 0 (.number (.of 3)) .null)) :: globals⟩], 4, 0⟩

/-- The names that the frames of the call declare: the one for the wave, and those for the cells of
the list. -/
def declared (i : Nat) : List String :=
  if i = 1 then ["t", "top"] else ["notes"]

theorem reaches {d : Closure (Exact .zero)} (h : waveClosure.Reaches store d) :
    d = waveClosure ∨ d = lastClosure := by
  induction h with
  | refl => exact .inl rfl
  | step _ hname hv he ih =>
    rcases ih with rfl | rfl
    · simp only [waveClosure, wave, Statement.anyReferences, Statement.references,
        Expression.optionReferences, Expression.references, Expression.anyReferences,
        Bool.or_eq_true, beq_iff_eq, Bool.or_false] at hname
      obtain (rfl | rfl) | rfl | rfl := hname <;> cases hv
      · exact .inr he.symm
      · rcases he with he | he | he <;> exact he.elim
    · simp only [lastClosure, last, Statement.anyReferences, Statement.references,
        Expression.optionReferences, Expression.references, Expression.anyReferences,
        Expression.number, Expression.null, Bool.or_eq_true, beq_iff_eq, Bool.or_false] at hname
      obtain (rfl | rfl) | rfl | rfl := hname <;> cases hv
      exact .inr he.symm

section

variable {call : Caller (Exact .zero)} {check : CallCheck (Exact .zero)} {env : Environment}
  {s : Store (Exact .zero)}

theorem obeys_identifier {name : String} (h : s.IsSettled 1 declared name env) :
    (Expression.identifier name).Obeys (.capturable "wave" 1 declared) call check env s :=
  h

theorem obeys_note {index : Exact .zero} (h : s.IsSettled 1 declared "notes" env) :
    (Expression.member (.identifier "notes") (.number index)).Obeys
      (.capturable "wave" 1 declared) call check env s :=
  ⟨h, fun _ _ _ => ⟨trivial, fun _ _ _ => trivial⟩⟩

end

theorem call_obeys : Run.callObeys (.capturable "wave" store.frames.size declared) none 4 0
    (.closure waveClosure) [.number (.of 1)] store := by
  intro _
  refine ⟨⟨rfl, by decide⟩, fun _ => trivial,
    .of_outcome rfl (.of_outcome rfl (.of_outcome rfl ?_))⟩
  refine ⟨⟨obeys_identifier (by decide), .of_outcome rfl ⟨⟨obeys_identifier (by decide),
    .of_outcome rfl trivial⟩, .of_outcome rfl fun _ => ?_⟩⟩, .of_outcome rfl fun _ => ?_⟩
  · -- the first cell is not the last one
    refine ⟨⟨rfl, by decide⟩, fun _ => trivial,
      .of_outcome rfl (.of_outcome rfl (.of_outcome rfl ?_))⟩
    refine ⟨⟨⟨⟨obeys_note (by decide), .of_outcome rfl ⟨trivial, .of_outcome rfl ?_⟩⟩,
      .of_outcome rfl ⟨trivial, nofun, fun _ => ⟨?_, fun _ _ _ => trivial⟩⟩⟩,
        fun _ _ _ => trivial⟩, .of_outcome rfl nofun⟩
    · exact fun hpairs => Bool.false_ne_true hpairs.2
    · refine ⟨obeys_identifier (by decide), .of_outcome rfl ⟨⟨obeys_note (by decide),
        .of_outcome rfl trivial⟩, .of_outcome rfl fun _ => ?_⟩⟩
      refine ⟨⟨rfl, by decide⟩, fun _ => trivial,
        .of_outcome rfl (.of_outcome rfl (.of_outcome rfl ?_))⟩
      refine ⟨⟨⟨⟨obeys_note (by decide), .of_outcome rfl ⟨trivial, .of_outcome rfl ?_⟩⟩,
        .of_outcome rfl ⟨trivial, fun _ => ⟨obeys_note (by decide), fun _ _ _ => trivial⟩,
          nofun⟩⟩, fun _ _ _ => trivial⟩, .of_outcome rfl nofun⟩
      exact fun hpairs => Bool.false_ne_true hpairs.1
  · exact ⟨⟨⟨obeys_identifier (by decide), .of_outcome rfl (obeys_identifier (by decide))⟩,
      .of_outcome rfl trivial⟩, .of_outcome rfl fun _ => trivial⟩

theorem wave_call_merged : program.run .standard = .ok store ∧
    ∃ units merged, CapturedUnits.ofClosure store [.length] "wave" waveClosure = .ok units ∧
      units.merge "wave" = .ok merged ∧
        ((Run.call none 4 0 (.closure waveClosure) [.number (.of 1)]).outcome store).1 =
          .ok (.pair 4 (.number (.of 1)) (.number (.of 3))) ∧
        Run.Alike ((Run.call none 4 0 (.closure waveClosure) [.number (.of 1)]).outcome store).1
          ((Run.call none 4 0 (.closure ⟨0, none, merged, .global⟩) [.number (.of 1)]).outcome
            .initial).1 := by
  have hrun : program.run .standard = .ok store := rfl
  have hheld : store.Holds waveClosure := ⟨0, "wave", .closure waveClosure, rfl, rfl⟩
  obtain ⟨units, hunits⟩ : ∃ units,
      CapturedUnits.ofClosure store [.length] "wave" waveClosure = .ok units :=
    exists_ok_of_isOk (by decide +kernel)
  have hscoped (d : Closure (Exact .zero)) (hd : waveClosure.Reaches store d) :
      Statement.allScoped d.function.body = true := by
    rcases reaches hd with rfl | rfl <;> rfl
  have hbuiltins (d : Closure (Exact .zero)) (hd : waveClosure.Reaches store d) :
      ∀ b ∈ [Builtin.length], store.lookup? b.globalName d.environment = some (.builtin b) := by
    rcases reaches hd with rfl | rfl <;> simp only [List.forall_mem_singleton] <;> rfl
  obtain ⟨merged, hmerged, halike⟩ :=
    CapturedUnits.call_merged hrun hheld hunits hscoped hbuiltins
  refine ⟨hrun, units, merged, hunits, hmerged, rfl, halike ?_ call_obeys⟩
  exact List.forall_mem_singleton.2 rfl

end Scale

/-! ### Text of a function

A closure that returns the text of another one, which is captured under another name. -/

namespace Label

def g : Closure (Exact .zero) := ⟨0, some "g", ⟨["n"], [.result (some (.identifier "n"))]⟩, .global⟩

def wave : Closure (Exact .zero) :=
  ⟨1, some "wave",
    ⟨["t"], [.result (some (.binary .add (.literal (.string "")) (.identifier "g")))]⟩, .global⟩

def program : Program (Exact .zero) where
  body := [
    .declaration .constant "g" (some (.function g.function.params g.function.body none)),
    .declaration .constant "wave" (some (.function wave.function.params wave.function.body none))]

def store : Store (Exact .zero) :=
  ⟨#[⟨("wave", .closure wave) :: ("g", .closure g) :: globals⟩], 2, 0⟩

def merged : Function (Exact .zero) :=
  ⟨["t"], [.function "$c0B1_g" ["n"] [.result (some (.identifier "n"))],
    .result (some (.binary .add (.literal (.string "")) (.identifier "$c0B1_g")))]⟩

theorem wave_text_differs : program.run .standard = .ok store ∧
    (∃ units, CapturedUnits.ofClosure store [.length] "wave" wave = .ok units ∧
      units.merge "wave" = .ok merged) ∧
    ((Run.call none 2 0 (.closure wave) [.number (.of 1)]).outcome store).1 =
      .ok (.primitive (.string "<closure g>")) ∧
    ((Run.call none 2 0 (.closure ⟨0, none, merged, .global⟩) [.number (.of 1)]).outcome
      .initial).1 = .ok (.primitive (.string "<closure $c0B1_g>")) :=
  ⟨rfl, ⟨_, rfl, rfl⟩, rfl, rfl⟩

end Label

end Waveform
