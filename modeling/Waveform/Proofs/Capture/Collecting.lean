import Waveform.Proofs.Capture.Outcome
import Waveform.Proofs.Capture.Unit
import Waveform.Specialize.Specialization

/-!
# Collected units

The units of a closure: every closure that has a name is one of those that the first one reaches,
and there is one unit that goes by that name. `CapturedUnits.Covers` holds before each closure that
is captured, with the closures that still wait; in the end none does.
-/

namespace Waveform

variable {ν : Type}

def Mentions (store : Store ν) (env : Environment) (reached : Closure ν → Prop)
    (references : String → Bool) : Prop :=
  ∀ name v c, references name = true → store.lookup? name env = some v → v.Holds c → reached c

/-- The second closure can be got at from the first through names that functions mention. -/
inductive Closure.Reaches (s : Store ν) (c : Closure ν) : Closure ν → Prop
  | refl : Reaches s c c
  | step {d e : Closure ν} {name : String} {v : Value ν} (h : Reaches s c d)
    (hname : Statement.anyReferences name d.function.body = true)
    (hv : s.lookup? name d.environment = some v) (he : v.Holds e) : Reaches s c e

theorem Closure.Reaches.mentions {s : Store ν} {c d : Closure ν} (h : c.Reaches s d) :
    Mentions s d.environment (c.Reaches s) (Statement.anyReferences · d.function.body) :=
  fun _ _ _ hname hv he => .step h hname hv he

/-- What a closure is captured as when closures have their final names. -/
structure Closure.CapturedAs (o : Origin ν) (d : Closure ν) (f : Function ν) : Prop where
  params : f.params = d.function.params
  body : Statement.CapturedAll o d.environment
    (Locals.none.extend (d.function.params ++ Statement.declaredNames d.function.body))
    d.function.body f.body

section Task

variable {store : Store ν} {hardcoded : List Builtin} {path : String}
  {reached : Closure ν → Prop} {names names' : ClosureNames} {task : ClosureTask ν}
  {unit : FunctionDeclaration ν} {found : List (ClosureTask ν)}

/-- A unit that is captured goes by the name of its task and is what its closure is captured as;
the names that are given on the way are those of the closures that are found. -/
theorem ClosureTask.capture_sound (target : String)
    (h : task.capture store path hardcoded names = (.ok (unit, found), names'))
    (hscoped : Statement.allScoped task.closure.function.body = true)
    (hmentions : Mentions store task.closure.environment reached
      (Statement.anyReferences · task.closure.function.body)) :
    unit.name = task.name ∧ names.Assigns reached target names' found ∧
      ∀ final, names'.Grows final →
        task.closure.CapturedAs ⟨store, hardcoded, final⟩ unit.function := by
  obtain ⟨requests, hread, hasked, hmarked, rfl, rfl, hname, hclose⟩ := exists_requests h
  have hreached (request : ClosureTask ν) (hrequest : request ∈ requests) :
      reached request.closure := by
    have hreferent : request.closure ∈ task.closure.referents store hardcoded :=
      hasked ▸ List.mem_map_of_mem hrequest
    obtain ⟨name, hfree, v, hv, hholds⟩ := (store.mem_referents hardcoded).1 hreferent
    exact hmentions name v _ (Statement.anyReferences_of_free _ _ hfree)
      (store.lookup?_of_captured? hardcoded hv hholds) hholds
  have hassigns := ClosureNames.assigns_after target names hreached hmarked
  refine ⟨hname, hassigns, fun final hfinal => ?_⟩
  have hfills : Origin.Fills ⟨store, hardcoded, final⟩ task.closure.environment
      (store.capturedAs hardcoded final task.closure.environment) task.closure.function.free := by
    intro occurrence hmem
    obtain ⟨name, v, rfl, hv⟩ := hread occurrence hmem
    refine ⟨name, v, rfl, hv, ?_⟩
    rw [Store.capturedAs, hv]
    exact ClosureNames.quotes_of_read hasked hfinal hmem hv
  rw [hclose final hfinal]
  refine ⟨rfl, Statement.captured_closeAll _ _ _ (fun name => ?_) hscoped
    (List.subset_append_right _ _) hfills⟩
  exact or_iff_right id

end Task

namespace CapturedUnits

variable {store : Store ν} {hardcoded : List Builtin} {target : String} {c : Closure ν}

/-- Closures with names are captured in a unit or wait for it, whatever names are given later. -/
structure Covers (store : Store ν) (hardcoded : List Builtin) (target : String) (c : Closure ν)
    (waiting : List (ClosureTask ν)) (u : CapturedUnits ν) : Prop where
  wellNamed : u.names.WellNamed target
  root : u.names.name? c.identity = some target
  waits {task} : task ∈ waiting → c.Reaches store task.closure ∧
    u.names.name? task.closure.identity = some task.name
  captured {unit} : unit ∈ u.units → ∃ d, c.Reaches store d ∧
    u.names.name? d.identity = some unit.name ∧
      ∀ final, u.names.Grows final → d.CapturedAs ⟨store, hardcoded, final⟩ unit.function
  named {i name} : u.names.name? i = some name →
    (∃ unit ∈ u.units, unit.name = name) ∨
      ∃ task ∈ waiting, task.closure.identity = i ∧ task.name = name
  distinct : (u.units.map (·.name)).Nodup

theorem contains_iff {u : CapturedUnits ν} {name : String} :
    u.contains name = true ↔ ∃ unit ∈ u.units, unit.name = name := by
  simp [contains]

theorem Covers.skip {task : ClosureTask ν} {waiting : List (ClosureTask ν)} {u : CapturedUnits ν}
    (h : Covers store hardcoded target c (task :: waiting) u)
    (hcontains : u.contains task.name = true) : Covers store hardcoded target c waiting u where
  wellNamed := h.wellNamed
  root := h.root
  waits htask := h.waits (List.mem_cons_of_mem _ htask)
  captured := h.captured
  named hi := by
    rcases h.named hi with hunit | ⟨other, hother, hname⟩
    · exact .inl hunit
    · rcases List.mem_cons.1 hother with rfl | hother
      · exact .inl (hname.2 ▸ contains_iff.1 hcontains)
      · exact .inr ⟨other, hother, hname⟩
  distinct := h.distinct

theorem Covers.capture {task : ClosureTask ν} {waiting found : List (ClosureTask ν)}
    {u : CapturedUnits ν} {path : String} {unit : FunctionDeclaration ν} {names' : ClosureNames}
    (h : Covers store hardcoded target c (task :: waiting) u)
    (hscoped : ∀ d, c.Reaches store d → Statement.allScoped d.function.body = true)
    (hcontains : ¬ u.contains task.name = true)
    (hcapture : task.capture store path hardcoded u.names = (.ok (unit, found), names')) :
    Covers store hardcoded target c (found.reverse ++ waiting) ⟨unit :: u.units, names'⟩ := by
  obtain ⟨hreaches, hname⟩ := h.waits (List.mem_cons_self ..)
  obtain ⟨hunit, hassigns, hcaptured⟩ := ClosureTask.capture_sound target hcapture
    (hscoped _ hreaches) hreaches.mentions
  refine ⟨hassigns.wellNamed h.wellNamed, hassigns.grows.name? h.root, fun htask => ?_,
    fun hmem => ?_, fun hi => ?_, ?_⟩
  · rcases List.mem_append.1 htask with htask | htask
    · exact hassigns.tasks (List.mem_reverse.1 htask)
    · obtain ⟨hreaches, hname⟩ := h.waits (List.mem_cons_of_mem _ htask)
      exact ⟨hreaches, hassigns.grows.name? hname⟩
  · rcases List.mem_cons.1 hmem with rfl | hmem
    · exact ⟨task.closure, hreaches, hunit ▸ hassigns.grows.name? hname, hcaptured⟩
    · obtain ⟨d, hd, hname, hall⟩ := h.captured hmem
      exact ⟨d, hd, hassigns.grows.name? hname,
        fun final hfinal => hall final (hassigns.grows.trans hfinal)⟩
  · rcases hassigns.given hi with hi | ⟨other, hother, heq⟩
    · rcases h.named hi with ⟨other, hother, heq⟩ | ⟨other, hother, heq⟩
      · exact .inl ⟨other, List.mem_cons_of_mem _ hother, heq⟩
      · rcases List.mem_cons.1 hother with rfl | hother
        · exact .inl ⟨unit, List.mem_cons_self .., hunit.trans heq.2⟩
        · exact .inr ⟨other, List.mem_append_right _ hother, heq⟩
    · exact .inr ⟨other, List.mem_append_left _ (List.mem_reverse.2 hother), heq⟩
  · rw [List.map_cons, List.nodup_cons]
    refine ⟨fun hmem => hcontains (contains_iff.2 ?_), h.distinct⟩
    obtain ⟨other, hother, heq⟩ := List.mem_map.1 hmem
    exact ⟨other, hother, heq.trans hunit⟩

theorem Covers.collect {root : String} {steps : Nat} {waiting : List (ClosureTask ν)}
    {u u' : CapturedUnits ν} (h : Covers store hardcoded target c waiting u)
    (hscoped : ∀ d, c.Reaches store d → Statement.allScoped d.function.body = true)
    (hcollect : CapturedUnits.collect store hardcoded root steps waiting u = .ok u') :
    Covers store hardcoded target c [] u' := by
  induction steps generalizing waiting u with
  | zero =>
    cases waiting with
    | nil =>
      cases hcollect
      exact h
    | cons task waiting => cases hcollect
  | succ steps ih =>
    cases waiting with
    | nil =>
      cases hcollect
      exact h
    | cons task waiting =>
      rw [CapturedUnits.collect] at hcollect
      by_cases hcontains : u.contains task.name = true
      · rw [if_pos hcontains] at hcollect
        exact ih (h.skip hcontains) hcollect
      · rw [if_neg hcontains] at hcollect
        split at hcollect
        · cases hcollect
        · next unit found names' hcapture =>
          exact ih (h.capture hscoped hcontains hcapture) hcollect

/-- The units of a closure cover all that it reaches. -/
theorem covers_ofClosure {u : CapturedUnits ν}
    (hscoped : ∀ d, c.Reaches store d → Statement.allScoped d.function.body = true)
    (h : ofClosure store hardcoded target c = .ok u) :
    Covers store hardcoded target c [] u := by
  have hstart : Covers store hardcoded target c [⟨target, c⟩]
      ⟨[], ClosureNames.empty.register c.identity target⟩ := by
    have hname {i : Nat} {name : String}
        (h : (ClosureNames.empty.register c.identity target).name? i = some name) :
        c.identity = i ∧ target = name := by
      rw [ClosureNames.name?_register] at h
      split at h
      · next hi => exact ⟨hi.symm, Option.some.inj h⟩
      · cases h
    have hroot :
        (ClosureNames.empty.register c.identity target).name? c.identity = some target := by
      rw [ClosureNames.name?_register, if_pos rfl]
    refine ⟨ClosureNames.wellNamed_register target c.identity, hroot, fun htask => ?_, nofun,
      fun hi => ?_, List.nodup_nil⟩
    · obtain rfl := List.mem_singleton.1 htask
      exact ⟨.refl, hroot⟩
    · exact .inr ⟨_, List.mem_singleton_self _, hname hi⟩
  exact hstart.collect hscoped h

end CapturedUnits

end Waveform
