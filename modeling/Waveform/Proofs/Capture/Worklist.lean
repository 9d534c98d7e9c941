import Waveform.Proofs.Capture.Meaning
import Waveform.Proofs.Capture.Merging

/-!
# The worklist of closures

The closures that one leads to are captured one by one. At each moment the closures that wait and
the ones that are captured already are all the closures with names, each once: a closure is found
when it gets its name, so that it never waits a second time. The steps that there are suffice, and
when none waits any more, the units are those of all closures that the first one leads to.
-/

namespace Waveform

variable {ν : Type}

/-- The closures that one leads to, by names that are read in it and not bound there. -/
inductive Closure.Refers (store : Store ν) (hardcoded : List Builtin) (c : Closure ν) :
    Closure ν → Prop
  | refl : Refers store hardcoded c c
  | step {d e : Closure ν} (hd : Refers store hardcoded c d)
    (he : e ∈ d.referents store hardcoded) : Refers store hardcoded c e

/-- The closures that one leads to have identities that were given out, each its own. -/
structure Closure.IsIdentified (store : Store ν) (hardcoded : List Builtin) (c : Closure ν) :
    Prop where
  made {d} : c.Refers store hardcoded d → d.identity < store.made
  unique {d e} : c.Refers store hardcoded d → c.Refers store hardcoded e →
    d.identity = e.identity → d = e

theorem Closure.Refers.held {store : Store ν} {hardcoded : List Builtin} {c d : Closure ν}
    (h : c.Refers store hardcoded d) (hc : store.Holds c) : store.Holds d := by
  induction h with
  | refl => exact hc
  | step _ he _ =>
    obtain ⟨name, -, v, hv, hholds⟩ := (store.mem_referents hardcoded).1 he
    exact Store.holds_of_lookup (store.lookup?_of_captured? hardcoded hv hholds) hholds

theorem Closure.isIdentified_of_sound {store : Store ν} {c : Closure ν} (h : store.Sound)
    (hc : store.Holds c) (hardcoded : List Builtin) : c.IsIdentified store hardcoded where
  made hd := h.made (hd.held hc)
  unique hd he := h.unique (hd.held hc) (he.held hc)

namespace CapturedUnits

variable {store : Store ν} {hardcoded : List Builtin} {target : String} {c : Closure ν}

/-! ## Steps -/

def start (target : String) (c : Closure ν) : CapturedUnits ν :=
  ⟨[], ClosureNames.empty.register c.identity target⟩

section

variable (store : Store ν) (hardcoded : List Builtin)

/-- The closures that wait and the units, before and after some steps. -/
inductive Advances : Nat → List (ClosureTask ν) → CapturedUnits ν → List (ClosureTask ν) →
    CapturedUnits ν → Prop
  | refl {waiting : List (ClosureTask ν)} {u : CapturedUnits ν} : Advances 0 waiting u waiting u
  | skip {n : Nat} {task : ClosureTask ν} {waiting waiting' : List (ClosureTask ν)}
    {u u' : CapturedUnits ν} (hcontains : u.contains task.name = true)
    (hrest : Advances n waiting u waiting' u') : Advances (n + 1) (task :: waiting) u waiting' u'
  | take {n : Nat} {task : ClosureTask ν} {waiting waiting' found : List (ClosureTask ν)}
    {u u' : CapturedUnits ν} {unit : FunctionDeclaration ν} {names : ClosureNames}
    (hcontains : u.contains task.name = false)
    (hcapture : task.capture store ("c" ++ toString u.units.length) hardcoded u.names =
      (.ok (unit, found), names))
    (hrest : Advances n (found.reverse ++ waiting) ⟨unit :: u.units, names⟩ waiting' u') :
    Advances (n + 1) (task :: waiting) u waiting' u'

def Fails (waiting : List (ClosureTask ν)) (u : CapturedUnits ν) (e : SpecializationError ν) :
    Prop :=
  ∃ task rest, waiting = task :: rest ∧
    (task.capture store ("c" ++ toString u.units.length) hardcoded u.names).1 = .error e

end

/-- Collecting ends when no closure waits, when there is no step left, or with a capture that
fails. -/
theorem exists_advances (store : Store ν) (hardcoded : List Builtin) (root : String) (steps : Nat)
    (waiting : List (ClosureTask ν)) (u : CapturedUnits ν) :
    ∃ n waiting' u', Advances store hardcoded n waiting u waiting' u' ∧
      ((waiting' = [] ∧ collect store hardcoded root steps waiting u = .ok u') ∨
        (waiting' ≠ [] ∧ n = steps) ∨
        ∃ e, Fails store hardcoded waiting' u' e ∧
          collect store hardcoded root steps waiting u = .error e) := by
  induction steps generalizing waiting u with
  | zero =>
    cases waiting with
    | nil => exact ⟨0, [], u, .refl, .inl ⟨rfl, rfl⟩⟩
    | cons task waiting => exact ⟨0, _, u, .refl, .inr (.inl ⟨nofun, rfl⟩)⟩
  | succ steps ih =>
    cases waiting with
    | nil => exact ⟨0, [], u, .refl, .inl ⟨rfl, rfl⟩⟩
    | cons task waiting =>
      rw [collect]
      by_cases hcontains : u.contains task.name = true
      · rw [if_pos hcontains]
        obtain ⟨n, waiting', u', hadvances, hend⟩ := ih waiting u
        refine ⟨n + 1, waiting', u', .skip hcontains hadvances, ?_⟩
        simpa only [Nat.add_right_cancel_iff] using hend
      · rw [if_neg hcontains]
        rcases hcapture : task.capture store ("c" ++ toString u.units.length) hardcoded u.names with
          ⟨e | ⟨unit, found⟩, names⟩
        · refine ⟨0, _, u, .refl, .inr (.inr ⟨e, ⟨task, waiting, rfl, ?_⟩, rfl⟩)⟩
          rw [hcapture]
        · obtain ⟨n, waiting', u', hadvances, hend⟩ :=
            ih (found.reverse ++ waiting) ⟨unit :: u.units, names⟩
          refine ⟨n + 1, waiting', u',
            .take (Bool.eq_false_iff.2 hcontains) hcapture hadvances, ?_⟩
          simpa only [Nat.add_right_cancel_iff] using hend

/-! ## Closures with names -/

/-- The unit is the closure's function with values for its free names, whatever names are given
later. -/
structure IsUnitOf (store : Store ν) (hardcoded : List Builtin) (names : ClosureNames)
    (d : Closure ν) (unit : FunctionDeclaration ν) : Prop where
  name : names.name? d.identity = some unit.name
  named {e} : e ∈ d.referents store hardcoded → ∃ name, names.name? e.identity = some name
  function {final} : names.Grows final →
    unit.function = d.function.close (store.capturedAs hardcoded final d.environment)

theorem IsUnitOf.mono {names names' : ClosureNames} {d : Closure ν} {unit : FunctionDeclaration ν}
    (h : IsUnitOf store hardcoded names d unit) (hnames : names.Grows names') :
    IsUnitOf store hardcoded names' d unit where
  name := hnames.name? h.name
  named he := (h.named he).imp fun _ => hnames.name?
  function hfinal := h.function (hnames.trans hfinal)

theorem exists_unit {names : ClosureNames} {captured : List (Closure ν)}
    {units : List (FunctionDeclaration ν)} {d : Closure ν}
    (h : List.Forall₂ (IsUnitOf store hardcoded names) captured units) (hd : d ∈ captured) :
    ∃ unit ∈ units, IsUnitOf store hardcoded names d unit := by
  induction h with
  | nil => cases hd
  | @cons _ unit _ units hunit _ ih =>
    rcases List.mem_cons.1 hd with rfl | hd
    · exact ⟨unit, List.mem_cons_self .., hunit⟩
    · obtain ⟨other, hother, hd⟩ := ih hd
      exact ⟨other, List.mem_cons_of_mem _ hother, hd⟩

theorem exists_captured {names : ClosureNames} {captured : List (Closure ν)}
    {units : List (FunctionDeclaration ν)} {unit : FunctionDeclaration ν}
    (h : List.Forall₂ (IsUnitOf store hardcoded names) captured units) (hunit : unit ∈ units) :
    ∃ d ∈ captured, IsUnitOf store hardcoded names d unit := by
  induction h with
  | nil => cases hunit
  | @cons d _ captured _ hd _ ih =>
    rcases List.mem_cons.1 hunit with rfl | hunit
    · exact ⟨d, List.mem_cons_self .., hd⟩
    · obtain ⟨other, hother, hunit⟩ := ih hunit
      exact ⟨other, List.mem_cons_of_mem _ hother, hunit⟩

/-- The closures with names are the ones that wait and the ones that are captured, each once. -/
structure Progress (store : Store ν) (hardcoded : List Builtin) (target : String) (c : Closure ν)
    (waiting : List (ClosureTask ν)) (u : CapturedUnits ν) (captured : List (Closure ν)) :
    Prop where
  wellNamed : u.names.WellNamed target
  root : u.names.name? c.identity = some target
  waits {task} : task ∈ waiting → c.Refers store hardcoded task.closure ∧
    u.names.name? task.closure.identity = some task.name
  refers {d} : d ∈ captured → c.Refers store hardcoded d
  units : List.Forall₂ (IsUnitOf store hardcoded u.names) captured u.units
  once : ((waiting.map (·.closure) ++ captured).map (·.identity)).Nodup
  named {i name} : u.names.name? i = some name →
    ∃ d ∈ waiting.map (·.closure) ++ captured, d.identity = i
  referenced {name} : u.names.isReferenced name = true ↔
    ∃ d ∈ captured, ∃ e ∈ d.referents store hardcoded, u.names.name? e.identity = some name

namespace Progress

variable {waiting waiting' : List (ClosureTask ν)} {u u' : CapturedUnits ν}
  {captured : List (Closure ν)}

theorem start (store : Store ν) (hardcoded : List Builtin) (target : String) (c : Closure ν) :
    Progress store hardcoded target c [⟨target, c⟩] (.start target c) [] := by
  have hname {i : Nat} : (CapturedUnits.start target c).names.name? i =
      if i = c.identity then some target else none :=
    ClosureNames.name?_register ..
  refine ⟨ClosureNames.wellNamed_register target c.identity, ?_, fun htask => ?_, nofun, .nil,
    List.nodup_singleton _, fun {i name} hi => ?_, ⟨nofun, ?_⟩⟩
  · rw [hname, if_pos rfl]
  · obtain rfl := List.mem_singleton.1 htask
    exact ⟨.refl, by rw [hname, if_pos rfl]⟩
  · rw [hname] at hi
    by_cases heq : i = c.identity
    · exact ⟨c, List.mem_singleton_self _, heq.symm⟩
    · rw [if_neg heq] at hi
      cases hi
  · rintro ⟨_, hd, _⟩
    cases hd

theorem exists_name (h : Progress store hardcoded target c waiting u captured) {d : Closure ν}
    (hd : d ∈ waiting.map (·.closure) ++ captured) :
    ∃ name, u.names.name? d.identity = some name := by
  rcases List.mem_append.1 hd with hd | hd
  · obtain ⟨task, htask, rfl⟩ := List.mem_map.1 hd
    exact ⟨task.name, (h.waits htask).2⟩
  · obtain ⟨unit, -, hunit⟩ := exists_unit h.units hd
    exact ⟨unit.name, hunit.name⟩

/-- No closure that waits has been captured. -/
theorem contains_eq_false {task : ClosureTask ν}
    (h : Progress store hardcoded target c (task :: waiting) u captured) :
    u.contains task.name = false := by
  refine Bool.eq_false_iff.2 fun hcontains => ?_
  obtain ⟨unit, hunit, hname⟩ := contains_iff.1 hcontains
  obtain ⟨d, hd, hcaptured⟩ := exists_captured h.units hunit
  have htask := (h.waits (List.mem_cons_self ..)).2
  have hidentity : task.closure.identity = d.identity :=
    h.wellNamed.injective htask (hname ▸ hcaptured.name)
  have honce := h.once
  rw [List.map_cons, List.cons_append, List.map_cons, List.nodup_cons] at honce
  refine honce.1 ?_
  rw [hidentity]
  exact List.mem_map_of_mem (List.mem_append_right _ hd)

theorem take {task : ClosureTask ν} {path : String} {unit : FunctionDeclaration ν}
    {found : List (ClosureTask ν)} {names : ClosureNames}
    (h : Progress store hardcoded target c (task :: waiting) u captured)
    (hcapture : task.capture store path hardcoded u.names = (.ok (unit, found), names)) :
    Progress store hardcoded target c (found.reverse ++ waiting) ⟨unit :: u.units, names⟩
      (task.closure :: captured) := by
  obtain ⟨requests, -, hasked, hmarked, rfl, rfl, hunit, hfunction⟩ :=
    ClosureTask.exists_requests hcapture
  have hgrows := u.names.after_grows requests
  obtain ⟨hrefers, hname⟩ := h.waits (List.mem_cons_self ..)
  have hreferent {e : Closure ν} : e ∈ task.closure.referents store hardcoded ↔
      ∃ request ∈ requests, request.closure = e := by
    rw [← hasked, List.mem_map]
  refine ⟨h.wellNamed.after hmarked, hgrows.name? h.root, fun {other} hother => ?_,
    fun hd => ?_, .cons ?_ ?_, ?_, fun {i name} hi => ?_, ?_⟩
  · rcases List.mem_append.1 hother with hother | hother
    · obtain ⟨⟨request, hrequest, heq⟩, -, hsome⟩ :=
        ClosureNames.mem_discovered (List.mem_reverse.1 hother)
      exact ⟨.step hrefers (hreferent.2 ⟨request, hrequest, heq⟩), hsome⟩
    · obtain ⟨hrefers, hsome⟩ := h.waits (List.mem_cons_of_mem _ hother)
      exact ⟨hrefers, hgrows.name? hsome⟩
  · rcases List.mem_cons.1 hd with rfl | hd
    · exact hrefers
    · exact h.refers hd
  · refine ⟨hunit ▸ hgrows.name? hname, fun he => ?_, hfunction _⟩
    exact ClosureNames.exists_name_of_referent hasked he u.names
  · exact h.units.imp fun _ _ hd => hd.mono hgrows
  · -- what is found had no name before, and what waited or was captured had one
    have hnew := u.names.nodup_discovered requests
    have hdisjoint : ∀ i ∈ (u.names.discovered requests).map (·.closure.identity),
        i ∉ (((task :: waiting).map (·.closure)) ++ captured).map (·.identity) := by
      intro i hi hold
      obtain ⟨other, hother, rfl⟩ := List.mem_map.1 hi
      obtain ⟨d, hd, hidentity⟩ := List.mem_map.1 hold
      obtain ⟨name, hname⟩ := h.exists_name hd
      rw [hidentity, (ClosureNames.mem_discovered hother).2.1] at hname
      cases hname
    have honce := List.nodup_append.2 ⟨hnew, h.once, fun i hi j hj heq =>
      hdisjoint i hi (heq ▸ hj)⟩
    refine (List.Perm.nodup_iff ?_).1 honce
    simp only [List.map_append, List.map_cons, List.map_map, List.map_reverse, List.append_assoc,
      List.cons_append]
    refine (List.reverse_perm _).symm.append ?_
    exact List.perm_middle.symm
  · cases hold : u.names.name? i with
    | some known =>
      obtain ⟨d, hd, hidentity⟩ := h.named hold
      refine ⟨d, ?_, hidentity⟩
      simp only [List.map_cons, List.map_append, List.mem_append, List.mem_cons] at hd ⊢
      tauto
    | none =>
      obtain ⟨other, hother, hidentity, -⟩ := ClosureNames.exists_discovered hold hi
      refine ⟨other.closure, List.mem_append_left _ ?_, hidentity⟩
      exact List.mem_map_of_mem (List.mem_append_left _ (List.mem_reverse.2 hother))
  · intro name
    rw [ClosureNames.isReferenced_after, h.referenced, List.exists_mem_cons_iff, or_comm]
    refine or_congr ?_ ?_
    · constructor
      · rintro ⟨request, hrequest, hname⟩
        exact ⟨request.closure, hreferent.2 ⟨request, hrequest, rfl⟩, hname⟩
      · rintro ⟨e, he, hname⟩
        obtain ⟨request, hrequest, rfl⟩ := hreferent.1 he
        exact ⟨request, hrequest, hname⟩
    · refine exists_congr fun d => and_congr_right fun hd => exists_congr fun e =>
        and_congr_right fun he => ⟨hgrows.name?, fun hname => ?_⟩
      obtain ⟨unit, -, hunit⟩ := exists_unit h.units hd
      obtain ⟨known, hknown⟩ := hunit.named he
      rw [hgrows.name? hknown] at hname
      rw [hknown, hname]

theorem advance (h : Progress store hardcoded target c waiting u captured) {n : Nat}
    (hadvances : Advances store hardcoded n waiting u waiting' u') :
    ∃ captured', Progress store hardcoded target c waiting' u' captured' ∧
      captured'.length = captured.length + n := by
  induction hadvances generalizing captured with
  | refl => exact ⟨captured, h, rfl⟩
  | skip hcontains _ _ =>
    rw [h.contains_eq_false] at hcontains
    cases hcontains
  | take _ hcapture _ ih =>
    obtain ⟨captured', h', hlength⟩ := ih (h.take hcapture)
    refine ⟨captured', h', ?_⟩
    rw [hlength, List.length_cons, Nat.add_right_comm, Nat.add_assoc]

/-- Each captured closure has an identity of its own, and so has the one that waits. -/
theorem length_lt {task : ClosureTask ν} (hc : c.IsIdentified store hardcoded)
    (h : Progress store hardcoded target c (task :: waiting) u captured) :
    captured.length < store.made := by
  have hrefers : ∀ d ∈ task.closure :: captured, d.identity < store.made := by
    intro d hd
    rcases List.mem_cons.1 hd with rfl | hd
    · exact hc.made (h.waits (List.mem_cons_self ..)).1
    · exact hc.made (h.refers hd)
  have hnodup : ((task.closure :: captured).map (·.identity)).Nodup := by
    refine h.once.sublist (List.Sublist.map _ ?_)
    rw [List.map_cons, List.cons_append]
    exact (List.sublist_append_right _ _).cons_cons _
  have hsubset : (task.closure :: captured).map (·.identity) ⊆ List.range store.made := by
    intro i hi
    obtain ⟨d, hd, rfl⟩ := List.mem_map.1 hi
    exact List.mem_range.2 (hrefers d hd)
  have hlength := (hnodup.subperm hsubset).length_le
  rwa [List.length_map, List.length_range, List.length_cons] at hlength

theorem distinct (h : Progress store hardcoded target c waiting u captured) :
    (u.units.map (·.name)).Nodup := by
  have hcaptured : (captured.map (·.identity)).Nodup :=
    h.once.sublist ((List.sublist_append_right _ _).map _)
  have hinjective {i j : Nat} {name : String} (hi : u.names.name? i = some name)
      (hj : u.names.name? j = some name) : i = j := h.wellNamed.injective hi hj
  have hunits := h.units
  clear h
  generalize u.units = units at hunits ⊢
  induction hunits with
  | nil => exact List.nodup_nil
  | @cons d unit captured units hunit hrest ih =>
    rw [List.map_cons, List.nodup_cons] at hcaptured ⊢
    refine ⟨fun hmem => ?_, ih hcaptured.2⟩
    obtain ⟨other, hother, hname⟩ := List.mem_map.1 hmem
    obtain ⟨e, he, heunit⟩ := exists_captured hrest hother
    have hidentity := hinjective (hname ▸ heunit.name) hunit.name
    exact hcaptured.1 (List.mem_map.2 ⟨e, he, hidentity⟩)

theorem mem_captured (h : Progress store hardcoded target c [] u captured)
    (hc : c.IsIdentified store hardcoded) {d : Closure ν} :
    d ∈ captured ↔ c.Refers store hardcoded d := by
  refine ⟨h.refers, fun hd => ?_⟩
  have hnamed {e : Closure ν} {name : String} (he : c.Refers store hardcoded e)
      (hname : u.names.name? e.identity = some name) : e ∈ captured := by
    obtain ⟨e', he', hidentity⟩ := h.named hname
    obtain rfl : e' = e := hc.unique (h.refers he') he hidentity
    exact he'
  induction hd with
  | refl => exact hnamed .refl h.root
  | step hd he ih =>
    obtain ⟨unit, -, hunit⟩ := exists_unit h.units ih
    obtain ⟨name, hname⟩ := hunit.named he
    exact hnamed (.step hd he) hname

end Progress

/-! ## The whole worklist -/

/-- The closures that one leads to are captured, each once, and their units are merged into one
function, each under a name of its own. -/
structure Completes (store : Store ν) (hardcoded : List Builtin) (target : String) (c : Closure ν)
    (captured : List (Closure ν)) (u : CapturedUnits ν) (root : FunctionDeclaration ν) : Prop where
  once : (captured.map (·.identity)).Nodup
  all {d} : d ∈ captured ↔ c.Refers store hardcoded d
  units : List.Forall₂ (IsUnitOf store hardcoded u.names) captured u.units
  distinct : (u.units.map (·.name)).Nodup
  last : u.units.getLast? = some root
  name : root.name = target
  unit : IsUnitOf store hardcoded u.names c root
  merge : u.merge target = .ok ⟨root.function.params,
    (u.hoisted target).map Statement.ofDeclaration ++ root.function.body⟩
  /-- What stands for a closure is the name of one unit, which is declared. -/
  referent {d e} : d ∈ captured → e ∈ d.referents store hardcoded → ∃ unit ∈ u.hoisted target,
    u.names.name? e.identity = some unit.name ∧
      ∀ other ∈ u.units, other.name = unit.name → other = unit
  mem_hoisted : root ∈ u.hoisted target ↔ ∃ d ∈ captured, c ∈ d.referents store hardcoded

theorem Progress.completes {u : CapturedUnits ν} {captured : List (Closure ν)}
    (hc : c.IsIdentified store hardcoded)
    (h : Progress store hardcoded target c [] u captured)
    (hcollect : ofClosure store hardcoded target c = .ok u) :
    ∃ root, Completes store hardcoded target c captured u root := by
  obtain ⟨root, hlast, hname, hmerge⟩ := exists_merge hcollect
  have hroots : ∀ other, u.units.getLast? = some other → other.name = target :=
    fun other hother => Option.some.inj (hother.symm.trans hlast) ▸ hname
  have hmem := List.mem_of_getLast? hlast
  have hroot : IsUnitOf store hardcoded u.names c root := by
    obtain ⟨d, hd, hunit⟩ := exists_captured h.units hmem
    have hidentity := h.wellNamed.injective (hname ▸ hunit.name) h.root
    obtain rfl : d = c := hc.unique (h.refers hd) .refl hidentity
    exact hunit
  have hreferenced : u.names.isReferenced target = true ↔
      ∃ d ∈ captured, c ∈ d.referents store hardcoded := by
    rw [h.referenced]
    refine exists_congr fun d => and_congr_right fun hd => ⟨?_, fun hself => ⟨c, hself, h.root⟩⟩
    rintro ⟨e, he, htarget⟩
    have hidentity := h.wellNamed.injective htarget h.root
    obtain rfl : e = c := hc.unique (.step (h.refers hd) he) .refl hidentity
    exact he
  have hdistinct := h.distinct
  refine ⟨root, ?_, h.mem_captured hc, h.units, hdistinct, hlast, hname, hroot, hmerge,
    fun {d e} hd he => ?_, ?_⟩
  · simpa using h.once
  · have hcaptured := (h.mem_captured hc).2 (.step (h.refers hd) he)
    obtain ⟨unit, hunit, heunit⟩ := exists_unit h.units hcaptured
    have hused := h.referenced.2 ⟨d, hd, e, he, heunit.name⟩
    refine ⟨unit, mem_hoisted hroots hunit hused, heunit.name, fun other hother hsame => ?_⟩
    exact List.inj_on_of_nodup_map hdistinct hother hunit hsame
  · rw [← hreferenced, hoisted]
    by_cases htarget : u.names.isReferenced target = true
    · rw [if_pos htarget]
      exact iff_of_true hmem htarget
    · rw [if_neg htarget]
      refine iff_of_false (fun hdropped => ?_) htarget
      have hsplit := List.dropLast_append_getLast? root hlast
      have hunits := hdistinct.of_map
      rw [← hsplit, List.nodup_append] at hunits
      exact hunits.2.2 root hdropped root (List.mem_singleton_self _) rfl

/-- An error of a capture is none of the worklist. -/
theorem Fails.ne_missingRoot {waiting : List (ClosureTask ν)} {u : CapturedUnits ν}
    {e : SpecializationError ν} (h : Fails store hardcoded waiting u e) (name : String) :
    e ≠ .missingRoot name := by
  obtain ⟨task, rest, -, hfails⟩ := h
  rintro rfl
  rcases task.closure.capture_outcome store hardcoded ("c" ++ toString u.units.length) with
    ⟨e, hblames, hall⟩ | ⟨requests, -, -, -, hgives⟩
  · have herror := hfails.symm.trans (hall task.name u.names)
    obtain rfl := Except.error.inj herror
    rcases hblames with ⟨name, hunbound, -⟩ | ⟨name, himpure⟩
    · cases hunbound
    · cases himpure
  · have hgive := hgives task.name u.names _ (.refl _)
    rw [hgive] at hfails
    cases hfails

/-- No closure that waits has been captured before, and unless a capture fails, the worklist ends
with the units of all closures that the first one leads to. -/
theorem ofClosure_completes (hc : c.IsIdentified store hardcoded) (target : String) :
    (∀ n task waiting u,
      Advances store hardcoded n [⟨target, c⟩] (.start target c) (task :: waiting) u →
        u.contains task.name = false) ∧
    ((∃ n waiting u e, Advances store hardcoded n [⟨target, c⟩] (.start target c) waiting u ∧
        Fails store hardcoded waiting u e ∧ (∀ name, e ≠ .missingRoot name) ∧
        ofClosure store hardcoded target c = .error e) ∨
      ∃ captured u root,
        Advances store hardcoded captured.length [⟨target, c⟩] (.start target c) [] u ∧
        ofClosure store hardcoded target c = .ok u ∧
        Completes store hardcoded target c captured u root) := by
  have hstart := Progress.start store hardcoded target c
  refine ⟨fun n task waiting u hadvances => ?_, ?_⟩
  · obtain ⟨captured, hprogress, -⟩ := hstart.advance hadvances
    exact hprogress.contains_eq_false
  · obtain ⟨n, waiting, u, hadvances, hend⟩ := exists_advances store hardcoded target
      (store.made + 1) [⟨target, c⟩] (.start target c)
    obtain ⟨captured, hprogress, hlength⟩ := hstart.advance hadvances
    rw [List.length_nil, Nat.zero_add] at hlength
    rcases hend with ⟨rfl, hcollect⟩ | ⟨hwaiting, rfl⟩ | ⟨e, hfails, hcollect⟩
    · obtain ⟨root, hcompletes⟩ := hprogress.completes hc hcollect
      exact .inr ⟨captured, u, root, hlength ▸ hadvances, hcollect, hcompletes⟩
    · -- there are more steps than closures
      obtain ⟨task, rest, rfl⟩ := List.exists_cons_of_ne_nil hwaiting
      have hlt := hprogress.length_lt hc
      omega
    · exact .inl ⟨n, waiting, u, e, hadvances, hfails, hfails.ne_missingRoot, hcollect⟩

end CapturedUnits

theorem Tools.wave_units : ∃ u,
    CapturedUnits.ofClosure store [.length] "wave" waveClosure = .ok u ∧
      u.units.map (·.name) = ["$c0B1_first", "$c0B1_tools_1_0", "wave"] ∧
      u.names.isReferenced "wave" = true := by
  have hunits : (CapturedUnits.ofClosure store [.length] "wave" waveClosure).toOption.map
      (fun u => (u.units.map (·.name), u.names.isReferenced "wave")) =
        some (["$c0B1_first", "$c0B1_tools_1_0", "wave"], true) := by decide +kernel
  cases hu : CapturedUnits.ofClosure store [.length] "wave" waveClosure with
  | error e =>
    rw [hu] at hunits
    cases hunits
  | ok u =>
    rw [hu] at hunits
    obtain ⟨hnames, hreferenced⟩ := Prod.mk.inj (Option.some.inj hunits)
    exact ⟨u, rfl, hnames, hreferenced⟩

theorem Tools.wave_completes : program.run .standard = .ok store ∧
    waveClosure.IsIdentified store [.length] ∧
    ∃ captured u root, CapturedUnits.ofClosure store [.length] "wave" waveClosure = .ok u ∧
      CapturedUnits.Completes store [.length] "wave" waveClosure captured u root ∧
      u.units.map (·.name) = ["$c0B1_first", "$c0B1_tools_1_0", "wave"] ∧
      root ∈ u.hoisted "wave" := by
  have hrun : program.run .standard = .ok store := rfl
  have hheld : store.Holds waveClosure := ⟨0, "wave", .closure waveClosure, rfl, rfl⟩
  have hidentified := Closure.isIdentified_of_sound (Program.sound_of_run hrun) hheld [.length]
  obtain ⟨u, hu, hnames, hreferenced⟩ := wave_units
  rcases (CapturedUnits.ofClosure_completes hidentified "wave").2 with
    ⟨_, _, _, _, -, -, -, herror⟩ | ⟨captured, u', root, -, hu', hcompletes⟩
  · rw [hu] at herror
    cases herror
  · obtain rfl : u = u' := Except.ok.inj (hu.symm.trans hu')
    refine ⟨hrun, hidentified, captured, u, root, hu, hcompletes, hnames, ?_⟩
    rw [CapturedUnits.hoisted, if_pos hreferenced]
    exact List.mem_of_getLast? hcompletes.last

end Waveform
