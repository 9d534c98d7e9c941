import Waveform.Proofs.Capture.Calls
import Waveform.Proofs.Capture.Collecting
import Waveform.Proofs.Inlining.ResidualCheck

/-!
# Merged units

The function that the units of a closure are merged into does what the closure does. It declares
the units before its first statement, so from there on each is bound to a function that mirrors the
closure that goes by its name.
-/

namespace Waveform

variable {ν : Type}

/-! ## Units in a frame -/

namespace Store

def bindUnits (s : Store ν) (i : Nat) (outer : Environment) : List (FunctionDeclaration ν) → Store ν
  | [] => s
  | u :: us =>
    (({ s with made := s.made + 1 } : Store ν).bind i u.name
      (.closure ⟨s.made, some u.name, u.function, i :: outer⟩)).bindUnits i outer us

variable {s : Store ν} {i : Nat} {outer : Environment} {units : List (FunctionDeclaration ν)}

@[simp] theorem size_bindUnits :
    (s.bindUnits i outer units).frames.size = s.frames.size := by
  induction units generalizing s with
  | nil => rfl
  | cons u us ih => rw [bindUnits, ih, size_bind]

@[simp] theorem made_bindUnits : (s.bindUnits i outer units).made = s.made + units.length := by
  induction units generalizing s with
  | nil => rfl
  | cons u us ih =>
    rw [bindUnits, ih, List.length_cons]
    exact (Nat.add_right_comm s.made 1 us.length)

theorem find?_bindUnits_of_ne (hi : i < s.frames.size) {j : Nat} {name : String}
    (hname : j = i → ∀ u ∈ units, u.name ≠ name) :
    ((s.bindUnits i outer units).frame j).find? name = (s.frame j).find? name := by
  induction units generalizing s with
  | nil => rfl
  | cons u us ih =>
    rw [bindUnits, ih (by rwa [size_bind]) fun hj u' hu' =>
      hname hj u' (List.mem_cons_of_mem _ hu')]
    rw [find?_bind (s := { s with made := s.made + 1 }) hi, if_neg]
    · rfl
    · rintro ⟨hj, heq⟩
      exact hname hj u (List.mem_cons_self ..) heq.symm

theorem find?_bindUnits (hi : i < s.frames.size) (hdistinct : (units.map (·.name)).Nodup) {k : Nat}
    {u : FunctionDeclaration ν} (hu : units[k]? = some u) :
    ((s.bindUnits i outer units).frame i).find? u.name =
      some (.closure ⟨s.made + k, some u.name, u.function, i :: outer⟩) := by
  induction units generalizing s k with
  | nil => cases hu
  | cons first rest ih =>
    rw [List.map_cons, List.nodup_cons] at hdistinct
    cases k with
    | zero =>
      cases hu
      rw [bindUnits, find?_bindUnits_of_ne (by rwa [size_bind]),
        find?_bind (s := { s with made := s.made + 1 }) hi, if_pos ⟨rfl, rfl⟩]
      · rfl
      · exact fun _ other hother heq => hdistinct.1 (List.mem_map.2 ⟨other, hother, heq⟩)
    | succ k =>
      rw [bindUnits, ih (by rwa [size_bind]) hdistinct.2 hu, Nat.add_comm k 1, ← Nat.add_assoc]
      rfl

end Store

namespace Store

@[simp] theorem made_bindParams (s : Store ν) (i : Nat) (params : List String)
    (args : List (Value ν)) : (s.bindParams i params args).made = s.made := by
  induction params generalizing s args with
  | nil => rfl
  | cons p ps ih =>
    cases args with
    | nil => exact ih _ _
    | cons v vs => exact ih _ _

/-- The frame that a call opens holds the parameters, and the others are what they were. -/
theorem frame_opened (s : Store ν) (env : Environment) (params : List String)
    (args : List (Value ν)) (j : Nat) :
    ((s.extend env).2.bindParams s.frames.size params args).frame j =
      if j = s.frames.size then Bindings.empty.withParams .undefined params args
      else s.frame j := by
  have hlt : s.frames.size < (s.extend env).2.frames.size := by
    rw [size_extend]
    exact Nat.lt_succ_self _
  by_cases hj : j = s.frames.size
  · rw [if_pos hj, hj, frame_bindParams_self _ hlt, frame_extend, frame_of_le (Nat.le_refl _)]
  · rw [if_neg hj, frame_bindParams_of_ne _ hlt hj, frame_extend]

end Store

theorem Statement.outcome_hoist_units (i : Nat) (outer : Environment)
    (units : List (FunctionDeclaration ν)) (body : List (Statement ν)) (s : Store ν) :
    (Statement.hoist (i :: outer) (units.map Statement.ofDeclaration ++ body)).outcome s =
      (Statement.hoist (i :: outer) body).outcome (s.bindUnits i outer units) := by
  induction units generalizing s with
  | nil => rfl
  | cons u us ih =>
    rw [List.map_cons, List.cons_append, Statement.ofDeclaration, Statement.hoist, Run.outcome_bind,
      Run.outcome_makeClosure]
    dsimp only
    rw [Run.outcome_bind, Run.outcome_define]
    exact ih _

/-- Declared functions are bound before the first statement and are not run themselves. -/
theorem Statement.executeAll_units [Numeric ν] (patience : Nat) (call : Caller ν)
    (env : Environment) (units : List (FunctionDeclaration ν)) (body : List (Statement ν)) :
    Statement.executeAll patience call env (units.map Statement.ofDeclaration ++ body) =
      Statement.executeAll patience call env body := by
  induction units with
  | nil => rfl
  | cons u us ih =>
    rw [List.map_cons, List.cons_append, Statement.executeAll, Statement.ofDeclaration,
      Statement.execute, pure_bind]
    exact ih

/-! ## Merging -/

namespace CapturedUnits

def hoisted (u : CapturedUnits ν) (target : String) : List (FunctionDeclaration ν) :=
  if u.names.isReferenced target then u.units else u.units.dropLast

theorem hoisted_sublist (u : CapturedUnits ν) (target : String) :
    (u.hoisted target).Sublist u.units := by
  unfold hoisted
  split
  · exact .refl _
  · exact List.dropLast_sublist _

theorem mem_hoisted {u : CapturedUnits ν} {target : String} {unit : FunctionDeclaration ν}
    (hlast : ∀ root, u.units.getLast? = some root → root.name = target) (hunit : unit ∈ u.units)
    (hreferenced : u.names.isReferenced unit.name = true) : unit ∈ u.hoisted target := by
  unfold hoisted
  split
  · exact hunit
  · next htarget =>
    cases hroot : u.units.getLast? with
    | none =>
      rw [List.getLast?_eq_none_iff.1 hroot] at hunit
      cases hunit
    | some root =>
      have hsplit := List.dropLast_append_getLast? root hroot
      rw [← hsplit] at hunit
      rcases List.mem_append.1 hunit with hunit | hunit
      · exact hunit
      · obtain rfl := List.mem_singleton.1 hunit
        rw [hlast unit hroot] at hreferenced
        exact absurd hreferenced htarget

/-- The unit of the closure itself comes last, so its body is that of the merged function. -/
theorem exists_merge {store : Store ν} {hardcoded : List Builtin} {target : String} {c : Closure ν}
    {u : CapturedUnits ν} (h : ofClosure store hardcoded target c = .ok u) :
    ∃ root, u.units.getLast? = some root ∧ root.name = target ∧
      u.merge target = .ok ⟨root.function.params,
        (u.hoisted target).map Statement.ofDeclaration ++ root.function.body⟩ := by
  unfold ofClosure at h
  rw [collect, if_neg (by simp [contains])] at h
  split at h
  · cases h
  · next unit found names hcapture =>
    have hlast : u.units.getLast? = some unit := by
      refine getLast?_of_collect ?_ h
      rfl
    have hname : unit.name = target := by
      unfold ClosureTask.capture at hcapture
      dsimp only at hcapture
      split at hcapture
      split at hcapture
      · cases hcapture
        rfl
      · cases hcapture
    refine ⟨unit, hlast, hname, ?_⟩
    unfold merge
    rw [hlast]
    dsimp only
    rw [if_pos (beq_iff_eq.2 hname)]
    rfl

end CapturedUnits

/-! ## Both runs start -/

theorem Closure.Reaches.held {s : Store ν} {c d : Closure ν} (h : c.Reaches s d)
    (hc : s.Holds c) : s.Holds d := by
  induction h with
  | refl => exact hc
  | step _ _ hv he => exact Store.holds_of_lookup hv he

namespace Mirror

variable {m : Mirror ν} {c : Closure ν} {u : CapturedUnits ν} {W : Twins}

/-- The identities of closures with those that the functions of their units get. -/
def twinsOf (names : ClosureNames) (units : List (FunctionDeclaration ν)) : Twins :=
  {p | ∃ unit, units[p.2]? = some unit ∧ names.name? p.1 = some unit.name}

theorem match_twinsOf {names : ClosureNames} {target : String}
    {units : List (FunctionDeclaration ν)} (hnames : names.WellNamed target)
    (hdistinct : (units.map (·.name)).Nodup) : (twinsOf names units).Match := by
  rintro i j i' j' ⟨unit, hunit, hname⟩ ⟨unit', hunit', hname'⟩
  refine ⟨?_, ?_⟩
  · rintro rfl
    have hsame : unit.name = unit'.name := Option.some.inj (hname.symm.trans hname')
    have hlt : j < (units.map (·.name)).length := by
      rw [List.length_map]
      exact (List.getElem?_eq_some_iff.1 hunit).1
    refine (List.getElem?_inj hlt hdistinct).1 ?_
    rw [List.getElem?_map, List.getElem?_map, hunit, hunit']
    exact congrArg some hsame
  · rintro rfl
    obtain rfl : unit = unit' := Option.some.inj (hunit.symm.trans hunit')
    exact hnames.injective hname hname'

/-- A closure of a run and its units, none of which is left to be captured. -/
structure Starts (m : Mirror ν) (c : Closure ν) (u : CapturedUnits ν) : Prop where
  sound : m.store.Sound
  held : m.store.Holds c
  names : m.names = u.names
  covers : u.Covers m.store m.hardcoded m.target c []
  last {root} : u.units.getLast? = some root → root.name = m.target
  hosts {d} : c.Reaches m.store d → m.Hosts d.environment

theorem Starts.mirrors_unit (h : m.Starts c u) {units : List (FunctionDeclaration ν)}
    (hunits : units ⊆ u.units) {d : Closure ν} (hd : m.store.Holds d) {k : Nat}
    {unit : FunctionDeclaration ν} (hk : units[k]? = some unit)
    (hname : u.names.name? d.identity = some unit.name) :
    m.Mirrors (twinsOf u.names units) (.closure d)
      (.closure ⟨k, some unit.name, unit.function, 1 :: Environment.global⟩) := by
  obtain ⟨e, he, hename, hcaptured⟩ := h.covers.captured (hunits (List.mem_of_getElem? hk))
  have hidentity := h.covers.wellNamed.injective hename hname
  obtain rfl : e = d := h.sound.unique (he.held h.held) hd hidentity
  obtain ⟨hparams, hbody⟩ := hcaptured u.names (.refl _)
  have horigin : m.toOrigin = ⟨m.store, m.hardcoded, u.names⟩ := by rw [← h.names]
  rw [← horigin] at hbody
  exact .closure ⟨unit, hk, hname⟩ hparams (.unit (h.hosts he)) hbody

theorem Starts.capturedAs (h : m.Starts c u) {root : FunctionDeclaration ν}
    (hroot : u.units.getLast? = some root) : c.CapturedAs m.toOrigin root.function := by
  obtain ⟨d, hd, hname, hcaptured⟩ := h.covers.captured (List.mem_of_getLast? hroot)
  rw [h.last hroot] at hname
  have hidentity := h.covers.wellNamed.injective hname h.covers.root
  obtain rfl : d = c := h.sound.unique (hd.held h.held) h.held hidentity
  have horigin : m.toOrigin = ⟨m.store, m.hardcoded, u.names⟩ := by rw [← h.names]
  rw [horigin]
  exact hcaptured u.names (.refl _)

theorem Mirrors.self {v : Value ν} (h : v.holdsFunction = false) : m.Mirrors W v v := by
  induction v with
  | primitive l => exact .primitive l
  | builtin b => exact .builtin b
  | pair i head tail ihead itail =>
    rw [Value.holdsFunction, Bool.or_eq_false_iff] at h
    exact .pair (ihead h.1) (itail h.2)
  | closure c => cases h

/-! ### The first frames -/

def opened (m : Mirror ν) (c : Closure ν) (args : List (Value ν)) : Store ν :=
  (m.store.extend c.environment).2.bindParams m.base c.function.params args

/-- The store of the merged function's run when its parameters and the units are bound. -/
def merged [Numeric ν] (c : Closure ν) (args : List (Value ν))
    (units : List (FunctionDeclaration ν)) : Store ν :=
  (((Store.initial : Store ν).extend .global).2.bindParams 1 c.function.params args).bindUnits 1
    .global units

theorem frame_opened (m : Mirror ν) (c : Closure ν) (args : List (Value ν)) (i : Nat) :
    (m.opened c args).frame i =
      if i = m.base then Bindings.empty.withParams .undefined c.function.params args
      else m.store.frame i :=
  Store.frame_opened m.store c.environment c.function.params args i

theorem contains_opened {args : List (Value ν)} {i : Nat} {name : String} (hi : m.base ≤ i)
    (h : ((m.opened c args).frame i).contains name = true) :
    i = m.base ∧ name ∈ c.function.params := by
  rw [frame_opened] at h
  split at h
  · next heq =>
    rw [Bindings.contains, Bindings.isSome_withParams] at h
    exact ⟨heq, by simpa using h⟩
  · rw [Store.frame_of_le hi] at h
    cases h

section

variable [Numeric ν] {args : List (Value ν)} {units : List (FunctionDeclaration ν)}

theorem one_lt_size (c : Closure ν) (args : List (Value ν)) :
    1 < (((Store.initial : Store ν).extend .global).2.bindParams 1 c.function.params
      args).frames.size := by
  rw [Store.size_bindParams, Store.size_extend]
  exact Nat.lt_succ_self _

theorem size_merged (c : Closure ν) (args : List (Value ν))
    (units : List (FunctionDeclaration ν)) : (merged c args units).frames.size = 2 := by
  rw [merged, Store.size_bindUnits, Store.size_bindParams, Store.size_extend]
  rfl

theorem find?_merged {name : String} (hname : ∀ unit ∈ units, unit.name ≠ name) :
    ((merged c args units).frame 1).find? name =
      (Bindings.empty.withParams .undefined c.function.params args).find? name := by
  rw [merged, Store.find?_bindUnits_of_ne (one_lt_size c args) fun _ => hname]
  have hframe := Store.frame_opened (Store.initial : Store ν) .global c.function.params args 1
  have hsize : (Store.initial : Store ν).frames.size = 1 := rfl
  rw [hsize, if_pos rfl] at hframe
  exact congrArg (·.find? name) hframe

theorem find?_merged_unit (hdistinct : (units.map (·.name)).Nodup) {k : Nat}
    {unit : FunctionDeclaration ν} (hk : units[k]? = some unit) :
    ((merged c args units).frame 1).find? unit.name =
      some (.closure ⟨k, some unit.name, unit.function, 1 :: Environment.global⟩) := by
  have hmade : (((Store.initial : Store ν).extend .global).2.bindParams 1 c.function.params
      args).made = 0 := by
    rw [Store.made_bindParams]
    rfl
  rw [merged, Store.find?_bindUnits (one_lt_size c args) hdistinct hk, hmade, Nat.zero_add]

theorem made_merged (c : Closure ν) (args : List (Value ν))
    (units : List (FunctionDeclaration ν)) : (merged c args units).made = units.length := by
  rw [merged, Store.made_bindUnits, Store.made_bindParams]
  exact Nat.zero_add _

theorem Starts.agrees (h : m.Starts c u) {names : List String}
    (hframe : m.discipline.frame m.base (c.function.params ++ names))
    (hargs : ∀ v ∈ args, v.holdsFunction = false) :
    m.Agrees (twinsOf u.names (u.hoisted m.target)) (m.opened c args)
      (merged c args (u.hoisted m.target)) := by
  obtain ⟨hdeclared, hplain⟩ := hframe
  have hunits := (u.hoisted_sublist m.target).subset
  have hdistinct : ((u.hoisted m.target).map (·.name)).Nodup :=
    h.covers.distinct.sublist ((u.hoisted_sublist m.target).map _)
  have hreserved {i : Nat} {name : String} (hname : u.names.name? i = some name) :
      m.IsReserved name :=
    h.covers.wellNamed.marked hname
  have hclear {name : String} (hname : name ∈ c.function.params) : ¬ m.IsReserved name := by
    obtain ⟨htarget, hmarked⟩ := hplain name (List.mem_append_left _ hname)
    exact fun hres => hres.elim htarget hmarked
  refine ⟨?_, ?_, fun {i} hi => ?_, fun {i name} hi hcontains => ?_,
    fun {i name} hi hcontains => ?_, fun {i name} hi hname => ?_,
    fun {d name} hd hname hreferenced => ?_, fun {i j} hij => ?_,
    match_twinsOf h.covers.wellNamed hdistinct⟩
  · rw [opened, Store.size_bindParams, Store.size_extend]
    exact Nat.lt_succ_self _
  · rw [size_merged, opened, Store.size_bindParams, Store.size_extend, frame, base]
    omega
  · rw [frame_opened, if_neg (Nat.ne_of_lt hi)]
  · obtain ⟨rfl, hmem⟩ := contains_opened hi hcontains
    rw [hdeclared]
    exact List.mem_append_left _ hmem
  · exact hclear (contains_opened hi hcontains).2
  · by_cases heq : i = m.base
    · subst heq
      have hne : ∀ unit ∈ u.hoisted m.target, unit.name ≠ name := by
        rintro unit hunit rfl
        obtain ⟨d, -, hd, -⟩ := h.covers.captured (hunits hunit)
        exact hname rfl (hreserved hd)
      rw [frame_opened, if_pos rfl, m.frame_base, find?_merged hne]
      cases hfind : (Bindings.empty.withParams .undefined c.function.params args).find? name with
      | none => exact .none
      | some v =>
        have hv := Bindings.forall_withParams (P := fun v => v.holdsFunction = false) rfl
          (fun _ _ hempty => by cases hempty) c.function.params hargs hfind
        exact .some (.self hv)
    · rw [frame_opened, if_neg heq, Store.frame_of_le hi, Store.frame_of_le]
      · exact .none
      · rw [size_merged, frame]
        omega
  · obtain ⟨unit, hunit, rfl⟩ | ⟨task, htask, -⟩ := h.covers.named (h.names ▸ hname)
    · obtain ⟨k, hk⟩ := List.mem_iff_getElem?.1
        (u.mem_hoisted (fun _ => h.last) hunit (h.names ▸ hreferenced))
      exact ⟨hreserved (h.names ▸ hname), _, find?_merged_unit hdistinct hk,
        h.mirrors_unit hunits hd hk (h.names ▸ hname)⟩
    · cases htask
  · obtain ⟨unit, hj, hi⟩ := hij
    obtain ⟨d, hd, hname, -⟩ := h.covers.captured (hunits (List.mem_of_getElem? hj))
    obtain rfl : d.identity = i := h.covers.wellNamed.injective hname hi
    rw [made_merged]
    refine ⟨?_, (List.getElem?_eq_some_iff.1 hj).1⟩
    rw [opened, Store.made_bindParams]
    exact h.sound.made (hd.held h.held)

theorem Starts.ends_body (h : m.Starts c u) {root : FunctionDeclaration ν}
    (hroot : u.units.getLast? = some root) (hargs : ∀ v ∈ args, v.holdsFunction = false)
    {call call' : Caller ν} {check : CallCheck ν} {patience : Nat}
    (hcalls : m.CallsFollow call call' check)
    (hobeys : Run.bodyObeys m.discipline call check patience c args m.store) (i : Nat)
    (name : Option String) :
    m.Ends m.Values (twinsOf u.names (u.hoisted m.target)) (m.opened c args)
      ((Run.body patience call c args).outcome m.store)
      ((Run.body patience call' ⟨i, name, ⟨root.function.params,
        (u.hoisted m.target).map Statement.ofDeclaration ++ root.function.body⟩, .global⟩
          args).outcome .initial) := by
  obtain ⟨hframe, -, hobeys⟩ := hobeys
  obtain ⟨hparams, hbody⟩ := h.capturedAs hroot
  have hagrees := h.agrees hframe hargs
  obtain ⟨hdeclared, hplain⟩ := hframe
  have hplaced : m.Placed c.environment (Locals.none.extend (m.declared m.base))
      (m.base :: c.environment) (1 :: Environment.global) := .root (h.hosts .refl)
  have howns : m.Owns (Statement.declaredNames c.function.body) (m.base :: c.environment) := by
    refine ⟨m.base, c.environment, rfl, Nat.le_refl _, fun name hname => ⟨?_, fun hres => ?_⟩⟩
    · rw [base, hdeclared]
      exact List.mem_append_right _ hname
    · have hclear := hplain name (List.mem_append_right _ hname)
      exact hres.elim hclear.1 hclear.2
  rw [← hdeclared] at hbody
  have hblock := hagrees.follows_block hcalls hplaced howns hbody
    (hobeys _ _ (Run.outcome_extend _ _) _ _ (Run.outcome_defineParams _ _ _ _ _))
  have hmerged {f : Completion ν → Run ν (Value ν)} :
      (Run.block patience call' (1 :: Environment.global)
        ((u.hoisted m.target).map Statement.ofDeclaration ++ root.function.body) >>= f).outcome
          (((Store.initial : Store ν).extend .global).2.bindParams 1 root.function.params args) =
        (Run.block patience call' (1 :: Environment.global) root.function.body >>= f).outcome
          (merged c args (u.hoisted m.target)) := by
    rw [Run.block, Run.block, bind_assoc, bind_assoc, Run.outcome_bind, Run.outcome_bind,
      Statement.outcome_hoist_units, Statement.executeAll_units, merged, hparams]
  rw [Run.body, Run.body, Run.outcome_bind, Run.outcome_bind, Run.outcome_extend,
    Run.outcome_extend]
  dsimp only
  rw [Run.outcome_bind, Run.outcome_bind, Run.outcome_defineParams, Run.outcome_defineParams]
  have hresult := Follows.result hblock
  unfold Follows at hresult
  rw [← hmerged] at hresult
  exact hresult

end

end Mirror

end Waveform
