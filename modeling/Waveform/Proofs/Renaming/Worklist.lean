import Mathlib.Algebra.Group.End
import Waveform.Proofs.Capture.Worklist
import Waveform.Proofs.Renaming.Closing

/-!
# The worklist under two names

The same closure, captured under two names. What a capture asks for does not depend on the names
that it gets, so the two runs of the worklist stay abreast: the same closures wait and the same
closures are captured. In the end the units of the second run are those of the first one with other
names, and a name that no unit goes by in either run is left alone.
-/

namespace Waveform

variable {ν : Type}

/-- Distinct names can be turned into other distinct names without any two becoming one. A name
that is none of them stays as it is. -/
theorem exists_perm {α : Type} (items : List α) (f g : α → String) (hf : (items.map f).Nodup)
    (hg : (items.map g).Nodup) :
    ∃ ρ : Equiv.Perm String, (∀ i ∈ items, ρ (f i) = g i) ∧
      ∀ name, (∀ i ∈ items, f i = name ↔ g i = name) → ρ name = name := by
  induction items with
  | nil => exact ⟨1, List.forall_mem_nil _, fun _ _ => rfl⟩
  | cons first rest ih =>
    rw [List.map_cons, List.nodup_cons] at hf hg
    obtain ⟨ρ, hρ, hkeep⟩ := ih hf.2 hg.2
    refine ⟨ρ.trans (Equiv.swap (ρ (f first)) (g first)), ?_, fun name hname => ?_⟩
    · intro i hi
      rw [Equiv.trans_apply]
      rcases List.mem_cons.1 hi with rfl | hi
      · exact Equiv.swap_apply_left _ _
      · rw [hρ i hi]
        refine Equiv.swap_apply_of_ne_of_ne (fun heq => hf.1 ?_) fun heq => hg.1 ?_
        · rw [← hρ i hi] at heq
          rw [← ρ.injective heq]
          exact List.mem_map_of_mem hi
        · rw [← heq]
          exact List.mem_map_of_mem hi
    · obtain ⟨hfirst, hrest⟩ := List.forall_mem_cons.1 hname
      have hsame := hkeep name hrest
      rw [Equiv.trans_apply, hsame]
      by_cases hg' : g first = name
      · rw [hfirst.2 hg', hsame, hg', Equiv.swap_self, Equiv.refl_apply]
      · refine Equiv.swap_apply_of_ne_of_ne (fun heq => hg' (hfirst.1 ?_)) fun heq => hg' heq.symm
        exact ρ.injective (heq ▸ hsame.symm ▸ rfl)

namespace ClosureNames

/-! ## Tables of names -/

theorem firstFree_congr {taken taken' : List String} {candidate : String}
    (h : ∀ number, taken.contains (numbered candidate number) =
      taken'.contains (numbered candidate number)) (tries number : Nat) :
    firstFree taken candidate tries number = firstFree taken' candidate tries number := by
  induction tries generalizing number with
  | zero => rfl
  | succ tries ih => rw [firstFree, firstFree, h, ih]

/-- Two tables that start with two names for one closure name the same closures. If neither of the
two is marked, they call all others alike. -/
structure Alike (first : Nat) (n n' : String) (names names' : ClosureNames) : Prop where
  isSome (i) : (names'.name? i).isSome = (names.name? i).isSome
  name? : ¬ IsMarked n → ¬ IsMarked n' → ∀ i ≠ first, names'.name? i = names.name? i
  taken : ¬ IsMarked n → ¬ IsMarked n' →
    ∃ others, names.taken = others ++ [n] ∧ names'.taken = others ++ [n']

variable {first : Nat} {n n' : String} {names names' : ClosureNames}

theorem alike_register (first : Nat) (n n' : String) :
    (empty.register first n).Alike first n n' (empty.register first n') where
  isSome i := by
    rw [name?_register, name?_register]
    split <;> rfl
  name? _ _ i hi := by rw [name?_register, name?_register, if_neg hi, if_neg hi]
  taken _ _ := ⟨[], rfl, rfl⟩

theorem Alike.freeName (h : names.Alike first n n' names') (hn : ¬ IsMarked n)
    (hn' : ¬ IsMarked n') {candidate : String} (hcandidate : IsMarked candidate) :
    names'.freeName candidate = names.freeName candidate := by
  obtain ⟨others, htaken, htaken'⟩ := h.taken hn hn'
  have hcontains {m : String} (hm : ¬ IsMarked m) (number : Nat) :
      (others ++ [m]).contains (numbered candidate number) =
        others.contains (numbered candidate number) := by
    have hne : numbered candidate number ≠ m := by
      rintro rfl
      exact hm (isMarked_numbered hcandidate number)
    simp [hne]
  rw [ClosureNames.freeName, ClosureNames.freeName, htaken, htaken', List.length_append,
    List.length_append]
  exact firstFree_congr (fun number => by rw [hcontains hn, hcontains hn']) _ _

theorem Alike.name?_eq_none (h : names.Alike first n n' names') {i : Nat} :
    names'.name? i = none ↔ names.name? i = none := by
  rw [← Option.not_isSome_iff_eq_none, ← Option.not_isSome_iff_eq_none, h.isSome]

theorem Alike.exists_name (h : names.Alike first n n' names') {i : Nat} {name : String}
    (hname : names.name? i = some name) : ∃ name', names'.name? i = some name' := by
  rw [← Option.isSome_iff_exists, h.isSome, hname]
  rfl

theorem Alike.resolve (h : names.Alike first n n' names') (closure : Nat) {candidate : String}
    (hcandidate : IsMarked candidate) :
    (names.resolve closure candidate).2.Alike first n n' (names'.resolve closure candidate).2 := by
  cases hname : names.name? closure with
  | some known =>
    obtain ⟨known', hname'⟩ := h.exists_name hname
    refine ⟨fun i => ?_, fun hn hn' i hi => ?_, ?_⟩
    · rw [name?_resolve_of_some _ hname, name?_resolve_of_some _ hname', h.isSome]
    · rw [name?_resolve_of_some _ hname, name?_resolve_of_some _ hname', h.name? hn hn' i hi]
    · rw [taken_resolve_of_some _ hname, taken_resolve_of_some _ hname']
      exact h.taken
  | none =>
    have hname' := h.name?_eq_none.2 hname
    refine ⟨fun i => ?_, fun hn hn' i hi => ?_, fun hn hn' => ?_⟩
    · rw [(resolve_of_none candidate hname).2, (resolve_of_none candidate hname').2]
      split
      · rfl
      · exact h.isSome i
    · rw [(resolve_of_none candidate hname).2, (resolve_of_none candidate hname').2,
        h.freeName hn hn' hcandidate, h.name? hn hn' i hi]
    · obtain ⟨others, htaken, htaken'⟩ := h.taken hn hn'
      refine ⟨names.freeName candidate :: others, ?_, ?_⟩
      · rw [taken_resolve_of_none _ hname, htaken, List.cons_append]
      · rw [taken_resolve_of_none _ hname', h.freeName hn hn' hcandidate, htaken',
          List.cons_append]

theorem Alike.after (h : names.Alike first n n' names') {requests : List (ClosureTask ν)}
    (hmarked : ∀ request ∈ requests, IsMarked request.name) :
    (names.after requests).Alike first n n' (names'.after requests) := by
  induction requests generalizing names names' with
  | nil => exact h
  | cons request rest ih =>
    obtain ⟨hrequest, hrest⟩ := List.forall_mem_cons.1 hmarked
    exact ih (h.resolve _ hrequest) hrest

theorem Alike.discovered (h : names.Alike first n n' names') {requests : List (ClosureTask ν)}
    (hmarked : ∀ request ∈ requests, IsMarked request.name) :
    (names'.discovered requests).map (·.closure) = (names.discovered requests).map (·.closure) := by
  induction requests generalizing names names' with
  | nil => rfl
  | cons request rest ih =>
    obtain ⟨hrequest, hrest⟩ := List.forall_mem_cons.1 hmarked
    have hdiscovered := ih (h.resolve request.closure.identity hrequest) hrest
    cases hname : names.name? request.closure.identity with
    | some known =>
      obtain ⟨known', hname'⟩ := h.exists_name hname
      rw [discovered_cons_of_some hname, discovered_cons_of_some hname', hdiscovered]
    | none =>
      have hname' := h.name?_eq_none.2 hname
      rw [discovered_cons_of_none hname, discovered_cons_of_none hname', List.map_cons,
        List.map_cons, hdiscovered]

theorem rename_quote {names names' : ClosureNames} {ρ : String → String}
    (hρ : ∀ i name, names.name? i = some name → names'.name? i = some (ρ name)) {v : Value ν}
    (hv : ∀ c, v.Holds c → ∃ name, names.name? c.identity = some name) :
    (names.quote v).rename ρ = names'.quote v := by
  induction v with
  | primitive l => rfl
  | builtin b => rfl
  | pair i head tail ihead itail =>
    have hhead := ihead fun c hc => hv c (.inl hc)
    have htail := itail fun c hc => hv c (.inr hc)
    simp only [quote, Expression.rename, Expression.renameAll, hhead, htail]
  | closure c =>
    obtain ⟨name, hname⟩ := hv c rfl
    rw [quote, quote, hname, hρ _ _ hname]
    rfl

end ClosureNames

/-! ## Two runs -/

namespace CapturedUnits

open Capturing

variable {store : Store ν} {hardcoded : List Builtin} {n n' : String} {c : Closure ν}

/-- The same closures wait and are captured in two runs. -/
structure Abreast (store : Store ν) (hardcoded : List Builtin) (n n' : String) (c : Closure ν)
    (waiting waiting' : List (ClosureTask ν)) (u u' : CapturedUnits ν)
    (captured : List (Closure ν)) : Prop where
  left : Progress store hardcoded n c waiting u captured
  right : Progress store hardcoded n' c waiting' u' captured
  waits : waiting'.map (·.closure) = waiting.map (·.closure)
  names : u.names.Alike c.identity n n' u'.names
  readable {d} : d ∈ captured → Readable store d.environment hardcoded d.function.free

theorem abreast_start (store : Store ν) (hardcoded : List Builtin) (n n' : String)
    (c : Closure ν) :
    Abreast store hardcoded n n' c [⟨n, c⟩] [⟨n', c⟩] (.start n c) (.start n' c) [] :=
  ⟨.start .., .start .., rfl, ClosureNames.alike_register ..,
    fun hd => (List.not_mem_nil hd).elim⟩

theorem collect_of_error {root : String} {steps : Nat} {task : ClosureTask ν}
    {waiting : List (ClosureTask ν)} {u : CapturedUnits ν} {e : SpecializationError ν}
    (hcontains : u.contains task.name = false)
    (hcapture : (task.capture store ("c" ++ toString u.units.length) hardcoded u.names).1 =
      .error e) :
    collect store hardcoded root (steps + 1) (task :: waiting) u = .error e := by
  simp only [collect, hcontains, Bool.false_eq_true, if_false]
  rcases hresult : task.capture store ("c" ++ toString u.units.length) hardcoded u.names with
    ⟨result, names⟩
  rw [hresult] at hcapture
  obtain rfl : result = .error e := hcapture
  rfl

theorem collect_of_ok {root : String} {steps : Nat} {task : ClosureTask ν}
    {waiting found : List (ClosureTask ν)} {u : CapturedUnits ν} {unit : FunctionDeclaration ν}
    {names : ClosureNames} (hcontains : u.contains task.name = false)
    (hcapture : task.capture store ("c" ++ toString u.units.length) hardcoded u.names =
      (.ok (unit, found), names)) :
    collect store hardcoded root (steps + 1) (task :: waiting) u =
      collect store hardcoded root steps (found.reverse ++ waiting) ⟨unit :: u.units, names⟩ := by
  simp only [collect, hcontains, Bool.false_eq_true, if_false, hcapture]

/-- Both runs fail, or both end with the same closures captured. -/
theorem Abreast.collect {waiting waiting' : List (ClosureTask ν)} {u u' : CapturedUnits ν}
    {captured : List (Closure ν)}
    (h : Abreast store hardcoded n n' c waiting waiting' u u' captured) (steps : Nat) :
    (∃ e e', CapturedUnits.collect store hardcoded n steps waiting u = .error e ∧
        CapturedUnits.collect store hardcoded n' steps waiting' u' = .error e') ∨
      ∃ v v' captured', CapturedUnits.collect store hardcoded n steps waiting u = .ok v ∧
        CapturedUnits.collect store hardcoded n' steps waiting' u' = .ok v' ∧
        Abreast store hardcoded n n' c [] [] v v' captured' := by
  induction steps generalizing waiting waiting' u u' captured with
  | zero =>
    cases waiting with
    | nil =>
      obtain rfl := List.map_eq_nil_iff.1 h.waits
      exact .inr ⟨u, u', captured, rfl, rfl, h⟩
    | cons task rest =>
      obtain ⟨task', rest', rfl, -, -⟩ := List.map_eq_cons_iff.1 h.waits
      exact .inl ⟨_, _, rfl, rfl⟩
  | succ steps ih =>
    cases waiting with
    | nil =>
      obtain rfl := List.map_eq_nil_iff.1 h.waits
      exact .inr ⟨u, u', captured, rfl, rfl, h⟩
    | cons task rest =>
      obtain ⟨name, d⟩ := task
      obtain ⟨⟨name', d'⟩, rest', rfl, hclosure, hrest⟩ := List.map_eq_cons_iff.1 h.waits
      obtain rfl : d' = d := hclosure
      have hcontains := h.left.contains_eq_false
      have hcontains' := h.right.contains_eq_false
      have hpath : u'.units.length = u.units.length :=
        h.right.units.length_eq.symm.trans h.left.units.length_eq
      rcases d'.capture_outcome store hardcoded ("c" ++ toString u.units.length) with
        ⟨e, -, hfails⟩ | ⟨requests, hread, -, hmarked, hgives⟩
      · have hfails' := hfails name' u'.names
        rw [← hpath] at hfails'
        exact .inl ⟨e, e, collect_of_error hcontains (hfails name u.names),
          collect_of_error hcontains' hfails'⟩
      · have hcapture := hgives name u.names _ (.refl _)
        have hcapture' := hgives name' u'.names _ (.refl _)
        rw [← hpath] at hcapture'
        rw [collect_of_ok hcontains hcapture, collect_of_ok hcontains' hcapture']
        refine ih ⟨h.left.take hcapture, h.right.take hcapture', ?_, h.names.after hmarked,
          fun {e} he => ?_⟩
        · rw [List.map_append, List.map_append, List.map_reverse, List.map_reverse, hrest,
            h.names.discovered hmarked]
        · rcases List.mem_cons.1 he with rfl | he
          · exact hread
          · exact h.readable he

/-! ## Units under two names -/

theorem map_name_units {names : ClosureNames} {captured : List (Closure ν)}
    {units : List (FunctionDeclaration ν)}
    (h : List.Forall₂ (IsUnitOf store hardcoded names) captured units) :
    units.map (·.name) = captured.map fun d => (names.name? d.identity).getD "" := by
  induction h with
  | nil => rfl
  | cons hunit _ ih => rw [List.map_cons, List.map_cons, ih, hunit.name, Option.getD_some]

/-- A name that is neither of the two. If one of them is marked, it could be that of some other
closure in one run only, so then the name is not marked either. -/
structure Apart (n n' name : String) : Prop where
  ne : name ≠ n
  ne' : name ≠ n'
  plain : ClosureNames.IsMarked name → ¬ ClosureNames.IsMarked n ∧ ¬ ClosureNames.IsMarked n'

/-- Names are turned into others as the second run calls closures what the first one calls them,
and else are left alone. -/
structure Translates (n n' : String) (names names' : ClosureNames) (ρ : String → String) :
    Prop where
  injective : Function.Injective ρ
  name? {i name} : names.name? i = some name → names'.name? i = some (ρ name)
  apart {name} : Apart n n' name → ρ name = name

theorem Abreast.exists_translates {u u' : CapturedUnits ν} {captured : List (Closure ν)}
    (h : Abreast store hardcoded n n' c [] [] u u' captured) :
    ∃ ρ, Translates n n' u.names u'.names ρ := by
  obtain ⟨ρ, hρ, hkeep⟩ := exists_perm captured (fun d => (u.names.name? d.identity).getD "")
    (fun d => (u'.names.name? d.identity).getD "")
    (map_name_units h.left.units ▸ h.left.distinct)
    (map_name_units h.right.units ▸ h.right.distinct)
  refine ⟨ρ, ρ.injective, fun {i name} hname => ?_, fun {name} hname => hkeep name fun d hd => ?_⟩
  · obtain ⟨d, hd, rfl⟩ := h.left.named hname
    obtain ⟨name', hname'⟩ := h.names.exists_name hname
    have htranslated := hρ d hd
    simp only [hname, hname', Option.getD_some] at htranslated
    rw [hname', htranslated]
  · obtain ⟨known, hknown⟩ := h.left.exists_name hd
    obtain ⟨known', hknown'⟩ := h.names.exists_name hknown
    simp only [hknown, hknown', Option.getD_some]
    by_cases hfirst : d.identity = c.identity
    · have hn : n = known := Option.some.inj (h.left.root.symm.trans (hfirst ▸ hknown))
      have hn' : n' = known' := Option.some.inj (h.right.root.symm.trans (hfirst ▸ hknown'))
      rw [← hn, ← hn']
      exact iff_of_false hname.ne.symm hname.ne'.symm
    · by_cases hmarked : ClosureNames.IsMarked name
      · obtain ⟨hn, hn'⟩ := hname.plain hmarked
        have hsame := h.names.name? hn hn' _ hfirst
        rw [hknown, hknown', Option.some.injEq] at hsame
        rw [hsame]
      · -- the closure goes by one of the two names, or by a marked one
        have hother {m m' : String} {names : ClosureNames} (hnames : names.WellNamed m)
            (hm : names.name? d.identity = some m') (hne : name ≠ m) : m' ≠ name := by
          rintro rfl
          exact (hnames.marked hm).elim hne hmarked
        exact iff_of_false (hother h.left.wellNamed hknown hname.ne)
          (hother h.right.wellNamed hknown' hname.ne')

variable {u u' : CapturedUnits ν} {captured : List (Closure ν)} {ρ : String → String}

/-- The unit of a closure in the second run is that of the first run with other names. -/
theorem IsUnitOf.rename {names names' : ClosureNames} {d : Closure ν}
    {unit unit' : FunctionDeclaration ν} (hρ : Translates n n' names names' ρ)
    (h : IsUnitOf store hardcoded names d unit) (h' : IsUnitOf store hardcoded names' d unit')
    (hreadable : Readable store d.environment hardcoded d.function.free)
    (hown : ∀ name ∈ d.function.binders, Apart n n' name) : unit' = unit.rename ρ := by
  have hname : unit'.name = ρ unit.name :=
    Option.some.inj (h'.name.symm.trans (hρ.name? h.name))
  have hfunction : unit.function.rename ρ = unit'.function := by
    rw [h.function (.refl _), h'.function (.refl _)]
    refine Function.rename_close (fun name hname => hρ.apart (hown name hname)) fun o ho => ?_
    obtain ⟨name, v, rfl, hv⟩ := hreadable o ho
    have hnamed : ∀ e, v.Holds e → ∃ name, names.name? e.identity = some name := fun e he =>
      h.named ((store.mem_referents hardcoded).2 ⟨name, ho, v, hv, he⟩)
    simp only [Occurrence.IsRenamedBy, Store.capturedAs, hv, Option.map_some, Option.getD_some]
    exact ClosureNames.rename_quote (fun _ _ => hρ.name?) hnamed
  obtain ⟨name', function'⟩ := unit'
  obtain rfl : name' = ρ unit.name := hname
  obtain rfl : unit.function.rename ρ = function' := hfunction
  rfl

theorem Abreast.units (h : Abreast store hardcoded n n' c [] [] u u' captured)
    (hρ : Translates n n' u.names u'.names ρ)
    (hown : ∀ d ∈ captured, ∀ name ∈ d.function.binders, Apart n n' name) :
    u'.units = u.units.map (FunctionDeclaration.rename ρ) := by
  have hunits := h.left.units
  have hunits' := h.right.units
  have hreadable := fun d => h.readable (d := d)
  clear h
  generalize u.units = units at hunits ⊢
  generalize u'.units = units' at hunits' ⊢
  induction hunits generalizing units' with
  | nil =>
    cases hunits'
    rfl
  | @cons d unit captured units hunit hrest ih =>
    obtain _ | ⟨hunit', hrest'⟩ := hunits'
    have hrest := ih (fun e he => hown e (.tail d he)) (fun e he => hreadable e (.tail d he)) _
      hrest'
    have hfirst := hunit.rename hρ hunit' (hreadable d (.head _)) (hown d (.head _))
    rw [hfirst, hrest, List.map_cons]

theorem Abreast.isReferenced (h : Abreast store hardcoded n n' c [] [] u u' captured)
    (hρ : Translates n n' u.names u'.names ρ) :
    u'.names.isReferenced n' = u.names.isReferenced n := by
  have hn : ρ n = n' := Option.some.inj ((hρ.name? h.left.root).symm.trans h.right.root)
  rw [Bool.eq_iff_iff, h.right.referenced, h.left.referenced]
  refine exists_congr fun d => and_congr_right fun hd => exists_congr fun e =>
    and_congr_right fun he => ⟨fun hname' => ?_, fun hname => hn ▸ hρ.name? hname⟩
  obtain ⟨unit, -, hunit⟩ := exists_unit h.left.units hd
  obtain ⟨name, hname⟩ := hunit.named he
  have hsame : ρ name = ρ n := by
    rw [hn]
    exact Option.some.inj ((hρ.name? hname).symm.trans hname')
  rw [hname, hρ.injective hsame]

/-- The units of both runs are merged into one function, up to the names of closures. -/
theorem exists_merge_rename {n n' : String} (hu : ofClosure store hardcoded n c = .ok u)
    (hu' : ofClosure store hardcoded n' c = .ok u')
    (h : Abreast store hardcoded n n' c [] [] u u' captured)
    (hρ : Translates n n' u.names u'.names ρ)
    (hown : ∀ d ∈ captured, ∀ name ∈ d.function.binders, Apart n n' name) :
    ∃ merged, u.merge n = .ok merged ∧ u'.merge n' = .ok (merged.rename ρ) := by
  obtain ⟨root, hroot, -, hmerge⟩ := exists_merge hu
  obtain ⟨root', hroot', -, hmerge'⟩ := exists_merge hu'
  have hunits := h.units hρ hown
  have hhoisted : u'.hoisted n' = (u.hoisted n).map (FunctionDeclaration.rename ρ) := by
    rw [hoisted, hoisted, h.isReferenced hρ, hunits]
    split
    · rfl
    · exact List.map_dropLast.symm
  obtain rfl : root' = root.rename ρ := by
    rw [hunits, List.getLast?_map, hroot] at hroot'
    exact (Option.some.inj hroot').symm
  refine ⟨_, hmerge, ?_⟩
  rw [hmerge', hhoisted, Function.rename, Statement.renameAll_append,
    Statement.renameAll_ofDeclaration]
  rfl

end CapturedUnits

end Waveform
