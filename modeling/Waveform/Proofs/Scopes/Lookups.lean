import Waveform.Proofs.Inlining.Correspondence
import Waveform.Proofs.Scopes.Histories

/-!
# Laws of lookups

What a name stands for where it is read or written is decided by the nearest frame that binds it
and by the closures that are left on the way there. Writing a variable changes what the name stands
for in those places from which the frame of the variable is the nearest, and nothing else.
-/

namespace Waveform

variable {ν : Type}

namespace Scopes

variable {σ τ : Scopes ν} {name : String}

/-- The nearest frame that binds the name, with what it binds it to and the frames that are left on
the way to it. -/
structure Owner (σ : Scopes ν) (name : String) (i : Nat) (left : List Nat) (j : Nat)
    (b : Scope.Binding ν) : Prop where
  way : σ.Way i left j
  unbound : ∀ k ∈ left, (σ.frame k).bindings.find? name = none
  bound : (σ.frame j).bindings.find? name = some b

/-- A closure is left without finding the name. -/
structure Escapes (σ : Scopes ν) (name : String) (i : Nat) (left : List Nat) (c : Nat) :
    Prop where
  way : σ.Way i left c
  unbound : ∀ k ∈ left, (σ.frame k).bindings.find? name = none
  missed : (σ.frame c).bindings.find? name = none
  closure : (σ.frame c).kind = .closure

/-! ## Reading -/

theorem findIn?_eq_none_iff {js : List Nat} :
    σ.findIn? name js = none ↔ ∀ j ∈ js, (σ.frame j).bindings.find? name = none := by
  induction js with
  | nil => simp [findIn?]
  | cons j js ih =>
    rw [findIn?, List.forall_mem_cons]
    cases hj : (σ.frame j).bindings.find? name with
    | some b => simp
    | none => simpa using ih

theorem lookup?_eq (σ : Scopes ν) (i : Nat) (name : String) :
    σ.lookup? i name = (σ.findIn? name (σ.chain i)).or
      ((σ.hardcoded.find? (·.globalName == name)).map fun b => (i, .hardcoded (.builtin b))) := by
  rw [lookup?, chain]
  cases σ.findIn? name (i :: (σ.frame i).outer) <;> rfl

theorem Nested.findIn?_of_owner (h : σ.Nested) {i j : Nat} {left : List Nat}
    {b : Scope.Binding ν} (howner : σ.Owner name i left j b) :
    σ.findIn? name (σ.chain i) = some (j, b) := by
  rw [h.chain_eq howner.way, findIn?_append, findIn?_eq_none_iff.2 howner.unbound, Option.none_or,
    chain, findIn?, howner.bound]

theorem Nested.exists_owner (h : σ.Nested) {i j : Nat} {b : Scope.Binding ν}
    (hfind : σ.findIn? name (σ.chain i) = some (j, b)) : ∃ left, σ.Owner name i left j b := by
  induction i using Nat.strongRecOn with
  | ind i ih =>
    rw [chain, findIn?] at hfind
    cases hi : (σ.frame i).bindings.find? name with
    | some c =>
      rw [hi, Option.some.injEq, Prod.mk.injEq] at hfind
      obtain ⟨rfl, rfl⟩ := hfind
      exact ⟨[], .here i, List.forall_mem_nil _, hi⟩
    | none =>
      rw [hi] at hfind
      cases hp : σ.parent? i with
      | none =>
        rw [List.head?_eq_none_iff.1 hp] at hfind
        cases hfind
      | some p =>
        rw [h.outer hp] at hfind
        obtain ⟨left, howner⟩ := ih p (h.parent_lt hp) hfind
        exact ⟨i :: left, .out hp howner.way, List.forall_mem_cons.2 ⟨hi, howner.unbound⟩,
          howner.bound⟩

theorem Nested.findIn?_of_no_owner (h : σ.Nested) {i : Nat}
    (hnone : ∀ left j b, ¬ σ.Owner name i left j b) : σ.findIn? name (σ.chain i) = none := by
  cases hfind : σ.findIn? name (σ.chain i) with
  | none => rfl
  | some found =>
    obtain ⟨left, howner⟩ := h.exists_owner hfind
    exact absurd howner (hnone left _ _)

/-! ## Writing -/

theorem findForWriteIn?_congr {js : List Nat}
    (h : ∀ j ∈ js, (τ.frame j).bindings.find? name = (σ.frame j).bindings.find? name ∧
      (τ.frame j).kind = (σ.frame j).kind) :
    τ.findForWriteIn? name js = σ.findForWriteIn? name js := by
  induction js with
  | nil => rfl
  | cons j js ih =>
    have hj := h j (List.mem_cons_self ..)
    have hjs := ih fun k hk => h k (List.mem_cons_of_mem _ hk)
    simp only [findForWriteIn?, hj.1, hj.2, hjs]

theorem findForWriteIn?_append {left : List Nat}
    (hunbound : ∀ k ∈ left, (σ.frame k).bindings.find? name = none) (js : List Nat) :
    σ.findForWriteIn? name (left ++ js) =
      if ∃ k ∈ left, (σ.frame k).kind = .closure then .error (.impure name)
      else σ.findForWriteIn? name js := by
  induction left with
  | nil => simp
  | cons k left ih =>
    obtain ⟨hk, hleft⟩ := List.forall_mem_cons.1 hunbound
    rw [List.cons_append, findForWriteIn?, hk, ih hleft]
    by_cases hkind : (σ.frame k).kind = .closure
    · simp [hkind, throw, throwThe, MonadExceptOf.throw]
    · simp [hkind]

namespace Nested

variable (h : σ.Nested) {i j : Nat} {left : List Nat} {b : Scope.Binding ν}

include h

theorem lookupForWrite?_of_owner (howner : σ.Owner name i left j b) :
    σ.lookupForWrite? i name =
      if ∃ k ∈ left, (σ.frame k).kind = .closure then .error (.impure name)
      else .ok (some (j, b)) := by
  change σ.findForWriteIn? name (σ.chain i) = _
  rw [h.chain_eq howner.way, findForWriteIn?_append howner.unbound, chain, findForWriteIn?,
    howner.bound]
  rfl

theorem lookupForWrite?_of_escapes {c : Nat} (hescapes : σ.Escapes name i left c) :
    σ.lookupForWrite? i name = .error (.impure name) := by
  have hunbound : ∀ k ∈ left ++ [c], (σ.frame k).bindings.find? name = none := by
    simpa [or_imp, forall_and] using And.intro hescapes.unbound hescapes.missed
  have hclosure : ∃ k ∈ left ++ [c], (σ.frame k).kind = .closure :=
    ⟨c, List.mem_append_right _ (List.mem_singleton_self c), hescapes.closure⟩
  change σ.findForWriteIn? name (σ.chain i) = _
  rw [h.chain_eq hescapes.way, chain, List.append_cons, findForWriteIn?_append hunbound,
    if_pos hclosure]

omit h in
theorem exists_escapes {c : Nat} {before : List Nat} (hway : σ.Way i before j)
    (hunbound : ∀ k ∈ before, (σ.frame k).bindings.find? name = none) (hc : c ∈ before)
    (hclosure : (σ.frame c).kind = .closure) : ∃ left, σ.Escapes name i left c := by
  induction hway with
  | here i => cases hc
  | @out i p j before hp hway ih =>
    obtain ⟨hi, hbefore⟩ := List.forall_mem_cons.1 hunbound
    rcases List.mem_cons.1 hc with rfl | hc
    · exact ⟨[], .here c, List.forall_mem_nil _, hi, hclosure⟩
    · obtain ⟨left, hescapes⟩ := ih hbefore hc
      exact ⟨i :: left, .out hp hescapes.way, List.forall_mem_cons.2 ⟨hi, hescapes.unbound⟩,
        hescapes.missed, hclosure⟩

theorem lookupForWrite?_of_absent
    (howner : ∀ left j b, σ.Owner name i left j b → ∃ k ∈ left, (σ.frame k).kind = .closure)
    (hescapes : ∀ left c, ¬ σ.Escapes name i left c) : σ.lookupForWrite? i name = .ok none := by
  have hnone : ∀ left j b, ¬ σ.Owner name i left j b := fun left j b hbound => by
    obtain ⟨c, hc, hclosure⟩ := howner left j b hbound
    obtain ⟨before, hleft⟩ := exists_escapes hbound.way hbound.unbound hc hclosure
    exact hescapes before c hleft
  -- nothing is around the last frame, but it is left as the others are
  obtain ⟨before, last, hway, hlast, -⟩ := h.exists_outermost i
  have hchain : σ.chain i = before ++ [last] := by
    rw [h.chain_eq hway, chain_of_outermost hlast]
  have hunbound : ∀ k ∈ before ++ [last], (σ.frame k).bindings.find? name = none :=
    hchain ▸ findIn?_eq_none_iff.1 (h.findIn?_of_no_owner hnone)
  obtain ⟨hbefore, hmissed⟩ := List.forall_mem_append.1 hunbound
  have hclosures : ¬ ∃ k ∈ before ++ [last], (σ.frame k).kind = .closure := by
    rintro ⟨c, hc, hclosure⟩
    rcases List.mem_append.1 hc with hc | hc
    · obtain ⟨left, hleft⟩ := exists_escapes hway hbefore hc hclosure
      exact hescapes left c hleft
    · obtain rfl := List.mem_singleton.1 hc
      exact hescapes before c ⟨hway, hbefore, hmissed c hc, hclosure⟩
  change σ.findForWriteIn? name (σ.chain i) = _
  rw [hchain, ← List.append_nil (before ++ [last]), findForWriteIn?_append hunbound,
    if_neg hclosures]
  rfl

theorem owner_of_lookupForWrite? (hfind : σ.lookupForWrite? i name = .ok (some (j, b))) :
    ∃ left, σ.Owner name i left j b :=
  h.exists_owner (findIn?_of_findForWriteIn? hfind)

end Nested

/-! ## Assignments -/

section Assignments

variable {f : Nat}

/-- A variable of the frame is given a new value. -/
structure Rewrites (σ : Scopes ν) (f : Nat) (name : String) (value : Expression ν)
    (τ : Scopes ν) : Prop where
  read (i : Nat) : τ.lookup? i name = some (f, .mutable value) ↔ ∃ left b, σ.Owner name i left f b
  write {i : Nat} {left : List Nat} {b : Scope.Binding ν} : σ.Owner name i left f b →
    τ.lookupForWrite? i name =
      (σ.lookupForWrite? i name).map fun _ => some (f, .mutable value)
  elsewhere {i : Nat} : (∀ left b, ¬ σ.Owner name i left f b) →
    τ.lookup? i name = σ.lookup? i name ∧ τ.lookupForWrite? i name = σ.lookupForWrite? i name
  others {other : String} (i : Nat) : other ≠ name →
    τ.lookup? i other = σ.lookup? i other ∧ τ.lookupForWrite? i other = σ.lookupForWrite? i other

def renew (f : Nat) (b : Scope.Binding ν) (found : Nat × Scope.Binding ν) :
    Nat × Scope.Binding ν :=
  if found.1 = f then (f, b) else found

theorem fst_renew (f : Nat) (b : Scope.Binding ν) (found : Nat × Scope.Binding ν) :
    (renew f b found).1 = found.1 := by
  rw [renew]
  split
  · next hfound => exact hfound.symm
  · rfl

theorem renew_of_ne {b : Scope.Binding ν} {found : Nat × Scope.Binding ν} (hne : found.1 ≠ f) :
    renew f b found = found :=
  if_neg hne

theorem findIn?_define_of_bound {b c : Scope.Binding ν}
    (hbound : (σ.frame f).bindings.find? name = some c) (js : List Nat) :
    (σ.define f name b).findIn? name js = (σ.findIn? name js).map (renew f b) := by
  induction js with
  | nil => rfl
  | cons j js ih =>
    rw [findIn?, findIn?, ih, Reading.frame_define]
    by_cases hj : j = f
    · subst hj
      rw [if_pos ⟨rfl, lt_size_of_find? hbound, rfl⟩, hbound]
      simp [renew]
    · rw [if_neg fun hself => hj hself.1]
      cases (σ.frame j).bindings.find? name <;> simp [renew, hj]

theorem findForWriteIn?_define_of_bound {b c : Scope.Binding ν}
    (hbound : (σ.frame f).bindings.find? name = some c) (js : List Nat) :
    (σ.define f name b).findForWriteIn? name js =
      (σ.findForWriteIn? name js).map (Option.map (renew f b)) := by
  induction js with
  | nil => rfl
  | cons j js ih =>
    rw [findForWriteIn?, findForWriteIn?, ih, Reading.frame_define, kind_define]
    by_cases hj : j = f
    · subst hj
      rw [if_pos ⟨rfl, lt_size_of_find? hbound, rfl⟩, hbound]
      simp [renew, pure, Except.pure, Except.map]
    · rw [if_neg fun hself => hj hself.1]
      cases (σ.frame j).bindings.find? name with
      | some c => simp [renew, hj, pure, Except.pure, Except.map]
      | none =>
        dsimp only
        split
        · rfl
        · rfl

/-- What the name stands for where the frame that binds it is given another binding. -/
theorem lookups_define_of_bound {b c : Scope.Binding ν}
    (hbound : (σ.frame f).bindings.find? name = some c) (i : Nat) :
    (σ.define f name b).lookup? i name = ((σ.findIn? name (σ.chain i)).map (renew f b)).or
        ((σ.hardcoded.find? (·.globalName == name)).map fun b => (i, .hardcoded (.builtin b))) ∧
      (σ.define f name b).lookupForWrite? i name =
        (σ.lookupForWrite? i name).map (Option.map (renew f b)) := by
  constructor
  · rw [lookup?_eq, chain, outer_define, findIn?_define_of_bound hbound]
    rfl
  · rw [lookupForWrite?, outer_define, findForWriteIn?_define_of_bound hbound]
    rfl

theorem lookups_define_of_ne (σ : Scopes ν) (f i : Nat) (b : Scope.Binding ν) {other : String}
    (hne : other ≠ name) :
    (σ.define f name b).lookup? i other = σ.lookup? i other ∧
      (σ.define f name b).lookupForWrite? i other = σ.lookupForWrite? i other := by
  have hframe (j : Nat) : ((σ.define f name b).frame j).bindings.find? other =
      (σ.frame j).bindings.find? other := by
    rw [Reading.frame_define, if_neg fun hsame => hne hsame.2.2]
  constructor
  · rw [lookup?_eq, lookup?_eq, chain, chain, outer_define, findIn?_congr fun j _ => hframe j]
    rfl
  · rw [lookupForWrite?, lookupForWrite?, outer_define,
      findForWriteIn?_congr fun j _ => ⟨hframe j, kind_define σ f j name b⟩]

theorem Nested.renew_of_no_owner (h : σ.Nested) {i : Nat} {b : Scope.Binding ν}
    (hnone : ∀ left b, ¬ σ.Owner name i left f b) {found : Nat × Scope.Binding ν}
    (hfind : σ.findIn? name (σ.chain i) = some found) : renew f b found = found := by
  refine renew_of_ne fun hsame => ?_
  obtain ⟨left, howner⟩ := h.exists_owner hfind
  exact hnone left found.2 (hsame ▸ howner)

section

variable (h : σ.Nested) {current : Expression ν}
  (hbound : (σ.frame f).bindings.find? name = some (.mutable current))

include h hbound

theorem Nested.lookup?_define_iff (value : Expression ν) (i : Nat) :
    (σ.define f name (.mutable value)).lookup? i name = some (f, .mutable value) ↔
      ∃ left b, σ.Owner name i left f b := by
  rw [(lookups_define_of_bound hbound i).1]
  constructor
  · intro hfound
    cases hfind : σ.findIn? name (σ.chain i) with
    | none => simp [hfind] at hfound
    | some found =>
      rw [hfind, Option.map_some, Option.some_or, Option.some.injEq] at hfound
      obtain ⟨left, howner⟩ := h.exists_owner hfind
      have hsame : found.1 = f := by rw [← fst_renew, hfound]
      exact ⟨left, found.2, hsame ▸ howner⟩
  · rintro ⟨left, b, howner⟩
    rw [h.findIn?_of_owner howner]
    simp [renew]

theorem Nested.lookupForWrite?_define_of_owner (value : Expression ν) {i : Nat} {left : List Nat}
    {b : Scope.Binding ν} (howner : σ.Owner name i left f b) :
    (σ.define f name (.mutable value)).lookupForWrite? i name =
      (σ.lookupForWrite? i name).map fun _ => some (f, .mutable value) := by
  rw [(lookups_define_of_bound hbound i).2, h.lookupForWrite?_of_owner howner]
  split <;> simp [renew, Except.map]

theorem Nested.lookups_define_of_no_owner (value : Expression ν) {i : Nat}
    (hnone : ∀ left b, ¬ σ.Owner name i left f b) :
    (σ.define f name (.mutable value)).lookup? i name = σ.lookup? i name ∧
      (σ.define f name (.mutable value)).lookupForWrite? i name =
        σ.lookupForWrite? i name := by
  constructor
  · rw [(lookups_define_of_bound hbound i).1, lookup?_eq]
    cases hfind : σ.findIn? name (σ.chain i) with
    | none => rfl
    | some found => rw [Option.map_some, h.renew_of_no_owner hnone hfind]
  · rw [(lookups_define_of_bound hbound i).2]
    cases hfind : σ.lookupForWrite? i name with
    | error e => rfl
    | ok found =>
      cases found with
      | none => rfl
      | some found =>
        rw [Except.map, Option.map_some,
          h.renew_of_no_owner hnone (findIn?_of_findForWriteIn? hfind)]

theorem Nested.rewrites (value : Expression ν) :
    σ.Rewrites f name value (σ.define f name (.mutable value)) where
  read := h.lookup?_define_iff hbound value
  write := h.lookupForWrite?_define_of_owner hbound value
  elsewhere := h.lookups_define_of_no_owner hbound value
  others i hother := lookups_define_of_ne σ f i _ hother

end

theorem Nested.assign (h : σ.Nested) (f : Nat) (name : String) (value : Expression ν) :
    ((¬ ∃ current, (σ.frame f).bindings.find? name = some (.mutable current)) ∧
      ∃ e, σ.assign f name value = .error e) ∨
      ∃ τ, σ.assign f name value = .ok τ ∧ σ.Rewrites f name value τ := by
  cases hassign : σ.assign f name value with
  | error e =>
    refine .inl ⟨fun hbound => ?_, e, rfl⟩
    rw [assign_eq_ok.2 ⟨hbound, rfl⟩] at hassign
    cases hassign
  | ok τ =>
    obtain ⟨⟨current, hbound⟩, rfl⟩ := assign_eq_ok.1 hassign
    exact .inr ⟨_, rfl, h.rewrites hbound value⟩

end Assignments

/-! ## All frames that there can be -/

/-- The laws of frames, for all of them and all names. -/
structure Lawful (σ : Scopes ν) : Prop where
  parent_lt {i p : Nat} : σ.parent? i = some p → p < i
  /-- The way out of a frame is finite, and a lookup takes no other. -/
  ends (i : Nat) : ∃ left last, σ.Way i left last ∧ σ.parent? last = none ∧
    σ.chain i = left ++ [last]
  read {name : String} {i j : Nat} {left : List Nat} {b : Scope.Binding ν} :
    σ.Owner name i left j b → σ.lookup? i name = some (j, b)
  helper {name : String} {i : Nat} : (∀ left j b, ¬ σ.Owner name i left j b) →
    σ.lookup? i name =
      (σ.hardcoded.find? (·.globalName == name)).map fun b => (i, .hardcoded (.builtin b))
  write {name : String} {i j : Nat} {left : List Nat} {b : Scope.Binding ν} :
    σ.Owner name i left j b → (∀ k ∈ left, (σ.frame k).kind ≠ .closure) →
      σ.lookupForWrite? i name = .ok (σ.lookup? i name)
  escape {name : String} {i c : Nat} {left : List Nat} : σ.Escapes name i left c →
    σ.lookupForWrite? i name = .error (.impure name)
  absent {name : String} {i : Nat} :
    (∀ left j b, σ.Owner name i left j b → ∃ k ∈ left, (σ.frame k).kind = .closure) →
      (∀ left c, ¬ σ.Escapes name i left c) → σ.lookupForWrite? i name = .ok none
  /-- A hardcoded builtin is never written. -/
  own {name : String} {i j : Nat} {b : Scope.Binding ν} :
    σ.lookupForWrite? i name = .ok (some (j, b)) → ∃ left, σ.Owner name i left j b
  assign (f : Nat) (name : String) (value : Expression ν) :
    ((¬ ∃ current, (σ.frame f).bindings.find? name = some (.mutable current)) ∧
      ∃ e, σ.assign f name value = .error e) ∨
      ∃ τ, σ.assign f name value = .ok τ ∧ σ.Rewrites f name value τ

/-- Frames obey these laws whatever has been done to them. -/
theorem Reached.scopes_lawful (h : σ.Reached) : σ.Lawful where
  parent_lt := h.nested.parent_lt
  ends i := by
    obtain ⟨left, last, hway, hlast, -⟩ := h.nested.exists_outermost i
    exact ⟨left, last, hway, hlast, by
      rw [h.nested.chain_eq hway, Nested.chain_of_outermost hlast]⟩
  read howner := by rw [lookup?_eq, h.nested.findIn?_of_owner howner, Option.some_or]
  helper hnone := by rw [lookup?_eq, h.nested.findIn?_of_no_owner hnone, Option.none_or]
  write howner hleft := by
    rw [h.nested.lookupForWrite?_of_owner howner, if_neg, lookup?_eq,
      h.nested.findIn?_of_owner howner, Option.some_or]
    rintro ⟨k, hk, hclosure⟩
    exact hleft k hk hclosure
  escape := h.nested.lookupForWrite?_of_escapes
  absent := h.nested.lookupForWrite?_of_absent
  own := h.nested.owner_of_lookupForWrite?
  assign := h.nested.assign

/-- A closure with a block in it, and a variable around the closure. -/
def aroundClosure : Scopes Float :=
  let around := ((empty []).root .function "c0").2.define 0 "n" (.mutable (.boolean true))
  ((around.child 0 .closure).2.child 1 .block).2

theorem aroundClosure_lawful :
    aroundClosure.Reached ∧ aroundClosure.Lawful ∧
      aroundClosure.lookup? 2 "n" = some (0, .mutable (.boolean true)) ∧
      aroundClosure.lookupForWrite? 2 "n" = .error (.impure "n") := by
  have hreached : aroundClosure.Reached := by
    refine .change (.change (.change (.root (.empty []) .function "c0") ?_)
      (.child (i := 0) ?_ .closure)) (.child (i := 1) ?_ .block)
    · exact .define (by decide) "n" _
    · decide
    · decide
  exact ⟨hreached, Reached.scopes_lawful hreached, rfl, rfl⟩

end Scopes

end Waveform
