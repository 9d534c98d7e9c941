import Waveform.Specialize.Residual

/-!
# Outcomes of inlining

What the steps of inlining do to the scopes. `bind_ok` takes a successful reduction apart. Scopes
only grow: `Scopes.Extends` says that the frames of one state are still there in another, around
the same frames, with whatever bindings they have by then.
-/

namespace Waveform

variable {ν : Type}

theorem exists_ok_of_isOk {ε α : Type} {r : Except ε α} (h : r.isOk = true) : ∃ a, r = .ok a := by
  cases r with
  | ok a => exact ⟨a, rfl⟩
  | error e => cases h

namespace Inlining

variable {α β : Type}

theorem bind_ok {x : Inlining ν α} {f : α → Inlining ν β} {σ σ' : Scopes ν} {b : β} :
    (x >>= f).run σ = .ok (b, σ') ↔
      ∃ a τ, x.run σ = .ok (a, τ) ∧ (f a).run τ = .ok (b, σ') := by
  rw [StateT.run_bind]
  change ((x.run σ).bind fun p => (f p.1).run p.2) = _ ↔ _
  rcases x.run σ with e | ⟨a, τ⟩
  · simp [Except.bind]
  · constructor
    · exact fun h => ⟨a, τ, rfl, h⟩
    · rintro ⟨_, _, ⟨⟩, h⟩
      exact h

theorem pure_ok {a b : α} {σ σ' : Scopes ν} :
    (pure a : Inlining ν α).run σ = .ok (b, σ') ↔ b = a ∧ σ' = σ := by
  change Except.ok (a, σ) = .ok (b, σ') ↔ _
  simp [eq_comm]

theorem throw_ok {e : SpecializationError ν} {b : α} {σ σ' : Scopes ν} :
    (throw e : Inlining ν α).run σ = .ok (b, σ') ↔ False := by
  change Except.error e = .ok (b, σ') ↔ _
  simp

theorem get_ok {b σ σ' : Scopes ν} :
    (get : Inlining ν (Scopes ν)).run σ = .ok (b, σ') ↔ b = σ ∧ σ' = σ := by
  change Except.ok (σ, σ) = .ok (b, σ') ↔ _
  simp [eq_comm]

theorem set_ok {τ σ σ' : Scopes ν} {u : PUnit} :
    (set τ : Inlining ν PUnit).run σ = .ok (u, σ') ↔ σ' = τ := by
  change Except.ok (_, τ) = .ok (u, σ') ↔ _
  simp [eq_comm]

theorem modify_ok {f : Scopes ν → Scopes ν} {σ σ' : Scopes ν} {u : PUnit} :
    (modify f : Inlining ν PUnit).run σ = .ok (u, σ') ↔ σ' = f σ := by
  change Except.ok (_, f σ) = .ok (u, σ') ↔ _
  simp [eq_comm]

theorem child_ok {i j : Nat} {kind : Scope.Kind} {σ σ' : Scopes ν} :
    (child i kind).run σ = .ok (j, σ') ↔ j = σ.size ∧ σ' = (σ.child i kind).2 := by
  change Except.ok ((σ.child i kind).1, (σ.child i kind).2) = .ok (j, σ') ↔ _
  rw [Except.ok.injEq, Prod.mk.injEq]
  exact and_congr eq_comm eq_comm

theorem lift_ok {x : Except (SpecializationError ν) α} {b : α} {σ σ' : Scopes ν} :
    (liftM x : Inlining ν α).run σ = .ok (b, σ') ↔ x = .ok b ∧ σ' = σ := by
  change (x.bind fun a => Except.ok (a, σ)) = .ok (b, σ') ↔ _
  rcases x with e | a
  · simp [Except.bind]
  · simp [Except.bind, eq_comm]

theorem branching_ok {floors : Floors} {inner : Floors → Inlining ν α} {b : α} {σ σ' : Scopes ν} :
    (branching floors inner).run σ = .ok (b, σ') ↔
      (inner { floors with branch := σ.size }).run σ = .ok (b, σ') := by
  rw [branching, bind_ok]
  constructor
  · rintro ⟨_, _, h, hi⟩
    obtain ⟨rfl, rfl⟩ := get_ok.1 h
    exact hi
  · exact fun h => ⟨σ, σ, rfl, h⟩

end Inlining

namespace Scopes

def chain (σ : Scopes ν) (i : Nat) : List Nat :=
  i :: (σ.frame i).outer

theorem frame_child_size (σ : Scopes ν) (i : Nat) (kind : Scope.Kind) :
    ((σ.child i kind).2.frame σ.size).bindings = .empty ∧
      ((σ.child i kind).2.frame σ.size).outer = σ.chain i := by
  simp [child, frame, size, chain]

theorem frame_of_le {σ : Scopes ν} {j : Nat} (h : σ.size ≤ j) :
    σ.frame j = ⟨.block, "", .empty, []⟩ := by
  simp [frame, Array.getD_eq_getD_getElem?, Array.getElem?_eq_none h]

theorem lt_size_of_find? {σ : Scopes ν} {i : Nat} {name : String} {b : Scope.Binding ν}
    (h : (σ.frame i).bindings.find? name = some b) : i < σ.size := by
  refine Nat.lt_of_not_le fun hle => ?_
  rw [frame_of_le hle] at h
  cases h

theorem frame_define_of_ne {σ : Scopes ν} {i j : Nat} (h : j ≠ i) (name : String)
    (b : Scope.Binding ν) : (σ.define i name b).frame j = σ.frame j := by
  have : ¬ i = j := fun e => h e.symm
  simp [define, frame, Array.getD_eq_getD_getElem?, Array.getElem?_modify, this]

theorem frame_define_self {σ : Scopes ν} {i : Nat} (h : i < σ.size) (name : String)
    (b : Scope.Binding ν) :
    (σ.define i name b).frame i =
      { σ.frame i with bindings := (σ.frame i).bindings.insert name b } := by
  unfold size at h
  simp [define, frame, Array.getD_eq_getD_getElem?, h, Array.getElem_modify]

theorem exists_frame_define (σ : Scopes ν) (i j : Nat) (name : String) (b : Scope.Binding ν) :
    ∃ bindings, (σ.define i name b).frame j = { σ.frame j with bindings } := by
  by_cases hj : j = i
  · subst hj
    by_cases hs : j < σ.size
    · exact ⟨_, frame_define_self hs name b⟩
    · refine ⟨.empty, ?_⟩
      rw [frame_of_le (by simpa using hs), frame_of_le (by simpa using hs)]
  · exact ⟨_, frame_define_of_ne hj name b⟩

@[simp] theorem outer_define (σ : Scopes ν) (i j : Nat) (name : String) (b : Scope.Binding ν) :
    ((σ.define i name b).frame j).outer = (σ.frame j).outer := by
  obtain ⟨bindings, hframe⟩ := exists_frame_define σ i j name b
  rw [hframe]

theorem kind_define (σ : Scopes ν) (i j : Nat) (name : String) (b : Scope.Binding ν) :
    ((σ.define i name b).frame j).kind = (σ.frame j).kind := by
  obtain ⟨bindings, hframe⟩ := exists_frame_define σ i j name b
  rw [hframe]

theorem path_define (σ : Scopes ν) (i j : Nat) (name : String) (b : Scope.Binding ν) :
    ((σ.define i name b).frame j).path = (σ.frame j).path := by
  obtain ⟨bindings, hframe⟩ := exists_frame_define σ i j name b
  rw [hframe]

theorem find?_child (σ : Scopes ν) (i : Nat) (kind : Scope.Kind) (j : Nat) (name : String) :
    ((σ.child i kind).2.frame j).bindings.find? name = (σ.frame j).bindings.find? name := by
  rcases Nat.lt_trichotomy j σ.size with hold | rfl | hbeyond
  · rw [frame_child_of_lt _ _ _ _ hold]
  · rw [(frame_child_size σ i kind).1, frame_of_le (Nat.le_refl σ.size)]
  · rw [frame_of_le (by rw [size_child]; omega), frame_of_le (Nat.le_of_lt hbeyond)]

theorem find?_define {σ : Scopes ν} {i j : Nat} {name other : String} {b c : Scope.Binding ν}
    (h : ((σ.define i name b).frame j).bindings.find? other = some c) :
    j = i ∧ other = name ∧ c = b ∨ (σ.frame j).bindings.find? other = some c := by
  by_cases hj : j = i
  · subst hj
    by_cases hsize : j < σ.size
    · rw [frame_define_self hsize, Bindings.find?_insert] at h
      split at h
      · next heq => exact .inl ⟨rfl, heq, (Option.some.inj h).symm⟩
      · exact .inr h
    · rw [frame_of_le (by rw [size_define]; omega)] at h
      cases h
  · rw [frame_define_of_ne hj] at h
    exact .inr h

/-- The frames of the first state are frames of the second. -/
structure Extends (σ σ' : Scopes ν) : Prop where
  size_le : σ.size ≤ σ'.size
  outer : ∀ j < σ.size, (σ'.frame j).outer = (σ.frame j).outer
  hardcoded : σ'.hardcoded = σ.hardcoded

theorem Extends.refl (σ : Scopes ν) : σ.Extends σ :=
  ⟨Nat.le_refl _, fun _ _ => rfl, rfl⟩

theorem Extends.trans {σ τ υ : Scopes ν} (h : σ.Extends τ) (h' : τ.Extends υ) : σ.Extends υ where
  size_le := Nat.le_trans h.size_le h'.size_le
  outer j hj := (h'.outer j (Nat.lt_of_lt_of_le hj h.size_le)).trans (h.outer j hj)
  hardcoded := h'.hardcoded.trans h.hardcoded

theorem Extends.chain {σ τ : Scopes ν} (h : σ.Extends τ) {j : Nat} (hj : j < σ.size) :
    τ.chain j = σ.chain j := by
  simp only [Scopes.chain, h.outer j hj]

theorem extends_child (σ : Scopes ν) (i : Nat) (kind : Scope.Kind) :
    σ.Extends (σ.child i kind).2 where
  size_le := by simp
  outer j hj := by rw [frame_child_of_lt _ _ _ _ hj]
  hardcoded := rfl

theorem extends_define (σ : Scopes ν) (i : Nat) (name : String) (b : Scope.Binding ν) :
    σ.Extends (σ.define i name b) where
  size_le := by simp
  outer j _ := outer_define σ i j name b
  hardcoded := rfl

theorem findIn?_append (σ : Scopes ν) (name : String) (js ks : List Nat) :
    σ.findIn? name (js ++ ks) = (σ.findIn? name js).or (σ.findIn? name ks) := by
  induction js with
  | nil => rfl
  | cons j js ih =>
    simp only [List.cons_append, findIn?, ih]
    cases (σ.frame j).bindings.find? name <;> rfl

theorem findIn?_congr {σ τ : Scopes ν} {name : String} {js : List Nat}
    (h : ∀ j ∈ js, (τ.frame j).bindings.find? name = (σ.frame j).bindings.find? name) :
    τ.findIn? name js = σ.findIn? name js := by
  induction js with
  | nil => rfl
  | cons j js ih =>
    simp only [findIn?, h j (List.mem_cons_self ..),
      ih fun k hk => h k (List.mem_cons_of_mem _ hk)]

theorem mem_of_findIn? {σ : Scopes ν} {name : String} {js : List Nat} {j : Nat}
    {b : Scope.Binding ν} (h : σ.findIn? name js = some (j, b)) :
    j ∈ js ∧ (σ.frame j).bindings.find? name = some b := by
  induction js with
  | nil => simp [findIn?] at h
  | cons k ks ih =>
    simp only [findIn?] at h
    cases hk : (σ.frame k).bindings.find? name with
    | some c =>
      simp only [hk, Option.some.injEq, Prod.mk.injEq] at h
      obtain ⟨rfl, rfl⟩ := h
      exact ⟨List.mem_cons_self .., hk⟩
    | none =>
      simp only [hk] at h
      exact ⟨List.mem_cons_of_mem _ (ih h).1, (ih h).2⟩

theorem findIn?_of_findForWriteIn? {σ : Scopes ν} {name : String} {js : List Nat}
    {found : Option (Nat × Scope.Binding ν)} (h : σ.findForWriteIn? name js = .ok found) :
    σ.findIn? name js = found := by
  induction js with
  | nil =>
    cases h
    rfl
  | cons j js ih =>
    simp only [findForWriteIn?] at h
    simp only [findIn?]
    cases hj : (σ.frame j).bindings.find? name with
    | some b =>
      simp only [hj] at h
      cases h
      rfl
    | none =>
      simp only [hj] at h
      split at h
      · cases h
      · exact ih h

end Scopes

namespace Inlining

theorem assign_ok {floors : Floors} {scope : Nat} {target : String}
    {update : Expression ν → Expression ν} {σ σ' : Scopes ν} {r : Expression ν × Expression ν}
    (h : (assign floors scope target update).run σ = .ok (r, σ')) :
    ∃ owner current, σ.findIn? target (σ.chain scope) = some (owner, .mutable current) ∧
      floors.branch ≤ owner ∧ r = (current, update current) ∧
      σ' = σ.define owner target (.mutable (update current)) := by
  rw [assign, bind_ok] at h
  obtain ⟨ρ, υ, hg, h⟩ := h
  obtain ⟨hρ, hυ⟩ := get_ok.1 hg
  subst ρ υ
  rw [bind_ok] at h
  obtain ⟨found, _, hf, h⟩ := h
  obtain ⟨hf, rfl⟩ := lift_ok.1 hf
  have hfound := Scopes.findIn?_of_findForWriteIn? hf
  rcases found with _ | ⟨owner, _ | current | _ | _⟩
  · exact (throw_ok.1 h).elim
  · exact (throw_ok.1 h).elim
  · dsimp only at h
    split at h
    · exact (throw_ok.1 h).elim
    · next hfloor =>
      rw [bind_ok] at h
      obtain ⟨τ, _, ha, h⟩ := h
      obtain ⟨ha, rfl⟩ := lift_ok.1 ha
      rw [bind_ok] at h
      obtain ⟨_, _, hs, h⟩ := h
      obtain rfl := set_ok.1 hs
      obtain ⟨rfl, rfl⟩ := pure_ok.1 h
      simp only [Scopes.assign, (Scopes.mem_of_findIn? hfound).2] at ha
      cases ha
      exact ⟨owner, current, hfound, by omega, rfl, rfl⟩
  · exact (throw_ok.1 h).elim
  · exact (throw_ok.1 h).elim

theorem read_ok {scope : Nat} {name : String} {σ σ' : Scopes ν} {e : Expression ν}
    (h : (read scope name).run σ = .ok (e, σ')) :
    σ' = σ ∧ ∃ i b, σ.lookup? scope name = some (i, b) ∧
      match b with
      | .parameter => e = .identifier name
      | .mutable value | .constant value | .hardcoded value => e = value := by
  rw [read, bind_ok] at h
  obtain ⟨ρ, υ, hg, h⟩ := h
  obtain ⟨hρ, hυ⟩ := get_ok.1 hg
  subst ρ υ
  rcases hl : Scopes.lookup? σ scope name with _ | ⟨i, _ | _ | _ | _⟩ <;> simp only [hl] at h
  · exact (throw_ok.1 h).elim
  all_goals
    obtain ⟨rfl, rfl⟩ := pure_ok.1 h
    exact ⟨rfl, _, _, rfl, rfl⟩

end Inlining

end Waveform
