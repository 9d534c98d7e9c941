import Waveform.Proofs.Inlining.Isolation
import Waveform.Proofs.Inlining.Reading

/-!
# Correspondence of frames

A frame of a run stands for the frames of the specializer that make up the same place: the frame
of a block for one, the frame of a call for the block and the parameters of the call, and the
frame around a plain statement for none. `World` keeps the account. `Chain` relates an environment
to the frames that a scope lies in, and `Corr` says that both sides bind every name alike. Binding,
writing and opening frames on both sides preserve it.
-/

namespace Waveform

variable {ν : Type}

/-- The frames that each frame of a run stands for, the newest first. -/
abbrev World := Nat → Option (List Nat)

namespace World

def insert (W : World) (i : Nat) (js : List Nat) : World :=
  fun k => if k = i then some js else W k

@[simp] theorem insert_self (W : World) (i : Nat) (js : List Nat) : W.insert i js i = some js := by
  simp [insert]

theorem insert_of_ne (W : World) {i k : Nat} (h : k ≠ i) (js : List Nat) :
    W.insert i js k = W k := by
  simp [insert, h]

/-- Frames keep what they stand for. -/
def Grows (W W' : World) : Prop :=
  ∀ i js, W i = some js → W' i = some js

theorem Grows.refl (W : World) : W.Grows W :=
  fun _ _ h => h

theorem Grows.trans {W W' W'' : World} (h : W.Grows W') (h' : W'.Grows W'') : W.Grows W'' :=
  fun i js hi => h' i js (h i js hi)

theorem grows_insert {W : World} {i : Nat} (h : W i = none) (js : List Nat) :
    W.Grows (W.insert i js) := by
  intro k ks hk
  have hne : k ≠ i := by
    rintro rfl
    rw [h] at hk
    cases hk
  rw [insert_of_ne W hne, hk]

end World

/-- The frames of an environment, down to the global one, stand for the given frames. A frame is
newer than those around it. -/
inductive Chain (W : World) : Environment → List Nat → Prop
  | global : Chain W .global []
  | frame {i : Nat} {js ks : List Nat} {env : Environment} :
    W i = some js → (∀ k ∈ env, k < i) → Chain W env ks → Chain W (i :: env) (js ++ ks)

theorem Chain.mono {W W' : World} {env : Environment} {ks : List Nat} (h : Chain W env ks)
    (hW : W.Grows W') : Chain W' env ks := by
  induction h with
  | global => exact .global
  | frame hi hlt _ ih => exact .frame (hW _ _ hi) hlt ih

theorem Chain.congr {W W' : World} {env : Environment} {ks : List Nat} (h : Chain W env ks)
    (hW : ∀ i ∈ env, W' i = W i) : Chain W' env ks := by
  induction h with
  | global => exact .global
  | frame hi hlt _ ih =>
    refine .frame ?_ hlt (ih fun k hk => hW k (List.mem_cons_of_mem _ hk))
    rw [hW _ (List.mem_cons_self ..), hi]

/-- A scope lies where an environment does. -/
structure Placed (W : World) (σ : Scopes ν) (scope : Nat) (env : Environment) : Prop where
  bound : scope < σ.size
  chain : Chain W env (σ.chain scope)

theorem Placed.mono {W W' : World} {σ σ' : Scopes ν} {scope : Nat} {env : Environment}
    (h : Placed W σ scope env) (hW : W.Grows W') (hσ : σ.Extends σ') : Placed W' σ' scope env where
  bound := Nat.lt_of_lt_of_le h.bound hσ.size_le
  chain := by
    rw [hσ.chain h.bound]
    exact h.chain.mono hW

/-- The innermost frame of the environment binds what is declared in the scope. -/
def Owned (W : World) (scope : Nat) (env : Environment) : Prop :=
  ∃ i outer js, env = i :: outer ∧ W i = some (scope :: js)

theorem Owned.mono {W W' : World} {scope : Nat} {env : Environment} (h : Owned W scope env)
    (hW : W.Grows W') : Owned W' scope env := by
  obtain ⟨i, outer, js, rfl, hi⟩ := h
  exact ⟨i, outer, js, rfl, hW _ _ hi⟩

namespace Reading

/-- A scope is where functions of an environment were made. -/
structure Home (r : Reading ν) (W : World) (σ : Scopes ν) (j : Nat) (env : Environment) :
    Prop where
  higherOrder : r.higherOrder
  placed : Placed W σ j env

/-- A name is bound on neither side, or to an expression and a value that it stands for. -/
inductive Agrees (r : Reading ν) (home : Nat → Environment → Prop) (name : String) :
    Option (Scope.Binding ν) → Option (Value ν) → Prop
  | unbound : Agrees r home name none none
  | parameter {v : Value ν} : r.Reads (.identifier name) v →
    Agrees r home name (some .parameter) (some v)
  | mutable {e : Expression ν} {v : Value ν} : r.Models home e v →
    Agrees r home name (some (.mutable e)) (some v)
  | constant {e : Expression ν} {v : Value ν} : r.Models home e v →
    Agrees r home name (some (.constant e)) (some v)

def binding (σ : Scopes ν) (js : List Nat) (name : String) : Option (Scope.Binding ν) :=
  (σ.findIn? name js).map Prod.snd

/-- The frames of the run bind what the frames bind that they stand for. -/
structure Corr (r : Reading ν) (W : World) (σ : Scopes ν) (s : Store ν) : Prop where
  builtins (b : Builtin) : (s.frame 0).find? b.globalName = some (.builtin b)
  bound {i js} : W i = some js → 0 < i ∧ i < s.frames.size ∧ ∀ j ∈ js, j < σ.size
  apart {i i' js js' j} : W i = some js → W i' = some js' → j ∈ js → j ∈ js' → i = i'
  entries {i js} (name) : W i = some js →
    r.Agrees (r.Home W σ) name (binding σ js name) ((s.frame i).find? name)

variable {r : Reading ν} {home home' : Nat → Environment → Prop}

theorem Home.mono {W W' : World} {σ σ' : Scopes ν} {j : Nat} {env : Environment}
    (h : r.Home W σ j env) (hW : W.Grows W') (hσ : σ.Extends σ') : r.Home W' σ' j env where
  higherOrder := h.higherOrder
  placed := h.placed.mono hW hσ

theorem Models.grow {W W' : World} {σ σ' : Scopes ν} {e : Expression ν} {v : Value ν}
    (h : r.Models (r.Home W σ) e v) (hW : W.Grows W') (hσ : σ.Extends σ') :
    r.Models (r.Home W' σ') e v :=
  h.mono fun _ _ hh => hh.mono hW hσ

theorem Agrees.weaken {r' : Reading ν} {name : String} {b : Option (Scope.Binding ν)}
    {v : Option (Value ν)} (h : r.Agrees home name b v)
    (hreads : ∀ e v, r.Reads e v → r'.Reads e v) (hhome : ∀ j env, home j env → home' j env) :
    r'.Agrees home' name b v := by
  cases h with
  | unbound => exact .unbound
  | parameter h => exact .parameter (hreads _ _ h)
  | mutable h => exact .mutable (h.weaken hreads hhome)
  | constant h => exact .constant (h.weaken hreads hhome)

theorem Agrees.mono {name : String} {b : Option (Scope.Binding ν)} {v : Option (Value ν)}
    (h : r.Agrees home name b v) (hhome : ∀ j env, home j env → home' j env) :
    r.Agrees home' name b v :=
  h.weaken (fun _ _ => id) hhome

theorem binding_append (σ : Scopes ν) (js ks : List Nat) (name : String) :
    binding σ (js ++ ks) name = (binding σ js name).or (binding σ ks name) := by
  simp only [binding, Scopes.findIn?_append]
  cases σ.findIn? name js <;> rfl

theorem binding_cons (σ : Scopes ν) (j : Nat) (js : List Nat) (name : String) :
    binding σ (j :: js) name = ((σ.frame j).bindings.find? name).or (binding σ js name) := by
  simp only [binding, Scopes.findIn?]
  cases (σ.frame j).bindings.find? name <;> rfl

theorem binding_congr {σ τ : Scopes ν} {js : List Nat} {name : String}
    (h : ∀ j ∈ js, (τ.frame j).bindings.find? name = (σ.frame j).bindings.find? name) :
    binding τ js name = binding σ js name := by
  simp only [binding, Scopes.findIn?_congr h]

variable {W W' : World} {σ σ' : Scopes ν} {s s' : Store ν}

theorem Corr.weaken {r' : Reading ν} (h : r.Corr W σ s) (hreads : ∀ e v, r.Reads e v → r'.Reads e v)
    (hhigher : r.higherOrder → r'.higherOrder) : r'.Corr W σ s where
  builtins := h.builtins
  bound := h.bound
  apart := h.apart
  entries name hi :=
    (h.entries name hi).weaken hreads fun _ _ hh => ⟨hhigher hh.higherOrder, hh.placed⟩

theorem Corr.extend (h : r.Corr W σ s) (hσ : σ.Extends σ')
    (hframe : ∀ j < σ.size, σ'.frame j = σ.frame j) : r.Corr W σ' s where
  builtins := h.builtins
  bound hi := by
    obtain ⟨hpos, hlt, hjs⟩ := h.bound hi
    exact ⟨hpos, hlt, fun j hj => Nat.lt_of_lt_of_le (hjs j hj) hσ.size_le⟩
  apart := h.apart
  entries {i js} name hi := by
    have hjs := (h.bound hi).2.2
    have hb : binding σ' js name = binding σ js name :=
      binding_congr fun j hj => by rw [hframe j (hjs j hj)]
    rw [hb]
    exact (h.entries name hi).mono fun _ _ hh => hh.mono (.refl W) hσ

theorem Corr.kept {floor : Nat} {own : Nat → Prop} (h : r.Corr W σ s)
    (hk : Scopes.Kept floor own σ σ') (hfloor : σ.size ≤ floor) (hown : ∀ j < σ.size, ¬ own j) :
    r.Corr W σ' s :=
  h.extend hk.extend fun j hj => hk.frame j hj (Nat.lt_of_lt_of_le hj hfloor) (hown j hj)

theorem Corr.of_frames (h : r.Corr W σ s) (hs : s'.frames = s.frames) : r.Corr W σ s' where
  builtins b := by
    simp only [Store.frame, hs]
    exact h.builtins b
  bound hi := by
    rw [hs]
    exact h.bound hi
  apart := h.apart
  entries name hi := by
    simp only [Store.frame, hs]
    exact h.entries name hi

/-- A name that a chain of frames binds has a value that it stands for; one that it does not bind
is looked up in the global frame. -/
theorem Corr.lookup (h : r.Corr W σ s) {env : Environment} {ks : List Nat} (hch : Chain W env ks)
    (name : String) :
    (binding σ ks name = none ∧ s.lookup? name env = (s.frame 0).find? name) ∨
      ∃ v, s.lookup? name env = some v ∧
        r.Agrees (r.Home W σ) name (binding σ ks name) (some v) := by
  induction hch with
  | global =>
    refine .inl ⟨rfl, ?_⟩
    simp only [Environment.global, Store.lookup?]
    cases (s.frame 0).find? name <;> rfl
  | @frame i js ks env hi _ _ ih =>
    have he := h.entries name hi
    rw [binding_append]
    simp only [Store.lookup?]
    cases hv : (s.frame i).find? name with
    | none =>
      rw [hv] at he
      generalize binding σ js name = b at he
      cases he
      simpa using ih
    | some v =>
      rw [hv] at he
      generalize binding σ js name = b at he
      refine .inr ⟨v, rfl, ?_⟩
      cases b with
      | none => cases he
      | some b => simpa using he

theorem frame_define (σ : Scopes ν) (i j : Nat) (name other : String) (b : Scope.Binding ν) :
    ((σ.define i name b).frame j).bindings.find? other =
      if j = i ∧ j < σ.size ∧ other = name then some b
      else (σ.frame j).bindings.find? other := by
  by_cases hj : j = i
  · subst hj
    by_cases hs : j < σ.size
    · rw [Scopes.frame_define_self hs]
      simp only [Bindings.find?_insert, hs, true_and]
    · rw [Scopes.frame_of_le (by simpa using hs), Scopes.frame_of_le (by simpa using hs)]
      simp [hs]
  · simp [Scopes.frame_define_of_ne hj, hj]

theorem Corr.write (h : r.Corr W σ s) {i : Nat} {js : List Nat} (hi : W i = some js) {j : Nat}
    (hj : j ∈ js) {name : String} {b : Scope.Binding ν} {v : Value ν}
    (hb : binding (σ.define j name b) js name = some b)
    (ha : r.Agrees (r.Home W σ) name (some b) (some v)) :
    r.Corr W (σ.define j name b) (s.bind i name v) := by
  obtain ⟨hpos, hlt, -⟩ := h.bound hi
  have hhome : ∀ j' env, r.Home W σ j' env → r.Home W (σ.define j name b) j' env :=
    fun _ _ hh => hh.mono (.refl W) (Scopes.extends_define σ j name b)
  refine ⟨fun c => ?_, fun hk => ?_, h.apart, fun {k ks} other hk => ?_⟩
  · have hne : (0 : Nat) ≠ i := Nat.ne_of_lt hpos
    rw [Store.frame_bind _ _ _ _ _ hlt, if_neg hne]
    exact h.builtins c
  · obtain ⟨hk0, hks, hmem⟩ := h.bound hk
    exact ⟨hk0, by simpa using hks, fun m hm => by simpa using hmem m hm⟩
  · have hold := (h.entries other hk).mono hhome
    rw [Store.frame_bind _ _ _ _ _ hlt]
    by_cases hki : k = i
    · subst hki
      obtain rfl : js = ks := by
        rw [hi] at hk
        exact Option.some.inj hk
      by_cases hother : other = name
      · subst hother
        rw [hb, if_pos rfl, Bindings.find?_insert, if_pos rfl]
        exact ha.mono hhome
      · have hsame : binding (σ.define j name b) js other = binding σ js other := by
          refine binding_congr fun m _ => ?_
          rw [frame_define, if_neg fun hm => hother hm.2.2]
        rw [if_pos rfl, Bindings.find?_insert, if_neg hother, hsame]
        exact hold
    · have hsame : binding (σ.define j name b) ks other = binding σ ks other := by
        refine binding_congr fun m hm => ?_
        have hmj : m ≠ j := by
          rintro rfl
          exact hki (h.apart hk hi hm hj)
        rw [Scopes.frame_define_of_ne hmj]
      rw [if_neg hki, hsame]
      exact hold

theorem Corr.define (h : r.Corr W σ s) {i j : Nat} {js : List Nat} (hi : W i = some (j :: js))
    {name : String} {b : Scope.Binding ν} {v : Value ν}
    (ha : r.Agrees (r.Home W σ) name (some b) (some v)) :
    r.Corr W (σ.define j name b) (s.bind i name v) := by
  refine h.write hi (List.mem_cons_self ..) ?_ ha
  have hlt := (h.bound hi).2.2 j (List.mem_cons_self ..)
  rw [binding_cons, frame_define, if_pos ⟨rfl, hlt, rfl⟩]
  rfl

theorem findIn?_define {js : List Nat} {owner : Nat} {name : String} {b c : Scope.Binding ν}
    (hlt : ∀ j ∈ js, j < σ.size) (hf : σ.findIn? name js = some (owner, c)) :
    (σ.define owner name b).findIn? name js = some (owner, b) := by
  have howner := (Scopes.mem_of_findIn? hf)
  induction js with
  | nil => simp [Scopes.findIn?] at hf
  | cons j js ih =>
    simp only [Scopes.findIn?, frame_define] at hf ⊢
    by_cases hj : j = owner
    · simp [hj, hj ▸ hlt j (List.mem_cons_self ..)]
    · cases hfj : (σ.frame j).bindings.find? name with
      | some d =>
        rw [hfj] at hf
        simp only [Option.some.injEq, Prod.mk.injEq] at hf
        exact absurd hf.1 hj
      | none =>
        rw [hfj] at hf
        simp only [hj, false_and, if_false]
        exact ih (fun k hk => hlt k (List.mem_cons_of_mem _ hk)) hf (Scopes.mem_of_findIn? hf)

/-- A variable that the chain of frames binds is a variable of the environment, and both sides may
write it. -/
theorem Corr.assign (h : r.Corr W σ s) {env : Environment} {ks : List Nat} (hch : Chain W env ks)
    {name : String} {owner : Nat} {e : Expression ν}
    (hf : σ.findIn? name ks = some (owner, .mutable e)) :
    ∃ i v, s.owner? name env = some i ∧ s.lookup? name env = some v ∧
      r.Models (r.Home W σ) e v ∧
      ∀ e' v', r.Models (r.Home W σ) e' v' →
        r.Corr W (σ.define owner name (.mutable e')) (s.bind i name v') := by
  induction hch with
  | global => simp [Scopes.findIn?] at hf
  | @frame i js ks env hi _ _ ih =>
    have he := h.entries name hi
    rw [Scopes.findIn?_append] at hf
    cases hjs : σ.findIn? name js with
    | none =>
      rw [hjs] at hf
      rw [binding, hjs] at he
      cases hv : (s.frame i).find? name with
      | some v =>
        rw [hv] at he
        cases he
      | none =>
        obtain ⟨k, v, hk, hv', hm, hw⟩ := ih (by simpa using hf)
        refine ⟨k, v, ?_, ?_, hm, hw⟩
        · simp [Store.owner?, Bindings.contains, hv, hk]
        · simp [Store.lookup?, hv, hv']
    | some found =>
      rw [hjs] at hf
      obtain rfl : found = (owner, .mutable e) := by simpa using hf
      rw [binding, hjs] at he
      cases hv : (s.frame i).find? name with
      | none =>
        rw [hv] at he
        cases he
      | some v =>
        rw [hv] at he
        cases he with
        | mutable hm =>
          refine ⟨i, v, ?_, ?_, hm, fun e' v' hm' => ?_⟩
          · simp [Store.owner?, Bindings.contains, hv]
          · simp [Store.lookup?, hv]
          · refine h.write hi (Scopes.mem_of_findIn? hjs).1 ?_ (.mutable hm')
            rw [binding, findIn?_define (h.bound hi).2.2 hjs]
            rfl

end Reading

end Waveform
