import Waveform.Evaluation.Program

/-!
# Outcomes of runs

What the steps that evaluation is made of do to a store. `bind_ok` takes a run that ends with a
value apart into its steps; the other equations say how each single step ends. `Run.Ensures`
states what a run comes to, and `Ensures.bind` proves it step by step.
-/

namespace Waveform

namespace Run

variable {ν α β : Type}

@[simp] theorem outcome_pure (a : α) (s : Store ν) :
    (pure a : Run ν α).outcome s = (.ok a, s) := rfl

@[simp] theorem outcome_throw (e : Stop ν) (s : Store ν) :
    (throw e : Run ν α).outcome s = (.error e, s) := rfl

@[simp] theorem outcome_fail (e : RuntimeError ν) (s : Store ν) :
    (fail e : Run ν α).outcome s = (.error (.error e), s) := rfl

@[simp] theorem outcome_get (s : Store ν) :
    (get : Run ν (Store ν)).outcome s = (.ok s, s) := rfl

@[simp] theorem outcome_modify (f : Store ν → Store ν) (s : Store ν) :
    (modify f : Run ν Unit).outcome s = (.ok (), f s) := rfl

@[simp] theorem outcome_modifyGet (f : Store ν → α × Store ν) (s : Store ν) :
    (modifyGet f : Run ν α).outcome s = (.ok (f s).1, (f s).2) := rfl

theorem outcome_bind (x : Run ν α) (f : α → Run ν β) (s : Store ν) :
    (x >>= f).outcome s =
      match x.outcome s with
      | (.ok a, s') => (f a).outcome s'
      | (.error e, s') => (.error e, s') := by
  simp only [outcome, ExceptT.run_bind, StateT.run_bind]
  rcases StateT.run (ExceptT.run x) s with ⟨_ | a, s'⟩ <;> rfl

theorem bind_ok {x : Run ν α} {f : α → Run ν β} {s s' : Store ν} {b : β} :
    (x >>= f).outcome s = (.ok b, s') ↔
      ∃ a t, x.outcome s = (.ok a, t) ∧ (f a).outcome t = (.ok b, s') := by
  rw [outcome_bind]
  rcases x.outcome s with ⟨_ | a, t⟩
  · simp
  · constructor
    · exact fun h => ⟨a, t, rfl, h⟩
    · rintro ⟨_, _, ⟨⟩, h⟩
      exact h

/-- Whatever value the run ends with, it has the property in the store that is left behind. -/
def After (x : Run ν α) (s : Store ν) (P : α → Store ν → Prop) : Prop :=
  ∀ a t, x.outcome s = (.ok a, t) → P a t

theorem After.of_outcome {x : Run ν α} {s t : Store ν} {a : α} {P : α → Store ν → Prop}
    (h : x.outcome s = (.ok a, t)) (hP : P a t) : x.After s P := by
  intro b u hb
  rw [h] at hb
  cases hb
  exact hP

/-- Whatever value the run ends with, it has the property, and if it must, it ends with one. -/
structure Ensures (must : Prop) (x : Run ν α) (s : Store ν) (P : α → Store ν → Prop) : Prop where
  after : x.After s P
  ends : must → ∃ a t, x.outcome s = (.ok a, t)

section

variable {must : Prop} {x : Run ν α} {s : Store ν} {P : α → Store ν → Prop}

theorem Ensures.of_outcome {a : α} {t : Store ν} (h : x.outcome s = (.ok a, t)) (hP : P a t) :
    x.Ensures must s P :=
  ⟨.of_outcome h hP, fun _ => ⟨a, t, h⟩⟩

theorem Ensures.of_error {e : Stop ν} {t : Store ν} (h : x.outcome s = (.error e, t))
    (hmust : ¬ must) : x.Ensures must s P := by
  refine ⟨fun b u hb => ?_, fun hm => absurd hm hmust⟩
  rw [h] at hb
  cases hb

theorem Ensures.mono {Q : α → Store ν → Prop} (h : x.Ensures must s P)
    (hPQ : ∀ a t, P a t → Q a t) : x.Ensures must s Q :=
  ⟨fun a t ht => hPQ a t (h.after a t ht), h.ends⟩

/-- A step whose outcome is known comes first. -/
theorem Ensures.step {f : α → Run ν β} {Q : β → Store ν → Prop} {a : α} {t : Store ν}
    (h : x.outcome s = (.ok a, t)) (hf : (f a).Ensures must t Q) :
    (x >>= f).Ensures must s Q := by
  have hbind : (x >>= f).outcome s = (f a).outcome t := by rw [outcome_bind, h]
  exact ⟨fun b u hb => hf.after b u (hbind ▸ hb), fun hmust => hbind ▸ hf.ends hmust⟩

theorem Ensures.bind {f : α → Run ν β} {Q : β → Store ν → Prop} (h : x.Ensures must s P)
    (hf : ∀ a t, x.outcome s = (.ok a, t) → P a t → (f a).Ensures must t Q) :
    (x >>= f).Ensures must s Q := by
  refine ⟨fun b u hb => ?_, fun hmust => ?_⟩
  · obtain ⟨a, t, ha, hb⟩ := bind_ok.1 hb
    exact (hf a t ha (h.after a t ha)).after b u hb
  · obtain ⟨a, t, ha⟩ := h.ends hmust
    obtain ⟨b, u, hb⟩ := (hf a t ha (h.after a t ha)).ends hmust
    exact ⟨b, u, bind_ok.2 ⟨a, t, ha, hb⟩⟩

end

@[simp] theorem outcome_extend (env : Environment) (s : Store ν) :
    (extend env).outcome s = (.ok (s.frames.size :: env), (s.extend env).2) := rfl

@[simp] theorem outcome_define (env : Environment) (name : String) (v : Value ν) (s : Store ν) :
    (define env name v).outcome s = (.ok (), s.define env name v) := rfl

@[simp] theorem outcome_makePair (head tail : Value ν) (s : Store ν) :
    (makePair head tail).outcome s =
      (.ok (.pair s.made head tail), { s with made := s.made + 1 }) := rfl

@[simp] theorem outcome_makeClosure (name : Option String) (f : Function ν) (env : Environment)
    (s : Store ν) :
    (makeClosure name f env).outcome s =
      (.ok (.closure ⟨s.made, name, f, env⟩), { s with made := s.made + 1 }) := rfl

theorem outcome_read (env : Environment) (name : String) (s : Store ν) :
    (read env name).outcome s =
      match s.lookup? name env with
      | some v => (.ok v, s)
      | none => (.error (.error (.undefinedName name)), s) := by
  rw [read, outcome_bind]
  change (match s.lookup? name env with | some v => _ | none => _ : Run ν (Value ν)).outcome s = _
  cases s.lookup? name env <;> rfl

theorem outcome_read_of_lookup {env : Environment} {name : String} {s : Store ν} {v : Value ν}
    (h : s.lookup? name env = some v) : (read env name).outcome s = (.ok v, s) := by
  rw [outcome_read, h]

theorem read_ok {env : Environment} {name : String} {s s' : Store ν} {v : Value ν} :
    (read env name).outcome s = (.ok v, s') ↔ s.lookup? name env = some v ∧ s' = s := by
  rw [outcome_read]
  cases s.lookup? name env <;> simp [eq_comm]

theorem outcome_assign (env : Environment) (name : String) (v : Value ν) (s : Store ν) :
    (assign env name v).outcome s =
      match s.owner? name env with
      | some i => (.ok (), s.bind i name v)
      | none => (.error (.error (.undeclaredTarget name)), s) := by
  rw [assign, outcome_bind]
  change (match s.owner? name env with | some i => _ | none => _ : Run ν Unit).outcome s = _
  cases s.owner? name env <;> rfl

theorem outcome_assign_of_owner {env : Environment} {name : String} {s : Store ν} {i : Nat}
    (h : s.owner? name env = some i) (v : Value ν) :
    (assign env name v).outcome s = (.ok (), s.bind i name v) := by
  rw [outcome_assign, h]

theorem assign_ok {env : Environment} {name : String} {v : Value ν} {s s' : Store ν} {u : Unit} :
    (assign env name v).outcome s = (.ok u, s') ↔
      ∃ i, s.owner? name env = some i ∧ s' = s.bind i name v := by
  rw [outcome_assign]
  cases s.owner? name env <;> simp [eq_comm]

theorem outcome_copyIn (source target : Environment) (name : String) (s : Store ν) :
    (copyIn source target (some name)).outcome s =
      (define target name ((s.lookup? name source).getD .undefined)).outcome s := by
  rw [copyIn, outcome_bind, outcome_get]

theorem outcome_copyOut (source target : Environment) (name : String) (s : Store ν) :
    (copyOut source target (some name)).outcome s =
      (assign target name ((s.lookup? name source).getD .undefined)).outcome s := by
  rw [copyOut, outcome_bind, outcome_get]

theorem applyBuiltin_math [Numeric ν] {b : Builtin} (hlength : b ≠ .length) (hlist : b ≠ .list)
    (hrandom : b ≠ .random) (args : List (Value ν)) :
    applyBuiltin b args =
      match Numeric.apply b (args.map Value.toNumber) with
      | some x => pure (.number x)
      | none => fail (.notNumeric b) := by
  cases b with
  | length => exact absurd rfl hlength
  | list => exact absurd rfl hlist
  | random => exact absurd rfl hrandom
  | _ => rfl

end Run

namespace Store

variable {ν : Type}

@[simp] theorem size_extend (s : Store ν) (env : Environment) :
    (s.extend env).2.frames.size = s.frames.size + 1 := by
  simp [extend]

@[simp] theorem size_bind (s : Store ν) (i : Nat) (name : String) (v : Value ν) :
    (s.bind i name v).frames.size = s.frames.size := by
  simp [bind]

@[simp] theorem size_define (s : Store ν) (env : Environment) (name : String) (v : Value ν) :
    (s.define env name v).frames.size = s.frames.size := by
  cases env <;> simp [define]

@[simp] theorem frame_made (s : Store ν) (n i : Nat) :
    ({ s with made := n } : Store ν).frame i = s.frame i := rfl

theorem frame_of_le {s : Store ν} {i : Nat} (h : s.frames.size ≤ i) : s.frame i = .empty := by
  simp [frame, Array.getD_eq_getD_getElem?, Array.getElem?_eq_none h]

theorem bind_of_le {s : Store ν} {i : Nat} (h : s.frames.size ≤ i) (name : String) (v : Value ν) :
    s.bind i name v = s := by
  rw [bind, Array.modify, Id.run, Array.modifyM, dif_neg (Nat.not_lt.2 h)]
  rfl

theorem find?_bind {s : Store ν} {i : Nat} (h : i < s.frames.size) (name : String) (v : Value ν)
    (j : Nat) (other : String) :
    ((s.bind i name v).frame j).find? other =
      if j = i ∧ other = name then some v else (s.frame j).find? other := by
  rw [frame_bind s i j name v h]
  by_cases hj : j = i
  · subst hj
    rw [if_pos rfl, Bindings.find?_insert]
    simp
  · rw [if_neg hj, if_neg fun hji => hj hji.1]

theorem owner?_congr {s t : Store ν} {name : String} {env : Environment}
    (h : ∀ j ∈ env, (t.frame j).contains name = (s.frame j).contains name) :
    t.owner? name env = s.owner? name env := by
  induction env with
  | nil => rfl
  | cons j env ih =>
    rw [owner?, owner?, h j (List.mem_cons_self ..), ih fun k hk => h k (List.mem_cons_of_mem _ hk)]

theorem lookup?_congr {s t : Store ν} {name : String} {env : Environment}
    (h : ∀ j ∈ env, (t.frame j).find? name = (s.frame j).find? name) :
    t.lookup? name env = s.lookup? name env := by
  induction env with
  | nil => rfl
  | cons j env ih =>
    rw [lookup?, lookup?, h j (List.mem_cons_self ..),
      ih fun k hk => h k (List.mem_cons_of_mem _ hk)]

theorem lookup?_extend (s : Store ν) (env env' : Environment) (name : String) :
    (s.extend env).2.lookup? name (s.frames.size :: env') = s.lookup? name env' := by
  rw [lookup?, frame_extend, frame_of_le (Nat.le_refl _), Bindings.find?_empty]
  exact lookup?_congr fun j _ => by rw [frame_extend]

theorem lookup?_bind {s : Store ν} {i : Nat} (h : i < s.frames.size) (name : String) (v : Value ν)
    (env : Environment) (other : String) :
    (s.bind i name v).lookup? other (i :: env) =
      if other = name then some v else s.lookup? other (i :: env) := by
  by_cases hother : other = name
  · rw [if_pos hother, lookup?, find?_bind h, if_pos ⟨rfl, hother⟩]
  · rw [if_neg hother]
    exact lookup?_congr fun j _ => by rw [find?_bind h, if_neg fun heq => hother heq.2]

theorem owner?_eq_some_iff {s : Store ν} {name : String} {env : Environment} {i : Nat} :
    s.owner? name env = some i →
      i ∈ env ∧ s.lookup? name env = (s.frame i).find? name ∧ (s.frame i).contains name := by
  induction env with
  | nil => simp [owner?]
  | cons k outer ih =>
    intro h
    by_cases hk : (s.frame k).contains name = true
    · simp only [owner?, hk, if_true, Option.some.injEq] at h
      subst h
      obtain ⟨v, hv⟩ := Option.isSome_iff_exists.1 hk
      simp [lookup?, hv, hk]
    · simp only [owner?, hk] at h
      obtain ⟨hmem, hlook, hcontains⟩ := ih h
      have hnone : (s.frame k).find? name = none := by
        simpa [Bindings.contains] using hk
      exact ⟨List.mem_cons_of_mem _ hmem, by simpa [lookup?, hnone] using hlook, hcontains⟩

end Store

namespace Bindings

variable {α : Type}

/-- The bindings of a call: parameters without an argument have the missing value. -/
def withParams (missing : α) (b : Bindings α) : List String → List α → Bindings α
  | [], _ => b
  | p :: ps, [] => (b.insert p missing).withParams missing ps []
  | p :: ps, a :: as => (b.insert p a).withParams missing ps as

theorem isSome_withParams (missing : α) (b : Bindings α) (params : List String) (args : List α)
    (name : String) :
    ((b.withParams missing params args).find? name).isSome =
      (params.contains name || (b.find? name).isSome) := by
  induction params generalizing b args with
  | nil => simp [withParams]
  | cons p ps ih =>
    cases args with
    | nil =>
      rw [withParams, ih, find?_insert, List.contains_cons]
      by_cases h : name = p
      · simp [h]
      · simp [h, beq_eq_false_iff_ne.2 h]
    | cons a as =>
      rw [withParams, ih, find?_insert, List.contains_cons]
      by_cases h : name = p
      · simp [h]
      · simp [h, beq_eq_false_iff_ne.2 h]

theorem forall_withParams {P : α → Prop} {missing : α} (hmissing : P missing) {b : Bindings α}
    (hb : ∀ name a, b.find? name = some a → P a) (params : List String) {args : List α}
    (hargs : ∀ a ∈ args, P a) {name : String} {a : α}
    (h : (b.withParams missing params args).find? name = some a) : P a := by
  induction params generalizing b args with
  | nil => exact hb name a (by simpa [withParams] using h)
  | cons p ps ih =>
    have hinsert {v : α} (hv : P v) : ∀ name a, (b.insert p v).find? name = some a → P a := by
      intro name a hfind
      rw [find?_insert] at hfind
      split at hfind
      · cases hfind
        exact hv
      · exact hb name a hfind
    cases args with
    | nil => exact ih (hinsert hmissing) hargs h
    | cons v vs =>
      exact ih (hinsert (hargs v (List.mem_cons_self ..)))
        (fun a ha => hargs a (List.mem_cons_of_mem _ ha)) h

end Bindings

end Waveform
