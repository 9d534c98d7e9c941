import Waveform.Proofs.Evaluation.Discipline

/-!
# Guarded runs

What code can do to a store depends on the environment that it runs in: it binds names in frames of
its own, and writes to names where its environment finds them. A `Guard` states what is to hold of
the store, and in which environments code may run so that each of these steps keeps it. Calls leave
the environment. Those that a run makes are watched where they happen: a call of a closure whose
environment is allowed is guarded as its body is, and any other call has to keep by itself what
holds.

A guarded run keeps what holds also where it fails, and what holds can be relied on in every call
that it makes.
-/

namespace Waveform

variable {ν : Type}

namespace Store

/-- Frames that have been made stay, and so do the names that they bind. -/
structure Keeps (s t : Store ν) : Prop where
  size : s.frames.size ≤ t.frames.size
  contains {i name} : (s.frame i).contains name = true → (t.frame i).contains name = true

theorem Keeps.refl (s : Store ν) : s.Keeps s :=
  ⟨Nat.le_refl _, id⟩

theorem Keeps.trans {s t u : Store ν} (h : s.Keeps t) (h' : t.Keeps u) : s.Keeps u :=
  ⟨Nat.le_trans h.size h'.size, fun hi => h'.contains (h.contains hi)⟩

theorem keeps_made (s : Store ν) (n : Nat) : s.Keeps { s with made := n } :=
  ⟨Nat.le_refl _, id⟩

theorem keeps_draws (s : Store ν) (n : Nat) : s.Keeps { s with draws := n } :=
  ⟨Nat.le_refl _, id⟩

theorem keeps_bind (s : Store ν) (i : Nat) (name : String) (v : Value ν) :
    s.Keeps (s.bind i name v) := by
  refine ⟨Nat.le_of_eq (s.size_bind i name v).symm, fun {j other} hj => ?_⟩
  by_cases hi : i < s.frames.size
  · rw [Bindings.contains, find?_bind hi]
    split
    · rfl
    · exact hj
  · rw [bind_of_le (Nat.le_of_not_lt hi)]
    exact hj

theorem keeps_define (s : Store ν) (env : Environment) (name : String) (v : Value ν) :
    s.Keeps (s.define env name v) := by
  cases env with
  | nil => exact .refl s
  | cons i outer => exact s.keeps_bind i name v

theorem keeps_extend (s : Store ν) (env : Environment) : s.Keeps (s.extend env).2 := by
  refine ⟨by rw [size_extend]; exact Nat.le_succ _, fun {i name} hi => ?_⟩
  rw [frame_extend]
  exact hi

end Store

/-- What is to hold of the store, and the environments in which code may run. -/
structure Guard (ν : Type) where
  holds : Store ν → Prop
  allows : Store ν → Environment → Prop

/-- Each step of code in an allowed environment keeps what holds, and what is allowed stays
allowed, also in the frames that the code opens. -/
structure Guard.Lawful (g : Guard ν) : Prop where
  extend {s env} : g.holds s → g.holds (s.extend env).2
  made {s n} : g.holds s → g.holds { s with made := n }
  draws {s n} : g.holds s → g.holds { s with draws := n }
  define {s env name v} : g.holds s → g.allows s env → g.holds (s.define env name v)
  assign {s env name i v} : g.holds s → g.allows s env → s.owner? name env = some i →
    g.holds (s.bind i name v)
  inner {s env} : g.holds s → g.allows s env → g.allows (s.extend env).2 (s.frames.size :: env)
  later {s t env} : g.holds s → g.allows s env → s.Keeps t → g.holds t → g.allows t env

namespace Run

variable {α β : Type}

/-- However the run ends, what the guard holds is kept, and a value that it ends with has the
property. -/
def Guarded (g : Guard ν) (x : Run ν α) (s : Store ν) (P : α → Store ν → Prop) : Prop :=
  ∀ r t, x.outcome s = (r, t) → s.Keeps t ∧ g.holds t ∧ ∀ a, r = .ok a → P a t

variable {g : Guard ν} {x : Run ν α} {s t : Store ν} {P Q : α → Store ν → Prop}

theorem Guarded.of_outcome {a : α} (h : x.outcome s = (.ok a, t)) (hkeeps : s.Keeps t)
    (hholds : g.holds t) (hP : P a t) : x.Guarded g s P := by
  intro r u hr
  rw [h] at hr
  cases hr
  refine ⟨hkeeps, hholds, fun b hb => ?_⟩
  cases hb
  exact hP

theorem Guarded.of_error {e : Stop ν} (h : x.outcome s = (.error e, s)) (hholds : g.holds s) :
    x.Guarded g s P := by
  intro r u hr
  rw [h] at hr
  cases hr
  exact ⟨.refl s, hholds, nofun⟩

theorem Guarded.of_outcome_eq {y : Run ν α} (h : x.outcome s = y.outcome s)
    (hy : y.Guarded g s P) : x.Guarded g s P :=
  fun r t hr => hy r t (h.symm.trans hr)

theorem Guarded.pure {a : α} (hholds : g.holds s) (hP : P a s) :
    (Pure.pure a : Run ν α).Guarded g s P :=
  .of_outcome (outcome_pure a s) (.refl s) hholds hP

theorem Guarded.throw (e : Stop ν) (hholds : g.holds s) : (throw e : Run ν α).Guarded g s P :=
  .of_error (outcome_throw e s) hholds

theorem Guarded.fail (cause : RuntimeError ν) (hholds : g.holds s) :
    (fail cause : Run ν α).Guarded g s P :=
  .of_error (outcome_fail cause s) hholds

theorem Guarded.bind {f : α → Run ν β} {R : β → Store ν → Prop} (hx : x.Guarded g s P)
    (hf : ∀ a t, x.outcome s = (.ok a, t) → s.Keeps t → g.holds t → P a t →
      (f a).Guarded g t R) : (x >>= f).Guarded g s R := by
  intro r u hr
  rw [outcome_bind] at hr
  rcases hout : x.outcome s with ⟨e | a, t⟩
  · rw [hout] at hr
    cases hr
    obtain ⟨hkeeps, hholds, -⟩ := hx _ _ hout
    exact ⟨hkeeps, hholds, nofun⟩
  · rw [hout] at hr
    obtain ⟨hkeeps, hholds, hP⟩ := hx _ _ hout
    obtain ⟨hkeeps', hholds', hR⟩ := hf a t hout hkeeps hholds (hP a rfl) r u hr
    exact ⟨hkeeps.trans hkeeps', hholds', hR⟩

theorem Guarded.ok (h : x.Guarded g s P) {a : α} (ha : x.outcome s = (.ok a, t)) :
    s.Keeps t ∧ g.holds t ∧ P a t :=
  let ⟨hkeeps, hholds, hP⟩ := h _ _ ha
  ⟨hkeeps, hholds, hP a rfl⟩

/-! ## Steps -/

section Steps

variable (hg : g.Lawful) {env : Environment} (hholds : g.holds s)

include hholds

theorem guarded_read (name : String) : (read env name).Guarded g s fun _ _ => True := by
  cases hv : s.lookup? name env with
  | some v => exact .of_outcome (outcome_read_of_lookup hv) (.refl s) hholds trivial
  | none => exact .of_error (by rw [outcome_read, hv]) hholds

include hg

theorem guarded_makePair (head tail : Value ν) :
    (makePair head tail).Guarded g s fun _ _ => True :=
  .of_outcome (outcome_makePair head tail s) (s.keeps_made _) (hg.made hholds) trivial

theorem guarded_makeClosure (name : Option String) (f : Function ν) :
    (makeClosure name f env).Guarded g s fun _ _ => True :=
  .of_outcome (outcome_makeClosure name f env s) (s.keeps_made _) (hg.made hholds) trivial

theorem guarded_makeList (vs : List (Value ν)) :
    (makeList vs).Guarded g s fun _ _ => True := by
  induction vs with
  | nil => exact .pure hholds trivial
  | cons v vs ih => exact .bind ih fun rest t _ _ ht _ => guarded_makePair hg ht v rest

variable (henv : g.allows s env)

include henv

theorem guarded_assign (name : String) (v : Value ν) :
    (assign env name v).Guarded g s fun _ _ => True := by
  cases hi : s.owner? name env with
  | some i =>
    exact .of_outcome (outcome_assign_of_owner hi v) (s.keeps_bind i name v)
      (hg.assign hholds henv hi) trivial
  | none => exact .of_error (by rw [outcome_assign, hi]) hholds

theorem guarded_define (name : String) (v : Value ν) :
    (define env name v).Guarded g s fun _ _ => True :=
  .of_outcome (outcome_define env name v s) (s.keeps_define env name v) (hg.define hholds henv)
    trivial

theorem guarded_extend : (extend env).Guarded g s fun inner t => g.allows t inner :=
  .of_outcome (outcome_extend env s) (s.keeps_extend env) (hg.extend hholds) (hg.inner hholds henv)

theorem guarded_defineParams (params : List String) (args : List (Value ν)) :
    (defineParams env params args).Guarded g s fun _ _ => True := by
  induction params generalizing args s with
  | nil => exact .pure hholds trivial
  | cons p ps ih =>
    cases args with
    | nil =>
      refine .bind (guarded_define hg hholds henv p .undefined) ?_
      exact fun _ t _ hkeeps ht _ => ih ht (hg.later hholds henv hkeeps ht) []
    | cons v vs =>
      refine .bind (guarded_define hg hholds henv p v) ?_
      exact fun _ t _ hkeeps ht _ => ih ht (hg.later hholds henv hkeeps ht) vs

theorem guarded_hoist (body : List (Statement ν)) :
    (Statement.hoist env body).Guarded g s fun _ _ => True := by
  induction body generalizing s with
  | nil => exact .pure hholds trivial
  | cons st rest ih =>
    cases st with
    | function name params body =>
      refine .bind (guarded_makeClosure hg hholds (some name) ⟨params, body⟩) ?_
      intro v t _ hkeeps ht _
      refine .bind (guarded_define hg ht (hg.later hholds henv hkeeps ht) name v) ?_
      intro _ u _ hkeeps' hu _
      exact ih hu (hg.later hholds henv (hkeeps.trans hkeeps') hu)
    | _ => exact ih hholds henv

theorem guarded_enter (body : List (Statement ν)) :
    (enter env body).Guarded g s fun inner t => g.allows t inner := by
  refine .bind (guarded_extend hg hholds henv) ?_
  intro inner t _ _ ht hinner
  refine .bind (guarded_hoist hg ht hinner body) ?_
  intro _ u _ hkeeps hu _
  exact .pure hu (hg.later ht hinner hkeeps hu)

omit henv in
theorem guarded_copyIn (source : Environment) {target : Environment}
    (htarget : g.allows s target) (copied : Option String) :
    (copyIn source target copied).Guarded g s fun _ _ => True := by
  cases copied with
  | none => exact .pure hholds trivial
  | some name =>
    exact .of_outcome_eq (outcome_copyIn ..) (guarded_define hg hholds htarget name _)

omit henv in
theorem guarded_copyOut (source : Environment) {target : Environment}
    (htarget : g.allows s target) (copied : Option String) :
    (copyOut source target copied).Guarded g s fun _ _ => True := by
  cases copied with
  | none => exact .pure hholds trivial
  | some name =>
    exact .of_outcome_eq (outcome_copyOut ..) (guarded_assign hg hholds htarget name _)

end Steps

theorem guarded_member [Numeric ν] (hholds : g.holds s) (object property : Value ν) :
    (member object property).Guarded g s fun _ _ => True := by
  cases object with
  | pair i head tail =>
    rw [member]
    split
    · split
      · exact .pure hholds trivial
      · split
        · exact .pure hholds trivial
        · exact .pure hholds trivial
    · exact .pure hholds trivial
  | primitive l =>
    cases l with
    | undefined | null => exact .fail _ hholds
    | _ => exact .pure hholds trivial
  | _ => exact .pure hholds trivial

theorem guarded_applyBuiltin [Numeric ν] (hg : g.Lawful) (hholds : g.holds s) (b : Builtin)
    (args : List (Value ν)) : (applyBuiltin b args).Guarded g s fun _ _ => True := by
  by_cases hlength : b = .length
  · subst hlength
    rw [applyBuiltin]
    split
    · exact .pure hholds trivial
    · exact .fail _ hholds
  · by_cases hlist : b = .list
    · subst hlist
      exact guarded_makeList hg hholds args
    · by_cases hrandom : b = .random
      · subst hrandom
        exact .of_outcome rfl (s.keeps_draws _) (hg.draws hholds) trivial
      · rw [applyBuiltin_math hlength hlist hrandom]
        split
        · exact .pure hholds trivial
        · exact .fail _ hholds

end Run

/-! ## Trees -/

/-- Calls that pass the check where the guard holds are guarded, and as the second check says. -/
def Guard.Guards (g : Guard ν) (call : Caller ν) (follows follows' : CallCheck ν) : Prop :=
  ∀ f args s, follows f args s → g.holds s →
    follows' f args s ∧ (call f args).Guarded g s fun _ _ => True

section

variable [Numeric ν] {g : Guard ν} {call : Caller ν} {follows follows' : CallCheck ν}
  {env : Environment}

mutual

/-- The calls of an expression that runs in an allowed environment find what holds, and its
evaluation keeps it. -/
theorem Expression.guarded (hg : g.Lawful) (hcall : g.Guards call follows follows') :
    (e : Expression ν) → {s : Store ν} → e.Obeys .free call follows env s → g.holds s →
      g.allows s env →
        e.Obeys .free call follows' env s ∧
          (e.evaluate call env).Guarded g s fun _ _ => True
  | .literal _, _, _, hs, _ => ⟨trivial, .pure hs trivial⟩
  | .builtin _, _, _, hs, _ => ⟨trivial, .pure hs trivial⟩
  | .identifier name, _, _, hs, _ => ⟨trivial, Run.guarded_read hs name⟩
  | .array [head, tail], s, ⟨hhead, htail⟩, hs, henv => by
    obtain ⟨hhead', hkeep⟩ := head.guarded hg hcall hhead hs henv
    have hnext (a : Value ν) (t : Store ν) (ha : (head.evaluate call env).outcome s = (.ok a, t)) :=
      tail.guarded hg hcall (htail a t ha) (hkeep.ok ha).2.1
        (hg.later hs henv (hkeep.ok ha).1 (hkeep.ok ha).2.1)
    refine ⟨⟨hhead', fun a t ha => (hnext a t ha).1⟩, ?_⟩
    rw [Expression.evaluate]
    refine hkeep.bind fun a t ha _ _ _ => (hnext a t ha).2.bind fun b u _ _ hu _ => ?_
    exact Run.guarded_makePair hg hu a b
  | .array [], _, _, hs, _ => ⟨id, .fail _ hs⟩
  | .array [_], _, _, hs, _ => ⟨id, .fail _ hs⟩
  | .array (_ :: _ :: _ :: _), _, _, hs, _ => ⟨id, .fail _ hs⟩
  | .member object property, s, ⟨hobject, hproperty⟩, hs, henv => by
    obtain ⟨hobject', hkeep⟩ := object.guarded hg hcall hobject hs henv
    have hnext (a : Value ν) (t : Store ν)
        (ha : (object.evaluate call env).outcome s = (.ok a, t)) :=
      property.guarded hg hcall (hproperty a t ha).1 (hkeep.ok ha).2.1
        (hg.later hs henv (hkeep.ok ha).1 (hkeep.ok ha).2.1)
    refine ⟨⟨hobject', fun a t ha => ⟨(hnext a t ha).1, fun _ _ _ => trivial⟩⟩, ?_⟩
    rw [Expression.evaluate]
    refine hkeep.bind fun a t ha _ _ _ => (hnext a t ha).2.bind fun b u _ _ hu _ => ?_
    exact Run.guarded_member hu a b
  | .unary op argument, s, ⟨hargument, _⟩, hs, henv => by
    obtain ⟨hargument', hkeep⟩ := argument.guarded hg hcall hargument hs henv
    refine ⟨⟨hargument', fun _ _ _ => trivial⟩, ?_⟩
    rw [Expression.evaluate]
    exact hkeep.bind fun a t _ _ ht _ => .pure ht trivial
  | .binary op left right, s, ⟨hleft, hright⟩, hs, henv => by
    obtain ⟨hleft', hkeep⟩ := left.guarded hg hcall hleft hs henv
    have hnext (a : Value ν) (t : Store ν) (ha : (left.evaluate call env).outcome s = (.ok a, t)) :=
      right.guarded hg hcall (hright a t ha).1 (hkeep.ok ha).2.1
        (hg.later hs henv (hkeep.ok ha).1 (hkeep.ok ha).2.1)
    refine ⟨⟨hleft', fun a t ha => ⟨(hnext a t ha).1, fun _ _ _ => trivial⟩⟩, ?_⟩
    rw [Expression.evaluate]
    refine hkeep.bind fun a t ha _ _ _ => (hnext a t ha).2.bind fun b u _ _ hu _ => ?_
    exact .pure hu trivial
  | .logical op left right, s, ⟨hleft, hright⟩, hs, henv => by
    obtain ⟨hleft', hkeep⟩ := left.guarded hg hcall hleft hs henv
    have hnext (a : Value ν) (t : Store ν) (ha : (left.evaluate call env).outcome s = (.ok a, t))
        (hdecides : op.decides a.isTruthy = false) :=
      right.guarded hg hcall ((hright a t ha).2 (.inl hdecides)).1 (hkeep.ok ha).2.1
        (hg.later hs henv (hkeep.ok ha).1 (hkeep.ok ha).2.1)
    constructor
    · refine ⟨hleft', fun a t ha => ⟨trivial, ?_⟩⟩
      rintro (hdecides | ⟨⟨⟩, -⟩)
      exact ⟨(hnext a t ha hdecides).1, fun _ _ _ => trivial⟩
    · rw [Expression.evaluate]
      refine hkeep.bind fun a t ha _ ht _ => ?_
      split
      · exact .pure ht trivial
      · next hdecides => exact (hnext a t ha (by simpa using hdecides)).2
  | .conditional test consequent alternate, s, ⟨htest, hsides⟩, hs, henv => by
    obtain ⟨htest', hkeep⟩ := test.guarded hg hcall htest hs henv
    have htrue (a : Value ν) (t : Store ν) (ha : (test.evaluate call env).outcome s = (.ok a, t))
        (htruthy : a.isTruthy = true) :=
      consequent.guarded hg hcall ((hsides a t ha).2.1 htruthy).1 (hkeep.ok ha).2.1
        (hg.later hs henv (hkeep.ok ha).1 (hkeep.ok ha).2.1)
    have hfalse (a : Value ν) (t : Store ν) (ha : (test.evaluate call env).outcome s = (.ok a, t))
        (htruthy : a.isTruthy = false) :=
      alternate.guarded hg hcall ((hsides a t ha).2.2 htruthy).1 (hkeep.ok ha).2.1
        (hg.later hs henv (hkeep.ok ha).1 (hkeep.ok ha).2.1)
    constructor
    · exact ⟨htest', fun a t ha => ⟨trivial,
        fun htruthy => ⟨(htrue a t ha htruthy).1, fun _ _ _ => trivial⟩,
        fun htruthy => ⟨(hfalse a t ha htruthy).1, fun _ _ _ => trivial⟩⟩⟩
    · rw [Expression.evaluate]
      refine hkeep.bind fun a t ha _ _ _ => ?_
      split
      · next htruthy => exact (htrue a t ha htruthy).2
      · next htruthy => exact (hfalse a t ha (by simpa using htruthy)).2
  | .call callee arguments, s, ⟨hcallee, harguments⟩, hs, henv => by
    obtain ⟨hcallee', hkeep⟩ := callee.guarded hg hcall hcallee hs henv
    have hnext (f : Value ν) (t : Store ν)
        (hf : (callee.evaluate call env).outcome s = (.ok f, t)) :=
      Expression.allGuarded hg hcall arguments (harguments f t hf).1 (hkeep.ok hf).2.1
        (hg.later hs henv (hkeep.ok hf).1 (hkeep.ok hf).2.1)
    constructor
    · refine ⟨hcallee', fun f t hf => ⟨(hnext f t hf).1, fun args u hargs => ?_⟩⟩
      exact (hcall f args u ((harguments f t hf).2 args u hargs)
        ((hnext f t hf).2.ok hargs).2.1).1
    · rw [Expression.evaluate]
      refine hkeep.bind fun f t hf _ _ _ => (hnext f t hf).2.bind fun args u hargs _ hu _ => ?_
      exact (hcall f args u ((harguments f t hf).2 args u hargs) hu).2
  | .function params body _, _, _, hs, _ =>
    ⟨trivial, Run.guarded_makeClosure hg hs none ⟨params, body⟩⟩
  | .assignment op target value, s, ⟨hvalue, _⟩, hs, henv => by
    obtain ⟨hvalue', hkeep⟩ := value.guarded hg hcall hvalue hs henv
    refine ⟨⟨hvalue', fun _ _ _ => ⟨trivial, fun _ _ _ _ => trivial⟩⟩, ?_⟩
    have hwrite {t : Store ν} {w : Value ν} (ht : g.holds t) (henv : g.allows t env) :
        (do Run.assign env target w; return w : Run ν (Value ν)).Guarded g t fun _ _ => True :=
      (Run.guarded_assign hg ht henv target w).bind fun _ u _ _ hu _ => .pure hu trivial
    rw [Expression.evaluate]
    refine hkeep.bind fun v t _ hst ht _ => ?_
    have henv := hg.later hs henv hst ht
    cases op.binaryOperator? with
    | none => exact hwrite ht henv
    | some o =>
      refine (Run.guarded_read ht target).bind fun w u _ htu hu _ => ?_
      exact hwrite hu (hg.later ht henv htu hu)
  | .update op isBefore target, s, _, hs, henv => by
    refine ⟨⟨trivial, fun _ _ => trivial⟩, ?_⟩
    rw [Expression.evaluate]
    refine (Run.guarded_read hs target).bind fun v t _ hst ht _ => ?_
    refine (Run.guarded_assign hg ht (hg.later hs henv hst ht) target _).bind fun _ u _ _ hu _ => ?_
    exact .pure hu trivial

theorem Expression.allGuarded (hg : g.Lawful) (hcall : g.Guards call follows follows') :
    (es : List (Expression ν)) → {s : Store ν} →
      Expression.allObey .free call follows env es s → g.holds s → g.allows s env →
        Expression.allObey .free call follows' env es s ∧
          (Expression.evaluateAll call env es).Guarded g s fun _ _ => True
  | [], _, _, hs, _ => ⟨trivial, .pure hs trivial⟩
  | e :: es, s, ⟨he, hes⟩, hs, henv => by
    obtain ⟨he', hkeep⟩ := e.guarded hg hcall he hs henv
    have hnext (a : Value ν) (t : Store ν) (ha : (e.evaluate call env).outcome s = (.ok a, t)) :=
      Expression.allGuarded hg hcall es (hes a t ha) (hkeep.ok ha).2.1
        (hg.later hs henv (hkeep.ok ha).1 (hkeep.ok ha).2.1)
    refine ⟨⟨he', fun a t ha => (hnext a t ha).1⟩, ?_⟩
    rw [Expression.evaluateAll]
    refine hkeep.bind fun a t ha _ _ _ => (hnext a t ha).2.bind fun vs u _ _ hu _ => ?_
    exact .pure hu trivial

end

variable {s : Store ν}

theorem Expression.optionGuarded (hg : g.Lawful) (hcall : g.Guards call follows follows') :
    (e : Option (Expression ν)) → Expression.optionObeys .free call follows env e s → g.holds s →
      g.allows s env → Expression.optionObeys .free call follows' env e s
  | none, _, _, _ => trivial
  | some e, h, hs, henv => (e.guarded hg hcall h hs henv).1

/-- The calls of the value that is declared find what holds, and the declaration keeps it. -/
theorem Run.declareGuarded (hg : g.Lawful) (hcall : g.Guards call follows follows') (name : String)
    (init : Option (Expression ν)) (h : Expression.initObeys .free call follows env init s)
    (hs : g.holds s) (henv : g.allows s env) :
    Expression.initObeys .free call follows' env init s ∧
      (Run.declare call env name init).Guarded g s fun _ _ => True := by
  have hdefine {x : Run ν (Value ν)} (hx : x.Guarded g s fun _ _ => True) :
      (do let v ← x; Run.define env name v).Guarded g s fun _ _ => True :=
    hx.bind fun v t _ hst ht _ => Run.guarded_define hg ht (hg.later hs henv hst ht) name v
  cases init with
  | none => exact ⟨trivial, hdefine (.pure hs trivial)⟩
  | some e =>
    cases e with
    | function params body home =>
      exact ⟨trivial, hdefine (Run.guarded_makeClosure hg hs (some name) ⟨params, body⟩)⟩
    | _ =>
      obtain ⟨h', hkeep⟩ := Expression.guarded hg hcall _ h hs henv
      exact ⟨h', hdefine hkeep⟩

theorem LoopStart.guarded (hg : g.Lawful) (hcall : g.Guards call follows follows')
    (start : LoopStart ν) (h : start.Obeys .free call follows env s) (hs : g.holds s)
    (henv : g.allows s env) :
    start.Obeys .free call follows' env s ∧
      (start.run call env).Guarded g s fun _ _ => True := by
  cases start with
  | absent => exact ⟨trivial, .pure hs trivial⟩
  | declaration kind name init =>
    obtain ⟨h', hkeep⟩ := Run.declareGuarded hg hcall name init h hs henv
    exact ⟨h', hkeep.bind fun _ t _ _ ht _ => .pure ht trivial⟩
  | expression e =>
    obtain ⟨h', hkeep⟩ := e.guarded hg hcall h hs henv
    exact ⟨h', hkeep.bind fun _ t _ _ ht _ => .pure ht trivial⟩

theorem Run.holdsGuarded (hg : g.Lawful) (hcall : g.Guards call follows follows')
    (test : Option (Expression ν)) (h : Expression.optionObeys .free call follows env test s)
    (hs : g.holds s) (henv : g.allows s env) :
    (Run.holds call env test).Guarded g s fun _ _ => True := by
  cases test with
  | none => exact .pure hs trivial
  | some e => exact (e.guarded hg hcall h hs henv).2.bind fun _ t _ _ ht _ => .pure ht trivial

theorem Run.proceedGuarded (hg : g.Lawful) (hcall : g.Guards call follows follows')
    (update : Option (Expression ν)) (h : Expression.optionObeys .free call follows env update s)
    (hs : g.holds s) (henv : g.allows s env) :
    (Run.proceed call env update).Guarded g s fun _ _ => True := by
  cases update with
  | none => exact .pure hs trivial
  | some e => exact (e.guarded hg hcall h hs henv).2.bind fun _ t _ _ ht _ => .pure ht trivial

omit [Numeric ν] in
/-- A loop is guarded if each test and each round is, wherever its environment is allowed. -/
theorem Run.roundsGuarded (hg : g.Lawful) {test : Run ν Bool} {body : Run ν (Completion ν)}
    {testObeys bodyObeys testObeys' bodyObeys' : Store ν → Prop}
    (htest : ∀ s, testObeys s → g.holds s → g.allows s env →
      testObeys' s ∧ test.Guarded g s fun _ _ => True)
    (hbody : ∀ s, bodyObeys s → g.holds s → g.allows s env →
      bodyObeys' s ∧ body.Guarded g s fun _ _ => True) (patience : Nat) :
    ∀ s, Run.roundsObey test body testObeys bodyObeys patience s → g.holds s → g.allows s env →
      Run.roundsObey test body testObeys' bodyObeys' patience s ∧
        (Run.rounds test body patience).Guarded g s fun _ _ => True := by
  induction patience with
  | zero => exact fun s _ hs _ => ⟨trivial, .throw _ hs⟩
  | succ patience ih =>
    intro s ⟨hobeys, hrounds⟩ hs henv
    obtain ⟨hobeys', hkeep⟩ := htest s hobeys hs henv
    have hround (t : Store ν) (ht : test.outcome s = (.ok true, t)) :=
      hbody t (hrounds true t ht rfl).1 (hkeep.ok ht).2.1
        (hg.later hs henv (hkeep.ok ht).1 (hkeep.ok ht).2.1)
    have hnext (t u : Store ν) (ht : test.outcome s = (.ok true, t))
        (hu : body.outcome t = (.ok .normal, u)) := by
      obtain ⟨hst, hts, -⟩ := hkeep.ok ht
      obtain ⟨htu, hus, -⟩ := (hround t ht).2.ok hu
      exact ih u ((hrounds true t ht rfl).2 .normal u hu rfl) hus
        (hg.later hs henv (hst.trans htu) hus)
    constructor
    · refine ⟨hobeys', fun holds t ht htrue => ?_⟩
      subst htrue
      refine ⟨(hround t ht).1, fun c u hu hnormal => ?_⟩
      subst hnormal
      exact (hnext t u ht hu).1
    · rw [Run.rounds]
      refine hkeep.bind fun holds t ht _ hts _ => ?_
      cases holds with
      | false => exact .pure hts trivial
      | true =>
        refine (hround t ht).2.bind fun c u hu _ hus _ => ?_
        cases c with
        | returned v => exact .pure hus trivial
        | normal => exact (hnext t u ht hu).2

/-- What is checked of a round of a loop, given what is checked of its body. -/
def Run.roundObeys (call : Caller ν) (follows : CallCheck ν) (scope : Environment)
    (copied : Option String) (update : Option (Expression ν))
    (body : Environment → Run ν (Completion ν)) (bodyObeys : Environment → Store ν → Prop)
    (s : Store ν) : Prop :=
  (Run.extend scope).After s fun iteration s =>
    (Run.copyIn scope iteration copied).After s fun _ s =>
      bodyObeys iteration s ∧ (body iteration).After s fun c s =>
        c = .normal → (Run.copyOut iteration scope copied).After s fun _ s =>
          Expression.optionObeys .free call follows scope update s

theorem Run.roundGuarded (hg : g.Lawful) (hcall : g.Guards call follows follows')
    {body : Environment → Run ν (Completion ν)}
    {bodyObeys bodyObeys' : Environment → Store ν → Prop}
    (hbody : ∀ env s, bodyObeys env s → g.holds s → g.allows s env →
      bodyObeys' env s ∧ (body env).Guarded g s fun _ _ => True)
    (copied : Option String) (update : Option (Expression ν))
    (h : Run.roundObeys call follows env copied update body bodyObeys s) (hs : g.holds s)
    (henv : g.allows s env) :
    Run.roundObeys call follows' env copied update body bodyObeys' s ∧
      (Run.round call env copied update body).Guarded g s fun _ _ => True := by
  let iteration : Environment := s.frames.size :: env
  have hextend := Run.outcome_extend env s
  obtain ⟨hst, ht, hiteration⟩ := (Run.guarded_extend hg hs henv).ok hextend
  have hcopyIn := Run.guarded_copyIn hg ht env hiteration copied
  have hinside (u : Store ν)
      (hu : (Run.copyIn env iteration copied).outcome (s.extend env).2 = (.ok (), u)) := by
    obtain ⟨htu, hu', -⟩ := hcopyIn.ok hu
    exact hbody iteration u (h _ _ hextend _ _ hu).1 hu' (hg.later ht hiteration htu hu')
  have hcopyOut (u v : Store ν)
      (hu : (Run.copyIn env iteration copied).outcome (s.extend env).2 = (.ok (), u))
      (hv : (body iteration).outcome u = (.ok .normal, v)) :
      g.holds v ∧ g.allows v env ∧
        (Run.copyOut iteration env copied).Guarded g v fun _ _ => True := by
    obtain ⟨huv, hv', -⟩ := (hinside u hu).2.ok hv
    have henv' := hg.later hs henv (hst.trans ((hcopyIn.ok hu).1.trans huv)) hv'
    exact ⟨hv', henv', Run.guarded_copyOut hg hv' iteration henv' copied⟩
  have hproceed (u v w : Store ν)
      (hu : (Run.copyIn env iteration copied).outcome (s.extend env).2 = (.ok (), u))
      (hv : (body iteration).outcome u = (.ok .normal, v))
      (hw : (Run.copyOut iteration env copied).outcome v = (.ok (), w)) :
      Expression.optionObeys .free call follows' env update w ∧
        (Run.proceed call env update).Guarded g w fun _ _ => True := by
    obtain ⟨hv', henv', hkeep⟩ := hcopyOut u v hu hv
    obtain ⟨hvw, hw', -⟩ := hkeep.ok hw
    have hobeys := (h _ _ hextend _ _ hu).2 _ _ hv rfl _ _ hw
    have henv'' := hg.later hv' henv' hvw hw'
    exact ⟨Expression.optionGuarded hg hcall update hobeys hw' henv'',
      Run.proceedGuarded hg hcall update hobeys hw' henv''⟩
  constructor
  · intro i t hi _ u hu
    cases hi
    refine ⟨(hinside u hu).1, fun c v hv hnormal _ w hw => ?_⟩
    subst hnormal
    exact (hproceed u v w hu hv hw).1
  · refine (Run.guarded_extend hg hs henv).bind fun i t hi _ _ _ => ?_
    cases hi
    refine hcopyIn.bind fun _ u hu _ _ _ => (hinside u hu).2.bind fun c v hv _ hv' _ => ?_
    cases c with
    | returned value => exact .pure hv' trivial
    | normal =>
      refine (hcopyOut u v hu hv).2.2.bind fun _ w hw _ _ _ => ?_
      exact (hproceed u v w hu hv hw).2.bind fun _ x _ _ hx _ => .pure hx trivial

/-- What is checked of the rounds of a loop, given what is checked of its body. -/
def Run.loopObeys (call : Caller ν) (follows : CallCheck ν) (scope : Environment)
    (copied : Option String) (test update : Option (Expression ν))
    (body : Environment → Run ν (Completion ν)) (bodyObeys : Environment → Store ν → Prop)
    (patience : Nat) (s : Store ν) : Prop :=
  Run.roundsObey (Run.holds call scope test) (Run.round call scope copied update body)
    (Expression.optionObeys .free call follows scope test)
    (fun s => True ∧ Run.roundObeys call follows scope copied update body bodyObeys s) patience s

theorem Run.loopGuarded (hg : g.Lawful) (hcall : g.Guards call follows follows')
    {body : Environment → Run ν (Completion ν)}
    {bodyObeys bodyObeys' : Environment → Store ν → Prop}
    (hbody : ∀ env s, bodyObeys env s → g.holds s → g.allows s env →
      bodyObeys' env s ∧ (body env).Guarded g s fun _ _ => True)
    (copied : Option String) (test update : Option (Expression ν)) (patience : Nat)
    (h : Run.loopObeys call follows env copied test update body bodyObeys patience s)
    (hs : g.holds s) (henv : g.allows s env) :
    Run.loopObeys call follows' env copied test update body bodyObeys' patience s ∧
      (Run.rounds (Run.holds call env test) (Run.round call env copied update body)
        patience).Guarded g s fun _ _ => True := by
  refine Run.roundsGuarded hg (fun s h hs henv => ?_) (fun s h hs henv => ?_) patience s h hs henv
  · exact ⟨Expression.optionGuarded hg hcall test h hs henv,
      Run.holdsGuarded hg hcall test h hs henv⟩
  · obtain ⟨h', hkeep⟩ := Run.roundGuarded hg hcall hbody copied update h.2 hs henv
    exact ⟨⟨trivial, h'⟩, hkeep⟩

omit [Numeric ν] in
theorem Run.entersGuarded (hg : g.Lawful) {body : List (Statement ν)} {α : Type}
    {x : Environment → Run ν α} {obeys obeys' : Environment → Store ν → Prop}
    (hinside : ∀ inner t, obeys inner t → g.holds t → g.allows t inner →
      obeys' inner t ∧ (x inner).Guarded g t fun _ _ => True)
    (h : Discipline.free.Enters env body s obeys) (hs : g.holds s) (henv : g.allows s env) :
    Discipline.free.Enters env body s obeys' ∧
      (do let inner ← Run.enter env body; x inner : Run ν α).Guarded g s fun _ _ => True := by
  have henter := Run.guarded_enter hg hs henv body
  have hnext (inner : Environment) (t : Store ν)
      (ht : (Run.enter env body).outcome s = (.ok inner, t)) :=
    hinside inner t (h.2.2 inner t ht) (henter.ok ht).2.1 (henter.ok ht).2.2
  constructor
  · exact ⟨trivial, fun _ => trivial, fun inner t ht => (hnext inner t ht).1⟩
  · exact henter.bind fun inner t ht _ _ _ => (hnext inner t ht).2

mutual

/-- The calls of a statement that runs in an allowed environment find what holds, and the statement
keeps it. -/
theorem Statement.guarded (hg : g.Lawful) (hcall : g.Guards call follows follows')
    {patience : Nat} : (st : Statement ν) → {env : Environment} → {s : Store ν} →
      st.Obeys .free call follows patience env s → g.holds s → g.allows s env →
        st.Obeys .free call follows' patience env s ∧
          (st.execute patience call env).Guarded g s fun _ _ => True
  | .block body, env, s, h, hs, henv => by
    rw [Statement.Obeys] at h
    rw [Statement.Obeys, Statement.execute]
    exact Run.entersGuarded hg (fun inner t => Statement.allGuarded hg hcall body) h hs henv
  | .expression e, env, s, h, hs, henv => by
    rw [Statement.Obeys] at h
    rw [Statement.Obeys, Statement.execute]
    obtain ⟨h', hkeep⟩ := e.guarded hg hcall h hs henv
    exact ⟨h', hkeep.bind fun _ t _ _ ht _ => .pure ht trivial⟩
  | .result none, env, s, _, hs, _ => by
    rw [Statement.Obeys, Statement.execute]
    exact ⟨trivial, .pure hs trivial⟩
  | .result (some e), env, s, h, hs, henv => by
    rw [Statement.Obeys] at h
    rw [Statement.Obeys, Statement.execute]
    obtain ⟨h', hkeep⟩ := e.guarded hg hcall h.1 hs henv
    exact ⟨⟨h', fun _ _ _ => trivial⟩, hkeep.bind fun _ t _ _ ht _ => .pure ht trivial⟩
  | .branch test consequent alternate, env, s, h, hs, henv => by
    rw [Statement.Obeys] at h
    obtain ⟨-, -, htest, hsides⟩ := h
    obtain ⟨htest', hkeep⟩ := test.guarded hg hcall htest hs henv
    have htrue (v : Value ν) (t : Store ν) (ht : (test.evaluate call env).outcome s = (.ok v, t))
        (htruthy : v.isTruthy = true) :=
      Run.entersGuarded hg (fun inner t => consequent.guarded hg hcall)
        ((hsides v t ht).2.1 htruthy) (hkeep.ok ht).2.1
        (hg.later hs henv (hkeep.ok ht).1 (hkeep.ok ht).2.1)
    have hfalse (v : Value ν) (t : Store ν) (ht : (test.evaluate call env).outcome s = (.ok v, t))
        (htruthy : v.isTruthy = false) (a : Statement ν) (ha : alternate = some a) :=
      Run.entersGuarded hg (fun inner t => a.guarded hg hcall)
        (by
          have h := (hsides v t ht).2.2 htruthy
          rw [ha] at h
          exact h) (hkeep.ok ht).2.1
        (hg.later hs henv (hkeep.ok ht).1 (hkeep.ok ht).2.1)
    rw [Statement.Obeys]
    constructor
    · refine ⟨trivial, fun _ _ => trivial, htest', fun v t ht => ⟨trivial, fun htruthy => ?_,
        fun htruthy => ?_⟩⟩
      · exact (htrue v t ht htruthy).1
      · cases alternate with
        | none => trivial
        | some a => exact (hfalse v t ht htruthy a rfl).1
    · unfold Statement.execute
      refine hkeep.bind fun v t ht _ hts _ => ?_
      split
      · next htruthy => exact (htrue v t ht htruthy).2
      · next htruthy =>
        cases alternate with
        | none => exact .pure hts trivial
        | some a => exact (hfalse v t ht (by simpa using htruthy) a rfl).2
  | .loop start test update body, env, s, h, hs, henv => by
    rw [Statement.Obeys] at h
    obtain ⟨-, -, -, h⟩ := h
    have hextend := Run.outcome_extend env s
    obtain ⟨-, ht, hscope⟩ := (Run.guarded_extend hg hs henv).ok hextend
    obtain ⟨hstart, hrounds⟩ := h _ _ hextend
    obtain ⟨hstart', hkeep⟩ := start.guarded hg hcall hstart ht hscope
    have hinside (inner : Environment) (t : Store ν)
        (h : body.Obeys .free call follows patience inner t) (ht : g.holds t)
        (hinner : g.allows t inner) := body.guarded hg hcall h ht hinner
    have hbody (iteration : Environment) (t : Store ν)
        (h : Discipline.free.Enters iteration [body] t fun inner u =>
          body.Obeys .free call follows patience inner u) :=
      Run.entersGuarded hg hinside h
    have hloop (copied : Option String) (u : Store ν)
        (hu : (start.run call (s.frames.size :: env)).outcome (s.extend env).2 =
          (.ok copied, u)) := by
      obtain ⟨htu, hu', -⟩ := hkeep.ok hu
      exact Run.loopGuarded hg hcall hbody copied test update patience (hrounds copied u hu) hu'
        (hg.later ht hscope htu hu')
    rw [Statement.Obeys, Statement.execute]
    constructor
    · refine ⟨trivial, trivial, trivial, fun scope t ht => ?_⟩
      cases ht
      exact ⟨hstart', fun copied u hu => (hloop copied u hu).1⟩
    · refine (Run.guarded_extend hg hs henv).bind fun scope t ht _ _ _ => ?_
      cases ht
      exact hkeep.bind fun copied u hu _ _ _ => (hloop copied u hu).2
  | .declaration kind name init, env, s, h, hs, henv => by
    rw [Statement.Obeys] at h
    rw [Statement.Obeys, Statement.execute]
    obtain ⟨h', hkeep⟩ := Run.declareGuarded hg hcall name init h hs henv
    exact ⟨h', hkeep.bind fun _ t _ _ ht _ => .pure ht trivial⟩
  | .function _ _ _, env, s, _, hs, _ => by
    rw [Statement.Obeys, Statement.execute]
    exact ⟨trivial, .pure hs trivial⟩

theorem Statement.allGuarded (hg : g.Lawful) (hcall : g.Guards call follows follows')
    {patience : Nat} : (ss : List (Statement ν)) → {env : Environment} → {s : Store ν} →
      Statement.allObey .free call follows patience env ss s → g.holds s → g.allows s env →
        Statement.allObey .free call follows' patience env ss s ∧
          (Statement.executeAll patience call env ss).Guarded g s fun _ _ => True
  | [], env, s, _, hs, _ => by
    rw [Statement.allObey, Statement.executeAll]
    exact ⟨trivial, .pure hs trivial⟩
  | st :: rest, env, s, h, hs, henv => by
    rw [Statement.allObey] at h
    obtain ⟨hst, hkeep⟩ := st.guarded hg hcall h.1 hs henv
    have hnext (t : Store ν) (ht : (st.execute patience call env).outcome s = (.ok .normal, t)) :=
      Statement.allGuarded hg hcall rest (h.2 _ t ht rfl) (hkeep.ok ht).2.1
        (hg.later hs henv (hkeep.ok ht).1 (hkeep.ok ht).2.1)
    rw [Statement.allObey, Statement.executeAll]
    constructor
    · refine ⟨hst, fun c t ht hnormal => ?_⟩
      subst hnormal
      exact (hnext t ht).1
    · refine hkeep.bind fun c t ht _ hts _ => ?_
      cases c with
      | returned v => exact .pure hts trivial
      | normal => exact (hnext t ht).2

end

end

/-! ## Unguarded runs -/

section

variable [Numeric ν] {call : Caller ν} {follows : CallCheck ν} {env : Environment}

mutual

/-- Every expression stays within the free discipline if every call does. -/
theorem Expression.obeys_free (hcall : ∀ f args s, follows f args s) : (e : Expression ν) →
    {s : Store ν} → e.Obeys .free call follows env s
  | .literal _, _ | .builtin _, _ | .identifier _, _ | .function _ _ _, _ => trivial
  | .array [head, tail], _ => ⟨head.obeys_free hcall, fun _ _ _ => tail.obeys_free hcall⟩
  | .array [], _ | .array [_], _ | .array (_ :: _ :: _ :: _), _ => id
  | .member object property, _ =>
    ⟨object.obeys_free hcall, fun _ _ _ => ⟨property.obeys_free hcall, fun _ _ _ => trivial⟩⟩
  | .unary _ argument, _ => ⟨argument.obeys_free hcall, fun _ _ _ => trivial⟩
  | .binary _ left right, _ =>
    ⟨left.obeys_free hcall, fun _ _ _ => ⟨right.obeys_free hcall, fun _ _ _ => trivial⟩⟩
  | .logical _ left right, _ =>
    ⟨left.obeys_free hcall, fun _ _ _ => ⟨trivial, fun _ =>
      ⟨right.obeys_free hcall, fun _ _ _ => trivial⟩⟩⟩
  | .conditional test consequent alternate, _ =>
    ⟨test.obeys_free hcall, fun _ _ _ => ⟨trivial,
      fun _ => ⟨consequent.obeys_free hcall, fun _ _ _ => trivial⟩,
      fun _ => ⟨alternate.obeys_free hcall, fun _ _ _ => trivial⟩⟩⟩
  | .call callee arguments, _ =>
    ⟨callee.obeys_free hcall, fun _ _ _ =>
      ⟨Expression.allObey_free hcall arguments, fun _ _ _ => hcall _ _ _⟩⟩
  | .assignment _ _ value, _ =>
    ⟨value.obeys_free hcall, fun _ _ _ => ⟨trivial, fun _ _ _ _ => trivial⟩⟩
  | .update _ _ _, _ => ⟨trivial, fun _ _ => trivial⟩

theorem Expression.allObey_free (hcall : ∀ f args s, follows f args s) :
    (es : List (Expression ν)) → {s : Store ν} → Expression.allObey .free call follows env es s
  | [], _ => trivial
  | e :: es, _ => ⟨e.obeys_free hcall, fun _ _ _ => Expression.allObey_free hcall es⟩

end

theorem Expression.optionObeys_free (hcall : ∀ f args s, follows f args s)
    (e : Option (Expression ν)) {s : Store ν} :
    Expression.optionObeys .free call follows env e s := by
  cases e with
  | none => trivial
  | some e => exact e.obeys_free hcall

theorem Expression.initObeys_free (hcall : ∀ f args s, follows f args s)
    (e : Option (Expression ν)) {s : Store ν} :
    Expression.initObeys .free call follows env e s := by
  cases e with
  | none => trivial
  | some e =>
    cases e with
    | function params body home => trivial
    | _ => exact Expression.obeys_free hcall _

omit [Numeric ν] in
theorem Run.roundsObey_of_forall {test : Run ν Bool} {body : Run ν (Completion ν)}
    {testObeys bodyObeys : Store ν → Prop} (htest : ∀ s, testObeys s) (hbody : ∀ s, bodyObeys s)
    (patience : Nat) : ∀ s, Run.roundsObey test body testObeys bodyObeys patience s := by
  induction patience with
  | zero => exact fun _ => trivial
  | succ patience ih => exact fun s => ⟨htest s, fun _ t _ _ => ⟨hbody t, fun _ u _ _ => ih u⟩⟩

mutual

theorem Statement.obeys_free (hcall : ∀ f args s, follows f args s) {patience : Nat} :
    (st : Statement ν) → {env : Environment} → {s : Store ν} →
      st.Obeys .free call follows patience env s
  | .block body, _, _ => by
    rw [Statement.Obeys]
    exact ⟨trivial, fun _ => trivial, fun _ _ _ => Statement.allObey_free hcall body⟩
  | .expression e, _, _ => by
    rw [Statement.Obeys]
    exact e.obeys_free hcall
  | .result none, _, _ => by
    rw [Statement.Obeys]
    trivial
  | .result (some e), _, _ => by
    rw [Statement.Obeys]
    exact ⟨e.obeys_free hcall, fun _ _ _ => trivial⟩
  | .branch test consequent alternate, env, s => by
    rw [Statement.Obeys]
    refine ⟨trivial, fun _ _ => trivial, test.obeys_free hcall, fun v t _ => ⟨trivial, fun _ => ?_,
      fun _ => ?_⟩⟩
    · exact ⟨trivial, fun _ => trivial, fun _ _ _ => consequent.obeys_free hcall⟩
    · cases alternate with
      | none => trivial
      | some a => exact ⟨trivial, fun _ => trivial, fun _ _ _ => a.obeys_free hcall⟩
  | .loop start test update body, env, s => by
    rw [Statement.Obeys]
    refine ⟨trivial, trivial, trivial, fun scope t _ => ⟨?_, fun copied u _ => ?_⟩⟩
    · cases start with
      | absent => trivial
      | declaration kind name init => exact Expression.initObeys_free hcall init
      | expression e => exact e.obeys_free hcall
    · refine Run.roundsObey_of_forall (fun _ => Expression.optionObeys_free hcall test)
        (fun s => ⟨trivial, fun _ _ _ _ _ _ => ⟨⟨trivial, fun _ => trivial, fun _ _ _ => ?_⟩, ?_⟩⟩)
        patience u
      · exact body.obeys_free hcall
      · exact fun _ _ _ _ _ _ _ => Expression.optionObeys_free hcall update
  | .declaration _ _ init, _, _ => by
    rw [Statement.Obeys]
    exact Expression.initObeys_free hcall init
  | .function _ _ _, _, _ => by
    rw [Statement.Obeys]
    trivial

theorem Statement.allObey_free (hcall : ∀ f args s, follows f args s) {patience : Nat} :
    (ss : List (Statement ν)) → {env : Environment} → {s : Store ν} →
      Statement.allObey .free call follows patience env ss s
  | [], _, _ => by
    rw [Statement.allObey]
    trivial
  | st :: rest, _, _ => by
    rw [Statement.allObey]
    exact ⟨st.obeys_free hcall, fun _ _ _ _ => Statement.allObey_free hcall rest⟩

end

end

def Guard.none : Guard ν := ⟨fun _ => True, fun _ _ => True⟩

theorem Guard.none_lawful : (Guard.none : Guard ν).Lawful :=
  ⟨fun _ => trivial, fun _ => trivial, fun _ => trivial, fun _ _ => trivial, fun _ _ _ => trivial,
    fun _ _ => trivial, fun _ _ _ _ => trivial⟩

/-! ## Calls -/

section

variable [Numeric ν]

end

end Waveform
