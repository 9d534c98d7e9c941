import Waveform.Proofs.Evaluation.Identities
import Waveform.Proofs.Symbolic.Steps

/-!
# Runs that finish

A run that makes calls has to have patience enough. `Run.Finishes` says that with enough of it the
run ends, always with the same value in the same store. For code without a limit on its calls that
leaves the frames that it finds as they are, there is one rule for each kind of tree. What the names
around the code stand for is kept in a list, as `Store.Knows` reads it.
-/

namespace Waveform

variable {ν : Type}

namespace Store

/-- The frames of a store bind what they did before, but for the free names in them. -/
structure Extends (free : Set (Nat × String)) (s t : Store ν) : Prop where
  size : s.frames.size ≤ t.frames.size
  find? : ∀ i < s.frames.size, ∀ name, (i, name) ∉ free →
    (t.frame i).find? name = (s.frame i).find? name

namespace Extends

variable {free free' : Set (Nat × String)} {s t u : Store ν}

theorem refl (free : Set (Nat × String)) (s : Store ν) : s.Extends free s :=
  ⟨Nat.le_refl _, fun _ _ _ _ => rfl⟩

theorem trans (h : s.Extends free t) (h' : t.Extends free u) : s.Extends free u := by
  refine ⟨Nat.le_trans h.size h'.size, fun i hi name hfree => ?_⟩
  rw [h'.find? i (Nat.lt_of_lt_of_le hi h.size) name hfree, h.find? i hi name hfree]

theorem mono (h : s.Extends free t) (hfree : free ⊆ free') : s.Extends free' t :=
  ⟨h.size, fun i hi name hnot => h.find? i hi name fun hmem => hnot (hfree hmem)⟩

theorem widen (h : s.Extends ∅ t) (free : Set (Nat × String)) : s.Extends free t :=
  h.mono (Set.empty_subset free)

theorem narrow (h : s.Extends ∅ t) (hfree : ∀ p ∈ free, s.frames.size ≤ p.1)
    (h' : t.Extends free u) : s.Extends ∅ u := by
  refine ⟨Nat.le_trans h.size h'.size, fun i hi name _ => ?_⟩
  have hnot : (i, name) ∉ free := fun hmem => Nat.not_le_of_lt hi (hfree _ hmem)
  rw [h'.find? i (Nat.lt_of_lt_of_le hi h.size) name hnot,
    h.find? i hi name (Set.notMem_empty _)]

theorem made (s : Store ν) (n : Nat) : s.Extends free { s with made := n } :=
  ⟨Nat.le_refl _, fun _ _ _ _ => rfl⟩

theorem extend (s : Store ν) (env : Environment) : s.Extends free (s.extend env).2 :=
  ⟨by rw [size_extend]; exact Nat.le_succ _, fun i _ name _ => by rw [frame_extend]⟩

theorem bind (h : s.Extends free t) {k : Nat} {name : String}
    (hk : s.frames.size ≤ k ∨ (k, name) ∈ free) (v : Value ν) :
    s.Extends free (t.bind k name v) := by
  refine ⟨by rw [size_bind]; exact h.size, fun i hi other hfree => ?_⟩
  by_cases hlt : k < t.frames.size
  · rw [find?_bind hlt, if_neg, h.find? i hi other hfree]
    rintro ⟨rfl, rfl⟩
    rcases hk with hk | hk
    · omega
    · exact hfree hk
  · rw [bind_of_le (Nat.le_of_not_lt hlt), h.find? i hi other hfree]

theorem bindParams (h : s.Extends free t) {k : Nat} (hk : s.frames.size ≤ k)
    (params : List String) (args : List (Value ν)) :
    s.Extends free (t.bindParams k params args) := by
  induction params generalizing t args with
  | nil => exact h
  | cons p ps ih =>
    cases args with
    | nil => exact ih (h.bind (.inl hk) .undefined) []
    | cons v vs => exact ih (h.bind (.inl hk) v) vs

theorem bindFunction (s : Store ν) (k : Nat) (name : String) {f : Function ν}
    {env : Environment} : s.Extends {(k, name)} (s.bindFunction k name f env) :=
  bind (made s _) (.inr (Set.mem_singleton _)) _

end Extends

theorem HasFrames.later {s t : Store ν} {env : Environment} {free : Set (Nat × String)}
    (h : s.HasFrames env) (hst : s.Extends free t) : t.HasFrames env :=
  h.mono hst.size

/-- Names that stand for the values of a list, where a later entry hides nothing. -/
def Knows (s : Store ν) (env : Environment) (known : List (String × Value ν)) : Prop :=
  ∀ name v, known.lookup name = some v → s.lookup? name env = some v

def entered (known : List (String × Value ν)) :
    List String → List (Value ν) → List (String × Value ν)
  | [], _ => known
  | p :: ps, [] => entered ((p, .undefined) :: known) ps []
  | p :: ps, v :: vs => entered ((p, v) :: known) ps vs

namespace Knows

variable {s t : Store ν} {env : Environment} {known : List (String × Value ν)} {k : Nat}

/-- What is known stays known as long as its names are not free. -/
theorem later_of_notMem {free : Set (Nat × String)} (h : s.Knows env known)
    (henv : s.HasFrames env) (hst : s.Extends free t)
    (hfree : ∀ i ∈ env, ∀ p ∈ known, (i, p.1) ∉ free) : t.Knows env known := by
  intro name v hv
  rw [← h name v hv]
  obtain ⟨before, after, rfl, -⟩ := List.lookup_eq_some_iff.1 hv
  exact lookup?_congr fun i hi => hst.find? i (henv i hi) name
    (hfree i hi (name, v) (List.mem_append_right _ (List.mem_cons_self ..)))

theorem later (h : s.Knows env known) (henv : s.HasFrames env) (hst : s.Extends ∅ t) :
    t.Knows env known :=
  h.later_of_notMem henv hst fun _ _ _ _ => Set.notMem_empty _

theorem bind (h : s.Knows (k :: env) known) (hk : k < s.frames.size) (name : String)
    (v : Value ν) : (s.bind k name v).Knows (k :: env) ((name, v) :: known) := by
  intro other w hw
  rw [lookup?_bind hk]
  rw [List.lookup_cons] at hw
  by_cases hother : other = name
  · subst hother
    rw [if_pos rfl]
    simpa using hw
  · rw [if_neg hother]
    rw [beq_eq_false_iff_ne.2 hother] at hw
    exact h other w hw

theorem bindParams (h : s.Knows (k :: env) known) (hk : k < s.frames.size)
    (params : List String) (args : List (Value ν)) :
    (s.bindParams k params args).Knows (k :: env) (entered known params args) := by
  induction params generalizing s known args with
  | nil => exact h
  | cons p ps ih =>
    cases args with
    | nil => exact ih (h.bind hk p .undefined) (by rwa [size_bind]) []
    | cons v vs => exact ih (h.bind hk p v) (by rwa [size_bind]) vs

theorem extend (h : s.Knows env known) : (s.extend env).2.Knows (s.frames.size :: env) known := by
  intro name v hv
  rw [lookup?_extend, h name v hv]

end Knows

/-- Code runs in a frame of its own, which has been made since the store `base`. -/
structure InFrame (base : Store ν) (k : Nat) (outer : Environment)
    (known : List (String × Value ν)) (s : Store ν) : Prop where
  kept : base.Extends ∅ s
  own : base.frames.size ≤ k
  made : s.HasFrames (k :: outer)
  knows : s.Knows (k :: outer) known

theorem InFrame.bindFunction {base s : Store ν} {k : Nat} {outer : Environment}
    {known : List (String × Value ν)} (h : InFrame base k outer known s) {name : String}
    {f : Function ν} {env : Environment} :
    InFrame base k outer ((name, .closure ⟨s.made, some name, f, env⟩) :: known)
      (s.bindFunction k name f env) := by
  have hk : k < s.frames.size := h.made k (List.mem_cons_self ..)
  refine ⟨(h.kept.trans (.made s _)).bind (.inl h.own) _, h.own, ?_, ?_⟩
  · intro i hi
    rw [size_bindFunction]
    exact h.made i hi
  · exact (h.knows.later h.made (.made s (s.made + 1))).bind hk _ _

end Store

/-! ## Runs -/

namespace Run

variable {α β : Type}

def Finishes (x : Nat → Run ν α) (s : Store ν) (P : α → Store ν → Prop) : Prop :=
  ∃ least a t, (∀ n, least ≤ n → (x n).outcome s = (.ok a, t)) ∧ P a t

variable {x : Nat → Run ν α} {s t : Store ν} {P Q : α → Store ν → Prop}

theorem Finishes.of_outcome {a : α} (h : ∀ n, (x n).outcome s = (.ok a, t)) (hP : P a t) :
    Finishes x s P :=
  ⟨0, a, t, fun n _ => h n, hP⟩

theorem Finishes.mono (h : Finishes x s P) (hPQ : ∀ a t, P a t → Q a t) : Finishes x s Q := by
  obtain ⟨least, a, t, hx, hP⟩ := h
  exact ⟨least, a, t, hx, hPQ a t hP⟩

theorem Finishes.congr {y : Nat → Run ν α} (h : Finishes y t P) (least : Nat)
    (hxy : ∀ n, least ≤ n → (x n).outcome s = (y n).outcome t) : Finishes x s P := by
  obtain ⟨least', a, u, hy, hP⟩ := h
  refine ⟨max least least', a, u, fun n hn => ?_, hP⟩
  rw [hxy n (by omega), hy n (by omega)]

theorem Finishes.bind {f : Nat → α → Run ν β} {R : β → Store ν → Prop}
    (h : Finishes x s fun a t => Finishes (fun n => f n a) t R) :
    Finishes (fun n => x n >>= f n) s R := by
  obtain ⟨least, a, t, hx, hf⟩ := h
  exact hf.congr least fun n hn => outcome_bind_of_ok (hx n hn)

variable [Numeric ν]

def unlimited (patience : Nat) : Caller ν :=
  Run.call none patience 0

theorem call_none (patience depth : Nat) :
    (Run.call none patience depth : Caller ν) = unlimited patience := by
  unfold unlimited
  induction patience generalizing depth with
  | zero => rfl
  | succ patience ih =>
    funext f args
    cases f with
    | closure c => simp only [Run.call, Option.any_none, Bool.false_eq_true, if_false, ih]
    | _ => rfl

/-- The call ends with a value with the property, and keeps all frames. -/
def Returns (f : Value ν) (args : List (Value ν)) (s : Store ν)
    (P : Value ν → Store ν → Prop) : Prop :=
  Finishes (fun n => unlimited n f args) s fun v t => s.Extends ∅ t ∧ P v t

theorem Returns.mono {f : Value ν} {args : List (Value ν)} {P Q : Value ν → Store ν → Prop}
    (h : Returns f args s P) (hPQ : ∀ v t, s.Extends ∅ t → P v t → Q v t) : Returns f args s Q :=
  Finishes.mono h fun v t hP => ⟨hP.1, hPQ v t hP.1 hP.2⟩

end Run

/-! ## Expressions -/

section

variable [Numeric ν]

/-- The evaluation ends with a value with the property, and keeps all frames. -/
def Expression.Yields (e : Expression ν) (env : Environment) (s : Store ν)
    (P : Value ν → Store ν → Prop) : Prop :=
  Run.Finishes (fun n => e.evaluate (Run.unlimited n) env) s fun v t => s.Extends ∅ t ∧ P v t

def Expression.AllYield (es : List (Expression ν)) (env : Environment) (s : Store ν)
    (P : List (Value ν) → Store ν → Prop) : Prop :=
  Run.Finishes (fun n => Expression.evaluateAll (Run.unlimited n) env es) s
    fun vs t => s.Extends ∅ t ∧ P vs t

variable {env : Environment} {s : Store ν} {P Q : Value ν → Store ν → Prop}
  {known : List (String × Value ν)}

namespace Expression

theorem Yields.mono {e : Expression ν} (h : e.Yields env s P)
    (hPQ : ∀ v t, s.Extends ∅ t → P v t → Q v t) : e.Yields env s Q :=
  Run.Finishes.mono h fun v t hP => ⟨hP.1, hPQ v t hP.1 hP.2⟩

theorem Yields.finishes {e : Expression ν} (h : e.Yields env s P) :
    Run.Finishes (fun n => e.evaluate (Run.unlimited n) env) s fun v t => s.Extends ∅ t ∧ P v t :=
  h

theorem Yields.of_outcome {e : Expression ν} {v : Value ν} {t : Store ν}
    (h : ∀ call : Caller ν, (e.evaluate call env).outcome s = (.ok v, t)) (hst : s.Extends ∅ t)
    (hP : P v t) : e.Yields env s P :=
  Run.Finishes.of_outcome (fun n => h (Run.unlimited n)) ⟨hst, hP⟩

theorem Yields.bind {α : Type} {e : Expression ν} {f : Nat → Value ν → Run ν α}
    {R : α → Store ν → Prop}
    (h : e.Yields env s fun v t =>
      Run.Finishes (fun n => f n v) t fun a u => t.Extends ∅ u ∧ R a u) :
    Run.Finishes (fun n => e.evaluate (Run.unlimited n) env >>= f n) s
      fun a u => s.Extends ∅ u ∧ R a u :=
  .bind (Run.Finishes.mono h fun _ _ ht => ht.2.mono fun _ _ hu => ⟨ht.1.trans hu.1, hu.2⟩)

theorem yields_literal {l : Literal ν} (hP : P (.primitive l) s) :
    (Expression.literal l).Yields env s P :=
  .of_outcome (fun _ => rfl) (.refl ∅ s) hP

theorem yields_identifier {name : String} {v : Value ν} (hs : s.Knows env known)
    (hv : known.lookup name = some v) (hP : P v s) : (Expression.identifier name).Yields env s P :=
  .of_outcome (fun _ => Run.outcome_read_of_lookup (hs name v hv)) (.refl ∅ s) hP

theorem yields_function {params : List String} {body : List (Statement ν)} {home : Option Nat}
    (hP : ∀ t, s.Extends ∅ t → ∀ i, P (.closure ⟨i, none, ⟨params, body⟩, env⟩) t) :
    (Expression.function params body home).Yields env s P :=
  .of_outcome (fun _ => rfl) (.made s _) (hP _ (.made s _) s.made)

theorem yields_binary {op : BinaryOperator} {left right : Expression ν}
    (h : left.Yields env s fun v t => right.Yields env t fun w u => P (op.apply v w) u) :
    (Expression.binary op left right).Yields env s P := by
  refine Yields.bind (h.mono fun v t _ hright => ?_)
  exact Yields.bind (hright.mono fun w u _ hP => .of_outcome (fun _ => rfl) ⟨.refl ∅ u, hP⟩)

theorem yields_conditional {test consequent alternate : Expression ν}
    (h : test.Yields env s fun v t =>
      if v.isTruthy then consequent.Yields env t P else alternate.Yields env t P) :
    (Expression.conditional test consequent alternate).Yields env s P := by
  refine Yields.bind (h.mono fun v t _ hside => ?_)
  split at hside
  · next htrue => simpa only [htrue, if_true] using hside.finishes
  · next hfalse => simpa only [hfalse, Bool.false_eq_true, if_false] using hside.finishes

theorem yields_pair {head tail : Expression ν}
    (h : head.Yields env s fun v t => tail.Yields env t fun w u =>
      ∀ r, u.Extends ∅ r → ∀ i, P (.pair i v w) r) :
    (Expression.array [head, tail]).Yields env s P := by
  rw [Yields]
  simp only [Expression.evaluate]
  refine Yields.bind (h.mono fun v t _ htail => ?_)
  refine Yields.bind (htail.mono fun w u _ hP => ?_)
  exact .of_outcome (fun _ => Run.outcome_makePair v w u)
    ⟨.made u _, hP _ (.made u _) u.made⟩

theorem yields_member {object property : Expression ν}
    (h : object.Yields env s fun v t => property.Yields env t fun w u =>
      ∃ r, Run.member v w = pure r ∧ P r u) :
    (Expression.member object property).Yields env s P := by
  refine Yields.bind (h.mono fun v t _ hproperty => ?_)
  refine Yields.bind (hproperty.mono fun w u _ hP => ?_)
  obtain ⟨r, hr, hP⟩ := hP
  exact .of_outcome (fun _ => by rw [hr]; rfl) ⟨.refl ∅ u, hP⟩

theorem allYield_nil {P : List (Value ν) → Store ν → Prop} (hP : P [] s) :
    AllYield [] env s P :=
  .of_outcome (fun _ => rfl) ⟨.refl ∅ s, hP⟩

theorem allYield_cons {e : Expression ν} {es : List (Expression ν)}
    {P : List (Value ν) → Store ν → Prop}
    (h : e.Yields env s fun v t => AllYield es env t fun vs u => P (v :: vs) u) :
    AllYield (e :: es) env s P := by
  refine Yields.bind (h.mono fun v t _ hrest => ?_)
  exact .bind (hrest.mono fun vs u hu => .of_outcome (fun _ => rfl) ⟨hu.1, hu.2⟩)

theorem yields_call {callee : Expression ν} {args : List (Expression ν)}
    (h : callee.Yields env s fun f t => AllYield args env t fun vs u => Run.Returns f vs u P) :
    (Expression.call callee args).Yields env s P := by
  refine Yields.bind (h.mono fun f t _ hargs => ?_)
  exact .bind (hargs.mono fun vs u hu =>
    Run.Finishes.mono hu.2 fun v r hr => ⟨hu.1.trans hr.1, hr.2⟩)

theorem allYield_identifier {name : String} {es : List (Expression ν)} {v : Value ν}
    {P : List (Value ν) → Store ν → Prop} (hs : s.Knows env known)
    (hv : known.lookup name = some v) (h : AllYield es env s fun vs u => P (v :: vs) u) :
    AllYield (.identifier name :: es) env s P :=
  allYield_cons (yields_identifier hs hv h)

theorem yields_call_name {name : String} {args : List (Expression ν)} {f : Value ν}
    (hs : s.Knows env known) (hf : known.lookup name = some f)
    (h : AllYield args env s fun vs u => Run.Returns f vs u P) :
    (Expression.call (.identifier name) args).Yields env s P :=
  yields_call (yields_identifier hs hf h)

theorem yields_call_known {name arg : String} {f v : Value ν} (hs : s.Knows env known)
    (hf : known.lookup name = some f) (hv : known.lookup arg = some v)
    (h : Run.Returns f [v] s P) :
    (Expression.call (.identifier name) [.identifier arg]).Yields env s P :=
  yields_call_name hs hf (allYield_identifier hs hv (allYield_nil h))

end Expression

/-! ## Statements and calls -/

namespace Statement

/-- The statements return a value with the property, and keep the frames of the store. -/
def Returning (x : Nat → Run ν (Completion ν)) (base s : Store ν)
    (P : Value ν → Store ν → Prop) : Prop :=
  Run.Finishes x s fun c t => ∃ v, c = .returned v ∧ base.Extends ∅ t ∧ P v t

def AllReturn (ss : List (Statement ν)) (env : Environment) (base s : Store ν)
    (P : Value ν → Store ν → Prop) : Prop :=
  Returning (fun n => Statement.executeAll n (Run.unlimited n) env ss) base s P

variable {base t : Store ν} {k : Nat} {outer : Environment} {rest : List (Statement ν)}

theorem allReturn_result {e : Expression ν} (hbase : base.Extends ∅ s) (h : e.Yields env s P) :
    AllReturn (.result (some e) :: rest) env base s P := by
  obtain ⟨least, v, t, hv, hst, hP⟩ := h
  exact ⟨least, .returned v, t, fun n hn => executeAll_result (hv n hn), v, rfl,
    hbase.trans hst, hP⟩

theorem allReturn_constant {kind : DeclarationKind} {name : String} {e : Expression ν}
    (hs : Store.InFrame base k outer known s) (h : e.Yields (k :: outer) s Q)
    (he : ∀ params body home, e ≠ .function params body home)
    (hrest : ∀ v t, s.Extends ∅ t → Q v t →
      Store.InFrame base k outer ((name, v) :: known) (t.bind k name v) →
        AllReturn rest (k :: outer) base (t.bind k name v) P) :
    AllReturn (.declaration kind name (some e) :: rest) (k :: outer) base s P := by
  obtain ⟨least, v, t, hv, hst, hQ⟩ := h
  have hmade := hs.made.later hst
  have hk : k < t.frames.size := hmade k (List.mem_cons_self ..)
  have hnext : Store.InFrame base k outer ((name, v) :: known) (t.bind k name v) :=
    ⟨(hs.kept.trans hst).bind (.inl hs.own) v, hs.own, by simpa [Store.HasFrames] using hmade,
      (hs.knows.later hs.made hst).bind hk name v⟩
  exact (hrest v t hst hQ hnext).congr least fun n hn =>
    executeAll_declaration he (hv n hn) kind name

/-- A constant that is what a known function gives for a known name. Nothing else is bound in the
frames that there are. -/
theorem allReturn_call {kind : DeclarationKind} {name callee arg : String} {f a v : Value ν}
    (hs : Store.InFrame base k outer known s) (hf : known.lookup callee = some f)
    (ha : known.lookup arg = some a) (h : Run.Returns f [a] s fun w _ => w = v)
    (hrest : ∀ t, s.Extends {(k, name)} t → Store.InFrame base k outer ((name, v) :: known) t →
      AllReturn rest (k :: outer) base t P) :
    AllReturn (.declaration kind name (some (.call (.identifier callee) [.identifier arg])) :: rest)
      (k :: outer) base s P := by
  apply allReturn_constant hs (Expression.yields_call_known hs.knows hf ha h) fun _ _ _ => nofun
  rintro _ t hst rfl ht
  exact hrest _ ((hst.widen _).bind (.inr (Set.mem_singleton _)) _) ht

theorem allReturn_function {kind : DeclarationKind} {name : String} {params : List String}
    {body : List (Statement ν)} {home : Option Nat} (hs : Store.InFrame base k outer known s)
    (hrest : ∀ i t, s.Extends {(k, name)} t → Store.InFrame base k outer
      ((name, .closure ⟨i, some name, ⟨params, body⟩, k :: outer⟩) :: known) t →
        AllReturn rest (k :: outer) base t P) :
    AllReturn (.declaration kind name (some (.function params body home)) :: rest) (k :: outer)
      base s P :=
  (hrest s.made _ (.bindFunction s k name) hs.bindFunction).congr 0 fun _ _ =>
    executeAll_function ..

theorem outcome_side {side : List (Statement ν)} (hnone : declaresFunction side = false)
    (patience : Nat) (call : Caller ν) :
    (do let inner ← Run.enter env [.block side]
        (Statement.block side).execute patience call inner : Run ν (Completion ν)).outcome s =
      (Statement.executeAll patience call ((s.frames.size + 1) :: s.frames.size :: env)
        side).outcome ((s.extend env).2.extend (s.frames.size :: env)).2 := by
  rw [Run.outcome_bind_of_ok (Run.outcome_enter rfl env s), Statement.execute, Run.enter,
    bind_assoc, Run.outcome_bind_of_ok (Run.outcome_extend _ _), hoist_of_none _ hnone, pure_bind,
    pure_bind]
  simp only [Store.extend, Array.size_push]

theorem allReturn_branch {test : Expression ν} {consequent alternate : List (Statement ν)}
    (hconsequent : declaresFunction consequent = false)
    (halternate : declaresFunction alternate = false)
    (hs : s.Knows env known) (henv : s.HasFrames env)
    (h : test.Yields env s fun v t => ∀ inner u, t.Extends ∅ u → u.HasFrames inner →
      u.Knows inner known →
        AllReturn (if v.isTruthy then consequent else alternate) inner base u P) :
    AllReturn (.branch test (.block consequent) (some (.block alternate)) :: rest)
      env base s P := by
  obtain ⟨least, v, t, hv, hst, hside⟩ := h
  have ht := henv.later hst
  have hopened : t.Extends ∅ ((t.extend env).2.extend (t.frames.size :: env)).2 :=
    (Store.Extends.extend t env).trans (.extend _ _)
  have hframes : ((t.extend env).2.extend (t.frames.size :: env)).2.HasFrames
      ((t.frames.size + 1) :: t.frames.size :: env) := by
    intro i hi
    rw [Store.size_extend, Store.size_extend]
    simp only [List.mem_cons] at hi
    rcases hi with rfl | rfl | hi
    · omega
    · omega
    · have hlt := ht i hi
      omega
  have hknows : ((t.extend env).2.extend (t.frames.size :: env)).2.Knows
      ((t.frames.size + 1) :: t.frames.size :: env) known := by
    have hinner := (hs.later henv hst).extend.extend
    rwa [Store.size_extend] at hinner
  obtain ⟨least', r, u, hu, w, rfl, hbase, hP⟩ := hside _ _ hopened hframes hknows
  refine ⟨max least least', .returned w, u, fun n hn => ?_, w, rfl, hbase, hP⟩
  have hrun := hu n (by omega)
  change (Statement.executeAll n (Run.unlimited n) env (_ :: rest)).outcome s = _
  rw [Statement.executeAll, Statement.execute, bind_assoc,
    Run.outcome_bind_of_ok (hv n (by omega))]
  cases htrue : v.isTruthy with
  | true =>
    rw [htrue, if_pos rfl] at hrun
    exact Run.outcome_bind_of_ok ((outcome_side hconsequent n _).trans hrun)
  | false =>
    rw [htrue, if_neg Bool.false_ne_true] at hrun
    exact Run.outcome_bind_of_ok ((outcome_side halternate n _).trans hrun)

theorem returning_block (hnone : declaresFunction rest = false) (h : AllReturn rest env base s P) :
    Returning (fun n => Run.block n (Run.unlimited n) env rest) base s P :=
  h.congr 0 fun _ _ => by rw [Run.block, hoist_of_none _ hnone, pure_bind]

theorem returning_block_function {name : String} {params : List String}
    {body : List (Statement ν)} (hnone : declaresFunction rest = false)
    (hs : Store.InFrame base k outer known s)
    (h : ∀ i t, Store.InFrame base k outer
      ((name, .closure ⟨i, some name, ⟨params, body⟩, k :: outer⟩) :: known) t →
        AllReturn rest (k :: outer) base t P) :
    Returning (fun n => Run.block n (Run.unlimited n) (k :: outer)
      (.function name params body :: rest)) base s P := by
  refine (h s.made _ hs.bindFunction).congr 0 fun n _ => ?_
  rw [Run.block, Statement.hoist, hoist_of_none _ hnone, bind_assoc,
    Run.outcome_bind_of_ok (Run.outcome_makeClosure ..)]
  rfl

end Statement

theorem Run.returns_closure {c : Closure ν} {args : List (Value ν)}
    (henv : s.HasFrames c.environment) (hknown : s.Knows c.environment known)
    (h : ∀ k t, Store.InFrame s k c.environment
      (Store.entered known c.function.params args) t →
        Statement.Returning (fun n => Run.block n (Run.unlimited n) (k :: c.environment)
          c.function.body) s t P) :
    Run.Returns (.closure c) args s P := by
  have hsize := Store.size_extend s c.environment
  have hframe : Store.InFrame s s.frames.size c.environment
      (Store.entered known c.function.params args)
      ((s.extend c.environment).2.bindParams s.frames.size c.function.params args) :=
    ⟨(Store.Extends.extend s _).bindParams (Nat.le_refl _) _ _, Nat.le_refl _,
      fun i hi => by
        rw [Store.size_bindParams, hsize]
        rcases List.mem_cons.1 hi with rfl | hi
        · omega
        · have hlt := henv i hi
          omega,
      hknown.extend.bindParams (by omega) _ _⟩
  obtain ⟨least, r, u, hu, v, rfl, hsu, hP⟩ := h _ _ hframe
  refine ⟨least + 1, v, u, fun n hn => ?_, hsu, hP⟩
  obtain ⟨n, rfl⟩ : ∃ m, n = m + 1 := ⟨n - 1, by omega⟩
  have hblock := hu n (by omega)
  change (Run.call none (n + 1) 0 (.closure c) args).outcome s = _
  simp only [Run.call, Option.any_none, Bool.false_eq_true, if_false, Run.call_none]
  rw [Run.body, Run.outcome_bind_of_ok (Run.outcome_extend _ s),
    Run.outcome_bind_of_ok (Run.outcome_defineParams _ _ _ _ _), Run.outcome_bind_of_ok hblock]
  rfl

end

end Waveform
