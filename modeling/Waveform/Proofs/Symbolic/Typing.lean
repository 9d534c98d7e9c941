import Waveform.Proofs.Symbolic.Reading

/-!
# Typed statements

A static check of statements over numbers and truth values. Every variable is initialised where it
is declared and keeps its type; functions, calls and loops are not checked at all. Running a
statement that passes the check stays typed and ends, and every frame of the statement goes on
binding its variables to values of their types.
-/

namespace Waveform

variable {M : Mathematics}

inductive Ty
  | number
  | boolean
  deriving DecidableEq, Repr

def Value.HasType (v : Value (Exact M)) : Ty → Prop
  | .number => v.IsNumber
  | .boolean => v.IsBoolean

theorem Value.HasType.isScalar {v : Value (Exact M)} {t : Ty} (h : v.HasType t) : v.IsScalar := by
  cases t with
  | number => exact .inl h
  | boolean => exact .inr h

/-- The variables that a frame binds so far, and their types. -/
abbrev TypeScope := List (String × Ty)

/-- The variables of the frames of an environment, the innermost first. -/
abbrev TypeContext := List TypeScope

def TypeContext.find? : TypeContext → String → Option Ty
  | [], _ => none
  | scope :: outer, name =>
    match scope.lookup name with
    | some t => some t
    | none => find? outer name

def UnaryOperator.type? : UnaryOperator → Ty → Option Ty
  | .minus, .number | .plus, .number => some .number
  | .not, .boolean => some .boolean
  | _, _ => none

def BinaryOperator.type? : BinaryOperator → Ty → Ty → Option Ty
  | .add, .number, .number | .subtract, .number, .number | .multiply, .number, .number =>
    some .number
  | .lessThan, .number, .number | .lessThanOrEqual, .number, .number
  | .greaterThan, .number, .number | .greaterThanOrEqual, .number, .number => some .boolean
  | .strictEqual, _, _ | .strictNotEqual, _, _ | .equal, _, _ | .notEqual, _, _ => some .boolean
  | _, _, _ => none

/-- The type of a variable of the given type after an assignment of a value of the given type. -/
def AssignmentOperator.type? (op : AssignmentOperator) (target value : Ty) : Option Ty :=
  match op.binaryOperator? with
  | none => if target = value then some target else none
  | some op => if op.type? target value = some target then some target else none

def Expression.type? (Γ : TypeContext) : Expression (Exact M) → Option Ty
  | .literal (.number x) => x.value?.map fun _ => .number
  | .literal (.boolean _) => some .boolean
  | .identifier name => Γ.find? name
  | .unary op a => (a.type? Γ).bind op.type?
  | .binary op a b => (a.type? Γ).bind fun s => (b.type? Γ).bind fun t => op.type? s t
  | .logical _ a b =>
    if a.type? Γ = some .boolean ∧ b.type? Γ = some .boolean then some .boolean else none
  | .conditional t a b =>
    if t.type? Γ = some .boolean ∧ a.type? Γ = b.type? Γ then a.type? Γ else none
  | .assignment op name e =>
    (Γ.find? name).bind fun s => (e.type? Γ).bind fun t => op.type? s t
  | .update _ _ name => if Γ.find? name = some .number then some .number else none
  | _ => none

mutual

def Statement.check (outer : TypeContext) (scope : TypeScope) :
    Statement (Exact M) → Option TypeScope
  | .block body => (Statement.checkAll (scope :: outer) [] body).map fun _ => scope
  | .expression e => (e.type? (scope :: outer)).map fun _ => scope
  | .result none => some scope
  | .result (some e) => (e.type? (scope :: outer)).map fun _ => scope
  | .branch test consequent none =>
    if test.type? (scope :: outer) = some .boolean ∧ consequent.isDeclaration = false then
      (consequent.check (scope :: outer) []).map fun _ => scope
    else none
  | .branch test consequent (some alternate) =>
    if test.type? (scope :: outer) = some .boolean ∧ consequent.isDeclaration = false ∧
        alternate.isDeclaration = false then
      (consequent.check (scope :: outer) []).bind fun _ =>
        (alternate.check (scope :: outer) []).map fun _ => scope
    else none
  | .declaration _ name (some e) => (e.type? (scope :: outer)).map fun t => (name, t) :: scope
  | .declaration _ _ none | .function _ _ _ | .loop _ _ _ _ => none

def Statement.checkAll (outer : TypeContext) (scope : TypeScope) :
    List (Statement (Exact M)) → Option TypeScope
  | [] => some scope
  | s :: rest => (s.check outer scope).bind fun scope => Statement.checkAll outer scope rest

end

/-- The frame binds the variables of the scope, to values of their types, and nothing else. -/
def TypeScope.Binds (scope : TypeScope) (b : Bindings (Value (Exact M))) : Prop :=
  ∀ name, Option.Rel (fun t (v : Value (Exact M)) => v.HasType t) (scope.lookup name) (b.find? name)

/-- Every frame of the environment binds its variables to values of their types. -/
def TypeContext.HoldsIn (s : Store (Exact M)) : TypeContext → Environment → Prop
  | [], env => ∀ i ∈ env, i < s.frames.size
  | scope :: outer, i :: env =>
    i < s.frames.size ∧ i ∉ env ∧ scope.Binds (s.frame i) ∧ TypeContext.HoldsIn s outer env
  | _ :: _, [] => False

namespace TypeContext

variable {s : Store (Exact M)} {Γ : TypeContext} {env : Environment}

theorem HoldsIn.lt_size (h : Γ.HoldsIn s env) : ∀ i ∈ env, i < s.frames.size := by
  induction Γ generalizing env with
  | nil => exact h
  | cons scope outer ih =>
    cases env with
    | nil => nofun
    | cons i env =>
      obtain ⟨hi, -, -, houter⟩ := h
      intro j hj
      obtain rfl | hj := List.mem_cons.1 hj
      · exact hi
      · exact ih houter j hj

theorem HoldsIn.of_frames {t : Store (Exact M)} (h : Γ.HoldsIn s env)
    (hsize : s.frames.size ≤ t.frames.size) (hframe : ∀ i ∈ env, t.frame i = s.frame i) :
    Γ.HoldsIn t env := by
  induction Γ generalizing env with
  | nil => exact fun i hi => Nat.lt_of_lt_of_le (h i hi) hsize
  | cons scope outer ih =>
    cases env with
    | nil => exact h
    | cons i env =>
      obtain ⟨hi, hnot, hbinds, houter⟩ := h
      refine ⟨Nat.lt_of_lt_of_le hi hsize, hnot, ?_, ih houter fun j hj => ?_⟩
      · rw [hframe i (List.mem_cons_self ..)]
        exact hbinds
      · exact hframe j (List.mem_cons_of_mem _ hj)

theorem HoldsIn.extend (h : Γ.HoldsIn s env) :
    TypeContext.HoldsIn (s.extend env).2 ([] :: Γ) (s.frames.size :: env) := by
  refine ⟨by simp, fun hmem => Nat.lt_irrefl _ (h.lt_size _ hmem), fun name => ?_, ?_⟩
  · rw [Store.frame_extend, Store.frame_of_le (Nat.le_refl _)]
    exact .none
  · exact h.of_frames (by simp) fun i _ => Store.frame_extend s env i

theorem HoldsIn.lookup (h : Γ.HoldsIn s env) {name : String} {t : Ty} (ht : Γ.find? name = some t) :
    ∃ v, s.lookup? name env = some v ∧ v.HasType t := by
  induction Γ generalizing env with
  | nil => cases ht
  | cons scope outer ih =>
    cases env with
    | nil => exact h.elim
    | cons i env =>
      obtain ⟨-, -, hbinds, houter⟩ := h
      have hrel := hbinds name
      rw [find?] at ht
      rw [Store.lookup?]
      split at ht
      · next u hu =>
        cases ht
        rw [hu] at hrel
        cases hfind : (s.frame i).find? name with
        | none =>
          rw [hfind] at hrel
          cases hrel
        | some v =>
          rw [hfind] at hrel
          cases hrel with
          | some hv => exact ⟨v, rfl, hv⟩
      · next hu =>
        rw [hu] at hrel
        cases hfind : (s.frame i).find? name with
        | none => exact ih houter ht
        | some v =>
          rw [hfind] at hrel
          cases hrel

theorem HoldsIn.assign (h : Γ.HoldsIn s env) {name : String} {t : Ty}
    (ht : Γ.find? name = some t) {v : Value (Exact M)} (hv : v.HasType t) :
    ∃ i, s.owner? name env = some i ∧ Γ.HoldsIn (s.bind i name v) env := by
  induction Γ generalizing env with
  | nil => cases ht
  | cons scope outer ih =>
    cases env with
    | nil => exact h.elim
    | cons i env =>
      obtain ⟨hi, hnot, hbinds, houter⟩ := h
      have hrel := hbinds name
      rw [find?] at ht
      rw [Store.owner?, Bindings.contains]
      split at ht
      · next u hu =>
        cases ht
        rw [hu] at hrel
        cases hfind : (s.frame i).find? name with
        | none =>
          rw [hfind] at hrel
          cases hrel
        | some w =>
          refine ⟨i, rfl, by simpa using hi, hnot, fun other => ?_, ?_⟩
          · rw [Store.frame_bind _ _ _ _ _ hi, if_pos rfl, Bindings.find?_insert]
            split
            · next heq =>
              rw [heq, hu]
              exact .some hv
            · exact hbinds other
          · refine houter.of_frames (by simp) fun j hj => ?_
            rw [Store.frame_bind _ _ _ _ _ hi, if_neg fun hji : j = i => hnot (hji ▸ hj)]
      · next hu =>
        rw [hu] at hrel
        cases hfind : (s.frame i).find? name with
        | some w =>
          rw [hfind] at hrel
          cases hrel
        | none =>
          obtain ⟨k, hk, hholds⟩ := ih houter ht
          have hmem : k ∈ env := (Store.owner?_eq_some_iff hk).1
          have hki : i ≠ k := fun hik => hnot (hik ▸ hmem)
          refine ⟨k, hk, by simpa using hi, hnot, ?_, hholds⟩
          rw [Store.frame_bind _ _ _ _ _ (houter.lt_size k hmem), if_neg hki]
          exact hbinds

theorem HoldsIn.declare {scope : TypeScope} {i : Nat}
    (h : TypeContext.HoldsIn s (scope :: Γ) (i :: env)) (name : String) {t : Ty}
    {v : Value (Exact M)} (hv : v.HasType t) :
    TypeContext.HoldsIn (s.define (i :: env) name v) (((name, t) :: scope) :: Γ) (i :: env) := by
  obtain ⟨hi, hnot, hbinds, houter⟩ := h
  refine ⟨by simpa using hi, hnot, fun other => ?_, houter.of_frames (by simp) fun j hj => ?_⟩
  · rw [Store.define, Store.frame_bind _ _ _ _ _ hi, if_pos rfl, Bindings.find?_insert,
      List.lookup_cons]
    by_cases heq : other = name
    · rw [if_pos heq, heq, beq_self_eq_true]
      exact .some hv
    · rw [if_neg heq, beq_eq_false_iff_ne.2 heq]
      exact hbinds other
  · rw [Store.define, Store.frame_bind _ _ _ _ _ hi, if_neg fun hji : j = i => hnot (hji ▸ hj)]

end TypeContext

/-! ## Operators -/

theorem UnaryOperator.type?_sound {op : UnaryOperator} {s t : Ty} {v : Value (Exact M)}
    (h : op.type? s = some t) (hv : v.HasType s) :
    (∃ d, Meaning.unary op (.ofValue v) = some d) ∧ (op.apply v).HasType t := by
  cases op with
  | minus | plus =>
    cases s with
    | number =>
      cases h
      obtain ⟨q, rfl⟩ := hv
      exact ⟨⟨_, rfl⟩, _, rfl⟩
    | boolean => cases h
  | not =>
    cases s with
    | number => cases h
    | boolean =>
      cases h
      obtain ⟨b, rfl⟩ := hv
      exact ⟨⟨_, rfl⟩, _, rfl⟩
  | typeOf => cases h

theorem BinaryOperator.type?_sound {op : BinaryOperator} {s t r : Ty} {u v : Value (Exact M)}
    (h : op.type? s t = some r) (hu : u.HasType s) (hv : v.HasType t) :
    (u.isOnePair v = false ∧ ∃ d, Meaning.binary op (.ofValue u) (.ofValue v) = some d) ∧
      (op.apply u v).HasType r := by
  obtain ⟨l, rfl⟩ := hu.isScalar.isPrimitive
  obtain ⟨m, rfl⟩ := hv.isScalar.isPrimitive
  cases op with
  | strictEqual | strictNotEqual | equal | notEqual =>
    cases h
    exact ⟨⟨rfl, _, rfl⟩, _, rfl⟩
  | add | subtract | multiply | lessThan | lessThanOrEqual | greaterThan | greaterThanOrEqual =>
    cases s with
    | boolean => cases h
    | number =>
      cases t with
      | boolean => cases h
      | number =>
        cases h
        obtain ⟨p, hp⟩ := hu
        obtain ⟨q, hq⟩ := hv
        cases hp
        cases hq
        exact ⟨⟨rfl, _, rfl⟩, _, rfl⟩
  | _ => cases h

/-! ## Expressions -/

section

variable {Γ : TypeContext} {env : Environment} {call : Caller (Exact M)}
  {follows : CallCheck (Exact M)} {s : Store (Exact M)}

def TypeContext.After (Γ : TypeContext) (env : Environment) (t : Ty) (v : Value (Exact M))
    (s : Store (Exact M)) : Prop :=
  v.HasType t ∧ Γ.HoldsIn s env

/-- The expression stays within the discipline of typed runs, and comes to a value of the type. -/
def Expression.Safe (call : Caller (Exact M)) (follows : CallCheck (Exact M)) (Γ : TypeContext)
    (env : Environment) (e : Expression (Exact M)) (t : Ty) (s : Store (Exact M)) : Prop :=
  e.Obeys (.typed False) call follows env s ∧
    (e.evaluate call env).Ensures True s (Γ.After env t)

theorem Run.assign_ensures {name : String} {t : Ty} (hname : Γ.find? name = some t)
    (hs : Γ.HoldsIn s env) {v w : Value (Exact M)} (hv : v.HasType t) (hw : w.HasType t) :
    (do Run.assign env name v; return w : Run (Exact M) (Value (Exact M))).Ensures True s
      (Γ.After env t) := by
  obtain ⟨i, howner, hholds⟩ := hs.assign hname hv
  refine .step (Run.outcome_assign_of_owner howner v) ?_
  exact .of_outcome (Run.outcome_pure w _) ⟨hw, hholds⟩

theorem Expression.safe_assignment {op : AssignmentOperator} {name : String}
    {e : Expression (Exact M)} {r t u : Ty} (hname : Γ.find? name = some t)
    (hop : op.type? t u = some r) (he : e.Safe call follows Γ env u s) :
    (assignment op name e).Safe call follows Γ env r s := by
  obtain ⟨hobeys, hends⟩ := he
  unfold AssignmentOperator.type? at hop
  rw [Safe, Obeys, evaluate]
  cases hbinary : op.binaryOperator? with
  | none =>
    rw [hbinary] at hop
    obtain ⟨rfl, hr⟩ := Option.ite_none_right_eq_some.1 hop
    cases hr
    refine ⟨⟨hobeys, fun v s₁ hv => ⟨trivial, fun o current ho => by cases ho⟩⟩, ?_⟩
    refine hends.bind fun v s₁ _ hstep => ?_
    exact Run.assign_ensures hname hstep.2 hstep.1 hstep.1
  | some o =>
    rw [hbinary] at hop
    obtain ⟨htype, hr⟩ := Option.ite_none_right_eq_some.1 hop
    cases hr
    refine ⟨⟨hobeys, fun v s₁ hv => ⟨trivial, fun o' current ho hcurrent => ?_⟩⟩, ?_⟩
    · cases ho
      obtain ⟨hv, hs₁⟩ := hends.after v s₁ hv
      obtain ⟨w, hw, hwt⟩ := hs₁.lookup hname
      rw [hw] at hcurrent
      cases hcurrent
      exact (BinaryOperator.type?_sound htype hwt hv).1
    · refine hends.bind fun v s₁ _ hstep => ?_
      obtain ⟨hv, hs₁⟩ := hstep
      obtain ⟨w, hw, hwt⟩ := hs₁.lookup hname
      have htyped := (BinaryOperator.type?_sound htype hwt hv).2
      exact .step (Run.outcome_read_of_lookup hw) (Run.assign_ensures hname hs₁ htyped htyped)

theorem Expression.safe_update (op : UpdateOperator) (isBefore : Bool) {name : String}
    (hname : Γ.find? name = some .number) (hs : Γ.HoldsIn s env) :
    (update op isBefore name).Safe call follows Γ env .number s := by
  obtain ⟨v, hv, q, rfl⟩ := hs.lookup hname
  rw [Safe, Obeys, evaluate]
  refine ⟨⟨trivial, fun current hcurrent => ?_⟩, ?_⟩
  · rw [hv] at hcurrent
    cases hcurrent
    exact ⟨q, rfl⟩
  · refine .step (Run.outcome_read_of_lookup hv) ?_
    have htype : op.binaryOperator.type? .number .number = some .number := by cases op <;> rfl
    have hone : (Value.number Numeric.one : Value (Exact M)).HasType .number := ⟨1, rfl⟩
    have hupdated := (BinaryOperator.type?_sound (u := .number (.of q)) htype ⟨q, rfl⟩ hone).2
    refine Run.assign_ensures hname hs hupdated ?_
    cases isBefore with
    | true => exact hupdated
    | false => exact ⟨q, rfl⟩

theorem Expression.safe_of_type? : (e : Expression (Exact M)) → {t : Ty} → {s : Store (Exact M)} →
    e.type? Γ = some t → Γ.HoldsIn s env → e.Safe call follows Γ env t s
  | .literal l, t, s => by
    intro h hs
    refine ⟨trivial, ?_⟩
    rw [evaluate]
    refine .of_outcome (Run.outcome_pure _ s) ⟨?_, hs⟩
    cases l with
    | number x =>
      obtain ⟨q, hq, rfl⟩ := Option.map_eq_some_iff.1 h
      exact ⟨q, congrArg (fun y : Exact M => Value.primitive (.number y)) hq⟩
    | boolean b =>
      cases h
      exact ⟨b, rfl⟩
    | _ => cases h
  | .identifier name, t, s => by
    intro h hs
    obtain ⟨v, hv, ht⟩ := hs.lookup h
    exact ⟨trivial, .of_outcome (Run.outcome_read_of_lookup hv) ⟨ht, hs⟩⟩
  | .unary op a, t, s => by
    intro h hs
    rw [type?] at h
    obtain ⟨u, hu, h⟩ := Option.bind_eq_some_iff.1 h
    obtain ⟨hobeys, hends⟩ := safe_of_type? a hu hs
    refine ⟨⟨hobeys, fun v s₁ hv => ?_⟩, ?_⟩
    · exact (UnaryOperator.type?_sound h (hends.after v s₁ hv).1).1
    · rw [evaluate]
      refine hends.bind fun v s₁ _ hv => .of_outcome (Run.outcome_pure _ s₁) ⟨?_, hv.2⟩
      exact (UnaryOperator.type?_sound h hv.1).2
  | .binary op a b, t, s => by
    intro h hs
    rw [type?] at h
    obtain ⟨u, hu, h⟩ := Option.bind_eq_some_iff.1 h
    obtain ⟨w, hw, h⟩ := Option.bind_eq_some_iff.1 h
    obtain ⟨hobeys, hends⟩ := safe_of_type? a hu hs
    refine ⟨⟨hobeys, fun x s₁ hx => ?_⟩, ?_⟩
    · obtain ⟨hx, hs₁⟩ := hends.after x s₁ hx
      obtain ⟨hobeys', hends'⟩ := safe_of_type? b hw hs₁
      exact ⟨hobeys', fun y s₂ hy => (BinaryOperator.type?_sound h hx (hends'.after y s₂ hy).1).1⟩
    · rw [evaluate]
      refine hends.bind fun x s₁ _ hstep => ?_
      obtain ⟨hx, hs₁⟩ := hstep
      refine (safe_of_type? b hw hs₁).2.bind fun y s₂ _ hstep => ?_
      obtain ⟨hy, hs₂⟩ := hstep
      exact .of_outcome (Run.outcome_pure _ s₂) ⟨(BinaryOperator.type?_sound h hx hy).2, hs₂⟩
  | .logical op a b, t, s => by
    intro h hs
    rw [type?] at h
    obtain ⟨⟨ha, hb⟩, h⟩ := Option.ite_none_right_eq_some.1 h
    cases h
    obtain ⟨hobeys, hends⟩ := safe_of_type? a ha hs
    refine ⟨⟨hobeys, fun x s₁ hx => ?_⟩, ?_⟩
    · obtain ⟨hx, hs₁⟩ := hends.after x s₁ hx
      obtain ⟨hobeys', hends'⟩ := safe_of_type? b hb hs₁
      exact ⟨hx, fun _ => ⟨hobeys', fun y s₂ hy => (hends'.after y s₂ hy).1⟩⟩
    · rw [evaluate]
      refine hends.bind fun x s₁ _ hstep => ?_
      obtain ⟨hx, hs₁⟩ := hstep
      split
      · exact .of_outcome (Run.outcome_pure _ s₁) ⟨hx, hs₁⟩
      · exact (safe_of_type? b hb hs₁).2
  | .conditional c a b, t, s => by
    intro h hs
    rw [type?] at h
    obtain ⟨⟨hc, hab⟩, ha⟩ := Option.ite_none_right_eq_some.1 h
    have hb := hab ▸ ha
    obtain ⟨hobeys, hends⟩ := safe_of_type? c hc hs
    refine ⟨⟨hobeys, fun x s₁ hx => ?_⟩, ?_⟩
    · obtain ⟨hx, hs₁⟩ := hends.after x s₁ hx
      obtain ⟨hobeysA, hendsA⟩ := safe_of_type? a ha hs₁
      obtain ⟨hobeysB, hendsB⟩ := safe_of_type? b hb hs₁
      exact ⟨hx, fun _ => ⟨hobeysA, fun y s₂ hy => (hendsA.after y s₂ hy).1.isScalar⟩,
        fun _ => ⟨hobeysB, fun y s₂ hy => (hendsB.after y s₂ hy).1.isScalar⟩⟩
    · rw [evaluate]
      refine hends.bind fun x s₁ _ hstep => ?_
      obtain ⟨-, hs₁⟩ := hstep
      split
      · exact (safe_of_type? a ha hs₁).2
      · exact (safe_of_type? b hb hs₁).2
  | .assignment op name e, t, s => by
    intro h hs
    rw [type?] at h
    obtain ⟨u, hu, h⟩ := Option.bind_eq_some_iff.1 h
    obtain ⟨w, hw, h⟩ := Option.bind_eq_some_iff.1 h
    exact safe_assignment hu h (safe_of_type? e hw hs)
  | .update op isBefore name, t, s => by
    intro h hs
    rw [type?] at h
    obtain ⟨hname, h⟩ := Option.ite_none_right_eq_some.1 h
    cases h
    exact safe_update op isBefore hname hs
  | .builtin _, _, _ | .array _, _, _ | .member _ _, _, _ | .call _ _, _, _
  | .function _ _ _, _, _ => nofun

/-! ## Statements -/

/-- How a checked statement ends: typed as before, or with a scalar or without a result. -/
def TypeContext.Ends (outer : TypeContext) (env : Environment) (scope : TypeScope) :
    Completion (Exact M) → Store (Exact M) → Prop
  | .normal, s => TypeContext.HoldsIn s (scope :: outer) env
  | .returned v, _ => v.IsScalar ∨ v = .undefined

theorem Statement.hoist_of_check {outer : TypeContext} {scope scope' : TypeScope}
    {body : List (Statement (Exact M))} (h : checkAll outer scope body = some scope')
    (env : Environment) (s : Store (Exact M)) :
    declaresFunction body = false ∧ (hoist env body).outcome s = (.ok (), s) := by
  induction body generalizing scope with
  | nil => exact ⟨rfl, rfl⟩
  | cons st rest ih =>
    rw [checkAll] at h
    obtain ⟨scope₁, hst, hrest⟩ := Option.bind_eq_some_iff.1 h
    cases st with
    | function _ _ _ =>
      rw [check] at hst
      cases hst
    | _ => exact ih hrest

theorem Statement.outcome_enter {outer : TypeContext} {scope scope' : TypeScope}
    {body : List (Statement (Exact M))} (h : checkAll outer scope body = some scope')
    (env : Environment) (s : Store (Exact M)) :
    (Run.enter env body).outcome s = (.ok (s.frames.size :: env), (s.extend env).2) := by
  have hhoist := (hoist_of_check h (s.frames.size :: env) (s.extend env).2).2
  exact Run.bind_ok.2 ⟨_, _, Run.outcome_extend env s, Run.bind_ok.2 ⟨(), _, hhoist, rfl⟩⟩

theorem Statement.enters {Γ : TypeContext} {scope : TypeScope} {body : List (Statement (Exact M))}
    (h : checkAll Γ [] body = some scope) (hs : Γ.HoldsIn s env)
    {inside : Environment → Store (Exact M) → Prop}
    (hinside : TypeContext.HoldsIn (s.extend env).2 ([] :: Γ) (s.frames.size :: env) →
      inside (s.frames.size :: env) (s.extend env).2) :
    (Discipline.typed False).Enters env body s inside := by
  refine ⟨trivial, fun hfunction => ?_, .of_outcome (outcome_enter h env s) (hinside hs.extend)⟩
  rw [(hoist_of_check h env s).1] at hfunction
  cases hfunction

/-- The statement stays within the discipline of typed runs, and ends as it was checked to. -/
def Statement.Safe (call : Caller (Exact M)) (follows : CallCheck (Exact M)) (patience : Nat)
    (outer : TypeContext) (env : Environment) (st : Statement (Exact M)) (scope : TypeScope)
    (s : Store (Exact M)) : Prop :=
  st.Obeys (.typed False) call follows patience env s ∧
    (st.execute patience call env).Ensures True s (outer.Ends env scope)

def Statement.AllSafe (call : Caller (Exact M)) (follows : CallCheck (Exact M)) (patience : Nat)
    (outer : TypeContext) (env : Environment) (body : List (Statement (Exact M)))
    (scope : TypeScope) (s : Store (Exact M)) : Prop :=
  Statement.allObey (.typed False) call follows patience env body s ∧
    (Statement.executeAll patience call env body).Ensures True s (outer.Ends env scope)

theorem TypeContext.Ends.leave {outer : TypeContext} {scope inner : TypeScope} {i : Nat}
    {c : Completion (Exact M)} (h : TypeContext.Ends (scope :: outer) (i :: env) inner c s) :
    outer.Ends env scope c s := by
  cases c with
  | normal => exact h.2.2.2
  | returned v => exact h

theorem Statement.checkAll_singleton {Γ : TypeContext} {scope scope' : TypeScope}
    {st : Statement (Exact M)} (h : st.check Γ scope = some scope') :
    checkAll Γ scope [st] = some scope' := by
  rw [checkAll, h, Option.bind_some, checkAll]

theorem Statement.execute_side {outer : TypeContext} {scope inner : TypeScope} {patience : Nat}
    {st : Statement (Exact M)} (h : st.check (scope :: outer) [] = some inner)
    (hsafe : st.Safe call follows patience (scope :: outer) (s.frames.size :: env) inner
      (s.extend env).2) :
    (do
      let inner ← Run.enter env [st]
      st.execute patience call inner : Run (Exact M) (Completion (Exact M))).Ensures True s
        (outer.Ends env scope) :=
  .step (outcome_enter (checkAll_singleton h) env s) (hsafe.2.mono fun _ _ hend => hend.leave)

mutual

theorem Statement.safe_of_check (patience : Nat) : (st : Statement (Exact M)) →
    {outer : TypeContext} → {scope scope' : TypeScope} → {env : Environment} →
      {s : Store (Exact M)} → st.check outer scope = some scope' →
        TypeContext.HoldsIn s (scope :: outer) env →
          st.Safe call follows patience outer env scope' s
  | .block body, outer, scope, scope', env, s => by
    intro h hs
    rw [check] at h
    obtain ⟨inner, hbody, rfl⟩ := Option.map_eq_some_iff.1 h
    have hsafe := allSafe_of_checkAll patience body hbody hs.extend
    refine ⟨?_, ?_⟩
    · rw [Obeys]
      exact enters hbody hs fun _ => hsafe.1
    · rw [execute]
      exact .step (outcome_enter hbody env s) (hsafe.2.mono fun _ _ hend => hend.leave)
  | .expression e, outer, scope, scope', env, s => by
    intro h hs
    rw [check] at h
    obtain ⟨t, ht, rfl⟩ := Option.map_eq_some_iff.1 h
    obtain ⟨hobeys, hends⟩ := Expression.safe_of_type? e ht hs
    refine ⟨hobeys, ?_⟩
    rw [execute]
    exact hends.bind fun v s₁ _ hv => .of_outcome (Run.outcome_pure _ s₁) hv.2
  | .result none, outer, scope, scope', env, s => by
    intro h hs
    refine ⟨trivial, ?_⟩
    rw [execute]
    exact .of_outcome (Run.outcome_pure _ s) (.inr rfl)
  | .result (some e), outer, scope, scope', env, s => by
    intro h hs
    rw [check] at h
    obtain ⟨t, ht, rfl⟩ := Option.map_eq_some_iff.1 h
    obtain ⟨hobeys, hends⟩ := Expression.safe_of_type? e ht hs
    refine ⟨⟨hobeys, fun v s₁ hv => .inr (hends.after v s₁ hv).1.isScalar⟩, ?_⟩
    rw [execute]
    exact hends.bind fun v s₁ _ hv => .of_outcome (Run.outcome_pure _ s₁) (.inl hv.1.isScalar)
  | .branch test consequent none, outer, scope, scope', env, s => by
    intro h hs
    rw [check] at h
    obtain ⟨⟨htest, hconsequent⟩, h⟩ := Option.ite_none_right_eq_some.1 h
    obtain ⟨inner, hinner, rfl⟩ := Option.map_eq_some_iff.1 h
    obtain ⟨hobeys, hends⟩ := Expression.safe_of_type? test htest hs
    have hside {s₁ : Store (Exact M)} (hs₁ : TypeContext.HoldsIn s₁ (scope :: outer) env) :=
      safe_of_check patience consequent hinner hs₁.extend
    refine ⟨⟨hconsequent, nofun, hobeys, fun v s₁ hv => ?_⟩, ?_⟩
    · obtain ⟨hv, hs₁⟩ := hends.after v s₁ hv
      refine ⟨⟨not_false, hv⟩, fun _ => ?_, fun _ => trivial⟩
      exact enters (checkAll_singleton hinner) hs₁ fun _ => (hside hs₁).1
    · rw [execute]
      refine hends.bind fun v s₁ _ ⟨_, hs₁⟩ => ?_
      split
      · exact execute_side hinner (hside hs₁)
      · exact .of_outcome (Run.outcome_pure _ s₁) hs₁
  | .branch test consequent (some alternate), outer, scope, scope', env, s => by
    intro h hs
    rw [check] at h
    obtain ⟨⟨htest, hconsequent, halternate⟩, h⟩ := Option.ite_none_right_eq_some.1 h
    obtain ⟨inner, hinner, h⟩ := Option.bind_eq_some_iff.1 h
    obtain ⟨other, hother, rfl⟩ := Option.map_eq_some_iff.1 h
    obtain ⟨hobeys, hends⟩ := Expression.safe_of_type? test htest hs
    have hside {s₁ : Store (Exact M)} (hs₁ : TypeContext.HoldsIn s₁ (scope :: outer) env) :=
      safe_of_check patience consequent hinner hs₁.extend
    have hotherSide {s₁ : Store (Exact M)} (hs₁ : TypeContext.HoldsIn s₁ (scope :: outer) env) :=
      safe_of_check patience alternate hother hs₁.extend
    refine ⟨⟨hconsequent, fun a ha => ?_, hobeys, fun v s₁ hv => ?_⟩, ?_⟩
    · cases ha
      exact halternate
    · obtain ⟨hv, hs₁⟩ := hends.after v s₁ hv
      refine ⟨⟨not_false, hv⟩, fun _ => ?_, fun _ => ?_⟩
      · exact enters (checkAll_singleton hinner) hs₁ fun _ => (hside hs₁).1
      · exact enters (checkAll_singleton hother) hs₁ fun _ => (hotherSide hs₁).1
    · rw [execute]
      refine hends.bind fun v s₁ _ ⟨_, hs₁⟩ => ?_
      split
      · exact execute_side hinner (hside hs₁)
      · exact execute_side hother (hotherSide hs₁)
  | .declaration kind name (some e), outer, scope, scope', env, s => by
    intro h hs
    rw [check] at h
    obtain ⟨t, ht, rfl⟩ := Option.map_eq_some_iff.1 h
    obtain ⟨hobeys, hends⟩ := Expression.safe_of_type? e ht hs
    obtain ⟨hinit, hdeclare⟩ :
        (Expression.initObeys (.typed False) call follows env (some e) s ↔
        e.Obeys (.typed False) call follows env s) ∧
      Run.declare call env name (some e) = e.evaluate call env >>= Run.define env name := by
      cases e with
      | function _ _ _ => cases ht
      | _ => exact ⟨.rfl, rfl⟩
    refine ⟨hinit.2 hobeys, ?_⟩
    rw [execute, hdeclare, bind_assoc]
    refine hends.bind fun v s₁ _ ⟨hv, hs₁⟩ => ?_
    cases env with
    | nil => exact hs.elim
    | cons i env =>
      exact .step (Run.outcome_define _ _ _ _) (.of_outcome (Run.outcome_pure _ _)
        (hs₁.declare name hv))
  | .declaration _ _ none, _, _, _, _, _ | .function _ _ _, _, _, _, _, _
  | .loop _ _ _ _, _, _, _, _, _ => by
    intro h
    rw [check] at h
    cases h

theorem Statement.allSafe_of_checkAll (patience : Nat) : (body : List (Statement (Exact M))) →
    {outer : TypeContext} → {scope scope' : TypeScope} → {env : Environment} →
      {s : Store (Exact M)} → checkAll outer scope body = some scope' →
        TypeContext.HoldsIn s (scope :: outer) env →
          AllSafe call follows patience outer env body scope' s
  | [], outer, scope, scope', env, s => by
    intro h hs
    rw [checkAll] at h
    cases h
    refine ⟨trivial, ?_⟩
    rw [executeAll]
    exact .of_outcome (Run.outcome_pure _ s) hs
  | st :: rest, outer, scope, scope', env, s => by
    intro h hs
    rw [checkAll] at h
    obtain ⟨scope₁, hst, hrest⟩ := Option.bind_eq_some_iff.1 h
    obtain ⟨hobeys, hends⟩ := safe_of_check patience st hst hs
    refine ⟨⟨hobeys, fun c s₁ hc hnormal => ?_⟩, ?_⟩
    · have hend := hends.after c s₁ hc
      rw [hnormal] at hend
      exact (allSafe_of_checkAll patience rest hrest hend).1
    · rw [executeAll]
      refine hends.bind fun c s₁ _ hend => ?_
      cases c with
      | returned v => exact .of_outcome (Run.outcome_pure _ s₁) hend
      | normal => exact (allSafe_of_checkAll patience rest hrest hend).2

end

end

end Waveform
