import Waveform.Proofs.Evaluation.Discipline

/-!
# Evaluation in other monads

Evaluation is put together from a few steps that do something to the store (`Run.IsStep`), and
otherwise only hands values on. The same evaluation can be put together in another monad, from
whatever stands for the steps there: `Expression.evaluateIn` and `Statement.executeIn` do so. A
relation between the two monads that holds for each step, and that is kept when one run follows
another, holds for the evaluation of every tree (`Expression.related`, `Statement.related`). What
holds of runs in one monad is the case in which the relation looks at one side.
-/

namespace Waveform

variable {ν : Type} [Numeric ν]

section

variable {m : Type → Type} [Monad m] (step : {α : Type} → Run ν α → m α)
  (call : Value ν → List (Value ν) → m (Value ν))

mutual

/-- The value of an expression, with the steps and the calls of another monad. -/
def Expression.evaluateIn (env : Environment) : Expression ν → m (Value ν)
  | .literal l => pure (.primitive l)
  | .identifier name => step (Run.read env name)
  | .builtin b => pure (.builtin b)
  | .array [head, tail] => do
    let head ← head.evaluateIn env
    let tail ← tail.evaluateIn env
    step (Run.makePair head tail)
  | .array items => step (Run.fail (.notAPair items.length))
  | .member object property => do
    let object ← object.evaluateIn env
    let property ← property.evaluateIn env
    step (Run.member object property)
  | .unary op argument => do
    return op.apply (← argument.evaluateIn env)
  | .binary op left right => do
    let left ← left.evaluateIn env
    let right ← right.evaluateIn env
    return op.apply left right
  | .logical op left right => do
    let left ← left.evaluateIn env
    if op.decides left.isTruthy then return left
    else right.evaluateIn env
  | .conditional test consequent alternate => do
    if (← test.evaluateIn env).isTruthy then consequent.evaluateIn env
    else alternate.evaluateIn env
  | .call callee arguments => do
    let callee ← callee.evaluateIn env
    let arguments ← Expression.evaluateAllIn env arguments
    call callee arguments
  | .function params body _ => step (Run.makeClosure none ⟨params, body⟩ env)
  | .assignment op target value => do
    let value ← value.evaluateIn env
    let value ←
      match op.binaryOperator? with
      | some op => do pure (op.apply (← step (Run.read env target)) value)
      | none => pure value
    step (Run.assign env target value)
    return value
  | .update op isBefore target => do
    let previous := Value.number (← step (Run.read env target)).toNumber
    let updated := op.binaryOperator.apply previous (.number Numeric.one)
    step (Run.assign env target updated)
    return if isBefore then updated else previous

def Expression.evaluateAllIn (env : Environment) : List (Expression ν) → m (List (Value ν))
  | [] => pure []
  | e :: es => do
    let value ← e.evaluateIn env
    return value :: (← Expression.evaluateAllIn env es)

end

def Run.enterIn (env : Environment) (body : List (Statement ν)) : m Environment := do
  let inner ← step (Run.extend env)
  step (Statement.hoist inner body)
  return inner

def Run.declareIn (env : Environment) (name : String) (init : Option (Expression ν)) :
    m Unit := do
  let value ←
    match init with
    | some (.function params body _) => step (Run.makeClosure (some name) ⟨params, body⟩ env)
    | some e => e.evaluateIn step call env
    | none => pure .undefined
  step (Run.define env name value)

def LoopStart.runIn (env : Environment) : LoopStart ν → m (Option String)
  | .absent => pure none
  | .declaration kind name init => do
    Run.declareIn step call env name init
    return if kind == .mutable then some name else none
  | .expression e => do
    let _ ← e.evaluateIn step call env
    return none

def Run.holdsIn (scope : Environment) : Option (Expression ν) → m Bool
  | none => pure true
  | some test => do
    return (← test.evaluateIn step call scope).isTruthy

def Run.proceedIn (scope : Environment) : Option (Expression ν) → m Unit
  | none => pure ()
  | some update => do
    let _ ← update.evaluateIn step call scope

def Run.roundIn (scope : Environment) (copied : Option String) (update : Option (Expression ν))
    (body : Environment → m (Completion ν)) : m (Completion ν) := do
  let iteration ← step (Run.extend scope)
  step (Run.copyIn scope iteration copied)
  match ← body iteration with
  | .returned value => return .returned value
  | .normal =>
    step (Run.copyOut iteration scope copied)
    Run.proceedIn step call scope update
    return .normal

def Run.roundsIn (test : m Bool) (body : m (Completion ν)) : Nat → m (Completion ν)
  | 0 => step (throw .exhausted)
  | patience + 1 => do
    if ← test then
      match ← body with
      | .returned value => pure (.returned value)
      | .normal => Run.roundsIn test body patience
    else pure .normal

mutual

/-- How a statement ends, with the steps and the calls of another monad. -/
def Statement.executeIn (patience : Nat) (env : Environment) : Statement ν → m (Completion ν)
  | .block body => do
    let inner ← Run.enterIn step env body
    Statement.executeAllIn patience inner body
  | .expression e => do
    let _ ← e.evaluateIn step call env
    return .normal
  | .result none => pure (.returned .undefined)
  | .result (some e) => do
    return .returned (← e.evaluateIn step call env)
  | .branch test consequent alternate => do
    if (← test.evaluateIn step call env).isTruthy then
      let inner ← Run.enterIn step env [consequent]
      consequent.executeIn patience inner
    else
      match alternate with
      | none => return .normal
      | some s => do
        let inner ← Run.enterIn step env [s]
        s.executeIn patience inner
  | .loop start test update body => do
    let scope ← step (Run.extend env)
    let copied ← start.runIn step call scope
    let round := Run.roundIn step call scope copied update fun iteration => do
      let inner ← Run.enterIn step iteration [body]
      body.executeIn patience inner
    Run.roundsIn step (Run.holdsIn step call scope test) round patience
  | .declaration _ name init => do
    Run.declareIn step call env name init
    return .normal
  | .function _ _ _ => pure .normal

def Statement.executeAllIn (patience : Nat) (env : Environment) :
    List (Statement ν) → m (Completion ν)
  | [] => pure .normal
  | s :: rest => do
    match ← s.executeIn patience env with
    | .returned value => return .returned value
    | .normal => Statement.executeAllIn patience env rest

end

def Run.blockIn (patience : Nat) (env : Environment) (body : List (Statement ν)) :
    m (Completion ν) := do
  step (Statement.hoist env body)
  Statement.executeAllIn step call patience env body

/-- The value of a closure, with something done around the run of its statements. -/
def Run.bodyIn (around : m (Completion ν) → m (Completion ν)) (patience : Nat) (c : Closure ν)
    (args : List (Value ν)) : m (Value ν) := do
  let env ← step (Run.extend c.environment)
  step (Run.defineParams env c.function.params args)
  match ← around (Run.blockIn step call patience env c.function.body) with
  | .returned value => return value
  | .normal => return .undefined

end

/-- The steps that evaluation is made of. Names are bound in environments of the given kind
only. -/
inductive Run.IsStep (binds : Environment → Prop) : {α : Type} → Run ν α → Prop
  | throw {α : Type} (e : Stop ν) : IsStep binds (throw e : Run ν α)
  | read (env : Environment) (name : String) : IsStep binds (Run.read env name)
  | assign (env : Environment) (name : String) (v : Value ν) :
    IsStep binds (Run.assign env name v)
  | makePair (head tail : Value ν) : IsStep binds (Run.makePair head tail)
  | makeClosure (name : Option String) (f : Function ν) (env : Environment) :
    IsStep binds (Run.makeClosure name f env)
  | member (object property : Value ν) : IsStep binds (Run.member object property)
  | applyBuiltin (b : Builtin) (args : List (Value ν)) : IsStep binds (Run.applyBuiltin b args)
  | copyOut (source target : Environment) (copied : Option String) :
    IsStep binds (Run.copyOut source target copied)
  | copyIn {target : Environment} (h : binds target) (source : Environment)
    (copied : Option String) : IsStep binds (Run.copyIn source target copied)
  | define {env : Environment} (h : binds env) (name : String) (v : Value ν) :
    IsStep binds (Run.define env name v)
  | defineParams {env : Environment} (h : binds env) (params : List String)
    (args : List (Value ν)) : IsStep binds (Run.defineParams env params args)
  | hoist {env : Environment} (h : binds env) (body : List (Statement ν)) :
    IsStep binds (Statement.hoist env body)

/-- A relation that holds between each step and what stands for it, and between runs that are put
together from related ones. A frame that is opened is one that names may be bound in. -/
structure Run.Relates {m : Type → Type} [Monad m] (binds : Environment → Prop)
    (step : {α : Type} → Run ν α → m α) (R : {α : Type} → Run ν α → m α → Prop) : Prop where
  pure {α : Type} (a : α) : R (pure a) (pure a)
  bind {α β : Type} {x : Run ν α} {y : m α} {f : α → Run ν β} {g : α → m β} :
    R x y → (∀ a, R (f a) (g a)) → R (x >>= f) (y >>= g)
  ofStep {α : Type} {x : Run ν α} : x.IsStep binds → R x (step x)
  extend {α : Type} {env : Environment} {f : Environment → Run ν α} {g : Environment → m α} :
    (∀ i, binds (i :: env) → R (f (i :: env)) (g (i :: env))) →
      R (Run.extend env >>= f) (step (Run.extend env) >>= g)

section

variable {m : Type → Type} [Monad m] {binds : Environment → Prop}
  {step : {α : Type} → Run ν α → m α} {R : {α : Type} → Run ν α → m α → Prop}
  {call : Caller ν} {call' : Value ν → List (Value ν) → m (Value ν)}

mutual

theorem Expression.related (hR : Run.Relates binds step R)
    (hcall : ∀ f args, R (call f args) (call' f args)) (env : Environment) :
    (e : Expression ν) → R (e.evaluate call env) (e.evaluateIn step call' env)
  | .literal _ | .builtin _ => hR.pure _
  | .identifier name => hR.ofStep (.read env name)
  | .array [head, tail] =>
    hR.bind (head.related hR hcall env) fun _ =>
      hR.bind (tail.related hR hcall env) fun _ => hR.ofStep (.makePair ..)
  | .array [] | .array [_] | .array (_ :: _ :: _ :: _) => hR.ofStep (.throw _)
  | .member object property =>
    hR.bind (object.related hR hcall env) fun _ =>
      hR.bind (property.related hR hcall env) fun _ => hR.ofStep (.member ..)
  | .unary _ argument => hR.bind (argument.related hR hcall env) fun _ => hR.pure _
  | .binary _ left right =>
    hR.bind (left.related hR hcall env) fun _ =>
      hR.bind (right.related hR hcall env) fun _ => hR.pure _
  | .logical op left right => by
    refine hR.bind (left.related hR hcall env) fun v => ?_
    split
    · exact hR.pure v
    · exact right.related hR hcall env
  | .conditional test consequent alternate => by
    refine hR.bind (test.related hR hcall env) fun v => ?_
    split
    · exact consequent.related hR hcall env
    · exact alternate.related hR hcall env
  | .call callee arguments =>
    hR.bind (callee.related hR hcall env) fun f =>
      hR.bind (Expression.allRelated hR hcall env arguments) fun args => hcall f args
  | .function _ _ _ => hR.ofStep (.makeClosure ..)
  | .assignment op target value => by
    have hwrite (w : Value ν) : R (do Run.assign env target w; return w)
        (do step (Run.assign env target w); return w) :=
      hR.bind (hR.ofStep (.assign env target w)) fun _ => hR.pure w
    refine hR.bind (value.related hR hcall env) fun v => ?_
    cases op.binaryOperator? with
    | none => exact hR.bind (hR.pure v) hwrite
    | some o => exact hR.bind (hR.ofStep (.read env target)) fun _ => hR.bind (hR.pure _) hwrite
  | .update _ _ target =>
    hR.bind (hR.ofStep (.read env target)) fun _ =>
      hR.bind (hR.ofStep (.assign env target _)) fun _ => hR.pure _

theorem Expression.allRelated (hR : Run.Relates binds step R)
    (hcall : ∀ f args, R (call f args) (call' f args)) (env : Environment) :
    (es : List (Expression ν)) →
      R (Expression.evaluateAll call env es) (Expression.evaluateAllIn step call' env es)
  | [] => hR.pure _
  | e :: es =>
    hR.bind (e.related hR hcall env) fun _ =>
      hR.bind (Expression.allRelated hR hcall env es) fun _ => hR.pure _

end

section Statements

variable (hR : Run.Relates binds step R) {env : Environment}

include hR

theorem Run.related_enter [LawfulMonad m] (body : List (Statement ν)) {α : Type}
    {f : Environment → Run ν α} {g : Environment → m α}
    (h : ∀ i, binds (i :: env) → R (f (i :: env)) (g (i :: env))) :
    R (Run.enter env body >>= f) (Run.enterIn step env body >>= g) := by
  simp only [Run.enter, Run.enterIn, bind_assoc, pure_bind]
  exact hR.extend fun i hi => hR.bind (hR.ofStep (.hoist hi body)) fun _ => h i hi

variable (hcall : ∀ f args, R (call f args) (call' f args))

include hcall

theorem Run.related_declare (h : binds env) (name : String) (init : Option (Expression ν)) :
    R (Run.declare call env name init) (Run.declareIn step call' env name init) := by
  have hbind (v : Value ν) : R (Run.define env name v) (step (Run.define env name v)) :=
    hR.ofStep (.define h name v)
  cases init with
  | none => exact hR.bind (hR.pure _) hbind
  | some e =>
    cases e with
    | function params body home => exact hR.bind (hR.ofStep (.makeClosure ..)) hbind
    | _ => exact hR.bind (Expression.related hR hcall env _) hbind

theorem LoopStart.related (h : binds env) (start : LoopStart ν) :
    R (start.run call env) (start.runIn step call' env) := by
  cases start with
  | absent => exact hR.pure none
  | declaration kind name init =>
    exact hR.bind (Run.related_declare hR hcall h name init) fun _ => hR.pure _
  | expression e => exact hR.bind (e.related hR hcall env) fun _ => hR.pure none

theorem Run.related_holds (test : Option (Expression ν)) :
    R (Run.holds call env test) (Run.holdsIn step call' env test) := by
  cases test with
  | none => exact hR.pure true
  | some e => exact hR.bind (e.related hR hcall env) fun _ => hR.pure _

theorem Run.related_proceed (update : Option (Expression ν)) :
    R (Run.proceed call env update) (Run.proceedIn step call' env update) := by
  cases update with
  | none => exact hR.pure ()
  | some e => exact hR.bind (e.related hR hcall env) fun _ => hR.pure ()

theorem Run.related_round (copied : Option String) (update : Option (Expression ν))
    {body : Environment → Run ν (Completion ν)} {body' : Environment → m (Completion ν)}
    (h : ∀ i, binds (i :: env) → R (body (i :: env)) (body' (i :: env))) :
    R (Run.round call env copied update body) (Run.roundIn step call' env copied update body') := by
  refine hR.extend fun i hi => hR.bind (hR.ofStep (.copyIn hi env copied)) fun _ => ?_
  refine hR.bind (h i hi) fun c => ?_
  cases c with
  | returned v => exact hR.pure _
  | normal =>
    refine hR.bind (hR.ofStep (.copyOut ..)) fun _ => ?_
    exact hR.bind (Run.related_proceed hR hcall update) fun _ => hR.pure _

omit hcall in
theorem Run.related_rounds {test : Run ν Bool} {test' : m Bool} {body : Run ν (Completion ν)}
    {body' : m (Completion ν)} (htest : R test test') (hbody : R body body') (patience : Nat) :
    R (Run.rounds test body patience) (Run.roundsIn step test' body' patience) := by
  induction patience with
  | zero => exact hR.ofStep (.throw _)
  | succ patience ih =>
    refine hR.bind htest fun holds => ?_
    split
    · refine hR.bind hbody fun c => ?_
      cases c with
      | returned v => exact hR.pure _
      | normal => exact ih
    · exact hR.pure _

end Statements

mutual

/-- How a statement ends is related to how it ends in the other monad. A statement that declares a
name needs an environment that names may be bound in. -/
theorem Statement.related [LawfulMonad m] (hR : Run.Relates binds step R)
    (hcall : ∀ f args, R (call f args) (call' f args)) (patience : Nat) {env : Environment} :
    (st : Statement ν) → (st.isDeclaration = true → binds env) →
      R (st.execute patience call env) (st.executeIn step call' patience env)
  | .block body, _ => Run.related_enter hR body fun _ hi =>
    Statement.allRelated hR hcall patience body hi
  | .expression e, _ => hR.bind (e.related hR hcall env) fun _ => hR.pure _
  | .result none, _ => hR.pure _
  | .result (some e), _ => hR.bind (e.related hR hcall env) fun _ => hR.pure _
  | .branch test consequent none, _ => by
    rw [Statement.execute, Statement.executeIn]
    refine hR.bind (test.related hR hcall env) fun v => ?_
    split
    · exact Run.related_enter hR [consequent] fun _ hi =>
        consequent.related hR hcall patience fun _ => hi
    · exact hR.pure _
  | .branch test consequent (some alternate), _ => by
    rw [Statement.execute, Statement.executeIn]
    refine hR.bind (test.related hR hcall env) fun v => ?_
    split
    · exact Run.related_enter hR [consequent] fun _ hi =>
        consequent.related hR hcall patience fun _ => hi
    · exact Run.related_enter hR [alternate] fun _ hi =>
        alternate.related hR hcall patience fun _ => hi
  | .loop start test update body, _ => by
    refine hR.extend fun i hi => hR.bind (start.related hR hcall hi) fun copied => ?_
    refine Run.related_rounds hR (Run.related_holds hR hcall test) ?_ patience
    refine Run.related_round hR hcall copied update fun j hj => ?_
    exact Run.related_enter hR [body] fun _ hk => body.related hR hcall patience fun _ => hk
  | .declaration _ name init, h =>
    hR.bind (Run.related_declare hR hcall (h rfl) name init) fun _ => hR.pure _
  | .function _ _ _, _ => hR.pure _

theorem Statement.allRelated [LawfulMonad m] (hR : Run.Relates binds step R)
    (hcall : ∀ f args, R (call f args) (call' f args)) (patience : Nat) {env : Environment} :
    (body : List (Statement ν)) → binds env →
      R (Statement.executeAll patience call env body)
        (Statement.executeAllIn step call' patience env body)
  | [], _ => hR.pure _
  | st :: rest, h => by
    refine hR.bind (st.related hR hcall patience fun _ => h) fun c => ?_
    cases c with
    | returned v => exact hR.pure _
    | normal => exact Statement.allRelated hR hcall patience rest h

end

theorem Run.related_block [LawfulMonad m] (hR : Run.Relates binds step R)
    (hcall : ∀ f args, R (call f args) (call' f args)) (patience : Nat) {env : Environment}
    (h : binds env) (body : List (Statement ν)) :
    R (Run.block patience call env body) (Run.blockIn step call' patience env body) :=
  hR.bind (hR.ofStep (.hoist h body)) fun _ => Statement.allRelated hR hcall patience body h

theorem Run.related_body (hR : Run.Relates binds step R)
    (call' : Value ν → List (Value ν) → m (Value ν))
    (around : m (Completion ν) → m (Completion ν)) {patience : Nat} {c : Closure ν}
    (hblock : ∀ env, binds env → R (Run.block patience call env c.function.body)
      (around (Run.blockIn step call' patience env c.function.body)))
    (args : List (Value ν)) :
    R (Run.body patience call c args) (Run.bodyIn step call' around patience c args) := by
  refine hR.extend fun i hi => hR.bind (hR.ofStep (.defineParams hi _ args)) fun _ => ?_
  refine hR.bind (hblock _ hi) fun completion => ?_
  cases completion with
  | returned v => exact hR.pure v
  | normal => exact hR.pure Value.undefined

end

/-! ## Evaluation itself -/

theorem Run.relates_eq :
    Run.Relates (fun _ => True) (fun x => x) (fun {_} (x y : Run ν _) => x = y) where
  pure _ := rfl
  bind hx hf := by rw [hx, funext hf]
  ofStep _ := rfl
  extend {_ env f g} h := by
    funext s
    exact congrFun (h s.frames.size trivial) (s.extend env).2

theorem Run.blockIn_self (call : Caller ν) (patience : Nat) (env : Environment)
    (body : List (Statement ν)) :
    Run.blockIn (fun x => x) call patience env body = Run.block patience call env body :=
  (Run.related_block relates_eq (fun _ _ => rfl) patience trivial body).symm

theorem Run.bodyIn_self (call : Caller ν) (patience : Nat) (c : Closure ν)
    (args : List (Value ν)) :
    Run.bodyIn (fun x => x) call (fun x => x) patience c args = Run.body patience call c args :=
  (Run.related_body relates_eq call (fun x => x)
    (fun env _ => (Run.blockIn_self call patience env c.function.body).symm) args).symm

end Waveform
