import Waveform.Proofs.Renaming.Inlining
import Waveform.Specialize.Residual

/-!
# Residual expressions under other names

What a function is reduced to is, under other names, what the function with other names is reduced
to. The induction is that of inlining itself: over the expressions and statements of one function,
and over the depth to which calls are nested.
-/

namespace Waveform

open Inlining

variable {ν : Type} [Numeric ν] {ρ : String → String}

def Inlining.ReducerRenames (ρ : String → String) (reduce : Reducer ν) : Prop :=
  ∀ floors scope (f : Function ν) home arguments,
    Renames ρ (Expression.rename ρ) (reduce floors scope f home arguments)
      (reduce floors scope (f.rename ρ) home (Expression.renameAll ρ arguments))

/-! ## Expressions -/

section Expressions

variable {residual : List Builtin} {reduce : Reducer ν}

mutual

theorem Expression.inline_renames (hρ : Function.Injective ρ) (hreduce : ReducerRenames ρ reduce)
    (floors : Floors) (scope : Nat) : (e : Expression ν) →
      Renames ρ (Expression.rename ρ) (e.inline residual reduce floors scope)
        ((e.rename ρ).inline residual reduce floors scope)
  | .literal l => by
    simp only [Expression.rename, Expression.inline]
    exact renames_pure (Expression.literal l)
  | .builtin b => by
    simp only [Expression.rename, Expression.inline]
    exact renames_pure (Expression.builtin b)
  | .identifier name => by
    simp only [Expression.rename, Expression.inline]
    exact renames_read scope name
  | .array items => by
    simp only [Expression.rename, Expression.inline]
    exact (Expression.inlineAll_renames hρ hreduce floors scope items).map fun _ => rfl
  | .member object property => by
    simp only [Expression.rename, Expression.inline]
    refine (object.inline_renames hρ hreduce floors scope).bind fun object => ?_
    refine (property.inline_renames hρ hreduce floors scope).bind fun property => ?_
    exact renames_member object property
  | .unary op argument => by
    simp only [Expression.rename, Expression.inline]
    refine (argument.inline_renames hρ hreduce floors scope).map fun argument => ?_
    exact Expression.simplify_rename hρ (.unary op argument)
  | .binary op left right => by
    simp only [Expression.rename, Expression.inline]
    refine (left.inline_renames hρ hreduce floors scope).bind fun left => ?_
    refine (right.inline_renames hρ hreduce floors scope).map fun right => ?_
    exact Expression.simplify_rename hρ (.binary op left right)
  | .logical op left right => by
    simp only [Expression.rename, Expression.inline]
    refine (left.inline_renames hρ hreduce floors scope).bind fun left => ?_
    rw [Expression.asLiteral?_rename]
    cases left.asLiteral? with
    | some l =>
      dsimp only
      split
      · exact renames_pure left
      · exact right.inline_renames hρ hreduce floors scope
    | none =>
      have hright := renames_branching floors fun floors =>
        right.inline_renames hρ hreduce floors scope
      refine hright.map fun right => ?_
      exact Expression.simplify_rename hρ (.logical op left right)
  | .conditional test consequent alternate => by
    simp only [Expression.rename, Expression.inline]
    refine (test.inline_renames hρ hreduce floors scope).bind fun test => ?_
    rw [Expression.asLiteral?_rename]
    cases test.asLiteral? with
    | some l =>
      dsimp only
      split
      · exact consequent.inline_renames hρ hreduce floors scope
      · exact alternate.inline_renames hρ hreduce floors scope
    | none =>
      have hconsequent := renames_branching floors fun floors =>
        consequent.inline_renames hρ hreduce floors scope
      have halternate := renames_branching floors fun floors =>
        alternate.inline_renames hρ hreduce floors scope
      refine hconsequent.bind fun consequent => halternate.map fun alternate => ?_
      exact Expression.simplify_rename hρ (.conditional test consequent alternate)
  | .call callee arguments => by
    simp only [Expression.rename, Expression.inline]
    refine (callee.inline_renames hρ hreduce floors scope).bind fun callee => ?_
    refine (Expression.inlineAll_renames hρ hreduce floors scope arguments).bind
      fun arguments => ?_
    cases callee with
    | function params body home => exact hreduce floors scope ⟨params, body⟩ home arguments
    | builtin b => exact renames_applyBuiltin residual b arguments
    | _ => exact renames_throw _ _
  | .function params body home => by
    simp only [Expression.rename, Expression.inline]
    exact renames_pure (Expression.function params body (some scope))
  | .assignment op target value => by
    simp only [Expression.rename, Expression.inline]
    refine (value.inline_renames hρ hreduce floors scope).bind fun value => ?_
    refine (renames_assign hρ floors scope target fun current => ?_).map fun _ => rfl
    cases op.binaryOperator? with
    | some op => exact Expression.simplify_rename hρ (.binary op current value)
    | none => rfl
  | .update op isBefore target => by
    simp only [Expression.rename, Expression.inline]
    refine (renames_assign hρ floors scope target fun current => ?_).map fun p => ?_
    · exact Expression.simplify_rename hρ
        (.binary op.binaryOperator current (.number Numeric.one))
    · dsimp only [Prod.map]
      split
      · rfl
      · exact Expression.simplify_rename hρ (.unary .plus p.1)

theorem Expression.inlineAll_renames (hρ : Function.Injective ρ)
    (hreduce : ReducerRenames ρ reduce) (floors : Floors) (scope : Nat) :
    (es : List (Expression ν)) →
      Renames ρ (Expression.renameAll ρ) (Expression.inlineAll residual reduce floors scope es)
        (Expression.inlineAll residual reduce floors scope (Expression.renameAll ρ es))
  | [] => by
    simp only [Expression.renameAll, Expression.inlineAll]
    exact renames_pure []
  | e :: es => by
    simp only [Expression.renameAll, Expression.inlineAll]
    refine (e.inline_renames hρ hreduce floors scope).bind fun e => ?_
    exact (Expression.inlineAll_renames hρ hreduce floors scope es).map fun _ => rfl

end

end Expressions

/-! ## Loops -/

section Loops

variable {inline : Nat → Expression ν → Inlining ν (Expression ν)}

omit [Numeric ν] in
theorem LoopStart.counter_renames
    (hinline : ∀ scope e, Renames ρ (Expression.rename ρ) (inline scope e)
      (inline scope (e.rename ρ))) (scope : Nat) (start : LoopStart ν) :
    Renames ρ (Prod.map ρ id) (start.counter inline scope)
      ((start.rename ρ).counter inline scope) := by
  cases start with
  | absent => exact renames_throw _ _
  | expression e => exact renames_throw _ _
  | declaration kind name init =>
    cases kind with
    | constant => exact renames_throw _ _
    | mutable =>
      cases init with
      | none => exact renames_throw _ _
      | some init =>
        refine (hinline scope init).bind fun value => ?_
        rw [Expression.asNumber?_rename]
        cases value.asNumber? with
        | some start => exact renames_pure (name, start)
        | none => exact renames_throw _ _

omit [Numeric ν] in
theorem Expression.upperBound_renames (hρ : Function.Injective ρ)
    (hinline : ∀ scope e, Renames ρ (Expression.rename ρ) (inline scope e)
      (inline scope (e.rename ρ))) (scope : Nat) (counter : String)
    (test : Option (Expression ν)) :
    Renames ρ id (Expression.upperBound inline scope counter test)
      (Expression.upperBound inline scope (ρ counter) (Expression.renameOption ρ test)) := by
  cases test with
  | none => exact renames_throw _ _
  | some test =>
    cases test with
    | binary op left right =>
      cases left with
      | identifier name =>
        simp only [Expression.renameOption, Expression.rename, Expression.upperBound,
          beq_rename hρ]
        split
        · refine (hinline scope right).bind fun value => ?_
          rw [Expression.asNumber?_rename]
          cases value.asNumber? with
          | some bound => exact renames_pure _
          | none => exact renames_throw _ _
        · exact renames_throw _ _
      | _ => exact renames_throw _ _
    | _ => exact renames_throw _ _

namespace Accumulation

def rename (ρ : String → String) (a : Accumulation ν) : Accumulation ν :=
  { a with counter := ρ a.counter, accumulator := ρ a.accumulator, term := a.term.rename ρ }

theorem isIncrement_rename (hρ : Function.Injective ρ) (counter : String)
    (update : Option (Expression ν)) :
    isIncrement (ρ counter) (Expression.renameOption ρ update) = isIncrement counter update := by
  cases update with
  | none => rfl
  | some update =>
    simp only [isIncrement, Expression.renameOption, Option.map_some,
      Expression.simplify_rename hρ]
    generalize update.simplify = e
    cases e with
    | update op isBefore target =>
      cases op with
      | increment => exact beq_rename hρ target counter
      | decrement => rfl
    | assignment op target value =>
      cases op with
      | addAssign =>
        simp only [Expression.rename, beq_rename hρ, Expression.asNumber?_rename]
      | _ => rfl
    | _ => rfl

omit [Numeric ν] in
theorem bodyExpression?_rename (s : Statement ν) :
    bodyExpression? (s.rename ρ) = (bodyExpression? s).map (Expression.rename ρ) := by
  cases s with
  | block body =>
    rcases body with _ | ⟨first, _ | ⟨second, rest⟩⟩
    · rfl
    · cases first <;> rfl
    · cases first <;> rfl
  | _ => rfl

theorem ofBody?_rename (hρ : Function.Injective ρ) (counter : String) (body : Statement ν) :
    ofBody? (ρ counter) (body.rename ρ) =
      (ofBody? counter body).map (Prod.map ρ (Expression.rename ρ)) := by
  simp only [ofBody?, bodyExpression?_rename]
  cases bodyExpression? body with
  | none => rfl
  | some e =>
    simp only [Option.map_some, Expression.simplify_rename hρ]
    generalize e.simplify = e
    cases e with
    | assignment op target value =>
      cases op with
      | addAssign =>
        simp only [Expression.rename, bne, beq_rename hρ, Expression.references_rename hρ]
        split <;> rfl
      | _ => rfl
    | _ => rfl

theorem unroll_renames (hρ : Function.Injective ρ)
    (hinline : ∀ scope e, Renames ρ (Expression.rename ρ) (inline scope e)
      (inline scope (e.rename ρ))) (a : Accumulation ν) (limit scope rounds : Nat) (index : ν)
    (sum : Option (Expression ν)) :
    Renames ρ (Expression.renameOption ρ) (a.unroll inline limit scope rounds index sum)
      ((a.rename ρ).unroll inline limit scope rounds index (Expression.renameOption ρ sum)) := by
  have hround (index : ν) : (a.rename ρ).hasRound index = a.hasRound index := rfl
  induction rounds generalizing index sum with
  | zero =>
    rw [unroll, unroll, hround]
    split
    · exact renames_throw _ _
    · exact renames_pure sum
  | succ rounds ih =>
    rw [unroll, unroll, hround]
    split
    · refine (renames_child scope .loop).bind fun iteration => ?_
      refine (renames_define hρ iteration a.counter (.constant (.number index))).bind fun _ => ?_
      refine (hinline iteration a.term).bind fun term => ?_
      cases sum with
      | none => exact ih _ (some term)
      | some sum =>
        have hsum : (Expression.binary .add (sum.rename ρ) (term.rename ρ)).simplify =
            (Expression.binary .add sum term).simplify.rename ρ :=
          Expression.simplify_rename hρ (.binary .add sum term)
        dsimp only [Expression.renameOption]
        rw [hsum]
        exact ih _ (some _)
    · exact renames_pure sum

end Accumulation

theorem Inlining.loop_renames (hρ : Function.Injective ρ)
    (hinline : ∀ scope e, Renames ρ (Expression.rename ρ) (inline scope e)
      (inline scope (e.rename ρ))) (limit : Nat) (floors : Floors) (scope : Nat)
    (start : LoopStart ν) (test update : Option (Expression ν)) (body : Statement ν) :
    Renames ρ id (Inlining.loop inline limit floors scope start test update body)
      (Inlining.loop inline limit floors scope (start.rename ρ) (Expression.renameOption ρ test)
        (Expression.renameOption ρ update) (body.rename ρ)) := by
  unfold Inlining.loop
  refine (start.counter_renames hinline scope).bind fun p => ?_
  obtain ⟨counter, first⟩ := p
  refine (Expression.upperBound_renames hρ hinline scope counter test).bind fun p => ?_
  obtain ⟨bound, isInclusive⟩ := p
  dsimp only [Prod.map, id]
  rw [Accumulation.isIncrement_rename hρ]
  split
  · rw [Accumulation.ofBody?_rename hρ]
    cases Accumulation.ofBody? counter body with
    | none => exact renames_throw _ _
    | some p =>
      obtain ⟨accumulator, term⟩ := p
      let a : Accumulation ν := ⟨counter, first, bound, isInclusive, accumulator, term⟩
      refine (renames_child scope .loop).bind fun outer => ?_
      refine (a.unroll_renames hρ hinline limit outer limit first none).bind fun sum => ?_
      cases sum with
      | none => exact renames_pure ()
      | some sum =>
        refine (renames_assign hρ floors scope accumulator fun current => ?_).map fun _ => rfl
        exact Expression.simplify_rename hρ (.binary .add current sum)
  · exact renames_throw _ _

end Loops

/-! ## Statements -/

section Statements

def Flow.rename (ρ : String → String) : Flow ν → Flow ν
  | .continues => .continues
  | .returned value => .returned (value.rename ρ)

def Step.rename (ρ : String → String) : Step ν → Step ν
  | .done flow => .done (flow.rename ρ)
  | .split test consequent alternate =>
    .split (test.rename ρ) (consequent.rename ρ) (alternate.rename ρ)

omit [Numeric ν] in
@[simp] theorem Flow.isReturn_rename (flow : Flow ν) :
    (flow.rename ρ).isReturn = flow.isReturn := by
  cases flow <;> rfl

omit [Numeric ν] in
theorem Inlining.follow_renames (floors : Floors) (scope : Nat) (consequent alternate : Flow ν)
    {rest rest' : Floors → Nat → Inlining ν (Flow ν)}
    (hrest : ∀ floors block, Renames ρ (Flow.rename ρ) (rest floors block) (rest' floors block)) :
    Renames ρ (Flow.rename ρ) (follow floors scope consequent alternate rest)
      (follow floors scope (consequent.rename ρ) (alternate.rename ρ) rest') := by
  simp only [follow, Flow.isReturn_rename]
  split
  · exact renames_pure Flow.continues
  · exact (renames_child scope .block).bind fun block => hrest _ block

omit [Numeric ν] in
theorem Inlining.finish_renames (isTail : Bool) (side following : Flow ν) :
    Renames ρ (Expression.rename ρ) (finish isTail side following)
      (finish isTail (side.rename ρ) (following.rename ρ)) := by
  cases side with
  | returned value => exact renames_pure value
  | continues =>
    cases following with
    | returned value => exact renames_pure value
    | continues =>
      simp only [finish, Flow.rename]
      split
      · exact renames_pure Expression.undefined
      · exact renames_throw _ _

theorem Inlining.merge_renames (hρ : Function.Injective ρ) (floors : Floors) (scope : Nat)
    (isTail : Bool) (test : Expression ν) (consequent alternate : Flow ν)
    {rest rest' : Floors → Nat → Inlining ν (Flow ν)}
    (hrest : ∀ floors block, Renames ρ (Flow.rename ρ) (rest floors block) (rest' floors block)) :
    Renames ρ (Flow.rename ρ) (merge floors scope isTail test consequent alternate rest)
      (merge floors scope isTail (test.rename ρ) (consequent.rename ρ) (alternate.rename ρ)
        rest') := by
  refine (follow_renames floors scope consequent alternate hrest).bind fun following => ?_
  refine (finish_renames isTail consequent following).bind fun consequent => ?_
  refine (finish_renames isTail alternate following).map fun alternate => ?_
  exact congrArg Flow.returned
    (Expression.simplify_rename hρ (.conditional test consequent alternate))

theorem Inlining.choose_renames (floors : Floors) (test : Expression ν)
    {consequent alternate consequent' alternate' : Floors → Inlining ν (Flow ν)}
    (hc : ∀ floors, Renames ρ (Flow.rename ρ) (consequent floors) (consequent' floors))
    (ha : ∀ floors, Renames ρ (Flow.rename ρ) (alternate floors) (alternate' floors)) :
    Renames ρ (Step.rename ρ) (choose floors test consequent alternate)
      (choose floors (test.rename ρ) consequent' alternate') := by
  unfold choose
  rw [Expression.asLiteral?_rename]
  cases test.asLiteral? with
  | some l =>
    dsimp only
    split
    · exact (hc floors).map fun _ => rfl
    · exact (ha floors).map fun _ => rfl
  | none =>
    refine (renames_branching floors hc).bind fun left => ?_
    refine (renames_branching floors ha).map fun right => ?_
    rw [Flow.isReturn_rename, Flow.isReturn_rename]
    split <;> rfl

theorem Inlining.alone_renames (hρ : Function.Injective ρ) (floors : Floors) (scope : Nat)
    (isTail : Bool) (s : Statement ν) {step step' : Nat → Inlining ν (Step ν)}
    (hstep : ∀ place, Renames ρ (Step.rename ρ) (step place) (step' place)) :
    Renames ρ (Flow.rename ρ) (alone floors scope isTail s step)
      (alone floors scope isTail (s.rename ρ) step') := by
  have hplace : Renames ρ id (place scope s) (place scope (s.rename ρ)) := by
    cases s with
    | branch test consequent alternate => exact renames_child scope .block
    | function name params body => exact renames_child scope .block
    | _ => exact renames_pure scope
  refine hplace.bind fun place => (renames_hoist hρ place [s]).bind fun _ => ?_
  refine (hstep place).bind fun step => ?_
  cases step with
  | done flow => exact renames_pure flow
  | split test consequent alternate =>
    exact merge_renames hρ floors place isTail test consequent alternate
      fun _ _ => renames_pure Flow.continues

omit [Numeric ν] in
theorem Inlining.declare_renames (hρ : Function.Injective ρ)
    {inline : Nat → Expression ν → Inlining ν (Expression ν)}
    (hinline : ∀ scope e, Renames ρ (Expression.rename ρ) (inline scope e)
      (inline scope (e.rename ρ))) (scope : Nat) (kind : DeclarationKind) (name : String)
    (init : Option (Expression ν)) :
    Renames ρ id (declare inline scope kind name init)
      (declare inline scope kind (ρ name) (Expression.renameOption ρ init)) := by
  have hdefine (value : Expression ν) : Renames ρ id (define scope name (kind.binding value))
      (define scope (ρ name) (kind.binding (value.rename ρ))) := by
    have hbinding : kind.binding (value.rename ρ) = (kind.binding value).rename ρ := by
      cases kind <;> rfl
    rw [hbinding]
    exact renames_define hρ scope name _
  cases init with
  | none => exact (renames_pure Expression.undefined).bind hdefine
  | some e => exact (hinline scope e).bind hdefine

variable {options : SpecializationOptions} {reduce : Reducer ν}

mutual

theorem Statement.step_renames (hρ : Function.Injective ρ) (hreduce : ReducerRenames ρ reduce)
    (floors : Floors) (scope : Nat) (isTail : Bool) : (s : Statement ν) →
      Renames ρ (Step.rename ρ) (s.step options reduce floors scope isTail)
        ((s.rename ρ).step options reduce floors scope isTail)
  | .block body => by
    simp only [Statement.rename, Statement.step]
    refine (renames_child scope .block).bind fun block => (renames_hoist hρ block body).bind
      fun _ => ?_
    exact (Statement.inlineAll_renames hρ hreduce floors block isTail body).map fun _ => rfl
  | .branch test consequent alternate => by
    simp only [Statement.rename, Statement.step]
    refine (test.inline_renames hρ hreduce floors scope).bind fun test => ?_
    refine choose_renames floors test (fun floors => ?_) fun floors => ?_
    · exact alone_renames hρ floors scope isTail consequent fun place =>
        consequent.step_renames hρ hreduce floors place isTail
    · cases alternate with
      | none => exact renames_pure Flow.continues
      | some s => exact alone_renames hρ floors scope isTail s fun place =>
          s.step_renames hρ hreduce floors place isTail
  | .function name params body => by
    simp only [Statement.rename, Statement.step]
    exact renames_pure (Step.done .continues)
  | .expression e => by
    simp only [Statement.rename, Statement.step]
    exact (e.inline_renames hρ hreduce floors scope).map fun _ => rfl
  | .result none => by
    simp only [Statement.rename, Expression.renameOption, Statement.step]
    exact renames_pure (Step.done (.returned .undefined))
  | .result (some e) => by
    simp only [Statement.rename, Expression.renameOption, Statement.step]
    exact (e.inline_renames hρ hreduce floors scope).map fun _ => rfl
  | .declaration kind name init => by
    simp only [Statement.rename, Statement.step]
    exact (declare_renames hρ (fun scope e => e.inline_renames hρ hreduce floors scope) scope kind
      name init).map fun _ => rfl
  | .loop start test update body => by
    simp only [Statement.rename, Statement.step]
    exact (loop_renames hρ (fun scope e => e.inline_renames hρ hreduce floors scope)
      options.maxLoopIterations floors scope start test update body).map fun _ => rfl

theorem Statement.inlineAll_renames (hρ : Function.Injective ρ)
    (hreduce : ReducerRenames ρ reduce) (floors : Floors) (scope : Nat) (isTail : Bool) :
    (body : List (Statement ν)) →
      Renames ρ (Flow.rename ρ) (Statement.inlineAll options reduce floors scope isTail body)
        (Statement.inlineAll options reduce floors scope isTail (Statement.renameAll ρ body))
  | [] => by
    simp only [Statement.renameAll, Statement.inlineAll]
    exact renames_pure Flow.continues
  | s :: rest => by
    simp only [Statement.renameAll, Statement.inlineAll, Statement.isEmpty_renameAll]
    refine (s.step_renames hρ hreduce floors scope _).bind fun step => ?_
    cases step with
    | done flow =>
      cases flow with
      | returned value => exact renames_pure (Flow.returned value)
      | continues => exact Statement.inlineAll_renames hρ hreduce floors scope isTail rest
    | split test consequent alternate =>
      refine merge_renames hρ floors scope isTail test consequent alternate
        fun floors block => (renames_hoist hρ block rest).bind fun _ => ?_
      exact Statement.inlineAll_renames hρ hreduce floors block isTail rest

end

/-! ## Functions -/

theorem Inlining.reduce_renames (hρ : Function.Injective ρ) (options : SpecializationOptions)
    (depth : Nat) : ReducerRenames ρ (Inlining.reduce (ν := ν) options depth) := by
  induction depth with
  | zero => exact fun _ _ _ _ _ => renames_throw _ _
  | succ depth ih =>
    intro floors scope f home arguments
    unfold Inlining.reduce
    refine (renames_child _ .substitute).bind fun substitute => ?_
    refine (renames_modify fun σ σ' hσ =>
      hσ.defineArguments hρ substitute f.params arguments).bind fun _ => ?_
    refine (renames_child substitute .block).bind fun block => ?_
    refine (renames_hoist hρ block f.body).bind fun _ => ?_
    refine (Statement.inlineAll_renames hρ ih { floors with call := substitute } block true
      f.body).bind fun flow => ?_
    cases flow with
    | returned value =>
      dsimp only [Flow.rename]
      rw [Expression.simplify_rename hρ]
      exact renames_pure _
    | continues => exact renames_pure Expression.undefined

def Flow.value : Flow ν → Expression ν
  | .returned value => value
  | .continues => .undefined

/-- The frame of the parameters of a function that is reduced. The name starts its path. -/
def Function.opened (f : Function ν) (name : String) (options : SpecializationOptions) : Scopes ν :=
  ((Scopes.empty options.hardcodedBuiltins).root .closure name).2.defineParameters 0 f.params

theorem Function.residual_eq (f : Function ν) (name : String) (options : SpecializationOptions) :
    f.residual name options =
      ((Statement.inlineAll options (Inlining.reduce options options.maxInlineDepth) ⟨0, 0⟩
        (f.opened name options).size true f.body).run
          (((f.opened name options).child 0 .block).2.hoist (f.opened name options).size
            f.body)).map fun p => p.1.value := by
  unfold residual
  dsimp only
  split
  · next hrun => exact (congrArg (Except.map fun p => p.1.value) hrun).symm
  · next hrun => exact (congrArg (Except.map fun p => p.1.value) hrun).symm
  · next hrun => exact (congrArg (Except.map fun p => p.1.value) hrun).symm

/-- A function with other names is reduced to the same expression with other names, or neither can
be reduced. -/
theorem Function.residual_rename (hρ : Function.Injective ρ) {options : SpecializationOptions}
    (hhelper : ∀ b ∈ options.hardcodedBuiltins, ρ b.globalName = b.globalName) (f : Function ν)
    (name name' : String) :
    (∃ e e', f.residual name options = .error e ∧
        (f.rename ρ).residual name' options = .error e') ∨
      ∃ value, f.residual name options = .ok value ∧
        (f.rename ρ).residual name' options = .ok (value.rename ρ) := by
  have hopened : (f.opened name options).Renamed ρ ((f.rename ρ).opened name' options) :=
    (Scopes.renamed_root hρ hhelper .closure name name').defineParameters hρ 0 f.params
  let reduce : Reducer ν := Inlining.reduce options options.maxInlineDepth
  let block := (f.opened name options).size
  have hbody : Renames ρ (Flow.rename ρ)
      (Statement.inlineAll options reduce ⟨0, 0⟩ block true f.body)
      (Statement.inlineAll options reduce ⟨0, 0⟩ block true (Statement.renameAll ρ f.body)) :=
    Statement.inlineAll_renames hρ (Inlining.reduce_renames hρ options _) ⟨0, 0⟩ block true f.body
  rw [f.residual_eq, (f.rename ρ).residual_eq, hopened.size]
  rcases hbody _ _ ((hopened.child 0 .block).hoist hρ block f.body) with
    ⟨e, e', he, he'⟩ | ⟨flow, τ, τ', hflow, hflow', -⟩
  · exact .inl ⟨e, e', congrArg (Except.map _) he, congrArg (Except.map _) he'⟩
  · refine .inr ⟨flow.value, congrArg (Except.map _) hflow, ?_⟩
    have hvalue : (flow.rename ρ).value = flow.value.rename ρ := by cases flow <;> rfl
    rw [← hvalue]
    exact congrArg (Except.map _) hflow'

end Statements

end Waveform
