import Waveform.Proofs.Inlining.Hereditary
import Waveform.Proofs.Inlining.Outcome

/-!
# The form of residual expressions

What is left of a function when it is inlined reads nothing but its parameters, writes nothing and
calls nothing but mathematical functions that the options allow. The invariant is that every value
that some frame binds has this form. Reads give such values, and whatever is bound later is put
together from them.
-/

namespace Waveform

variable {ν : Type}

section Form

variable (params : List String) (residual : List Builtin)

mutual

/-- Whether the expression writes nothing, reads no name but the parameters, and calls nothing but
the mathematical functions that may be left over. What is inside function values does not count. -/
def Expression.isResidual : Expression ν → Bool
  | .literal _ | .builtin _ | .function _ _ _ => true
  | .identifier name => params.contains name
  | .array items => Expression.areResidual items
  | .member object property => object.isResidual && property.isResidual
  | .unary _ argument => argument.isResidual
  | .binary _ left right | .logical _ left right => left.isResidual && right.isResidual
  | .conditional test consequent alternate =>
    test.isResidual && consequent.isResidual && alternate.isResidual
  | .call callee arguments =>
    match callee with
    | .builtin b => residual.contains b && b.isMath && Expression.areResidual arguments
    | _ => false
  | .assignment _ _ _ | .update _ _ _ => false

def Expression.areResidual : List (Expression ν) → Bool
  | [] => true
  | e :: es => e.isResidual && Expression.areResidual es

end

def Scope.Binding.isResidual (name : String) : Scope.Binding ν → Bool
  | .parameter => params.contains name
  | .mutable value | .constant value | .hardcoded value => value.isResidual params residual

def Scopes.Residual (σ : Scopes ν) : Prop :=
  ∀ j name b, (σ.frame j).bindings.find? name = some b → b.isResidual params residual name = true

end Form

variable {params : List String} {residual : List Builtin}

theorem Expression.areResidual_iff {es : List (Expression ν)} :
    Expression.areResidual params residual es = true ↔
      ∀ e ∈ es, e.isResidual params residual = true := by
  induction es with
  | nil => simp [areResidual]
  | cons e es ih => simp [areResidual, ih]

theorem Expression.isResidual_hereditary [Numeric ν] :
    Expression.Hereditary fun e : Expression ν => e.isResidual params residual = true where
  literal _ := rfl
  unary _ _ := Iff.rfl
  binary _ _ _ := Bool.and_eq_true_iff
  logical _ _ _ := Bool.and_eq_true_iff
  conditional t c a := by simp [isResidual, and_assoc]
  assignment _ _ _ := nofun

/-! ## Frames -/

namespace Scopes

theorem Residual.child {σ : Scopes ν} (h : σ.Residual params residual) (i : Nat)
    (kind : Scope.Kind) : (σ.child i kind).2.Residual params residual := by
  intro j name b hb
  rw [find?_child] at hb
  exact h j name b hb

theorem Residual.define {σ : Scopes ν} (h : σ.Residual params residual) (i : Nat) {name : String}
    {binding : Scope.Binding ν} (hbinding : binding.isResidual params residual name = true) :
    (σ.define i name binding).Residual params residual := by
  intro j other b hb
  rcases find?_define hb with ⟨-, rfl, rfl⟩ | hb
  · exact hbinding
  · exact h j other b hb

theorem Residual.hoist {σ : Scopes ν} (h : σ.Residual params residual) (scope : Nat)
    (body : List (Statement ν)) : (σ.hoist scope body).Residual params residual := by
  induction body generalizing σ with
  | nil => exact h
  | cons s rest ih =>
    cases s with
    | function name ps body => exact ih (h.define scope rfl)
    | _ => exact ih h

theorem Residual.defineArguments {σ : Scopes ν} (h : σ.Residual params residual) (scope : Nat)
    (ps : List String) {arguments : List (Expression ν)}
    (harguments : Expression.areResidual params residual arguments = true) :
    (σ.defineArguments scope ps arguments).Residual params residual := by
  induction ps generalizing σ arguments with
  | nil => exact h
  | cons p ps ih =>
    cases arguments with
    | nil => exact ih (h.define scope rfl) harguments
    | cons e es =>
      rw [Expression.areResidual, Bool.and_eq_true] at harguments
      have hvalue : (Scope.Binding.constant e).isResidual params residual p = true := harguments.1
      exact ih (h.define scope hvalue) harguments.2

theorem Residual.defineParameters {σ : Scopes ν} (h : σ.Residual params residual) (scope : Nat)
    {ps : List String} (hps : ∀ p ∈ ps, p ∈ params) :
    (σ.defineParameters scope ps).Residual params residual := by
  induction ps generalizing σ with
  | nil => exact h
  | cons p ps ih =>
    have hp : (Scope.Binding.parameter (ν := ν)).isResidual params residual p = true := by
      simpa [Scope.Binding.isResidual] using hps p (List.mem_cons_self ..)
    exact ih (h.define scope hp) fun q hq => hps q (List.mem_cons_of_mem _ hq)

theorem residual_root (hardcoded : List Builtin) (kind : Scope.Kind) (path : String) :
    ((Scopes.empty (ν := ν) hardcoded).root kind path).2.Residual params residual := by
  intro j name b hb
  cases j with
  | zero => cases hb
  | succ j =>
    rw [frame_of_le (Nat.succ_le_succ (Nat.zero_le j))] at hb
    cases hb

/-- What a name stands for is residual, whether a frame binds it or a builtin is there for it. -/
theorem Residual.lookup? {σ : Scopes ν} (h : σ.Residual params residual) {i owner : Nat}
    {name : String} {b : Scope.Binding ν} (hb : σ.lookup? i name = some (owner, b)) :
    b.isResidual params residual name = true := by
  unfold Scopes.lookup? at hb
  split at hb
  · next found hfound =>
    cases hb
    exact h owner name b (mem_of_findIn? hfound).2
  · obtain ⟨builtin, -, hbuiltin⟩ := Option.map_eq_some_iff.1 hb
    cases hbuiltin
    rfl

end Scopes

/-! ## Reductions -/

namespace Inlining

variable {α β : Type}

/-- From residual frames the reduction comes to residual frames and to an outcome of a form. -/
def Yields (params : List String) (residual : List Builtin) (Q : α → Prop)
    (m : Inlining ν α) : Prop :=
  ∀ σ a σ', σ.Residual params residual → m.run σ = .ok (a, σ') →
    σ'.Residual params residual ∧ Q a

theorem yields_pure {Q : α → Prop} {a : α} (h : Q a) :
    Yields params residual Q (pure a : Inlining ν α) := by
  intro σ b σ' hσ hrun
  obtain ⟨rfl, rfl⟩ := pure_ok.1 hrun
  exact ⟨hσ, h⟩

theorem yields_throw {Q : α → Prop} (e : SpecializationError ν) :
    Yields params residual Q (throw e : Inlining ν α) :=
  fun _ _ _ _ hrun => (throw_ok.1 hrun).elim

theorem Yields.bind {Q : α → Prop} {R : β → Prop} {m : Inlining ν α} {f : α → Inlining ν β}
    (hm : Yields params residual Q m) (hf : ∀ a, Q a → Yields params residual R (f a)) :
    Yields params residual R (m >>= f) := by
  intro σ b σ' hσ hrun
  obtain ⟨a, τ, ha, hb⟩ := bind_ok.1 hrun
  obtain ⟨hτ, hq⟩ := hm σ a τ hσ ha
  exact hf a hq τ b σ' hτ hb

theorem yields_modify {f : Scopes ν → Scopes ν}
    (h : ∀ σ : Scopes ν, σ.Residual params residual → (f σ).Residual params residual) :
    Yields params residual (fun _ => True) (modify f : Inlining ν PUnit) := by
  intro σ u σ' hσ hrun
  rw [modify_ok.1 hrun]
  exact ⟨h σ hσ, trivial⟩

theorem yields_child (scope : Nat) (kind : Scope.Kind) :
    Yields params residual (fun _ => True) (child (ν := ν) scope kind) := by
  intro σ n σ' hσ hrun
  obtain ⟨-, rfl⟩ := child_ok.1 hrun
  exact ⟨hσ.child scope kind, trivial⟩

theorem yields_define (scope : Nat) {name : String} {b : Scope.Binding ν}
    (hb : b.isResidual params residual name = true) :
    Yields params residual (fun _ => True) (define scope name b) :=
  yields_modify fun _ hσ => hσ.define scope hb

theorem yields_hoist (scope : Nat) (body : List (Statement ν)) :
    Yields params residual (fun _ => True) (modify (·.hoist scope body) : Inlining ν PUnit) :=
  yields_modify fun _ hσ => hσ.hoist scope body

theorem yields_branching {Q : α → Prop} {floors : Floors} {inner : Floors → Inlining ν α}
    (h : ∀ floors, Yields params residual Q (inner floors)) :
    Yields params residual Q (branching floors inner) :=
  fun σ a σ' hσ hrun => h _ σ a σ' hσ (branching_ok.1 hrun)

abbrev YieldsResidual (params : List String) (residual : List Builtin)
    (m : Inlining ν (Expression ν)) : Prop :=
  Yields params residual (fun e => e.isResidual params residual = true) m

theorem yields_read (scope : Nat) (name : String) :
    YieldsResidual params residual (read (ν := ν) scope name) := by
  intro σ e σ' hσ hrun
  obtain ⟨rfl, owner, b, hb, he⟩ := read_ok hrun
  have hresidual := hσ.lookup? hb
  refine ⟨hσ, ?_⟩
  cases b with
  | parameter =>
    subst he
    exact hresidual
  | mutable value | constant value | hardcoded value =>
    subst he
    exact hresidual

/-- A variable had a residual value, and has one again if the update makes one of it. -/
theorem yields_assign {floors : Floors} {scope : Nat} {target : String}
    {update : Expression ν → Expression ν}
    (hupdate : ∀ e, e.isResidual params residual = true →
      (update e).isResidual params residual = true) :
    Yields params residual
      (fun r => r.1.isResidual params residual = true ∧ r.2.isResidual params residual = true)
      (assign floors scope target update) := by
  intro σ r σ' hσ hrun
  obtain ⟨owner, current, hfound, -, rfl, rfl⟩ := assign_ok hrun
  have hcurrent : current.isResidual params residual = true :=
    hσ owner target _ (Scopes.mem_of_findIn? hfound).2
  have hupdated := hupdate current hcurrent
  exact ⟨hσ.define owner hupdated, hcurrent, hupdated⟩

variable [Numeric ν]

theorem yields_member {object property : Expression ν}
    (hobject : object.isResidual params residual = true)
    (hproperty : property.isResidual params residual = true) :
    YieldsResidual params residual (member object property) := by
  unfold member
  split
  · next items x _ =>
    refine yields_pure ?_
    rw [Expression.isResidual, Expression.areResidual_iff] at hobject
    cases hentry : (Numeric.toNat? x).bind fun i => items[i]? with
    | none => rfl
    | some e =>
      obtain ⟨i, -, hi⟩ := Option.bind_eq_some_iff.1 hentry
      exact hobject e (List.mem_of_getElem? hi)
  · exact yields_throw _
  · refine yields_pure ?_
    rw [Expression.isResidual, hobject, hproperty]
    rfl

omit [Numeric ν] in
theorem isResidual_ofList {items : List (Expression ν)}
    (h : Expression.areResidual params residual items = true) :
    (Expression.ofList items).isResidual params residual = true := by
  induction items with
  | nil => rfl
  | cons e es ih =>
    rw [Expression.areResidual, Bool.and_eq_true] at h
    have htail := ih h.2
    change Expression.areResidual params residual [e, Expression.ofList es] = true
    rw [Expression.areResidual, Expression.areResidual, h.1, htail]
    rfl

/-- Only mathematical functions are called in the outcome: calls of the list helpers either come to
a value or fail. -/
theorem yields_applyBuiltin {b : Builtin} {arguments : List (Expression ν)}
    (h : Expression.areResidual params residual arguments = true) :
    YieldsResidual params residual (applyBuiltin residual b arguments) := by
  unfold applyBuiltin
  split
  · dsimp only
    split
    · exact yields_pure rfl
    · exact yields_throw _
  · exact yields_pure (isResidual_ofList h)
  · next hlength hlist =>
    split
    · next hallowed =>
      split
      · exact yields_pure rfl
      · refine yields_pure ?_
        have hmath : b.isMath = true := by
          cases b with
          | length => exact absurd rfl hlength
          | list => exact absurd rfl hlist
          | _ => rfl
        rw [Expression.isResidual, hallowed, hmath, h]
        rfl
    · exact yields_throw _

def ReducerYields (params : List String) (residual : List Builtin) (reduce : Reducer ν) : Prop :=
  ∀ floors scope f home arguments, Expression.areResidual params residual arguments = true →
    YieldsResidual params residual (reduce floors scope f home arguments)

end Inlining

open Inlining

section Expressions

variable [Numeric ν] {reduce : Reducer ν}

theorem Expression.isResidual_simplify {e : Expression ν}
    (h : e.isResidual params residual = true) : e.simplify.isResidual params residual = true :=
  Expression.isResidual_hereditary.simplify h

theorem Expression.isResidual_binary_simplify {op : BinaryOperator} {left right : Expression ν}
    (hleft : left.isResidual params residual = true)
    (hright : right.isResidual params residual = true) :
    (Expression.binary op left right).simplify.isResidual params residual = true :=
  isResidual_simplify (Bool.and_eq_true_iff.2 ⟨hleft, hright⟩)

mutual

theorem Expression.inline_yields (hreduce : ReducerYields params residual reduce)
    (floors : Floors) (scope : Nat) : (e : Expression ν) →
      YieldsResidual params residual (e.inline residual reduce floors scope)
  | .literal l => by
    rw [Expression.inline]
    exact yields_pure rfl
  | .builtin b => by
    rw [Expression.inline]
    exact yields_pure rfl
  | .identifier name => by
    rw [Expression.inline]
    exact yields_read scope name
  | .array items => by
    rw [Expression.inline]
    refine (Expression.inlineAll_yields hreduce floors scope items).bind fun items hitems => ?_
    exact yields_pure hitems
  | .member object property => by
    rw [Expression.inline]
    refine (object.inline_yields hreduce floors scope).bind fun object hobject => ?_
    refine (property.inline_yields hreduce floors scope).bind fun property hproperty => ?_
    exact yields_member hobject hproperty
  | .unary op argument => by
    rw [Expression.inline]
    refine (argument.inline_yields hreduce floors scope).bind fun argument hargument => ?_
    exact yields_pure (Expression.isResidual_simplify hargument)
  | .binary op left right => by
    rw [Expression.inline]
    refine (left.inline_yields hreduce floors scope).bind fun left hleft => ?_
    refine (right.inline_yields hreduce floors scope).bind fun right hright => ?_
    exact yields_pure (Expression.isResidual_binary_simplify hleft hright)
  | .logical op left right => by
    rw [Expression.inline]
    refine (left.inline_yields hreduce floors scope).bind fun left hleft => ?_
    split
    · split
      · exact yields_pure hleft
      · exact right.inline_yields hreduce floors scope
    · refine (yields_branching fun floors => right.inline_yields hreduce floors scope).bind
        fun right hright => ?_
      exact yields_pure (Expression.isResidual_simplify (Bool.and_eq_true_iff.2 ⟨hleft, hright⟩))
  | .conditional test consequent alternate => by
    rw [Expression.inline]
    refine (test.inline_yields hreduce floors scope).bind fun test htest => ?_
    split
    · split
      · exact consequent.inline_yields hreduce floors scope
      · exact alternate.inline_yields hreduce floors scope
    · refine (yields_branching fun floors => consequent.inline_yields hreduce floors scope).bind
        fun consequent hconsequent => ?_
      refine (yields_branching fun floors => alternate.inline_yields hreduce floors scope).bind
        fun alternate halternate => ?_
      refine yields_pure (Expression.isResidual_simplify ?_)
      rw [Expression.isResidual, htest, hconsequent, halternate]
      rfl
  | .call callee arguments => by
    rw [Expression.inline]
    refine (callee.inline_yields hreduce floors scope).bind fun callee _ => ?_
    refine (Expression.inlineAll_yields hreduce floors scope arguments).bind
      fun arguments harguments => ?_
    split
    · exact hreduce _ _ _ _ _ harguments
    · exact yields_applyBuiltin harguments
    · exact yields_throw _
  | .function ps body home => by
    rw [Expression.inline]
    exact yields_pure rfl
  | .assignment op target value => by
    rw [Expression.inline]
    refine (value.inline_yields hreduce floors scope).bind fun value hvalue => ?_
    refine (yields_assign fun current hcurrent => ?_).bind fun r hr => yields_pure hr.2
    split
    · exact Expression.isResidual_binary_simplify hcurrent hvalue
    · exact hvalue
  | .update op isBefore target => by
    rw [Expression.inline]
    refine (yields_assign fun current hcurrent => ?_).bind fun r hr => yields_pure ?_
    · exact Expression.isResidual_binary_simplify hcurrent rfl
    · split
      · exact hr.2
      · exact Expression.isResidual_simplify hr.1

theorem Expression.inlineAll_yields (hreduce : ReducerYields params residual reduce)
    (floors : Floors) (scope : Nat) : (es : List (Expression ν)) →
      Yields params residual (fun es => Expression.areResidual params residual es = true)
        (Expression.inlineAll residual reduce floors scope es)
  | [] => by
    rw [Expression.inlineAll]
    exact yields_pure rfl
  | e :: es => by
    rw [Expression.inlineAll]
    refine (e.inline_yields hreduce floors scope).bind fun e he => ?_
    refine (Expression.inlineAll_yields hreduce floors scope es).bind fun es hes => ?_
    exact yields_pure (Bool.and_eq_true_iff.2 ⟨he, hes⟩)

end

end Expressions

section Loops

variable {inline : Nat → Expression ν → Inlining ν (Expression ν)}

theorem LoopStart.counter_yields
    (hinline : ∀ scope e, YieldsResidual params residual (inline scope e)) (scope : Nat)
    (start : LoopStart ν) :
    Yields params residual (fun _ => True) (start.counter inline scope) := by
  unfold LoopStart.counter
  split
  · refine (hinline scope _).bind fun _ _ => ?_
    split
    · exact yields_pure trivial
    · exact yields_throw _
  · exact yields_throw _

theorem Expression.upperBound_yields
    (hinline : ∀ scope e, YieldsResidual params residual (inline scope e)) (scope : Nat)
    (counter : String) (test : Option (Expression ν)) :
    Yields params residual (fun _ => True) (Expression.upperBound inline scope counter test) := by
  unfold Expression.upperBound
  split
  · split
    · refine (hinline scope _).bind fun _ _ => ?_
      split
      · exact yields_pure trivial
      · exact yields_throw _
    · exact yields_throw _
  · exact yields_throw _

variable [Numeric ν]

theorem Accumulation.unroll_yields
    (hinline : ∀ scope e, YieldsResidual params residual (inline scope e)) (a : Accumulation ν)
    (limit scope rounds : Nat) (index : ν) {sum : Option (Expression ν)}
    (hsum : ∀ e, sum = some e → e.isResidual params residual = true) :
    Yields params residual (fun sum => ∀ e, sum = some e → e.isResidual params residual = true)
      (a.unroll inline limit scope rounds index sum) := by
  induction rounds generalizing index sum with
  | zero =>
    unfold Accumulation.unroll
    split
    · exact yields_throw _
    · exact yields_pure hsum
  | succ rounds ih =>
    unfold Accumulation.unroll
    split
    · refine (yields_child scope .loop).bind fun iteration _ => ?_
      refine (yields_define iteration rfl).bind fun _ _ => ?_
      refine (hinline iteration a.term).bind fun term hterm => ?_
      refine ih _ fun e he => ?_
      cases he
      cases sum with
      | none => exact hterm
      | some sum => exact Expression.isResidual_binary_simplify (hsum sum rfl) hterm
    · exact yields_pure hsum

theorem Inlining.loop_yields {floors : Floors}
    (hinline : ∀ scope e, YieldsResidual params residual (inline scope e)) (limit scope : Nat)
    (start : LoopStart ν) (test update : Option (Expression ν)) (body : Statement ν) :
    Yields params residual (fun _ => True)
      (Inlining.loop inline limit floors scope start test update body) := by
  unfold Inlining.loop
  refine (start.counter_yields hinline scope).bind fun (counter, first) _ => ?_
  refine (Expression.upperBound_yields hinline scope _ test).bind fun (bound, isInclusive) _ => ?_
  dsimp only
  split
  · split
    · exact yields_throw _
    · refine (yields_child scope .loop).bind fun outer _ => ?_
      have hnone (e : Expression ν) (he : none = some e) : e.isResidual params residual = true := by
        cases he
      refine (Accumulation.unroll_yields hinline _ limit outer limit first hnone).bind
        fun sum hsum => ?_
      split
      · exact yields_pure trivial
      · next total =>
        refine (yields_assign fun current hcurrent => ?_).bind fun _ _ => yields_pure trivial
        exact Expression.isResidual_binary_simplify hcurrent (hsum total rfl)
  · exact yields_throw _

end Loops

section Statements

def Flow.IsResidual (params : List String) (residual : List Builtin) : Flow ν → Prop
  | .continues => True
  | .returned value => value.isResidual params residual = true

def Step.IsResidual (params : List String) (residual : List Builtin) : Step ν → Prop
  | .done flow => flow.IsResidual params residual
  | .split test consequent alternate => test.isResidual params residual = true ∧
    consequent.IsResidual params residual ∧ alternate.IsResidual params residual

theorem Inlining.finish_yields {isTail : Bool} {side following : Flow ν}
    (hside : side.IsResidual params residual) (hfollowing : following.IsResidual params residual) :
    YieldsResidual params residual (Inlining.finish isTail side following) := by
  unfold Inlining.finish
  split
  · exact yields_pure hside
  · exact yields_pure hfollowing
  · split
    · exact yields_pure rfl
    · exact yields_throw _

theorem Inlining.declare_yields {inline : Nat → Expression ν → Inlining ν (Expression ν)}
    (hinline : ∀ scope e, YieldsResidual params residual (inline scope e)) (scope : Nat)
    (kind : DeclarationKind) (name : String) (init : Option (Expression ν)) :
    Yields params residual (fun _ => True) (Inlining.declare inline scope kind name init) := by
  have hdefine {value : Expression ν} (hvalue : value.isResidual params residual = true) :
      Yields params residual (fun _ => True) (Inlining.define scope name (kind.binding value)) := by
    cases kind with
    | mutable => exact yields_define scope hvalue
    | constant => exact yields_define scope hvalue
  unfold Inlining.declare
  cases init with
  | none => exact hdefine rfl
  | some e => exact (hinline scope e).bind fun value hvalue => hdefine hvalue

variable [Numeric ν] {options : SpecializationOptions} {reduce : Reducer ν}

theorem Inlining.choose_yields {floors : Floors} {test : Expression ν}
    {consequent alternate : Floors → Inlining ν (Flow ν)}
    (htest : test.isResidual params residual = true)
    (hc : ∀ floors, Yields params residual (Flow.IsResidual params residual) (consequent floors))
    (ha : ∀ floors, Yields params residual (Flow.IsResidual params residual) (alternate floors)) :
    Yields params residual (Step.IsResidual params residual)
      (Inlining.choose floors test consequent alternate) := by
  unfold Inlining.choose
  split
  · split
    · exact (hc floors).bind fun flow hflow => yields_pure hflow
    · exact (ha floors).bind fun flow hflow => yields_pure hflow
  · refine (yields_branching hc).bind fun left hleft => ?_
    refine (yields_branching ha).bind fun right hright => yields_pure ?_
    split
    · exact ⟨htest, hleft, hright⟩
    · trivial

theorem Inlining.merge_yields {floors : Floors} {scope : Nat} {isTail : Bool}
    {test : Expression ν} {consequent alternate : Flow ν}
    {rest : Floors → Nat → Inlining ν (Flow ν)}
    (hsplit : (Step.split test consequent alternate).IsResidual params residual)
    (hrest : ∀ floors block,
      Yields params residual (Flow.IsResidual params residual) (rest floors block)) :
    Yields params residual (Flow.IsResidual params residual)
      (Inlining.merge floors scope isTail test consequent alternate rest) := by
  obtain ⟨htest, hconsequent, halternate⟩ := hsplit
  have hfollow : Yields params residual (Flow.IsResidual params residual)
      (Inlining.follow floors scope consequent alternate rest) := by
    unfold Inlining.follow
    split
    · exact yields_pure trivial
    · exact (yields_child scope .block).bind fun block _ => hrest _ block
  refine hfollow.bind fun following hfollowing => ?_
  refine (Inlining.finish_yields hconsequent hfollowing).bind fun consequent hconsequent => ?_
  refine (Inlining.finish_yields halternate hfollowing).bind fun alternate halternate => ?_
  refine yields_pure (Expression.isResidual_simplify ?_)
  rw [Expression.isResidual, htest, hconsequent, halternate]
  rfl

theorem Inlining.alone_yields {floors : Floors} {scope : Nat} {isTail : Bool} {s : Statement ν}
    {step : Nat → Inlining ν (Step ν)}
    (hstep : ∀ place, Yields params residual (Step.IsResidual params residual) (step place)) :
    Yields params residual (Flow.IsResidual params residual)
      (Inlining.alone floors scope isTail s step) := by
  have hplace : Yields params residual (fun _ => True) (Inlining.place scope s) := by
    unfold Inlining.place
    split
    · exact yields_child scope .block
    · exact yields_child scope .block
    · exact yields_pure trivial
  refine hplace.bind fun place _ => ?_
  refine (yields_hoist place [s]).bind fun _ _ => ?_
  refine (hstep place).bind fun step hstep => ?_
  cases step with
  | done flow => exact yields_pure hstep
  | split test consequent alternate =>
    exact Inlining.merge_yields hstep fun _ _ => yields_pure trivial

mutual

theorem Statement.step_yields (hreduce : ReducerYields params options.residualBuiltins reduce)
    (floors : Floors) (scope : Nat) (isTail : Bool) : (s : Statement ν) →
      Yields params options.residualBuiltins (Step.IsResidual params options.residualBuiltins)
        (s.step options reduce floors scope isTail)
  | .block body => by
    rw [Statement.step]
    refine (yields_child scope .block).bind fun block _ => ?_
    refine (yields_hoist block body).bind fun _ _ => ?_
    refine (Statement.inlineAll_yields hreduce floors block isTail body).bind fun flow hflow => ?_
    exact yields_pure hflow
  | .branch test consequent alternate => by
    rw [Statement.step]
    refine (test.inline_yields hreduce floors scope).bind fun test htest => ?_
    refine Inlining.choose_yields htest (fun floors => ?_) fun floors => ?_
    · exact Inlining.alone_yields fun place => consequent.step_yields hreduce floors place isTail
    · cases alternate with
      | none => exact yields_pure trivial
      | some s => exact Inlining.alone_yields fun place => s.step_yields hreduce floors place isTail
  | .function name ps body => by
    rw [Statement.step]
    exact yields_pure trivial
  | .expression e => by
    rw [Statement.step]
    exact (e.inline_yields hreduce floors scope).bind fun _ _ => yields_pure trivial
  | .result none => by
    rw [Statement.step]
    exact yields_pure rfl
  | .result (some e) => by
    rw [Statement.step]
    exact (e.inline_yields hreduce floors scope).bind fun value hvalue => yields_pure hvalue
  | .declaration kind name init => by
    rw [Statement.step]
    refine (Inlining.declare_yields (fun scope e => e.inline_yields hreduce floors scope) scope kind
      name init).bind fun _ _ => yields_pure trivial
  | .loop start test update body => by
    rw [Statement.step]
    refine (Inlining.loop_yields (fun scope e => e.inline_yields hreduce floors scope)
      options.maxLoopIterations scope start test update body).bind fun _ _ => yields_pure trivial

theorem Statement.inlineAll_yields
    (hreduce : ReducerYields params options.residualBuiltins reduce) (floors : Floors)
    (scope : Nat) (isTail : Bool) : (body : List (Statement ν)) →
      Yields params options.residualBuiltins (Flow.IsResidual params options.residualBuiltins)
        (Statement.inlineAll options reduce floors scope isTail body)
  | [] => by
    rw [Statement.inlineAll]
    exact yields_pure trivial
  | s :: rest => by
    rw [Statement.inlineAll]
    refine (s.step_yields hreduce floors scope _).bind fun step hstep => ?_
    split
    · exact yields_pure hstep
    · exact Statement.inlineAll_yields hreduce floors scope isTail rest
    · refine Inlining.merge_yields hstep fun floors block => ?_
      refine (yields_hoist block rest).bind fun _ _ => ?_
      exact Statement.inlineAll_yields hreduce floors block isTail rest

end

/-- A call comes to a residual value, however deep the calls in it are nested. -/
theorem Inlining.reduce_yields (options : SpecializationOptions) (depth : Nat) :
    ReducerYields params options.residualBuiltins (Inlining.reduce (ν := ν) options depth) := by
  induction depth with
  | zero => exact fun _ _ _ _ _ _ => yields_throw _
  | succ depth ih =>
    intro floors scope f home arguments harguments
    unfold Inlining.reduce
    refine (yields_child _ .substitute).bind fun substitute _ => ?_
    refine (yields_modify fun σ hσ => hσ.defineArguments substitute f.params harguments).bind
      fun _ _ => ?_
    refine (yields_child substitute .block).bind fun block _ => ?_
    refine (yields_hoist block f.body).bind fun _ _ => ?_
    refine (Statement.inlineAll_yields ih { floors with call := substitute } block true
      f.body).bind fun flow hflow => ?_
    cases flow with
    | continues => exact yields_pure rfl
    | returned value => exact yields_pure (Expression.isResidual_simplify hflow)

/-- What a function is reduced to is residual over its parameters. -/
theorem Function.isResidual_of_residual {f : Function ν} {name : String}
    {options : SpecializationOptions} {e : Expression ν} (h : f.residual name options = .ok e) :
    e.isResidual f.params options.residualBuiltins = true := by
  have hroot : ((Scopes.empty (ν := ν) options.hardcodedBuiltins).root .closure name).2.Residual
      f.params options.residualBuiltins := Scopes.residual_root _ _ _
  have hyields (block : Nat) : Yields f.params options.residualBuiltins
      (Flow.IsResidual f.params options.residualBuiltins)
      (Statement.inlineAll options (Inlining.reduce (ν := ν) options options.maxInlineDepth) ⟨0, 0⟩
        block true f.body) :=
    Statement.inlineAll_yields (Inlining.reduce_yields options options.maxInlineDepth) _ _ _ _
  unfold Function.residual at h
  dsimp only at h
  split at h
  · next value σ hrun =>
    cases h
    have hblock := (hroot.defineParameters 0 fun _ => id).child 0 .block
    exact (hyields _ _ _ _ (hblock.hoist _ f.body) hrun).2
  · cases h
    rfl
  · cases h

end Statements

end Waveform
