import Waveform.Proofs.Inlining.ResidualCheck

/-!
# Limits

The limits of the specializer only decide whether there is an outcome, never which one. What a
reduction comes to, it also comes to under wider limits: `Inlining.Within` compares two reductions
that differ in nothing but their limits, and holds of each step if it holds of the steps in it. A
limit is looked at in three places: where a call nests too deep, where a loop has another round
left, and where a builtin may not be called. In each of them the stricter side has no outcome.
-/

namespace Waveform

variable {ν : Type}

/-- The options differ in limits only, and each limit of the second is at least as wide. -/
structure SpecializationOptions.Within (options wider : SpecializationOptions) : Prop where
  hardcoded : wider.hardcodedBuiltins = options.hardcodedBuiltins
  depth : options.maxInlineDepth ≤ wider.maxInlineDepth
  rounds : options.maxLoopIterations ≤ wider.maxLoopIterations
  residual : options.residualBuiltins ⊆ wider.residualBuiltins

def SpecializationOptions.widest (options other : SpecializationOptions) :
    SpecializationOptions where
  maxInlineDepth := max options.maxInlineDepth other.maxInlineDepth
  maxLoopIterations := max options.maxLoopIterations other.maxLoopIterations
  residualBuiltins := options.residualBuiltins ++ other.residualBuiltins
  hardcodedBuiltins := options.hardcodedBuiltins

namespace SpecializationOptions

theorem within_widest_left (options other : SpecializationOptions) :
    options.Within (options.widest other) where
  hardcoded := rfl
  depth := Nat.le_max_left ..
  rounds := Nat.le_max_left ..
  residual := List.subset_append_left ..

theorem within_widest_right {options other : SpecializationOptions}
    (h : options.hardcodedBuiltins = other.hardcodedBuiltins) :
    other.Within (options.widest other) where
  hardcoded := h
  depth := Nat.le_max_right ..
  rounds := Nat.le_max_right ..
  residual := List.subset_append_right ..

end SpecializationOptions

/-! ## Reductions -/

namespace Inlining

variable {α β : Type}

/-- What the first reduction comes to, the second comes to as well. -/
def Within (m wider : Inlining ν α) : Prop :=
  ∀ σ r, m.run σ = .ok r → wider.run σ = .ok r

theorem Within.refl (m : Inlining ν α) : m.Within m :=
  fun _ _ h => h

theorem throw_within (e : SpecializationError ν) (wider : Inlining ν α) :
    Within (throw e) wider := by
  rintro σ ⟨a, τ⟩ h
  exact (throw_ok.1 h).elim

theorem Within.bind {m wider : Inlining ν α} {f g : α → Inlining ν β} (hm : m.Within wider)
    (hf : ∀ a, (f a).Within (g a)) : (m >>= f).Within (wider >>= g) := by
  intro σ r h
  obtain ⟨a, τ, ha, hr⟩ := bind_ok.1 h
  exact bind_ok.2 ⟨a, τ, hm σ _ ha, hf a τ r hr⟩

theorem Within.ite {m m' n n' : Inlining ν α} (hm : m.Within m') (hn : n.Within n') (c : Prop)
    [Decidable c] : Within (if c then m else n) (if c then m' else n') := by
  by_cases hc : c
  · simpa only [if_pos hc] using hm
  · simpa only [if_neg hc] using hn

theorem Within.branching {inner wider : Floors → Inlining ν α}
    (h : ∀ floors, (inner floors).Within (wider floors)) (floors : Floors) :
    (Inlining.branching floors inner).Within (Inlining.branching floors wider) := by
  intro σ r hr
  have hinner := branching_ok.1 hr
  exact branching_ok.2 (h _ σ r hinner)

/-- Every call comes to what it comes to under the stricter limits. -/
def ReducerWithin (reduce wider : Reducer ν) : Prop :=
  ∀ floors scope f home arguments,
    (reduce floors scope f home arguments).Within (wider floors scope f home arguments)

variable [Numeric ν] {residual allowed : List Builtin}

theorem applyBuiltin_within (hresidual : residual ⊆ allowed) (b : Builtin)
    (arguments : List (Expression ν)) :
    (applyBuiltin residual b arguments).Within (applyBuiltin allowed b arguments) := by
  unfold applyBuiltin
  split
  · exact .refl _
  · exact .refl _
  · by_cases hb : b ∈ residual
    · have hallowed : b ∈ allowed := hresidual hb
      simp only [List.contains_iff_mem.2 hb, List.contains_iff_mem.2 hallowed, if_true]
      exact .refl _
    · simp only [List.contains_iff_mem, hb, if_false]
      exact throw_within _ _

end Inlining

open Inlining

/-! ## Expressions -/

section Expressions

variable [Numeric ν] {residual allowed : List Builtin} {reduce wider : Reducer ν}

mutual

theorem Expression.inline_within (hresidual : residual ⊆ allowed)
    (hreduce : ReducerWithin reduce wider) (floors : Floors) (scope : Nat) :
    (e : Expression ν) →
      (e.inline residual reduce floors scope).Within (e.inline allowed wider floors scope)
  | .literal _ | .builtin _ | .identifier _ | .function _ _ _ => by
    simp only [Expression.inline]
    exact .refl _
  | .array items => by
    have hitems := Expression.inlineAll_within hresidual hreduce floors scope items
    simp only [Expression.inline]
    exact hitems.bind fun _ => .refl _
  | .member object property => by
    have hobject := object.inline_within hresidual hreduce floors scope
    have hproperty := property.inline_within hresidual hreduce floors scope
    simp only [Expression.inline]
    exact hobject.bind fun _ => hproperty.bind fun _ => .refl _
  | .unary op argument => by
    have hargument := argument.inline_within hresidual hreduce floors scope
    simp only [Expression.inline]
    exact hargument.bind fun _ => .refl _
  | .binary op left right => by
    have hleft := left.inline_within hresidual hreduce floors scope
    have hright := right.inline_within hresidual hreduce floors scope
    simp only [Expression.inline]
    exact hleft.bind fun _ => hright.bind fun _ => .refl _
  | .logical op left right => by
    have hleft := left.inline_within hresidual hreduce floors scope
    have hright floors := right.inline_within hresidual hreduce floors scope
    simp only [Expression.inline]
    refine hleft.bind fun left => ?_
    cases left.asLiteral? with
    | some l => exact Within.ite (.refl _) (hright floors) _
    | none => exact (Within.branching hright floors).bind fun _ => .refl _
  | .conditional test consequent alternate => by
    have htest := test.inline_within hresidual hreduce floors scope
    have hconsequent floors := consequent.inline_within hresidual hreduce floors scope
    have halternate floors := alternate.inline_within hresidual hreduce floors scope
    simp only [Expression.inline]
    refine htest.bind fun test => ?_
    cases test.asLiteral? with
    | some l => exact Within.ite (hconsequent floors) (halternate floors) _
    | none =>
      have hleft := Within.branching hconsequent floors
      have hright := Within.branching halternate floors
      exact hleft.bind fun _ => hright.bind fun _ => .refl _
  | .call callee arguments => by
    have hcallee := callee.inline_within hresidual hreduce floors scope
    have harguments := Expression.inlineAll_within hresidual hreduce floors scope arguments
    simp only [Expression.inline]
    refine hcallee.bind fun callee => harguments.bind fun arguments => ?_
    cases callee with
    | function params body home => exact hreduce floors scope ⟨params, body⟩ home arguments
    | builtin b => exact applyBuiltin_within hresidual b arguments
    | _ => exact .refl _
  | .assignment op target value => by
    have hvalue := value.inline_within hresidual hreduce floors scope
    simp only [Expression.inline]
    exact hvalue.bind fun _ => .refl _
  | .update op isBefore target => by
    simp only [Expression.inline]
    exact .refl _

theorem Expression.inlineAll_within (hresidual : residual ⊆ allowed)
    (hreduce : ReducerWithin reduce wider) (floors : Floors) (scope : Nat) :
    (es : List (Expression ν)) →
      (Expression.inlineAll residual reduce floors scope es).Within
        (Expression.inlineAll allowed wider floors scope es)
  | [] => by
    simp only [Expression.inlineAll]
    exact .refl _
  | e :: es => by
    have hfirst := e.inline_within hresidual hreduce floors scope
    have hrest := Expression.inlineAll_within hresidual hreduce floors scope es
    simp only [Expression.inlineAll]
    exact hfirst.bind fun _ => hrest.bind fun _ => .refl _

end

end Expressions

/-! ## Loops -/

section Loops

variable {inline wider : Nat → Expression ν → Inlining ν (Expression ν)}

theorem LoopStart.counter_within (hinline : ∀ scope e, (inline scope e).Within (wider scope e))
    (scope : Nat) (start : LoopStart ν) :
    (start.counter inline scope).Within (start.counter wider scope) := by
  unfold LoopStart.counter
  split
  · exact (hinline scope _).bind fun _ => .refl _
  · exact .refl _

theorem Expression.upperBound_within
    (hinline : ∀ scope e, (inline scope e).Within (wider scope e)) (scope : Nat)
    (counter : String) (test : Option (Expression ν)) :
    (Expression.upperBound inline scope counter test).Within
      (Expression.upperBound wider scope counter test) := by
  unfold Expression.upperBound
  split
  · next op name right =>
    refine Within.ite ?_ (.refl _) _
    exact (hinline scope right).bind fun _ => .refl _
  · exact .refl _

variable [Numeric ν]

/-- Rounds to spare do not change the sum: they are only there for rounds that the loop has. -/
theorem Accumulation.unroll_within
    (hinline : ∀ scope e, (inline scope e).Within (wider scope e)) (a : Accumulation ν)
    (limit limit' scope : Nat) {rounds rounds' : Nat} (hrounds : rounds ≤ rounds') (index : ν)
    (sum : Option (Expression ν)) :
    (a.unroll inline limit scope rounds index sum).Within
      (a.unroll wider limit' scope rounds' index sum) := by
  induction rounds generalizing rounds' index sum with
  | zero =>
    by_cases hround : a.hasRound index = true
    · simp only [Accumulation.unroll, hround, if_true]
      exact throw_within _ _
    · cases rounds' with
      | zero | succ =>
        simp only [Accumulation.unroll, hround]
        exact .refl _
  | succ rounds ih =>
    cases rounds' with
    | zero => omega
    | succ rounds' =>
      by_cases hround : a.hasRound index = true
      · have hnext index sum := ih (Nat.le_of_succ_le_succ hrounds) index sum
        have hterm scope := hinline scope a.term
        simp only [Accumulation.unroll, hround, if_true]
        refine Within.bind (.refl _) fun iteration => Within.bind (.refl _) fun _ => ?_
        exact (hterm iteration).bind fun _ => hnext _ _
      · simp only [Accumulation.unroll, hround]
        exact .refl _

theorem Inlining.loop_within (hinline : ∀ scope e, (inline scope e).Within (wider scope e))
    {limit limit' : Nat} (hlimit : limit ≤ limit') (floors : Floors) (scope : Nat)
    (start : LoopStart ν) (test update : Option (Expression ν)) (body : Statement ν) :
    (Inlining.loop inline limit floors scope start test update body).Within
      (Inlining.loop wider limit' floors scope start test update body) := by
  have hstart := start.counter_within hinline scope
  unfold Inlining.loop
  refine hstart.bind fun (counter, first) => ?_
  have htest := Expression.upperBound_within hinline scope counter test
  refine htest.bind fun (bound, isInclusive) => ?_
  refine Within.ite ?_ (.refl _) _
  cases Accumulation.ofBody? counter body with
  | none => exact .refl _
  | some accumulated =>
    obtain ⟨accumulator, term⟩ := accumulated
    have hsum outer := Accumulation.unroll_within hinline
      ⟨counter, first, bound, isInclusive, accumulator, term⟩ limit limit' outer hlimit first none
    exact Within.bind (.refl _) fun outer => (hsum outer).bind fun _ => .refl _

end Loops

/-! ## Statements -/

section Statements

variable {floors : Floors} {scope : Nat} {isTail : Bool}

theorem Inlining.declare_within {inline wider : Nat → Expression ν → Inlining ν (Expression ν)}
    (hinline : ∀ scope e, (inline scope e).Within (wider scope e)) (scope : Nat)
    (kind : DeclarationKind) (name : String) (init : Option (Expression ν)) :
    (Inlining.declare inline scope kind name init).Within
      (Inlining.declare wider scope kind name init) := by
  unfold Inlining.declare
  cases init with
  | none => exact .refl _
  | some e => exact (hinline scope e).bind fun _ => .refl _

variable [Numeric ν]

theorem Inlining.choose_within {test : Expression ν}
    {consequent consequent' alternate alternate' : Floors → Inlining ν (Flow ν)}
    (hconsequent : ∀ floors, (consequent floors).Within (consequent' floors))
    (halternate : ∀ floors, (alternate floors).Within (alternate' floors)) :
    (choose floors test consequent alternate).Within
      (choose floors test consequent' alternate') := by
  unfold choose
  cases test.asLiteral? with
  | some l =>
    have hleft := (hconsequent floors).bind fun flow => .refl (pure (Step.done flow))
    have hright := (halternate floors).bind fun flow => .refl (pure (Step.done flow))
    exact Within.ite hleft hright _
  | none =>
    have hleft := Within.branching hconsequent floors
    have hright := Within.branching halternate floors
    exact hleft.bind fun _ => hright.bind fun _ => .refl _

theorem Inlining.merge_within {test : Expression ν} {consequent alternate : Flow ν}
    {rest rest' : Floors → Nat → Inlining ν (Flow ν)}
    (hrest : ∀ floors block, (rest floors block).Within (rest' floors block)) :
    (merge floors scope isTail test consequent alternate rest).Within
      (merge floors scope isTail test consequent alternate rest') := by
  have hfollow : (follow floors scope consequent alternate rest).Within
      (follow floors scope consequent alternate rest') := by
    unfold follow
    split
    · exact .refl _
    · exact Within.bind (.refl _) fun block => hrest _ block
  exact hfollow.bind fun _ => .refl _

theorem Inlining.alone_within {s : Statement ν} {step step' : Nat → Inlining ν (Step ν)}
    (hstep : ∀ place, (step place).Within (step' place)) :
    (alone floors scope isTail s step).Within (alone floors scope isTail s step') := by
  unfold alone
  refine Within.bind (.refl _) fun place => Within.bind (.refl _) fun _ => ?_
  exact (hstep place).bind fun _ => .refl _

variable {options options' : SpecializationOptions} {reduce wider : Reducer ν}

mutual

theorem Statement.step_within (hoptions : options.Within options')
    (hreduce : ReducerWithin reduce wider) (floors : Floors) (scope : Nat) (isTail : Bool) :
    (s : Statement ν) →
      (s.step options reduce floors scope isTail).Within
        (s.step options' wider floors scope isTail)
  | .block body => by
    have hbody block := Statement.inlineAll_within hoptions hreduce floors block isTail body
    simp only [Statement.step]
    refine Within.bind (.refl _) fun block => Within.bind (.refl _) fun _ => ?_
    exact (hbody block).bind fun _ => .refl _
  | .branch test consequent alternate => by
    have htest := test.inline_within hoptions.residual hreduce floors scope
    have hconsequent floors : Within (alone floors scope isTail consequent _) _ :=
      alone_within fun place => consequent.step_within hoptions hreduce floors place isTail
    simp only [Statement.step]
    refine htest.bind fun _ => Inlining.choose_within hconsequent fun floors => ?_
    cases alternate with
    | none => exact .refl _
    | some s => exact alone_within fun place => s.step_within hoptions hreduce floors place isTail
  | .function _ _ _ | .result none => by
    simp only [Statement.step]
    exact .refl _
  | .expression e | .result (some e) => by
    have he := e.inline_within hoptions.residual hreduce floors scope
    simp only [Statement.step]
    exact he.bind fun _ => .refl _
  | .declaration kind name init => by
    have hinline scope (e : Expression ν) := e.inline_within hoptions.residual hreduce floors scope
    simp only [Statement.step]
    exact (Inlining.declare_within hinline scope kind name init).bind fun _ => .refl _
  | .loop start test update body => by
    have hinline scope (e : Expression ν) := e.inline_within hoptions.residual hreduce floors scope
    have hloop := Inlining.loop_within hinline hoptions.rounds floors scope start test update body
    simp only [Statement.step]
    exact hloop.bind fun _ => .refl _

theorem Statement.inlineAll_within (hoptions : options.Within options')
    (hreduce : ReducerWithin reduce wider) (floors : Floors) (scope : Nat) (isTail : Bool) :
    (body : List (Statement ν)) →
      (Statement.inlineAll options reduce floors scope isTail body).Within
        (Statement.inlineAll options' wider floors scope isTail body)
  | [] => by
    simp only [Statement.inlineAll]
    exact .refl _
  | s :: rest => by
    have hs := s.step_within hoptions hreduce floors scope (isTail && rest.isEmpty)
    have hrest floors scope :=
      Statement.inlineAll_within hoptions hreduce floors scope isTail rest
    simp only [Statement.inlineAll]
    refine hs.bind fun step => ?_
    match step with
    | .done (.returned _) => exact .refl _
    | .done .continues => exact hrest floors scope
    | .split test consequent alternate =>
      exact Inlining.merge_within fun floors block =>
        Within.bind (.refl _) fun _ => hrest floors block

end

/-! ## Functions -/

/-- A depth that is enough for the calls of a function is enough with levels to spare. -/
theorem Inlining.reduce_within (hoptions : options.Within options') {depth depth' : Nat}
    (hdepth : depth ≤ depth') :
    ReducerWithin (Inlining.reduce (ν := ν) options depth) (Inlining.reduce options' depth') := by
  induction depth generalizing depth' with
  | zero => exact fun _ _ _ _ _ => throw_within _ _
  | succ depth ih =>
    cases depth' with
    | zero => omega
    | succ depth' =>
      intro floors scope f home arguments
      have hreduce := ih (Nat.le_of_succ_le_succ hdepth)
      have hbody substitute block := Statement.inlineAll_within hoptions hreduce
        { floors with call := substitute } block true f.body
      unfold Inlining.reduce
      refine Within.bind (.refl _) fun substitute => Within.bind (.refl _) fun _ => ?_
      refine Within.bind (.refl _) fun block => Within.bind (.refl _) fun _ => ?_
      exact (hbody substitute block).bind fun _ => .refl _

/-- A function is reduced to the same expression under wider limits. -/
theorem Function.residual_within (hoptions : options.Within options') {f : Function ν}
    {name : String} {e : Expression ν} (h : f.residual name options = .ok e) :
    f.residual name options' = .ok e := by
  have hreduce := Inlining.reduce_within (ν := ν) hoptions hoptions.depth
  have hbody := Statement.inlineAll_within hoptions hreduce
  unfold Function.residual at h ⊢
  rw [hoptions.hardcoded]
  dsimp only at h ⊢
  split at h
  · next value σ hrun =>
    rw [hbody _ _ _ _ _ _ hrun]
    exact h
  · next σ hrun =>
    rw [hbody _ _ _ _ _ _ hrun]
    exact h
  · cases h

end Statements

/-! ## Specializations -/

section Check

variable {params : List String} {residual allowed : List Builtin}

theorem check_bind_ok {ε : Type} {first second : Except ε Unit} :
    (first >>= fun _ => second) = .ok () ↔ first = .ok () ∧ second = .ok () := by
  cases first with
  | error e => simp [bind, Except.bind]
  | ok u => simp [bind, Except.bind]

mutual

/-- An expression that may be left over may be left over when more builtins may be called. -/
theorem Expression.checkResidual_mono (hresidual : residual ⊆ allowed) : (e : Expression ν) →
    e.checkResidual params residual = .ok () → e.checkResidual params allowed = .ok ()
  | .literal _ | .identifier _ | .builtin _ | .function _ _ _ | .assignment _ _ _
  | .update _ _ _ => by
    simp only [Expression.checkResidual]
    exact id
  | .array items => by
    simp only [Expression.checkResidual]
    exact Expression.checkAllResidual_mono hresidual items
  | .member object property => by
    simp only [Expression.checkResidual, check_bind_ok]
    exact And.imp (object.checkResidual_mono hresidual) (property.checkResidual_mono hresidual)
  | .unary op argument => by
    simp only [Expression.checkResidual]
    exact argument.checkResidual_mono hresidual
  | .binary _ left right | .logical _ left right => by
    simp only [Expression.checkResidual, check_bind_ok]
    exact And.imp (left.checkResidual_mono hresidual) (right.checkResidual_mono hresidual)
  | .conditional test consequent alternate => by
    simp only [Expression.checkResidual, check_bind_ok]
    exact And.imp (test.checkResidual_mono hresidual)
      (And.imp (consequent.checkResidual_mono hresidual) (alternate.checkResidual_mono hresidual))
  | .call callee arguments => by
    intro h
    cases callee with
    | builtin b =>
      simp only [Expression.checkResidual] at h ⊢
      split at h
      · next hb =>
        have hallowed : b ∈ allowed := hresidual (List.contains_iff_mem.1 hb)
        rw [if_pos (List.contains_iff_mem.2 hallowed)]
        exact Expression.checkAllResidual_mono hresidual arguments h
      · cases h
    | _ => cases h

theorem Expression.checkAllResidual_mono (hresidual : residual ⊆ allowed) :
    (es : List (Expression ν)) → Expression.checkAllResidual params residual es = .ok () →
      Expression.checkAllResidual params allowed es = .ok ()
  | [] => fun _ => rfl
  | e :: es => by
    simp only [Expression.checkAllResidual, check_bind_ok]
    exact And.imp (e.checkResidual_mono hresidual) (Expression.checkAllResidual_mono hresidual es)

end

end Check

variable [Numeric ν] {options wider : SpecializationOptions}

/-- A closure is specialized to the same declaration under wider limits. -/
theorem Closure.specialize_of_within (hoptions : options.Within wider) {c : Closure ν}
    {store : Store ν} {name : String} {d : FunctionDeclaration ν}
    (h : c.specialize store name options = .ok d) : c.specialize store name wider = .ok d := by
  simp only [Closure.specialize, bind, Except.bind] at h ⊢
  rw [hoptions.hardcoded]
  split at h
  · cases h
  next captured hunits =>
  split at h
  · cases h
  next merged hmerge =>
  split at h
  · cases h
  next value hvalue =>
  split at h
  · cases h
  next hcheck =>
  have hwider := value.checkResidual_mono hoptions.residual hcheck
  simp only [Function.residual_within hoptions hvalue, hwider]
  exact h

/-- Limits turn results into errors and never into other results: what is specialized under some
options is specialized to the same declaration under wider ones, and options that differ in their
limits never lead to two declarations. -/
theorem Closure.specialize_limits (c : Closure ν) (store : Store ν) (name : String)
    (options other : SpecializationOptions) :
    (options.Within other →
      ∀ d, c.specialize store name options = .ok d → c.specialize store name other = .ok d) ∧
    (options.hardcodedBuiltins = other.hardcodedBuiltins →
      ∀ d d', c.specialize store name options = .ok d → c.specialize store name other = .ok d' →
        d = d') := by
  constructor
  · exact fun hwithin d hd => specialize_of_within hwithin hd
  · intro hhardcoded d d' hd hd'
    have hwidest := specialize_of_within (options.within_widest_left other) hd
    have hwidest' := specialize_of_within (SpecializationOptions.within_widest_right hhardcoded) hd'
    exact Except.ok.inj (hwidest.symm.trans hwidest')

/-- Options with less depth than the tight ones and with more builtins. -/
def SpecializationOptions.shallow : SpecializationOptions :=
  { SpecializationOptions.withHelpers with maxInlineDepth := 16 }

theorem Closure.sineAndLength_limits :
    SpecializationOptions.tight.Within .standard ∧
    ∃ d, Closure.sineAndLength.specialize .initial "wave" .tight = .ok d ∧
      Closure.sineAndLength.specialize .initial "wave" .standard = .ok d ∧
      Closure.sineAndLength.specialize .initial "wave" .shallow = .ok d := by
  have hwithin : SpecializationOptions.tight.Within .standard :=
    ⟨rfl, by decide, by decide, List.Subset.refl _⟩
  obtain ⟨d, hd⟩ : ∃ d, Closure.sineAndLength.specialize .initial "wave" .tight = .ok d :=
    ⟨_, rfl⟩
  obtain ⟨d', hd'⟩ : ∃ d, Closure.sineAndLength.specialize .initial "wave" .shallow = .ok d :=
    ⟨_, rfl⟩
  have hlimits := Closure.specialize_limits .sineAndLength .initial "wave" .tight
  have hsame := (hlimits .shallow).2 rfl d d' hd hd'
  exact ⟨hwithin, d, hd, (hlimits .standard).1 hwithin d hd, hsame ▸ hd'⟩

end Waveform
