import Waveform.Proofs.Inlining.Ledger

/-!
# Spending

What each step of inlining does to the accounts of draws, given that the parts it works on keep to
them: functions are bound before the first statement of their block, values are put together and
stored, calls enter a body with their arguments, and the sides of a branch are joined with what
follows them.
-/

namespace Waveform

variable {ν : Type} {U : Usage}

/-! ## Functions that a block declares -/

def Statement.hoistedUses : List (Statement ν) → Use → ℕ
  | [], _ => 0
  | .function _ _ body :: rest, u => Statement.usesAll body u + hoistedUses rest u
  | _ :: rest, u => hoistedUses rest u

/-- The uses of a statement in its place, where a declared function is bound already. -/
def Statement.usesInPlace : Statement ν → Use → ℕ
  | .function _ _ _, _ => 0
  | s, u => s.uses u

def Statement.usesInPlaceAll : List (Statement ν) → Use → ℕ
  | [], _ => 0
  | s :: rest, u => s.usesInPlace u + usesInPlaceAll rest u

theorem Statement.usesAll_eq (body : List (Statement ν)) (u : Use) :
    usesAll body u = hoistedUses body u + usesInPlaceAll body u := by
  induction body with
  | nil => rfl
  | cons s rest ih =>
    rw [usesAll_cons, ih]
    cases s with
    | function name params body =>
      rw [hoistedUses, usesInPlaceAll, usesInPlace, uses_function]
      omega
    | _ =>
      rw [hoistedUses, usesInPlaceAll, usesInPlace]
      · omega
      all_goals nofun

namespace Usage

theorem hoistedUses_of_hoistsFree {body : List (Statement ν)}
    (h : Statement.hoistsFree U body = true) {u : Use} (hu : U.Covers u) :
    Statement.hoistedUses body u = 0 := by
  induction body with
  | nil => rfl
  | cons s rest ih =>
    rw [Statement.hoistsFree, List.all_cons, Bool.and_eq_true] at h
    have hrest := ih h.2
    cases s with
    | function name params body =>
      have hbody : Statement.usesAll body u = 0 := isFree_iff.1 h.1 u hu
      rw [Statement.hoistedUses, hbody, hrest]
    | _ => exact hrest

theorem allows_function {name : String} {params : List String} {body : List (Statement ν)}
    {home : Option Nat} (hfits : (Expression.function params body home).fits U = true)
    (hbinds : U.binds name (some (.function params body home)) = true) (home' : Option Nat) :
    U.Allows name (.function params body home') := by
  rw [binds, Bool.and_eq_true, Bool.or_eq_true, isDrawn_iff] at hbinds
  obtain ⟨hfree, hparams⟩ := hbinds
  refine ⟨?_, hfree.imp_right isFree_iff.1, fun ps hps params' body' home'' heq => ?_⟩
  · rw [Expression.fits] at hfits ⊢
    exact hfits
  · cases heq
    rw [signs, hps] at hparams
    exact (beq_iff_eq.1 hparams).symm

theorem spends_hoist (scope : Nat) {body : List (Statement ν)}
    (hfits : Statement.allFit U body = true) :
    U.Spends (modify (·.hoist scope body) : Inlining ν PUnit) (Statement.hoistedUses body)
      (fun _ _ => 0) fun _ => True := by
  refine spends_modify (fun σ hσ => ?_) fun σ live u _ => ?_
  · induction body generalizing σ with
    | nil => exact hσ
    | cons s rest ih =>
      rw [Statement.allFit, Bool.and_eq_true, Bool.and_eq_true] at hfits
      obtain ⟨⟨hs, hrest⟩, -⟩ := hfits
      cases s with
      | function name params body =>
        rw [Statement.fits, Bool.and_eq_true] at hs
        refine ih hrest _ (hσ.define scope (allows_function ?_ hs.2 _))
        rw [Expression.fits]
        exact hs.1
      | _ => exact ih hrest _ hσ
  · clear hfits
    induction body generalizing σ with
    | nil => exact Nat.le_add_left ..
    | cons s rest ih =>
      cases s with
      | function name params body =>
        have hfirst := balance_define_le σ scope name
          (.constant (.function params body (some scope))) live u
        have hrest := ih (σ.define scope name (.constant (.function params body (some scope))))
        change _ ≤ Statement.usesAll body u + _ at hfirst
        rw [Scopes.hoist, Statement.hoistedUses]
        omega
      | _ => exact ih σ

/-! ## Steps of inlining -/

theorem allFit_iff {es : List (Expression ν)} :
    Expression.allFit U es = true ↔ ∀ e ∈ es, e.fits U = true := by
  induction es with
  | nil => simp [Expression.allFit]
  | cons e es ih => simp [Expression.allFit, ih]

theorem uses_le_usesAll {e : Expression ν} {es : List (Expression ν)} (h : e ∈ es) (u : Use) :
    e.uses u ≤ Expression.usesAll es u := by
  induction es with
  | nil => cases h
  | cons first es ih =>
    rw [Expression.usesAll_cons]
    rcases List.mem_cons.1 h with rfl | h
    · omega
    · have := ih h
      omega

theorem uses_ofList (items : List (Expression ν)) (u : Use) :
    (Expression.ofList items).uses u = Expression.usesAll items u := by
  induction items with
  | nil => rfl
  | cons e es ih =>
    change Expression.usesAll [e, Expression.ofList es] u = _
    rw [Expression.usesAll_cons, Expression.usesAll_cons, ih, Expression.usesAll_nil,
      Expression.usesAll_cons, add_zero]

theorem fits_ofList {items : List (Expression ν)} (h : Expression.allFit U items = true) :
    (Expression.ofList items).fits U = true := by
  induction items with
  | nil => rfl
  | cons e es ih =>
    rw [Expression.allFit, Bool.and_eq_true] at h
    change (Expression.array [e, Expression.ofList es]).fits U = true
    rw [Expression.fits, Expression.allFit, Expression.allFit, Expression.allFit, h.1, ih h.2]
    rfl

variable [Numeric ν]

theorem spends_member {object property : Expression ν} (hobject : object.fits U = true)
    (hproperty : property.fits U = true) :
    U.Spends (Inlining.member object property) (fun u => object.uses u + property.uses u)
      Expression.uses fun a => a.fits U = true := by
  unfold Inlining.member
  split
  · next items x _ =>
    rw [Expression.fits, allFit_iff] at hobject
    cases hentry : (Numeric.toNat? x).bind fun i => items[i]? with
    | none =>
      refine spends_pure ?_ fun u _ => Nat.zero_le _
      rw [Option.getD_none, Expression.undefined, Expression.fits]
    | some e =>
      obtain ⟨i, -, hi⟩ := Option.bind_eq_some_iff.1 hentry
      have hmem := List.mem_of_getElem? hi
      refine spends_pure (hobject e hmem) fun u _ => ?_
      exact (uses_le_usesAll hmem u).trans (Nat.le_add_right ..)
  · exact spends_throw _
  · refine spends_pure ?_ fun u _ => ?_
    · rw [Expression.fits, hobject, hproperty]
      rfl
    · rw [Expression.uses_member]

theorem spends_applyBuiltin (residual : List Builtin) (b : Builtin)
    {arguments : List (Expression ν)} (h : Expression.allFit U arguments = true) :
    U.Spends (Inlining.applyBuiltin residual b arguments)
      (fun u => (Expression.builtin b : Expression ν).drawnBy u + Expression.usesAll arguments u)
      Expression.uses fun a => a.fits U = true := by
  have hliteral : ∀ (l : Literal ν), U.Spends (pure (.literal l) : Inlining ν (Expression ν))
      (fun u => (Expression.builtin b : Expression ν).drawnBy u + Expression.usesAll arguments u)
      Expression.uses fun a => a.fits U = true :=
    fun l => spends_pure (by rw [Expression.fits]) fun u _ => Nat.zero_le _
  unfold Inlining.applyBuiltin
  split
  · dsimp only
    split
    · exact hliteral _
    · exact spends_throw _
  · refine spends_pure (fits_ofList h) fun u _ => ?_
    rw [uses_ofList]
    exact Nat.le_add_left ..
  · split
    · split
      · exact hliteral _
      · refine spends_pure (by rw [Expression.fits]; exact h) fun u _ => ?_
        rw [Expression.uses_call, Expression.uses_builtin, add_zero]
    · exact spends_throw _

/-! ## Calls -/

omit [Numeric ν] in
theorem accepts_of_free {params : List String} {arguments : List (Expression ν)}
    (h : arguments.all U.isFree = true) : U.accepts params arguments = true := by
  refine List.all_eq_true.2 fun p hp => ?_
  have hfree := List.all_eq_true.1 h p.2 (List.of_mem_zip hp).2
  rw [hfree, Bool.or_true]

omit [Numeric ν] in
theorem accepts_of_forall₂ {texts arguments : List (Expression ν)}
    (h : List.Forall₂ (fun e a => U.IsFree e → U.IsFree a) texts arguments) {params : List String}
    (haccepts : U.accepts params texts = true) : U.accepts params arguments = true := by
  induction h generalizing params with
  | nil => exact haccepts
  | cons hfirst _ ih =>
    cases params with
    | nil => rfl
    | cons p ps =>
      rw [accepts, List.zip_cons_cons, List.all_cons, Bool.and_eq_true, Bool.or_eq_true,
        isFree_iff] at haccepts ⊢
      exact ⟨haccepts.1.imp_right hfirst, ih haccepts.2⟩

/-- What a callee comes to can be called with what the arguments come to. -/
structure Calls (U : Usage) (callee : Expression ν) (texts : List (Expression ν))
    (a : Expression ν) : Prop where
  enters : ∀ params body home, a = .function params body home →
    params.all U.isPlain = true ∧ Statement.allFit U body = true ∧
      U.accepts params texts = true
  draws : ∀ u, a.drawnBy u ≤ callee.drawnBy u

omit [Numeric ν] in
theorem calls_of_fits {callee a : Expression ν} {texts : List (Expression ν)}
    (ha : a.fits U = true)
    (haccepts : ∀ params body home, a = .function params body home →
      U.accepts params texts = true) : U.Calls callee texts a where
  enters params body home heq := by
    subst heq
    rw [Expression.fits, Bool.and_eq_true] at ha
    exact ⟨ha.1, ha.2, haccepts _ _ _ rfl⟩
  draws u := by
    cases a with
    | builtin b =>
      cases b with
      | random => cases ha
      | _ => exact Nat.zero_le _
    | _ => exact Nat.zero_le _

/-- Inlining a call spends the uses of the body and of the arguments. -/
def Reduces (U : Usage) (reduce : Reducer ν) : Prop :=
  ∀ floors scope params body home arguments, params.all U.isPlain = true →
    Statement.allFit U body = true → Expression.allFit U arguments = true →
    U.accepts params arguments = true →
    U.Spends (reduce floors scope ⟨params, body⟩ home arguments)
      (fun u => Statement.usesAll body u + Expression.usesAll arguments u) Expression.uses
      fun a => a.fits U = true

abbrev Inlines (U : Usage) (x : Inlining ν (Expression ν)) (e : Expression ν) : Prop :=
  U.Spends x e.uses Expression.uses fun a => a.fits U = true

variable {residual : List Builtin} {reduce : Reducer ν} {floors : Floors} {scope : Nat}

theorem spends_callee {callee : Expression ν} {texts : List (Expression ν)}
    (hcallee : callee.fits U = true → U.Inlines (callee.inline residual reduce floors scope) callee)
    (hfits : (Expression.call callee texts).fits U = true) :
    U.Spends (callee.inline residual reduce floors scope) callee.uses Expression.uses
        (U.Calls callee texts) ∧ Expression.allFit U texts = true := by
  by_cases hbuiltin : ∃ b, callee = .builtin b
  · obtain ⟨b, rfl⟩ := hbuiltin
    rw [Expression.fits] at hfits
    refine ⟨?_, hfits⟩
    rw [Expression.inline]
    refine spends_pure ⟨fun params body home heq => ?_, fun u => le_rfl⟩ fun u _ => le_rfl
    cases heq
  · rw [Expression.fits, Bool.and_eq_true, Bool.and_eq_true] at hfits
    · obtain ⟨⟨hfits, htexts⟩, hpasses⟩ := hfits
      refine ⟨?_, htexts⟩
      by_cases hname : ∃ name ps, callee = .identifier name ∧ U.params? name = some ps
      · obtain ⟨name, ps, rfl, hps⟩ := hname
        rw [passes, hps] at hpasses
        rw [Expression.inline]
        refine (spends_read scope name).imp fun a ha => calls_of_fits ha.1 ?_
        intro params body home heq
        obtain rfl := ha.2 ps hps params body home heq
        exact hpasses
      · have hfree : texts.all U.isFree = true := by
          unfold passes at hpasses
          split at hpasses
          · next name =>
            split at hpasses
            · next ps hps => exact absurd ⟨name, ps, rfl, hps⟩ hname
            · exact hpasses
          · exact hpasses
        exact (hcallee hfits).imp fun a ha =>
          calls_of_fits ha fun _ _ _ _ => accepts_of_free hfree
    · exact fun b hb => hbuiltin ⟨b, hb⟩

theorem spends_call {callee : Expression ν} {texts : List (Expression ν)}
    (hreduce : U.Reduces reduce)
    (hcallee : U.Spends (callee.inline residual reduce floors scope) callee.uses Expression.uses
      (U.Calls callee texts))
    (harguments : U.Spends (Expression.inlineAll residual reduce floors scope texts)
      (Expression.usesAll texts) Expression.usesAll fun as => Expression.allFit U as = true ∧
        List.Forall₂ (fun e a => U.IsFree e → U.IsFree a) texts as) :
    U.Inlines ((Expression.call callee texts).inline residual reduce floors scope)
      (.call callee texts) := by
  rw [Expression.inline]
  refine ((hcallee.beside fun u => callee.drawnBy u + Expression.usesAll texts u).bind
    fun a ha => ((harguments.after fun u => a.uses u + callee.drawnBy u).bind
      fun as has => ?_).more fun u => ?_).more fun u => ?_
  · split
    · next params body home =>
      obtain ⟨hplain, hbody, haccepts⟩ := ha.enters params body home rfl
      refine (hreduce floors scope params body home as hplain hbody has.1
        (accepts_of_forall₂ has.2 haccepts)).more fun u => ?_
      rw [Expression.uses_function]
      omega
    · next b =>
      refine (spends_applyBuiltin residual b has.1).more fun u => ?_
      have := ha.draws u
      omega
    · exact spends_throw _
  · omega
  · rw [Expression.uses_call]
    omega

end Usage

/-! ## Values -/

namespace Usage

variable [Numeric ν] {residual : List Builtin} {reduce : Reducer ν} {floors : Floors} {scope : Nat}

/-- What is put together from parts that keep to the usage costs what the parts cost. -/
theorem spends_simplify {text : Use → ℕ} {e : Expression ν} (hfits : e.fits U = true)
    (huses : ∀ u, e.uses u ≤ text u) :
    U.Spends (pure e.simplify : Inlining ν (Expression ν)) text Expression.uses
      fun a => a.fits U = true :=
  spends_pure ((hereditary_fits U).simplify hfits) fun u _ =>
    (Expression.uses_simplify_le e u).trans (huses u)

theorem fits_simplify_binary {op : BinaryOperator} {left right : Expression ν}
    (hleft : left.fits U = true) (hright : right.fits U = true) :
    (Expression.binary op left right).simplify.fits U = true :=
  (hereditary_fits U).simplify (((hereditary_fits U).binary ..).2 ⟨hleft, hright⟩)

/-- The value of an assignment is stored. An operator goes on from the value before, which is
taken. -/
theorem spends_assign {op : AssignmentOperator} {target : String} {value : Expression ν}
    (hplain : U.isPlain target = true) (hvalue : value.fits U = true)
    (hfree : target ∈ U.drawn ∨ U.IsFree value) :
    U.Spends
      (Inlining.assign floors scope target fun current =>
        match op.binaryOperator? with
        | some op => (Expression.binary op current value).simplify
        | none => value)
      (fun u => (if op.binaryOperator?.isSome ∧ u = .read target then 1 else 0) + value.uses u)
      (fun r u => if op.binaryOperator?.isSome then r.1.uses u else 0) fun r =>
        r.2.fits U = true ∧ ∀ u, r.2.uses u ≤
          (if op.binaryOperator?.isSome then r.1.uses u else 0) + value.uses u := by
  cases hop : op.binaryOperator? with
  | none =>
    refine (spends_write floors scope (allows_plain hplain hvalue hfree)).mono
      (fun u _ => Nat.le_add_left ..) (fun _ _ _ _ => Nat.zero_le _) ?_
    rintro r rfl
    exact ⟨hvalue, fun u => Nat.le_add_left ..⟩
  | some op =>
    refine (spends_rewrite floors scope value.uses hplain
      (fun current hcurrent => fits_simplify_binary hcurrent hvalue) (fun current u => ?_)
      hfree).mono (fun u _ => ?_) (fun r _ u _ => Nat.le_add_right ..) fun r hr => hr.2
    · exact (Expression.uses_simplify_le _ u).trans (Expression.uses_binary ..).le
    · simp

end Usage

/-! ## Flows -/

def Flow.uses : Flow ν → Use → ℕ
  | .continues, _ => 0
  | .returned value, u => value.uses u

def Step.uses : Step ν → Use → ℕ
  | .done flow, u => flow.uses u
  | .split test consequent alternate, u => test.uses u + consequent.uses u + alternate.uses u

def Flow.Fits (U : Usage) : Flow ν → Prop
  | .continues => True
  | .returned value => value.fits U = true

def Step.Fits (U : Usage) : Step ν → Prop
  | .done flow => flow.Fits U
  | .split test consequent alternate =>
    test.fits U = true ∧ consequent.Fits U ∧ alternate.Fits U ∧
      (consequent.isReturn || alternate.isReturn) = true

namespace Usage

variable {text : Use → ℕ} {floors : Floors} {scope : Nat} {isTail : Bool}

theorem spends_finish {side following : Flow ν} (hside : side.Fits U)
    (hfollowing : following.Fits U) :
    U.Spends (Inlining.finish isTail side following)
      (fun u => if side.isReturn then side.uses u else following.uses u) Expression.uses
      fun a => a.fits U = true := by
  cases side with
  | returned value => exact spends_pure hside fun _ _ => le_rfl
  | continues =>
    cases following with
    | returned value => exact spends_pure hfollowing fun _ _ => le_rfl
    | continues =>
      rw [Inlining.finish]
      split
      · refine spends_pure ?_ fun _ _ => Nat.zero_le _
        rw [Expression.undefined, Expression.fits]
      · exact spends_throw _

theorem spends_follow {consequent alternate : Flow ν} {rest : Floors → Nat → Inlining ν (Flow ν)}
    (hrest : ∀ floors block, U.Spends (rest floors block) text Flow.uses (Flow.Fits U)) :
    U.Spends (Inlining.follow floors scope consequent alternate rest) text Flow.uses
      (Flow.Fits U) := by
  rw [Inlining.follow]
  split
  · exact spends_pure trivial fun _ _ => Nat.zero_le _
  · exact (spends_child scope .block).bind fun block _ => hrest _ block

variable [Numeric ν]

/-- What follows a split stands for one of its sides only, since the other one returns. -/
theorem spends_merge {test : Expression ν} {consequent alternate : Flow ν}
    (h : (Step.split test consequent alternate).Fits U)
    {rest : Floors → Nat → Inlining ν (Flow ν)}
    (hrest : ∀ floors block, U.Spends (rest floors block) text Flow.uses (Flow.Fits U)) :
    U.Spends (Inlining.merge floors scope isTail test consequent alternate rest)
      (fun u => (Step.split test consequent alternate).uses u + text u) Flow.uses
      (Flow.Fits U) := by
  obtain ⟨htest, hconsequent, halternate, hreturn⟩ := h
  rw [Inlining.merge]
  refine ((spends_follow hrest).after _).bind fun following hfollowing => ?_
  refine .more (((spends_finish hconsequent hfollowing).beside fun u =>
    test.uses u + if alternate.isReturn then alternate.uses u else following.uses u).bind
      fun c hc => .more (((spends_finish halternate hfollowing).after fun u =>
        test.uses u + c.uses u).bind fun a ha => ?_) fun u => ?_) fun u => ?_
  · refine spends_pure ?_ fun u _ => ?_
    · exact (hereditary_fits U).simplify (((hereditary_fits U).conditional ..).2 ⟨htest, hc, ha⟩)
    · exact (Expression.uses_simplify_le _ u).trans (Expression.uses_conditional ..).le
  · omega
  · rw [Step.uses]
    rcases Bool.or_eq_true_iff.1 hreturn with hreturn | hreturn
    · rw [if_pos hreturn]
      split <;> omega
    · rw [if_pos hreturn]
      split <;> omega

theorem spends_conclude {step : Step ν} (h : step.Fits U) :
    U.Spends (Inlining.conclude floors scope isTail step) step.uses Flow.uses (Flow.Fits U) := by
  cases step with
  | done flow => exact spends_pure h fun _ _ => le_rfl
  | split test consequent alternate =>
    have hrest : ∀ (_ : Floors) (_ : Nat),
        U.Spends (pure .continues : Inlining ν (Flow ν)) (fun _ => 0) Flow.uses (Flow.Fits U) :=
      fun _ _ => spends_pure trivial fun _ _ => le_rfl
    exact spends_merge h hrest

omit [Numeric ν] in
theorem spends_place (s : Statement ν) :
    U.Spends (Inlining.place scope s) text (fun _ => text) fun _ => True := by
  unfold Inlining.place
  split
  · exact spends_child scope .block
  · exact spends_child scope .block
  · exact spends_pure trivial fun _ _ => le_rfl

omit [Numeric ν] in
theorem spends_hoist_bind {α : Type} {cost : α → Use → ℕ} {Q : α → Prop} {x : PUnit → Inlining ν α}
    {body : List (Statement ν)} (hfits : Statement.allFit U body = true)
    (hx : U.Spends (x ⟨⟩) (Statement.usesInPlaceAll body) cost Q) :
    U.Spends (modify (·.hoist scope body) >>= x) (Statement.usesAll body) cost Q :=
  (((spends_hoist scope hfits).beside (Statement.usesInPlaceAll body)).bind fun _ _ =>
    hx.more fun _ => Nat.le_add_left ..).more fun u => (Statement.usesAll_eq body u).ge

theorem spends_alone {s : Statement ν} {step : Nat → Inlining ν (Step ν)}
    (hfits : s.fits U = true)
    (hstep : ∀ scope, U.Spends (step scope) s.usesInPlace Step.uses (Step.Fits U)) :
    U.Spends (Inlining.alone floors scope isTail s step) s.uses Flow.uses (Flow.Fits U) := by
  have hall : Statement.allFit U [s] = true := by
    rw [Statement.allFit, hfits, Statement.allFit]
    exact Bool.or_true _
  rw [Inlining.alone]
  refine ((spends_place s).bind fun place _ => spends_hoist_bind hall
    (((hstep place).more fun u => ?_).bind fun step h => spends_conclude h)).more fun u => ?_
  · rw [Statement.usesInPlaceAll, Statement.usesInPlaceAll]
    omega
  · rw [Statement.usesAll_cons, Statement.usesAll_nil]
    omega

theorem spends_choose {test : Expression ν} {left right : Use → ℕ}
    {consequent alternate : Floors → Inlining ν (Flow ν)} (htest : test.fits U = true)
    (hconsequent : ∀ floors, U.Spends (consequent floors) left Flow.uses (Flow.Fits U))
    (halternate : ∀ floors, U.Spends (alternate floors) right Flow.uses (Flow.Fits U)) :
    U.Spends (Inlining.choose floors test consequent alternate)
      (fun u => test.uses u + left u + right u) Step.uses (Step.Fits U) := by
  have hdone : ∀ flow : Flow ν, flow.Fits U →
      U.Spends (pure (Step.done flow) : Inlining ν (Step ν)) flow.uses Step.uses (Step.Fits U) :=
    fun flow h => spends_pure h fun _ _ => le_rfl
  rw [Inlining.choose]
  split
  · split
    · refine .bind ((hconsequent floors).more fun u => ?_) hdone
      omega
    · refine .bind ((halternate floors).more fun u => ?_) hdone
      omega
  · refine (((spends_branching hconsequent).after test.uses).beside right).bind fun c hc => ?_
    refine ((spends_branching halternate).after fun u => test.uses u + c.uses u).bind
      fun a ha => ?_
    split
    · next hreturn => exact spends_pure ⟨htest, hc, ha, hreturn⟩ fun _ _ => le_rfl
    · exact spends_pure trivial fun _ _ => Nat.zero_le _

end Usage

end Waveform
