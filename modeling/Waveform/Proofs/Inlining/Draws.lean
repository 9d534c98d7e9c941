import Waveform.Proofs.Inlining.Simulation
import Waveform.Proofs.Inlining.Spending
import Waveform.Proofs.Number.Exact

/-!
# Draws of a residual expression

Inlining keeps to the accounts of draws: a reduction of a text that keeps to a usage spends the uses
of the text, by induction over the text, and for calls over how deep they are nested. So the
residual expression of a function has no more draws than the body of the function, when what draws
is bound to names that are read once.
-/

namespace Waveform

variable {ν : Type} {U : Usage}

open Usage

/-! ## Expressions -/

namespace Expression

variable [Numeric ν] {residual : List Builtin} {reduce : Reducer ν}

mutual

theorem inline_spends (hreduce : U.Reduces reduce) : (e : Expression ν) → e.fits U = true →
    ∀ (floors : Floors) (scope : Nat), U.Inlines (e.inline residual reduce floors scope) e
  | .literal l => by
    intro hfits floors scope
    rw [Expression.inline]
    exact spends_pure hfits fun _ _ => le_rfl
  | .builtin b => by
    intro hfits floors scope
    rw [Expression.inline]
    exact spends_pure hfits fun _ _ => le_rfl
  | .identifier name => by
    intro _ floors scope
    rw [Expression.inline]
    exact (spends_read scope name).imp fun _ h => h.1
  | .array items => by
    intro hfits floors scope
    rw [Expression.fits] at hfits
    rw [Expression.inline]
    refine (inlineAll_spends hreduce items hfits floors scope).bind fun as has => ?_
    refine spends_pure ?_ fun _ _ => le_rfl
    rw [Expression.fits]
    exact has.1
  | .member object property => by
    intro hfits floors scope
    rw [Expression.fits, Bool.and_eq_true] at hfits
    rw [Expression.inline]
    refine (((inline_spends hreduce object hfits.1 floors scope).beside property.uses).bind
      fun o ho => ((inline_spends hreduce property hfits.2 floors scope).after o.uses).bind
        fun p hp => ?_).more fun u => (Expression.uses_member ..).ge
    exact spends_member ho hp
  | .unary op argument => by
    intro hfits floors scope
    rw [Expression.fits] at hfits
    rw [Expression.inline]
    refine (inline_spends hreduce argument hfits floors scope).bind fun a ha => ?_
    exact spends_simplify (((hereditary_fits U).unary ..).2 ha) fun _ => le_rfl
  | .binary op left right => by
    intro hfits floors scope
    rw [Expression.fits, Bool.and_eq_true] at hfits
    rw [Expression.inline]
    refine (((inline_spends hreduce left hfits.1 floors scope).beside right.uses).bind
      fun l hl => ((inline_spends hreduce right hfits.2 floors scope).after l.uses).bind
        fun r hr => ?_).more fun u => (Expression.uses_binary ..).ge
    exact spends_simplify (((hereditary_fits U).binary ..).2 ⟨hl, hr⟩)
      fun u => (Expression.uses_binary ..).le
  | .logical op left right => by
    intro hfits floors scope
    rw [Expression.fits, Bool.and_eq_true] at hfits
    rw [Expression.inline]
    refine (((inline_spends hreduce left hfits.1 floors scope).beside right.uses).bind
      fun l hl => ?_).more fun u => (Expression.uses_logical ..).ge
    split
    · split
      · exact spends_pure hl fun u _ => Nat.le_add_right ..
      · exact (inline_spends hreduce right hfits.2 floors scope).more fun u => Nat.le_add_left ..
    · refine ((spends_branching fun floors =>
        inline_spends hreduce right hfits.2 floors scope).after l.uses).bind fun r hr => ?_
      exact spends_simplify (((hereditary_fits U).logical ..).2 ⟨hl, hr⟩)
        fun u => (Expression.uses_logical ..).le
  | .conditional test consequent alternate => by
    intro hfits floors scope
    rw [Expression.fits, Bool.and_eq_true, Bool.and_eq_true] at hfits
    obtain ⟨⟨htest, hconsequent⟩, halternate⟩ := hfits
    rw [Expression.inline]
    refine ((((inline_spends hreduce test htest floors scope).beside consequent.uses).beside
      alternate.uses).bind fun t ht => ?_).more fun u => (Expression.uses_conditional ..).ge
    split
    · split
      · exact (inline_spends hreduce consequent hconsequent floors scope).more fun u => by omega
      · exact (inline_spends hreduce alternate halternate floors scope).more fun u => by omega
    · refine (((spends_branching fun floors =>
        inline_spends hreduce consequent hconsequent floors scope).after t.uses).beside
          alternate.uses).bind fun c hc => ?_
      refine ((spends_branching fun floors =>
        inline_spends hreduce alternate halternate floors scope).after
          fun u => t.uses u + c.uses u).bind fun a ha => ?_
      exact spends_simplify (((hereditary_fits U).conditional ..).2 ⟨ht, hc, ha⟩)
        fun u => (Expression.uses_conditional ..).le
  | .call callee arguments => by
    intro hfits floors scope
    obtain ⟨hcallee, harguments⟩ := spends_callee
      (fun h => inline_spends hreduce callee h floors scope) hfits
    exact spends_call hreduce hcallee
      (inlineAll_spends hreduce arguments harguments floors scope)
  | .function params body home => by
    intro hfits floors scope
    rw [Expression.fits] at hfits
    rw [Expression.inline]
    refine spends_pure ?_ fun _ _ => le_rfl
    rw [Expression.fits]
    exact hfits
  | .assignment op target value => by
    intro hfits floors scope
    rw [Expression.fits, Bool.and_eq_true, Bool.and_eq_true, isFree_iff] at hfits
    obtain ⟨⟨hvalue, hfree⟩, hplain⟩ := hfits
    rw [Expression.inline]
    refine (((inline_spends hreduce value hvalue floors scope).free.after _).bind
      fun v hv => (spends_assign hplain hv.1 (.inr (hv.2 hfree))).bind fun r hr => ?_).more
        fun u => (Expression.uses_assignment ..).ge
    refine spends_pure hr.1 fun u hu => ?_
    have := hr.2 u
    rw [hv.2 hfree u hu] at this
    exact this
  | .update op isBefore target => by
    intro hfits floors scope
    rw [Expression.fits] at hfits
    rw [Expression.inline]
    refine ((spends_rewrite floors scope (fun _ => 0) hfits
      (fun current hcurrent => fits_simplify_binary hcurrent (by
        rw [Expression.number, Expression.fits])) (fun current u => ?_)
      (.inr fun _ _ => rfl)).bind fun r hr => ?_).more fun u => le_of_eq (by simp)
    · exact (Expression.uses_simplify_le _ u).trans (Expression.uses_binary ..).le
    · obtain ⟨hprevious, hupdated, huses⟩ := hr
      dsimp only
      split
      · exact spends_pure hupdated fun u _ => huses u
      · exact spends_simplify (((hereditary_fits U).unary ..).2 hprevious) fun _ => le_rfl

theorem inlineAll_spends (hreduce : U.Reduces reduce) : (es : List (Expression ν)) →
    Expression.allFit U es = true → ∀ (floors : Floors) (scope : Nat),
      U.Spends (Expression.inlineAll residual reduce floors scope es) (Expression.usesAll es)
        Expression.usesAll fun as => Expression.allFit U as = true ∧
          List.Forall₂ (fun e a => U.IsFree e → U.IsFree a) es as
  | [] => by
    intro _ floors scope
    rw [Expression.inlineAll]
    exact spends_pure ⟨rfl, .nil⟩ fun _ _ => le_rfl
  | e :: es => by
    intro hfits floors scope
    rw [Expression.allFit, Bool.and_eq_true] at hfits
    rw [Expression.inlineAll]
    refine (((inline_spends hreduce e hfits.1 floors scope).free.beside
      (Expression.usesAll es)).bind fun a ha =>
        ((inlineAll_spends hreduce es hfits.2 floors scope).after a.uses).bind
          fun as has => ?_).more fun u => (Expression.usesAll_cons ..).ge
    refine spends_pure ⟨?_, .cons ha.2 has.2⟩ fun u _ => (Expression.usesAll_cons ..).le
    rw [Expression.allFit, ha.1, has.1]
    rfl

end

end Expression

/-! ## Statements -/

namespace Usage

variable [Numeric ν] {residual : List Builtin} {reduce : Reducer ν} {floors : Floors} {scope : Nat}

theorem spends_initializer (hreduce : U.Reduces reduce) {name : String} {init : Expression ν}
    (hfits : init.fits U = true) (hbinds : U.binds name (some init) = true) :
    U.Spends (init.inline residual reduce floors scope) init.uses Expression.uses
      (U.Allows name) := by
  by_cases hfunction : ∃ params body home, init = .function params body home
  · obtain ⟨params, body, home, rfl⟩ := hfunction
    rw [Expression.inline]
    exact spends_pure (allows_function hfits hbinds _) fun _ _ => le_rfl
  · rw [binds, Bool.and_eq_true, Bool.or_eq_true, isDrawn_iff] at hbinds
    obtain ⟨hfree, hplain⟩ := hbinds
    rw [signs] at hplain
    · refine (init.inline_spends hreduce hfits floors scope).free.imp fun a ha => ?_
      exact allows_plain hplain ha.1 (hfree.imp_right fun h => ha.2 (isFree_iff.1 h))
    · rintro params body home ⟨⟩
      exact hfunction ⟨params, body, home, rfl⟩

theorem spends_declare (hreduce : U.Reduces reduce) {kind : DeclarationKind} {name : String}
    {init : Option (Expression ν)} (hfits : Expression.optionFits U init = true)
    (hbinds : U.binds name init = true) :
    U.Spends (Inlining.declare (Expression.inline residual reduce floors) scope kind name init)
      (Expression.usesOption init) (fun _ _ => 0) fun _ => True := by
  have hdefine : ∀ value : Expression ν, U.Allows name value →
      U.Spends (Inlining.define scope name (kind.binding value)) value.uses (fun _ _ => 0)
        fun _ => True := by
    intro value hvalue
    cases kind with
    | mutable => exact spends_define scope hvalue
    | constant => exact spends_define scope hvalue
  unfold Inlining.declare
  cases init with
  | some e =>
    rw [Expression.optionFits] at hfits
    exact (spends_initializer hreduce hfits hbinds).bind hdefine
  | none =>
    rw [binds, Bool.and_eq_true] at hbinds
    have hundefined : U.Allows name (.undefined : Expression ν) := by
      refine allows_plain hbinds.2 ?_ (.inr (isFree_literal _))
      rw [Expression.undefined, Expression.fits]
    exact hdefine _ hundefined

theorem spends_expression (hreduce : U.Reduces reduce) {e : Expression ν}
    (h : (Statement.expression e).fits U = true) :
    U.Spends (e.inline residual reduce floors scope) e.uses (fun _ _ => 0) fun _ => True := by
  by_cases hassignment : ∃ op name value, e = .assignment op name value
  · obtain ⟨op, name, value, rfl⟩ := hassignment
    rw [Statement.fits, Bool.and_eq_true, Bool.and_eq_true, Bool.or_eq_true, isDrawn_iff,
      isFree_iff] at h
    obtain ⟨⟨hvalue, hfree⟩, hplain⟩ := h
    rw [Expression.inline]
    refine (((value.inline_spends hreduce hvalue floors scope).free.after _).bind
      fun v hv => (spends_assign hplain hv.1 (hfree.imp_right hv.2)).bind fun r _ => ?_).more
        fun u => (Expression.uses_assignment ..).ge
    exact spends_pure trivial fun _ _ => Nat.zero_le _
  · rw [Statement.fits] at h
    · exact (e.inline_spends hreduce h floors scope).mono (fun _ _ => le_rfl)
        (fun _ _ _ _ => Nat.zero_le _) fun _ _ => trivial
    · rintro op name value rfl
      exact hassignment ⟨op, name, value, rfl⟩

end Usage

namespace Statement

variable [Numeric ν] {options : SpecializationOptions} {reduce : Reducer ν}

/-- What a statement comes to keeps to the usage, and only a branch may be split. -/
def Comes (U : Usage) (s : Statement ν) (step : Step ν) : Prop :=
  step.Fits U ∧ (s.isBranch = false → ∃ flow, step = .done flow)

omit [Numeric ν] in
theorem comes_done {s : Statement ν} {flow : Flow ν} (h : flow.Fits U) : s.Comes U (.done flow) :=
  ⟨h, fun _ => ⟨flow, rfl⟩⟩

mutual

theorem step_spends (hreduce : U.Reduces reduce) : (s : Statement ν) → s.fits U = true →
    ∀ (floors : Floors) (scope : Nat) (isTail : Bool),
      U.Spends (s.step options reduce floors scope isTail) s.usesInPlace Step.uses (s.Comes U)
  | .block body => by
    intro hfits floors scope isTail
    rw [Statement.fits] at hfits
    rw [Statement.step]
    refine (spends_child scope .block).bind fun block _ => spends_hoist_bind hfits ?_
    exact (inlineAll_spends hreduce body hfits floors block isTail).bind fun flow h =>
      spends_pure (comes_done h) fun _ _ => le_rfl
  | .branch test consequent alternate => by
    intro hfits floors scope isTail
    rw [Statement.fits, Bool.and_eq_true, Bool.and_eq_true] at hfits
    obtain ⟨⟨htest, hconsequent⟩, halternate⟩ := hfits
    rw [Statement.step]
    refine ((((test.inline_spends hreduce htest floors scope).beside consequent.uses).beside
      (usesOption alternate)).bind fun t ht => ?_).more fun u => (uses_branch ..).ge
    refine (spends_choose ht (fun floors => ?_) fun floors => ?_).imp fun step h => ⟨h, nofun⟩
    · exact spends_alone hconsequent fun place =>
        (step_spends hreduce consequent hconsequent floors place isTail).imp fun _ h => h.1
    · cases alternate with
      | none => exact spends_pure trivial fun _ _ => Nat.zero_le _
      | some s =>
        exact spends_alone halternate fun place =>
          (step_spends hreduce s halternate floors place isTail).imp fun _ h => h.1
  | .function _ _ _ => by
    intro _ floors scope isTail
    rw [Statement.step]
    exact spends_pure (comes_done trivial) fun _ _ => Nat.zero_le _
  | .expression e => by
    intro hfits floors scope isTail
    rw [Statement.step]
    exact (spends_expression hreduce hfits).bind fun _ _ =>
      spends_pure (comes_done trivial) fun _ _ => le_rfl
  | .result none => by
    intro _ floors scope isTail
    rw [Statement.step]
    refine spends_pure (comes_done ?_) fun _ _ => Nat.zero_le _
    change (Expression.literal .undefined).fits U = true
    rw [Expression.fits]
  | .result (some e) => by
    intro hfits floors scope isTail
    rw [Statement.fits] at hfits
    rw [Statement.step]
    exact (e.inline_spends hreduce hfits floors scope).bind fun a ha =>
      spends_pure (comes_done ha) fun _ _ => le_rfl
  | .declaration kind name init => by
    intro hfits floors scope isTail
    rw [Statement.fits, Bool.and_eq_true] at hfits
    rw [Statement.step]
    exact (spends_declare hreduce hfits.1 hfits.2).bind fun _ _ =>
      spends_pure (comes_done trivial) fun _ _ => le_rfl
  | .loop _ _ _ _ => by
    intro hfits
    rw [Statement.fits] at hfits
    cases hfits

theorem inlineAll_spends (hreduce : U.Reduces reduce) : (body : List (Statement ν)) →
    allFit U body = true → ∀ (floors : Floors) (scope : Nat) (isTail : Bool),
      U.Spends (inlineAll options reduce floors scope isTail body) (usesInPlaceAll body) Flow.uses
        (Flow.Fits U)
  | [] => by
    intro _ floors scope isTail
    rw [Statement.inlineAll]
    exact spends_pure trivial fun _ _ => le_rfl
  | s :: rest => by
    intro hfits floors scope isTail
    rw [Statement.allFit, Bool.and_eq_true, Bool.and_eq_true] at hfits
    obtain ⟨⟨hs, hrest⟩, hhoisted⟩ := hfits
    have hfollowing := inlineAll_spends hreduce rest hrest
    rw [Statement.inlineAll]
    refine ((step_spends hreduce s hs floors scope _).beside (usesInPlaceAll rest)).bind
      fun step h => ?_
    split
    · exact spends_pure h.1 fun u _ => Nat.le_add_right ..
    · exact (hfollowing floors scope isTail).more fun u => Nat.le_add_left ..
    · next test consequent alternate =>
      refine spends_merge h.1 fun floors block => ?_
      have hfree : hoistsFree U rest = true := by
        refine (Bool.or_eq_true_iff.1 hhoisted).resolve_left fun hbranch => ?_
        obtain ⟨flow, ⟨⟩⟩ := h.2 (by simpa using hbranch)
      refine (spends_hoist_bind hrest (hfollowing floors block isTail)).mono (fun u hu => ?_)
        (fun _ _ _ _ => le_rfl) fun _ h => h
      rw [usesAll_eq, hoistedUses_of_hoistsFree hfree hu, Nat.zero_add]

end

end Statement

/-! ## Functions -/

def Function.entered (f : Function ν) (hardcoded : List Builtin) (path : String) : Scopes ν :=
  ((((Scopes.empty hardcoded).root .closure path).2.defineParameters 0 f.params).child 0 .block).2

namespace Usage

/-- Calls spend their uses, however deep they are nested. -/
theorem reduce_reduces [Numeric ν] (options : SpecializationOptions) (depth : Nat) :
    U.Reduces (ν := ν) (Inlining.reduce options depth) := by
  induction depth with
  | zero => exact fun _ _ _ _ _ _ _ _ _ _ => spends_throw _
  | succ depth ih =>
    intro floors scope params body home arguments hplain hbody harguments haccepts
    rw [Inlining.reduce]
    refine (spends_child _ _).bind fun substitute _ => ?_
    refine ((spends_defineArguments substitute hplain harguments haccepts).after
      (Statement.usesAll body)).bind fun _ _ => ?_
    refine (spends_child substitute .block).bind fun block _ => spends_hoist_bind hbody ?_
    refine (Statement.inlineAll_spends ih body hbody _ block true).bind fun flow hflow => ?_
    split
    · exact spends_simplify hflow fun _ => le_rfl
    · refine spends_pure ?_ fun _ _ => Nat.zero_le _
      rw [Expression.undefined, Expression.fits]

/-- The usage suits a function: its body keeps to it, names that may stand for what draws are read
once at most, and the parameters, which stay names, are none of these. -/
structure Suits (U : Usage) (f : Function ν) : Prop where
  params : ∀ p ∈ f.params, p ∉ U.drawn ∧ U.isPlain p = true
  body : Statement.allFit U f.body = true
  once : ∀ name ∈ U.drawn, Statement.usesAll f.body (.read name) ≤ 1

theorem Holds.defineParameters {σ : Scopes ν} (h : U.Holds σ) (scope : Nat) {params : List String}
    (hparams : ∀ p ∈ params, p ∉ U.drawn ∧ U.isPlain p = true) :
    U.Holds (σ.defineParameters scope params) := by
  induction params generalizing σ with
  | nil => exact h
  | cons p ps ih =>
    exact ih (h.define scope (hparams p (List.mem_cons_self ..)))
      fun q hq => hparams q (List.mem_cons_of_mem _ hq)

theorem balance_defineParameters_le (σ : Scopes ν) (scope : Nat) (params : List String)
    (live : Finset String) (u : Use) :
    (σ.defineParameters scope params).balance live u ≤ σ.balance live u := by
  induction params generalizing σ with
  | nil => exact le_rfl
  | cons p ps ih =>
    exact (ih _).trans ((balance_define_le σ scope p .parameter live u).trans (Nat.zero_add _).le)

theorem holds_root {hardcoded : List Builtin} (h : Builtin.random ∉ hardcoded)
    (kind : Scope.Kind) (path : String) :
    U.Holds ((Scopes.empty (ν := ν) hardcoded).root kind path).2 where
  permits j name b hb := by
    cases j with
    | zero => cases hb
    | succ j =>
      rw [Scopes.frame_of_le (Nat.succ_le_succ (Nat.zero_le j))] at hb
      cases hb
  hardcoded := h

theorem balance_root (hardcoded : List Builtin) (kind : Scope.Kind) (path : String) {u : Use}
    (hu : U.Covers u) :
    ((Scopes.empty (ν := ν) hardcoded).root kind path).2.balance U.drawn.toFinset u = 0 := by
  have hspent : u.spent U.drawn.toFinset = 0 := by
    cases u with
    | draw => rfl
    | read name => exact if_pos (List.mem_toFinset.2 hu)
  rw [Scopes.balance, hspent, add_zero]
  exact Finset.sum_eq_zero fun name _ => rfl

theorem holds_entered {f : Function ν} (h : U.Suits f) {hardcoded : List Builtin}
    (hrandom : Builtin.random ∉ hardcoded) (path : String) : U.Holds (f.entered hardcoded path) :=
  ((holds_root hrandom .closure path).defineParameters 0 h.params).child 0 .block

theorem balance_entered (f : Function ν) (hardcoded : List Builtin) (path : String) {u : Use}
    (hu : U.Covers u) : (f.entered hardcoded path).balance U.drawn.toFinset u = 0 := by
  rw [Function.entered, Scopes.balance_child]
  exact Nat.le_zero.1 ((balance_defineParameters_le ..).trans (balance_root _ _ _ hu).le)

end Usage

/-- The residual expression of a function has no more draws than its body, where names that stand
for what draws are read once at most. -/
theorem Function.residual_draws_le [Numeric ν] {f : Function ν} {options : SpecializationOptions}
    {path : String} {e : Expression ν} (U : Usage) (hsuits : U.Suits f)
    (hrandom : Builtin.random ∉ options.hardcodedBuiltins)
    (h : f.residual path options = .ok e) : e.draws ≤ Statement.drawsAll f.body := by
  obtain ⟨flow, σ', hflow, he⟩ := Reading.residual_ok h
  have hspends : U.Spends
      (modify (·.hoist 1 f.body) >>= fun _ => Statement.inlineAll options
        (Inlining.reduce options options.maxInlineDepth) ⟨0, 0⟩ 1 true f.body)
      (Statement.usesAll f.body) Flow.uses (Flow.Fits U) :=
    spends_hoist_bind hsuits.body
      (Statement.inlineAll_spends (reduce_reduces options _) f.body hsuits.body ⟨0, 0⟩ 1 true)
  obtain ⟨-, -, hspends⟩ := hspends _ flow σ' (holds_entered hsuits hrandom path)
    (Inlining.bind_ok.2 ⟨⟨⟩, _, Inlining.modify_ok.2 rfl, hflow⟩)
  have hempty := fun u (hu : U.Covers u) => balance_entered f options.hardcodedBuiltins path hu
  obtain ⟨live, -, hle⟩ := hspends U.drawn.toFinset fun name hname =>
    (congrArg (_ + ·) (hempty (.read name) hname)).le.trans (hsuits.once name hname)
  have hdraws := hle .draw trivial
  rw [hempty .draw trivial, Nat.add_zero] at hdraws
  rcases he with rfl | ⟨-, rfl⟩
  · exact (Nat.le_add_right ..).trans hdraws
  · exact Nat.zero_le _

/-! ### Names that are read once, and names that are read twice -/

def Function.passing : Function (Exact .zero) :=
  ⟨["t"],
    [.declaration .constant "r" (some (.call (.builtin .random) [])),
    .declaration .constant "scaled" (some (.function ["x"]
      [.result (some (.binary .multiply (.identifier "x") (.number (.of 2))))] none)),
    .result (some (.binary .add (.call (.identifier "scaled") [.identifier "r"])
      (.identifier "t")))]⟩

def Usage.passing : Usage :=
  ⟨["r", "x", "scaled"], [("scaled", ["x"])]⟩

theorem Usage.passing_suits : Usage.passing.Suits Function.passing where
  params := by decide
  body := by decide
  once := by decide

theorem Function.passing_residual_draws :
    Function.passing.residual "wave" .tight =
        .ok (.binary .add (.binary .multiply (.call (.builtin .random) []) (.number (.of 2)))
          (.identifier "t")) ∧
      Expression.draws (.binary .add (.binary .multiply (.call (.builtin .random) [])
        (.number (.of 2))) (.identifier "t") : Expression (Exact .zero)) ≤
          Statement.drawsAll Function.passing.body := by
  have hinline : Function.passing.residual "wave" .tight =
      .ok (.binary .add (.binary .multiply (.call (.builtin .random) []) (.number (.of 2)))
        (.identifier "t")) := rfl
  exact ⟨hinline, Function.residual_draws_le .passing Usage.passing_suits (by decide) hinline⟩

def Function.cancelling : Function (Exact .zero) :=
  ⟨["t"],
    [.declaration .constant "r" (some (.call (.builtin .random) [])),
    .result (some (.binary .subtract (.identifier "r") (.identifier "r")))]⟩

/-- A name that stands for one draw, and is read twice, leaves two draws. -/
theorem Function.cancelling_residual_draws :
    Function.cancelling.residual "wave" .tight =
        .ok (.binary .subtract (.call (.builtin .random) []) (.call (.builtin .random) [])) ∧
      Expression.draws (.binary .subtract (.call (.builtin .random) [])
        (.call (.builtin .random) []) : Expression (Exact .zero)) = 2 ∧
      Statement.drawsAll Function.cancelling.body = 1 :=
  ⟨rfl, rfl, rfl⟩

end Waveform
