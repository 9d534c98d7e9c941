import Waveform.Proofs.Inlining.Simulation
import Waveform.Proofs.Symbolic.Resolving

/-!
# Statements step by step

What statements come to whose expressions are inlined without a change of the scopes: declarations,
results, and early returns by tests that are not known. After an early return the statements that
follow are inlined in a frame of their own. In a run they follow in the frame of the block.
-/

namespace Waveform

variable {ν : Type}

/-! ## Frames and what they show -/

namespace Scopes

variable {σ τ : Scopes ν} {i j : Nat} {names : List String} {μ : String → Expression ν}

def start (hardcoded : List Builtin) (path : String) (params : List String) : Scopes ν :=
  ((((empty hardcoded).root .closure path).2.defineParameters 0 params).child 0 .block).2

/-- The scopes in which the body of a call without arguments is inlined. -/
def body (σ : Scopes ν) (home : Nat) : Scopes ν :=
  ((σ.child home .substitute).2.child σ.size .block).2

/-- The names can be read from a frame, and stand for the given expressions. -/
def Shows (σ : Scopes ν) (i : Nat) (names : List String) (μ : String → Expression ν) : Prop :=
  ∀ name ∈ names, (Inlining.read i name).run σ = .ok (μ name, σ)

theorem hasPlace_define (h : σ.HasPlace i) (j : Nat) (name : String) (b : Scope.Binding ν) :
    (σ.define j name b).HasPlace i := by
  intro k hk
  rw [(extends_define σ j name b).chain (h i (List.mem_cons_self ..))] at hk
  rw [size_define]
  exact h k hk

theorem seen?_define (h : i < σ.size) (name : String) (b : Scope.Binding ν) (other : String) :
    (σ.define i name b).seen? i other = if other = name then some b else σ.seen? i other := by
  rw [seen?, lookup?, outer_define, findIn?, frame_define_self h, Bindings.find?_insert]
  by_cases hother : other = name
  · rw [if_pos hother, if_pos hother]
    rfl
  · rw [if_neg hother, if_neg hother, seen?, lookup?, findIn?]
    have houter : (σ.define i name b).findIn? other (σ.frame i).outer =
        σ.findIn? other (σ.frame i).outer := by
      refine findIn?_congr fun j _ => ?_
      by_cases hj : j = i
      · rw [hj, frame_define_self h, Bindings.find?_insert, if_neg hother]
      · rw [frame_define_of_ne hj]
    rw [houter]
    rfl

theorem Shows.mono {fewer : List String} (h : σ.Shows i names μ) (hfewer : fewer ⊆ names) :
    σ.Shows i fewer μ :=
  fun name hname => h name (hfewer hname)

theorem Shows.define_other (h : σ.Shows i names μ) (hi : i < σ.size) {name : String}
    (hname : name ∉ names) (b : Scope.Binding ν) : (σ.define i name b).Shows i names μ := by
  intro other hother
  refine Inlining.read_congr ?_ (h other hother)
  rw [seen?_define hi, if_neg]
  rintro rfl
  exact hname hother

theorem seen?_body {home : Nat} (h : σ.HasPlace home) (name : String) :
    (σ.body home).seen? (σ.size + 1) name = σ.seen? home name := by
  have hseen := seen?_child (hasPlace_child h .substitute) .block name
  rw [size_child] at hseen
  rw [body, hseen, seen?_child h]

section

variable (hardcoded : List Builtin) (path : String) (params : List String)

theorem hasPlace_root :
    (((empty hardcoded).root .closure path).2.defineParameters 0 params : Scopes ν).HasPlace 0 := by
  intro j hj
  rw [(extends_defineParameters _ 0 params).chain (Nat.zero_lt_one)] at hj
  rw [size_defineParameters]
  rcases List.mem_cons.1 hj with rfl | hj
  · exact Nat.zero_lt_one
  · cases hj

theorem hasPlace_start : (start hardcoded path params : Scopes ν).HasPlace 1 := by
  have hplace := hasPlace_child (hasPlace_root (ν := ν) hardcoded path params) .block
  rwa [size_defineParameters] at hplace

theorem shows_start : (start hardcoded path params : Scopes ν).Shows 1 params .identifier := by
  intro p hp
  have hseen := seen?_child (hasPlace_root (ν := ν) hardcoded path params) .block p
  rw [size_defineParameters] at hseen
  refine Inlining.read_congr hseen ?_
  rw [Inlining.read_run, seen?, lookup?, findIn?, find?_defineParameters _ Nat.zero_lt_one,
    if_pos hp]
  rfl

end

end Scopes

/-! ## Inlining -/

section

variable [Numeric ν] {options : SpecializationOptions} {reduce : Reducer ν} {floors : Floors}
  {scope : Nat} {isTail : Bool} {σ τ : Scopes ν} {rest : List (Statement ν)}

def Expression.InlinesTo (options : SpecializationOptions) (reduce : Reducer ν) (scope : Nat)
    (σ : Scopes ν) (e e' : Expression ν) : Prop :=
  ∀ floors, (e.inline options.residualBuiltins reduce floors scope).run σ = .ok (e', σ)

theorem Scopes.Shows.inlinesTo {names : List String} {μ : String → Expression ν}
    (h : σ.Shows scope names μ) {e : Expression ν} (he : e.isOver names = true) :
    e.InlinesTo options reduce scope σ (e.resolve μ) :=
  fun floors => Expression.inline_of_isArithmetic floors e (e.isArithmetic_of_isOver he)
    fun name hname => h name (e.mem_of_isOver he hname)

theorem Expression.inlinesTo_identifier {name : String} {b : Scope.Binding ν}
    (h : σ.seen? scope name = some b) :
    (Expression.identifier name).InlinesTo options reduce scope σ (b.standsFor name) := by
  intro floors
  rw [inline, Inlining.read_run, h]

namespace Inlining

theorem inlineAll_result {e e' : Expression ν} (he : e.InlinesTo options reduce scope σ e') :
    (Statement.inlineAll options reduce floors scope isTail (.result (some e) :: rest)).run σ =
      .ok (.returned e', σ) := by
  have hstep : (Statement.step options reduce floors scope (isTail && rest.isEmpty)
      (.result (some e))).run σ = .ok (.done (.returned e'), σ) := by
    rw [Statement.step]
    exact run_bind_of_ok (he floors)
  rw [Statement.inlineAll, run_bind_of_ok hstep]
  rfl

theorem call_function {residual : List Builtin} {callee : Expression ν} {params : List String}
    {body : List (Statement ν)} {home : Option Nat}
    (h : (callee.inline residual reduce floors scope).run σ =
      .ok (.function params body home, τ)) :
    ((Expression.call callee []).inline residual reduce floors scope).run σ =
      (reduce floors scope ⟨params, body⟩ home []).run τ := by
  rw [Expression.inline, run_bind_of_ok h]
  rfl

theorem reduce_of_body {depth home : Nat} {body : List (Statement ν)} {value : Expression ν}
    (hnone : Statement.declaresFunction body = false)
    (h : (Statement.inlineAll options (Inlining.reduce options depth)
      { floors with call := σ.size } (σ.size + 1) true body).run (σ.body home) =
        .ok (.returned value, τ)) :
    (Inlining.reduce options (depth + 1) floors scope ⟨[], body⟩ (some home) []).run σ =
      .ok (value.simplify, τ) := by
  have hsize : (σ.child home .substitute).2.size = σ.size + 1 := Scopes.size_child ..
  rw [Inlining.reduce, run_child_bind, run_modify_bind, run_child_bind, run_modify_bind,
    Scopes.hoist_of_none _ _ hnone]
  dsimp only [Scopes.defineArguments, Option.getD_some]
  rw [hsize]
  exact run_bind_of_ok h

end Inlining

end

/-! ## Runs -/

theorem Run.outcome_bind_of_ok {α β : Type} {x : Run ν α} {f : α → Run ν β} {s t : Store ν} {a : α}
    (h : x.outcome s = (.ok a, t)) : (x >>= f).outcome s = (f a).outcome t := by
  rw [outcome_bind, h]

theorem Statement.hoist_of_none (env : Environment) {body : List (Statement ν)}
    (h : Statement.declaresFunction body = false) : Statement.hoist env body = pure () := by
  induction body with
  | nil => rfl
  | cons st rest ih =>
    cases st with
    | function name params body => cases h
    | _ => exact ih h

namespace Store

def bindFunction (s : Store ν) (j : Nat) (name : String) (f : Function ν) (env : Environment) :
    Store ν :=
  ({ s with made := s.made + 1 } : Store ν).bind j name (.closure ⟨s.made, some name, f, env⟩)

variable {s : Store ν} {j : Nat} (name : String) (f : Function ν) (env : Environment)

theorem size_bindFunction : (s.bindFunction j name f env).frames.size = s.frames.size := by
  rw [bindFunction, size_bind]

theorem find?_bindFunction (h : j < s.frames.size) (i : Nat) (other : String) :
    ((s.bindFunction j name f env).frame i).find? other =
      if i = j ∧ other = name then some (.closure ⟨s.made, some name, f, env⟩)
      else (s.frame i).find? other :=
  find?_bind (s := { s with made := s.made + 1 }) h name _ i other

end Store

section

variable [Numeric ν] {rest : List (Statement ν)} {call : Caller ν} {patience j : Nat}
  {env : Environment} {s t : Store ν} {v : Value ν}

theorem Statement.executeAll_declaration {e : Expression ν}
    (he : ∀ params body home, e ≠ .function params body home)
    (h : (e.evaluate call (j :: env)).outcome s = (.ok v, t)) (kind : DeclarationKind)
    (name : String) :
    (Statement.executeAll patience call (j :: env)
      (.declaration kind name (some e) :: rest)).outcome s =
        (Statement.executeAll patience call (j :: env) rest).outcome (t.bind j name v) := by
  have hdeclare : (Run.declare call (j :: env) name (some e)).outcome s =
      (.ok (), t.bind j name v) := by
    rw [Run.declare_expression he]
    exact Run.outcome_bind_of_ok h
  have hexecute : ((Statement.declaration kind name (some e)).execute patience call
      (j :: env)).outcome s = (.ok .normal, t.bind j name v) := by
    rw [Statement.execute]
    exact Run.outcome_bind_of_ok hdeclare
  rw [Statement.executeAll, Run.outcome_bind_of_ok hexecute]

theorem Statement.executeAll_function (kind : DeclarationKind) (name : String)
    (params : List String) (body : List (Statement ν)) (home : Option Nat) :
    (Statement.executeAll patience call (j :: env)
      (.declaration kind name (some (.function params body home)) :: rest)).outcome s =
        (Statement.executeAll patience call (j :: env) rest).outcome
          (s.bindFunction j name ⟨params, body⟩ (j :: env)) := by
  rw [Statement.executeAll, Statement.execute]
  rfl

theorem Statement.executeAll_result {e : Expression ν}
    (h : (e.evaluate call env).outcome s = (.ok v, t)) :
    (Statement.executeAll patience call env (.result (some e) :: rest)).outcome s =
      (.ok (.returned v), t) := by
  have hexecute : ((Statement.result (some e)).execute patience call env).outcome s =
      (.ok (.returned v), t) := by
    rw [Statement.execute]
    exact Run.outcome_bind_of_ok h
  rw [Statement.executeAll, Run.outcome_bind_of_ok hexecute]
  rfl

theorem Run.outcome_body {c : Closure ν} {args : List (Value ν)}
    (hnone : Statement.declaresFunction c.function.body = false)
    (h : (Statement.executeAll patience call (s.frames.size :: c.environment)
      c.function.body).outcome ((s.extend c.environment).2.bindParams s.frames.size
        c.function.params args) = (.ok (.returned v), t)) :
    (Run.body patience call c args).outcome s = (.ok v, t) := by
  have hblock : (Run.block patience call (s.frames.size :: c.environment)
      c.function.body).outcome ((s.extend c.environment).2.bindParams s.frames.size
        c.function.params args) = (.ok (.returned v), t) := by
    rw [Run.block, Statement.hoist_of_none _ hnone, pure_bind, h]
  rw [Run.body, Run.outcome_bind_of_ok (Run.outcome_extend _ s),
    Run.outcome_bind_of_ok (Run.outcome_defineParams _ _ _ _ _), Run.outcome_bind_of_ok hblock]
  rfl

theorem Expression.evaluate_call {callee : Expression ν} {c : Closure ν} {u : Store ν} {depth : Nat}
    (hcallee : (callee.evaluate (Run.call none (patience + 1) depth) env).outcome s =
      (.ok (.closure c), t))
    (hbody : (Run.body patience (Run.call none patience (depth + 1)) c []).outcome t =
      (.ok v, u)) :
    ((Expression.call callee []).evaluate (Run.call none (patience + 1) depth) env).outcome s =
      (.ok v, u) := by
  rw [Expression.evaluate, Run.outcome_bind_of_ok hcallee]
  exact hbody

end

namespace Literals

variable {M : Mathematics} {ν : Literals M} {s : Store (Exact M)} {j : Nat} {env : Environment}

theorem HoldsIn.extend (h : ν.HoldsIn s env) (env' : Environment) :
    ν.HoldsIn (s.extend env').2 (s.frames.size :: env) := by
  intro name l hl
  rw [Store.lookup?_extend, h name l hl]

end Literals

namespace Valuation

variable {M : Mathematics}

end Valuation

end Waveform
