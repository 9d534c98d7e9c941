import Waveform.Proofs.Capture.Execution

/-!
# Calls of captured functions

A call of a function and a call of what it is captured as follow each other, by induction on how
deep calls may be nested.
-/

namespace Waveform

variable {ν : Type}

namespace Mirror

variable {m : Mirror ν} {W : Twins} {s s' : Store ν} {home env env' : Environment} {l : Locals}

theorem Agrees.follows_defineParams (h : m.Agrees W s s') (hplaced : m.Placed home l env env')
    {params : List String} (howns : m.Owns params env) {args args' : List (Value ν)}
    (hargs : List.Forall₂ (m.Mirrors W) args args') :
    m.Follows Anything W (Run.defineParams env params args) (Run.defineParams env' params args')
      s s' := by
  induction params generalizing args args' W s s' with
  | nil => exact .pure h trivial
  | cons p ps ih =>
    have hfirst : m.Owns [p] env :=
      howns.mono (List.cons_subset.2 ⟨List.mem_cons_self .., List.nil_subset _⟩)
    have hrest : m.Owns ps env := howns.mono (List.subset_cons_self _ _)
    cases hargs with
    | nil =>
      refine .bind (h.follows_define hplaced hfirst (.primitive .undefined)) ?_
      intro W' _ _ t t' _ _ _ h' _
      exact ih h' hrest .nil
    | cons hv hargs =>
      refine .bind (h.follows_define hplaced hfirst hv) ?_
      intro W' _ _ t t' _ hW _ h' _
      exact ih h' hrest (hargs.imp fun _ _ hw => hw.mono hW)

theorem Follows.result {x x' : Run ν (Completion ν)} (hx : m.Follows m.Completions W x x' s s') :
    m.Follows m.Values W
      (do match ← x with | .returned value => return value | .normal => return .undefined)
      (do match ← x' with | .returned value => return value | .normal => return .undefined)
      s s' := by
  refine .bind hx ?_
  intro W' c c' t t' _ _ _ h' hc
  cases hc with
  | normal => exact .pure h' (.primitive .undefined)
  | returned hv => exact .pure h' hv

variable [Numeric ν] {call call' : Caller ν} {check : CallCheck ν} {patience : Nat}

/-- The statements of a function's body, in the frame that its parameters are bound in. -/
theorem Agrees.follows_block (h : m.Agrees W s s') (hcalls : m.CallsFollow call call' check)
    (hplaced : m.Placed home l env env') {body body' : List (Statement ν)}
    (howns : m.Owns (Statement.declaredNames body) env)
    (hbody : Statement.CapturedAll m.toOrigin home l body body')
    (hobeys : (Statement.hoist env body).After s fun _ s =>
      Statement.allObey m.discipline call check patience env body s) :
    m.Follows m.Completions W (Run.block patience call env body)
      (Run.block patience call' env' body') s s' := by
  refine .bind (h.follows_hoist hplaced howns hbody) ?_
  intro W' _ _ t t' ht _ _ h' _
  exact hbody.follows hcalls hplaced howns (hobeys _ t ht) h'

theorem Agrees.follows_body (h : m.Agrees W s s') (hcalls : m.CallsFollow call call' check)
    {c c' : Closure ν} (hparams : c'.function.params = c.function.params)
    (hplaced : m.Placed home l c.environment c'.environment)
    (hbody : Statement.CapturedAll m.toOrigin home
      (l.extend (c.function.params ++ Statement.declaredNames c.function.body))
      c.function.body c'.function.body)
    {args args' : List (Value ν)} (hargs : List.Forall₂ (m.Mirrors W) args args')
    (hobeys : Run.bodyObeys m.discipline call check patience c args s) :
    m.Follows m.Values W (Run.body patience call c args) (Run.body patience call' c' args')
      s s' := by
  obtain ⟨hframe, -, hobeys⟩ := hobeys
  obtain ⟨hinner, howns⟩ := hplaced.opened h hframe
  rw [Run.body, Run.body, hparams]
  refine .step (Run.outcome_extend _ s) (Run.outcome_extend _ s') (s.keeps_extend _) ?_
  refine .bind ((h.extend c.environment c'.environment).follows_defineParams hinner
    (howns.mono (List.subset_append_left _ _)) hargs) ?_
  intro W' _ _ t t' ht _ _ h' _
  refine .result (h'.follows_block hcalls hinner (howns.mono (List.subset_append_right _ _))
    hbody ?_)
  exact hobeys _ _ (Run.outcome_extend _ s) _ t ht

/-- Calls follow each other, however deep they may be nested. -/
theorem calls_follow (m : Mirror ν) (patience : Nat) : ∀ depth : Nat,
    m.CallsFollow (Run.call none patience depth) (Run.call none patience depth)
      (Run.callObeys m.discipline none patience depth) := by
  induction patience with
  | zero =>
    intro depth W f f' args args' s s' _ _ _ _
    exact .error .rfl
  | succ patience ih =>
    intro depth W f f' args args' s s' h hf hargs hobeys
    cases hf with
    | primitive _ => exact .fail _ _
    | pair _ _ => exact .fail _ _
    | builtin b => exact h.follows_applyBuiltin hobeys hargs
    | closure _ hparams hplaced hbody =>
      exact h.follows_body (ih (depth + 1)) hparams hplaced hbody hargs (hobeys rfl)

end Mirror

end Waveform
