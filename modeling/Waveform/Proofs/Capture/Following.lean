import Waveform.Proofs.Capture.Agreement
import Waveform.Proofs.Evaluation.Discipline

/-!
# Runs that follow each other

Two runs from stores that agree end alike: both with a value, in stores that agree again, or both
with an error. `Follows.bind` proves it step by step, and the lemmas after it are the steps.
-/

namespace Waveform

variable {ν : Type}

namespace Mirror

section

variable {α α' β β' : Type}

/-- What the values of two runs have in common, with the store that the first leaves behind. -/
abbrev Relation (ν α α' : Type) := Twins → α → α' → Store ν → Prop

/-- How two runs end alike. What the first had bound in the store it started from stays bound. -/
inductive Ends (m : Mirror ν) (R : Relation ν α α') (W : Twins) (s : Store ν) :
    Except (Stop ν) α × Store ν → Except (Stop ν) α' × Store ν → Prop
  | ok {W' : Twins} {a : α} {a' : α'} {t t' : Store ν} (hW : W ⊆ W') (hkeeps : s.Keeps t)
    (h : m.Agrees W' t t') (hR : R W' a a' t) : Ends m R W s (.ok a, t) (.ok a', t')
  | error {e e' : Stop ν} {t t' : Store ν} (h : e = .exhausted ↔ e' = .exhausted) :
    Ends m R W s (.error e, t) (.error e', t')

def Follows (m : Mirror ν) (R : Relation ν α α') (W : Twins) (x : Run ν α) (x' : Run ν α')
    (s s' : Store ν) : Prop :=
  m.Ends R W s (x.outcome s) (x'.outcome s')

variable {m : Mirror ν} {R : Relation ν α α'} {Q : Relation ν β β'} {W W' : Twins} {x : Run ν α}
  {x' : Run ν α'} {s s' t t' : Store ν}

theorem Ends.after {r : Except (Stop ν) α × Store ν} {r' : Except (Stop ν) α' × Store ν}
    (h : m.Ends R W' t r r') (hW : W ⊆ W') (hkeeps : s.Keeps t) : m.Ends R W s r r' := by
  cases h with
  | ok hW' hkeeps' h hR => exact .ok (hW.trans hW') (hkeeps.trans hkeeps') h hR
  | error h => exact .error h

theorem Follows.of_outcome {a : α} {a' : α'}
    (hx : x.outcome s = (.ok a, t)) (hx' : x'.outcome s' = (.ok a', t')) (hW : W ⊆ W')
    (hkeeps : s.Keeps t) (h : m.Agrees W' t t') (hR : R W' a a' t) : m.Follows R W x x' s s' := by
  rw [Follows, hx, hx']
  exact .ok hW hkeeps h hR

theorem Follows.pure {a : α} {a' : α'} (h : m.Agrees W s s') (hR : R W a a' s) :
    m.Follows R W (pure a) (pure a') s s' :=
  .ok (Set.Subset.refl W) (.refl s) h hR

theorem Follows.fail (cause cause' : RuntimeError ν) :
    m.Follows R W (Run.fail cause) (Run.fail cause') s s' :=
  .error (by simp)

theorem Follows.bind {f : α → Run ν β} {f' : α' → Run ν β'} (hx : m.Follows R W x x' s s')
    (hf : ∀ W' a a' t t', x.outcome s = (.ok a, t) → W ⊆ W' → s.Keeps t → m.Agrees W' t t' →
      R W' a a' t → m.Follows Q W' (f a) (f' a') t t') :
    m.Follows Q W (x >>= f) (x' >>= f') s s' := by
  unfold Follows at hx hf ⊢
  rw [Run.outcome_bind, Run.outcome_bind]
  generalize hxt : x.outcome s = end_ at hx
  generalize x'.outcome s' = end_' at hx
  cases hx with
  | ok hW hkeeps h hR =>
    exact (hf _ _ _ _ _ hxt hW hkeeps h hR).after hW hkeeps
  | error h => exact .error h

theorem Follows.step {f : α → Run ν β} {f' : α' → Run ν β'} {a : α} {a' : α'}
    (hx : x.outcome s = (.ok a, t)) (hx' : x'.outcome s' = (.ok a', t')) (hkeeps : s.Keeps t)
    (hf : m.Follows Q W (f a) (f' a') t t') : m.Follows Q W (x >>= f) (x' >>= f') s s' := by
  unfold Follows
  rw [Run.outcome_bind, Run.outcome_bind, hx, hx']
  exact Ends.after hf (Set.Subset.refl W) hkeeps

theorem Follows.mono {Q : Relation ν α α'} (h : m.Follows R W x x' s s')
    (hQ : ∀ W' a a' t, R W' a a' t → Q W' a a' t) : m.Follows Q W x x' s s' := by
  unfold Follows at h ⊢
  generalize x.outcome s = r at h ⊢
  generalize x'.outcome s' = r' at h ⊢
  cases h with
  | ok hW hkeeps h hR => exact .ok hW hkeeps h (hQ _ _ _ _ hR)
  | error h => exact .error h

end

variable {m : Mirror ν} {W W' : Twins} {s s' : Store ν} {home env env' : Environment} {l : Locals}

/-- The runs end with values that mirror each other. -/
abbrev Values (m : Mirror ν) : Relation ν (Value ν) (Value ν) :=
  fun W v v' _ => m.Mirrors W v v'

abbrev Lists (m : Mirror ν) : Relation ν (List (Value ν)) (List (Value ν)) :=
  fun W vs vs' _ => List.Forall₂ (m.Mirrors W) vs vs'

/-! ## Names -/

theorem Agrees.follows_read (h : m.Agrees W s s') (hplaced : m.Placed home l env env')
    {name : String} (hname : l name) (hsettled : s.IsSettled m.base m.declared name env) :
    m.Follows m.Values W (Run.read env name) (Run.read env' name) s s' := by
  obtain ⟨i, v, v', -, -, -, hv, hv', hmirrors⟩ := hplaced.find h hname hsettled
  exact .of_outcome (Run.outcome_read_of_lookup hv) (Run.outcome_read_of_lookup hv')
    (Set.Subset.refl W) (.refl s) h hmirrors

theorem Agrees.follows_assign (h : m.Agrees W s s') (hplaced : m.Placed home l env env')
    {name : String} {v v' : Value ν} (hname : l name)
    (hsettled : s.IsSettled m.base m.declared name env) (hv : m.Mirrors W v v') :
    m.Follows (fun _ _ _ _ => True) W (Run.assign env name v) (Run.assign env' name v') s s' := by
  obtain ⟨i, w, w', hi, howner, howner', -, -, -⟩ := hplaced.find h hname hsettled
  obtain ⟨-, -, hcontains⟩ := Store.owner?_eq_some_iff howner
  have hagrees := h.bind hi (h.declared hi hcontains) (h.plain hi hcontains) hv
  exact .of_outcome (Run.outcome_assign_of_owner howner v) (Run.outcome_assign_of_owner howner' v')
    (Set.Subset.refl W) (s.keeps_bind i name v) hagrees trivial

/-! ## Values that are made -/

theorem Agrees.follows_makePair (h : m.Agrees W s s') {head head' tail tail' : Value ν}
    (hhead : m.Mirrors W head head') (htail : m.Mirrors W tail tail') :
    m.Follows m.Values W (Run.makePair head tail) (Run.makePair head' tail') s s' :=
  .of_outcome (Run.outcome_makePair head tail s) (Run.outcome_makePair head' tail' s')
    (Set.Subset.refl W) (s.keeps_made _) (h.make (Nat.le_succ _) (Nat.le_succ _))
    (.pair hhead htail)

theorem Agrees.follows_makeClosure (h : m.Agrees W s s') (hplaced : m.Placed home l env env')
    (name : Option String) {params : List String} {body body' : List (Statement ν)}
    (hbody : Statement.CapturedAll m.toOrigin home
      (l.extend (params ++ Statement.declaredNames body)) body body') :
    m.Follows m.Values W (Run.makeClosure name ⟨params, body⟩ env)
      (Run.makeClosure name ⟨params, body'⟩ env') s s' :=
  .of_outcome (Run.outcome_makeClosure _ _ _ _) (Run.outcome_makeClosure _ _ _ _)
    (Set.subset_insert _ _) (s.keeps_made _) h.twin
    (.closure (Set.mem_insert _ _) rfl hplaced hbody)

theorem Agrees.follows_makeList (h : m.Agrees W s s') {vs vs' : List (Value ν)}
    (hvs : List.Forall₂ (m.Mirrors W) vs vs') :
    m.Follows m.Values W (Run.makeList vs) (Run.makeList vs') s s' := by
  induction hvs with
  | nil => exact .pure h (.primitive .null)
  | cons hv _ ih =>
    refine .bind ih fun W' _ _ _ _ _ hW _ h' hrest => ?_
    exact h'.follows_makePair (hv.mono hW) hrest

/-! ## Operations -/

section

variable [Numeric ν]

theorem Agrees.follows_member (h : m.Agrees W s s') {v v' w w' : Value ν} (hv : m.Mirrors W v v')
    (hw : m.Mirrors W w w') :
    m.Follows m.Values W (Run.member v w) (Run.member v' w') s s' := by
  cases hv with
  | primitive c =>
    cases c with
    | undefined | null => exact .fail _ _
    | _ => exact .pure h (.primitive .undefined)
  | builtin b => exact .pure h (.primitive .undefined)
  | closure => exact .pure h (.primitive .undefined)
  | pair hhead htail =>
    rw [Run.member, Run.member, hw.asNumber?]
    split
    · split
      · exact .pure h hhead
      · split
        · exact .pure h htail
        · exact .pure h (.primitive .undefined)
    · exact .pure h (.primitive .undefined)

theorem Agrees.follows_applyBuiltin (h : m.Agrees W s s') {b : Builtin} (hb : b ≠ .random)
    {args args' : List (Value ν)} (hargs : List.Forall₂ (m.Mirrors W) args args') :
    m.Follows m.Values W (Run.applyBuiltin b args) (Run.applyBuiltin b args') s s' := by
  by_cases hlength : b = .length
  · subst hlength
    have hhead : m.Mirrors W (args.headD .undefined) (args'.headD .undefined) := by
      cases hargs with
      | nil => exact .primitive .undefined
      | cons hv _ => exact hv
    rw [Run.applyBuiltin, Run.applyBuiltin, hhead.listLength?]
    split
    · exact .pure h (.primitive _)
    · exact .fail _ _
  · by_cases hlist : b = .list
    · subst hlist
      exact h.follows_makeList hargs
    · have hnumbers : args'.map Value.toNumber = args.map Value.toNumber := by
        clear h
        induction hargs with
        | nil => rfl
        | cons hv _ ih => rw [List.map_cons, List.map_cons, hv.toNumber, ih]
      rw [Run.applyBuiltin_math hlength hlist hb, Run.applyBuiltin_math hlength hlist hb, hnumbers]
      split
      · exact .pure h (.primitive _)
      · exact .fail _ _

end

end Mirror

end Waveform
