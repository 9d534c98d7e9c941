import Waveform.Proofs.Evaluation.Outcome
import Waveform.Proofs.Inlining.Frames
import Waveform.Proofs.Number.Exact

/-!
# Counting variables up and down

An update takes the number that a variable counts as in a run, and the literal that the variable
holds in inlining. The two write the same literal unless a string is counted up, which joins the
one to the string instead of adding it. What is written otherwise is a number, so that only the
first update of a sequence can tell the two apart.
-/

namespace Waveform

/-- A way to use a variable in a straight line of code. -/
inductive Access
  | read
  | update (op : UpdateOperator) (isBefore : Bool)

namespace Access

variable {ν : Type}

def expression (name : String) : Access → Expression ν
  | read => .identifier name
  | update op isBefore => .update op isBefore name

def firstUpdate? : List Access → Option UpdateOperator
  | [] => none
  | read :: rest => firstUpdate? rest
  | update op _ :: _ => some op

section

variable [Numeric ν]

/-- The value of an access to a variable that holds the literal, and what the variable holds after
it, when an update writes what the given function makes of the literal. -/
def perform (next : UpdateOperator → Literal ν → Literal ν) (l : Literal ν) :
    Access → Literal ν × Literal ν
  | read => (l, l)
  | update op isBefore => (if isBefore then next op l else .number l.toNumber, next op l)

/-- The values of a sequence of accesses, and what the variable holds in the end. -/
def performAll (next : UpdateOperator → Literal ν → Literal ν) (l : Literal ν) :
    List Access → List (Literal ν) × Literal ν
  | [] => ([], l)
  | a :: rest =>
    let (value, held) := a.perform next l
    let (values, final) := performAll next held rest
    (value :: values, final)

end

end Access

section

variable {ν : Type} [Numeric ν]

def UpdateOperator.counted (op : UpdateOperator) (l : Literal ν) : Literal ν :=
  op.binaryOperator.evaluate (.number l.toNumber) (.number Numeric.one)

def UpdateOperator.folded (op : UpdateOperator) (l : Literal ν) : Literal ν :=
  op.binaryOperator.evaluate l (.number Numeric.one)

def Literal.isString : Literal ν → Bool
  | .string _ => true
  | _ => false

namespace UpdateOperator

theorem counted_eq_number (op : UpdateOperator) (l : Literal ν) :
    ∃ x, op.counted l = .number x := by
  cases op with
  | increment => exact ⟨_, rfl⟩
  | decrement => exact ⟨_, rfl⟩

theorem folded_eq_counted_iff (op : UpdateOperator) (l : Literal ν) :
    op.folded l = op.counted l ↔ ¬ (l.isString = true ∧ op = .increment) := by
  cases op with
  | decrement =>
    have hne : ¬ (l.isString = true ∧ decrement = increment) := by
      rintro ⟨-, ⟨⟩⟩
    exact iff_of_true rfl hne
  | increment =>
    cases l with
    | string s =>
      apply iff_of_false
      · intro heq
        cases heq
      · exact fun h => h ⟨rfl, rfl⟩
    | undefined | null | boolean | number => exact iff_of_true rfl nofun

end UpdateOperator

namespace Access

/-- The two ways to perform a sequence come to the same if they write the same at first. -/
theorem performAll_folded_eq {l : Literal ν} {accesses : List Access}
    (h : ∀ op, firstUpdate? accesses = some op → op.folded l = op.counted l) :
    performAll UpdateOperator.folded l accesses = performAll UpdateOperator.counted l accesses := by
  induction accesses generalizing l with
  | nil => rfl
  | cons a rest ih =>
    cases a with
    | read =>
      have hrest := ih h
      simp only [performAll, perform, hrest]
    | update op isBefore =>
      have hop := h op rfl
      have hrest := @ih (op.counted l) fun later _ => by
        obtain ⟨x, hx⟩ := op.counted_eq_number l
        rw [hx, later.folded_eq_counted_iff]
        rintro ⟨⟨⟩, -⟩
      simp only [performAll, perform, hop, hrest]

/-- Up to its first update, a sequence leaves the variable with what that update writes. -/
theorem exists_prefix_of_firstUpdate? (l : Literal ν) {accesses : List Access} {op : UpdateOperator}
    (h : firstUpdate? accesses = some op) :
    ∃ before, before <+: accesses ∧
      ∀ next : UpdateOperator → Literal ν → Literal ν,
        (performAll next l before).2 = next op l := by
  induction accesses with
  | nil => cases h
  | cons a rest ih =>
    cases a with
    | read =>
      obtain ⟨before, hbefore, hfinal⟩ := ih h
      exact ⟨.read :: before, List.cons_prefix_cons.2 ⟨rfl, hbefore⟩, hfinal⟩
    | update first isBefore =>
      obtain rfl := Option.some.inj h
      exact ⟨[.update first isBefore], List.cons_prefix_cons.2 ⟨rfl, List.nil_prefix⟩, fun _ => rfl⟩

theorem firstUpdate?_of_prefix {before accesses : List Access} {op : UpdateOperator}
    (hbefore : before <+: accesses) (h : firstUpdate? before = some op) :
    firstUpdate? accesses = some op := by
  induction before generalizing accesses with
  | nil => cases h
  | cons a before ih =>
    obtain ⟨rest, rfl, hrest⟩ := List.cons_prefix_iff.1 hbefore
    cases a with
    | read =>
      rw [firstUpdate?]
      exact ih hrest h
    | update first isBefore => exact h

end Access

end

/-! ## One variable in a state -/

namespace Scopes

variable {ν : Type} {σ τ : Scopes ν} {owner : Nat} {name : String} {l : Literal ν}

/-- The second state is the first, except that the variable holds the literal. -/
structure Holding (σ : Scopes ν) (owner : Nat) (name : String) (l : Literal ν) (τ : Scopes ν) :
    Prop where
  size : τ.size = σ.size
  hardcoded : τ.hardcoded = σ.hardcoded
  outer : ∀ j, (τ.frame j).outer = (σ.frame j).outer
  kind : ∀ j, (τ.frame j).kind = (σ.frame j).kind
  find? : ∀ j other, (τ.frame j).bindings.find? other =
    if j = owner ∧ other = name then some (.mutable (.literal l))
    else (σ.frame j).bindings.find? other

theorem Holding.refl (h : (σ.frame owner).bindings.find? name = some (.mutable (.literal l))) :
    σ.Holding owner name l σ where
  size := rfl
  hardcoded := rfl
  outer _ := rfl
  kind _ := rfl
  find? j other := by
    split
    · next hcell =>
      obtain ⟨rfl, rfl⟩ := hcell
      exact h
    · rfl

theorem Holding.held (h : σ.Holding owner name l τ) :
    (τ.frame owner).bindings.find? name = some (.mutable (.literal l)) := by
  rw [h.find?, if_pos ⟨rfl, rfl⟩]

theorem Holding.define (h : σ.Holding owner name l τ) (l' : Literal ν) :
    σ.Holding owner name l' (τ.define owner name (.mutable (.literal l'))) := by
  have hself := frame_define_self (lt_size_of_find? h.held) name (.mutable (.literal l'))
  refine ⟨(size_define ..).trans h.size, h.hardcoded,
    fun j => (outer_define ..).trans (h.outer j), fun j => ?_, fun j other => ?_⟩
  · by_cases hj : j = owner
    · rw [hj, hself]
      exact h.kind owner
    · rw [frame_define_of_ne hj, h.kind]
  · by_cases hj : j = owner
    · rw [hj, hself, Bindings.find?_insert, h.find?]
      by_cases hother : other = name
      · rw [if_pos hother, if_pos ⟨rfl, hother⟩]
      · rw [if_neg hother, if_neg (hother ·.2), if_neg (hother ·.2)]
    · rw [frame_define_of_ne hj, h.find?, if_neg (hj ·.1), if_neg (hj ·.1)]

theorem Holding.findIn? (h : σ.Holding owner name l τ) {js : List Nat} {b : Scope.Binding ν}
    (hfound : σ.findIn? name js = some (owner, b)) :
    τ.findIn? name js = some (owner, .mutable (.literal l)) := by
  induction js with
  | nil => cases hfound
  | cons j js ih =>
    rw [Scopes.findIn?] at hfound ⊢
    by_cases hj : j = owner
    · rw [hj, h.held]
    · rw [h.find?, if_neg (hj ·.1)]
      cases hfind : (σ.frame j).bindings.find? name with
      | some c =>
        rw [hfind] at hfound
        cases hfound
        exact absurd rfl hj
      | none =>
        rw [hfind] at hfound
        exact ih hfound

theorem Holding.findForWriteIn? (h : σ.Holding owner name l τ) {js : List Nat}
    {b : Scope.Binding ν} (hfound : σ.findForWriteIn? name js = .ok (some (owner, b))) :
    τ.findForWriteIn? name js = .ok (some (owner, .mutable (.literal l))) := by
  induction js with
  | nil => cases hfound
  | cons j js ih =>
    rw [Scopes.findForWriteIn?] at hfound ⊢
    by_cases hj : j = owner
    · rw [hj, h.held]
      rfl
    · rw [h.find?, if_neg (hj ·.1), h.kind]
      cases hfind : (σ.frame j).bindings.find? name with
      | some c =>
        rw [hfind] at hfound
        cases hfound
        exact absurd rfl hj
      | none =>
        rw [hfind] at hfound
        dsimp only at hfound ⊢
        split at hfound
        · cases hfound
        · next hkind =>
          rw [if_neg hkind]
          exact ih hfound

end Scopes

namespace Store

variable {ν : Type} {s t : Store ν} {i : Nat} {name : String} {v w : Value ν}

/-- The second store is the first, except that the variable has the value. -/
structure Holding (s : Store ν) (i : Nat) (name : String) (v : Value ν) (t : Store ν) : Prop where
  size : t.frames.size = s.frames.size
  made : t.made = s.made
  draws : t.draws = s.draws
  find? : ∀ j other, (t.frame j).find? other =
    if j = i ∧ other = name then some v else (s.frame j).find? other

theorem Holding.refl (h : (s.frame i).find? name = some v) : s.Holding i name v s where
  size := rfl
  made := rfl
  draws := rfl
  find? j other := by
    split
    · next hcell =>
      obtain ⟨rfl, rfl⟩ := hcell
      exact h
    · rfl

theorem Holding.held (h : s.Holding i name v t) : (t.frame i).find? name = some v := by
  rw [h.find?, if_pos ⟨rfl, rfl⟩]

theorem Holding.bind (h : s.Holding i name v t) (w : Value ν) :
    s.Holding i name w (t.bind i name w) where
  size := (size_bind ..).trans h.size
  made := h.made
  draws := h.draws
  find? j other := by
    have hlt : i < t.frames.size := by
      by_contra hge
      have hheld := h.held
      rw [frame_of_le (by omega)] at hheld
      cases hheld
    rw [find?_bind hlt, h.find?]
    split
    · rfl
    · rfl

theorem Holding.owner? (h : s.Holding i name v t) {env : Environment}
    (howner : s.owner? name env = some i) :
    t.owner? name env = some i ∧ t.lookup? name env = some v := by
  have hbound : (s.frame i).contains name = true := (owner?_eq_some_iff howner).2.2
  have hkept : t.owner? name env = some i := by
    rw [owner?_congr (s := s), howner]
    intro j _
    rw [Bindings.contains, Bindings.contains, h.find?]
    split
    · next hcell =>
      rw [hcell.1, hcell.2]
      exact hbound.symm
    · rfl
  exact ⟨hkept, (owner?_eq_some_iff hkept).2.1.trans h.held⟩

end Store

/-! ## Both evaluators -/

/-- Where a variable is used and where it is bound, for inlining and for a run. -/
structure Place where
  floors : Floors
  scope : Nat
  owner : Nat
  environment : Environment
  frame : Nat

namespace Place

variable {ν : Type}

/-- The name is a variable that may be written there, and both evaluators have the literal for
it. -/
structure Knows (p : Place) (σ : Scopes ν) (s : Store ν) (name : String) (l : Literal ν) :
    Prop where
  lookupForWrite? :
    σ.lookupForWrite? p.scope name = .ok (some (p.owner, .mutable (.literal l)))
  floor : p.floors.branch ≤ p.owner
  owner? : s.owner? name p.environment = some p.frame
  lookup? : s.lookup? name p.environment = some (.primitive l)

/-- The literal is what every later read of the variable gives, and nothing else has changed. -/
structure Inlined (p : Place) (σ : Scopes ν) (name : String) (l : Literal ν) (τ : Scopes ν) :
    Prop where
  holding : σ.Holding p.owner name l τ
  read : ∀ scope b, σ.findIn? name (σ.chain scope) = some (p.owner, b) →
    (Inlining.read scope name).run τ = .ok (.literal l, τ)

/-- The value is what every later read of the variable gives, and nothing else has changed. -/
structure Ran (p : Place) (s : Store ν) (name : String) (l : Literal ν) (t : Store ν) : Prop where
  holding : s.Holding p.frame name (.primitive l) t
  read : ∀ env, s.owner? name env = some p.frame →
    (Run.read env name).outcome t = (.ok (.primitive l), t)

section

variable [Numeric ν]

/-- Inlining the accesses gives the literals, and leaves the variable with the last one. -/
def InlinesTo (p : Place) (residual : List Builtin) (reduce : Reducer ν) (σ : Scopes ν)
    (name : String) (accesses : List Access) (result : List (Literal ν) × Literal ν) : Prop :=
  ∃ τ, (Expression.inlineAll residual reduce p.floors p.scope
      (accesses.map (·.expression name))).run σ = .ok (result.1.map .literal, τ) ∧
    p.Inlined σ name result.2 τ

/-- Running the accesses gives the literals, and leaves the variable with the last one. -/
def RunsTo (p : Place) (call : Caller ν) (s : Store ν) (name : String) (accesses : List Access)
    (result : List (Literal ν) × Literal ν) : Prop :=
  ∃ t, (Expression.evaluateAll call p.environment (accesses.map (·.expression name))).outcome s =
      (.ok (result.1.map .primitive), t) ∧ p.Ran s name result.2 t

end

variable {p : Place} {σ τ : Scopes ν} {s t : Store ν} {name : String} {l : Literal ν}

theorem Inlined.of_holding (h : σ.Holding p.owner name l τ) : p.Inlined σ name l τ where
  holding := h
  read scope b hfound := by
    have hseen : τ.seen? scope name = some (.mutable (.literal l)) := by
      rw [Scopes.seen?, Scopes.lookup?, h.outer, ← Scopes.chain, h.findIn? hfound]
      rfl
    rw [Inlining.read_run, hseen]
    rfl

theorem Ran.of_holding (h : s.Holding p.frame name (.primitive l) t) : p.Ran s name l t where
  holding := h
  read _ howner := Run.outcome_read_of_lookup (h.owner? howner).2

section Steps

variable [Numeric ν]

theorem inline_access (residual : List Builtin) (reduce : Reducer ν) {l₀ : Literal ν}
    (hknows : p.Knows σ s name l₀) (h : σ.Holding p.owner name l τ) (a : Access) :
    ∃ τ', ((a.expression name).inline residual reduce p.floors p.scope).run τ =
        .ok (.literal (a.perform UpdateOperator.folded l).1, τ') ∧
      σ.Holding p.owner name (a.perform UpdateOperator.folded l).2 τ' := by
  have hwrite := hknows.lookupForWrite?
  cases a with
  | read =>
    have hread := (Inlined.of_holding h).read p.scope _ (Scopes.findIn?_of_findForWriteIn? hwrite)
    exact ⟨τ, hread, h⟩
  | update op isBefore =>
    have hwritable : τ.lookupForWrite? p.scope name =
        .ok (some (p.owner, .mutable (.literal l))) := by
      rw [Scopes.lookupForWrite?, h.outer]
      exact h.findForWriteIn? hwrite
    have hassign : τ.assign p.owner name (.literal (op.folded l)) =
        .ok (τ.define p.owner name (.mutable (.literal (op.folded l)))) := by
      rw [Scopes.assign, h.held]
      rfl
    have hwritten : (Inlining.assign p.floors p.scope name fun current =>
        (Expression.binary op.binaryOperator current (.number Numeric.one)).simplify).run τ =
        .ok ((.literal l, .literal (op.folded l)),
          τ.define p.owner name (.mutable (.literal (op.folded l)))) := by
      rw [Inlining.assign_run, hwritable]
      change ite _ _ _ = _
      rw [if_neg (by have := hknows.floor; omega)]
      change (τ.assign p.owner name (.literal (op.folded l))).bind _ = _
      rw [hassign]
      rfl
    refine ⟨τ.define p.owner name (.mutable (.literal (op.folded l))), ?_, h.define _⟩
    rw [Access.expression, Expression.inline, Inlining.run_bind_of_ok hwritten]
    cases isBefore <;> rfl

theorem evaluate_access (call : Caller ν) {l₀ : Literal ν} (hknows : p.Knows σ s name l₀)
    (h : s.Holding p.frame name (.primitive l) t) (a : Access) :
    ∃ t', ((a.expression name).evaluate call p.environment).outcome t =
        (.ok (.primitive (a.perform UpdateOperator.counted l).1), t') ∧
      s.Holding p.frame name (.primitive (a.perform UpdateOperator.counted l).2) t' := by
  obtain ⟨howner, hlookup⟩ := h.owner? hknows.owner?
  have hread := Run.outcome_read_of_lookup hlookup
  cases a with
  | read => exact ⟨t, hread, h⟩
  | update op isBefore =>
    have hupdated : op.binaryOperator.apply (.number l.toNumber) (.number Numeric.one) =
        .primitive (op.counted l) := by
      cases op <;> rfl
    refine ⟨_, Run.bind_ok.2 ⟨.primitive l, t, hread, ?_⟩, h.bind _⟩
    refine Run.bind_ok.2 ⟨(), _, Run.outcome_assign_of_owner howner _, ?_⟩
    rw [Value.toNumber, hupdated]
    cases isBefore <;> rfl

theorem inlinesTo (residual : List Builtin) (reduce : Reducer ν) (h : p.Knows σ s name l)
    (accesses : List Access) :
    p.InlinesTo residual reduce σ name accesses
      (Access.performAll UpdateOperator.folded l accesses) := by
  suffices hrun : ∀ (l' : Literal ν) (τ : Scopes ν), σ.Holding p.owner name l' τ →
      ∃ τ', (Expression.inlineAll residual reduce p.floors p.scope
          (accesses.map (·.expression name))).run τ =
          .ok ((Access.performAll UpdateOperator.folded l' accesses).1.map .literal, τ') ∧
        σ.Holding p.owner name (Access.performAll UpdateOperator.folded l' accesses).2 τ' by
    have hbound := Scopes.mem_of_findIn? (Scopes.findIn?_of_findForWriteIn? h.lookupForWrite?)
    obtain ⟨τ, hτ, hholding⟩ := hrun l σ (.refl hbound.2)
    exact ⟨τ, hτ, .of_holding hholding⟩
  induction accesses with
  | nil => exact fun l' τ hτ => ⟨τ, rfl, hτ⟩
  | cons a rest ih =>
    intro l' τ hτ
    obtain ⟨τ₁, hfirst, hτ₁⟩ := inline_access residual reduce h hτ a
    obtain ⟨τ₂, hrest, hτ₂⟩ := ih _ τ₁ hτ₁
    refine ⟨τ₂, ?_, hτ₂⟩
    rw [List.map_cons, Expression.inlineAll, Inlining.run_bind_of_ok hfirst,
      Inlining.run_bind_of_ok hrest]
    rfl

theorem runsTo (call : Caller ν) (h : p.Knows σ s name l) (accesses : List Access) :
    p.RunsTo call s name accesses (Access.performAll UpdateOperator.counted l accesses) := by
  suffices hrun : ∀ (l' : Literal ν) (t : Store ν), s.Holding p.frame name (.primitive l') t →
      ∃ t', (Expression.evaluateAll call p.environment
          (accesses.map (·.expression name))).outcome t =
          (.ok ((Access.performAll UpdateOperator.counted l' accesses).1.map .primitive), t') ∧
        s.Holding p.frame name
          (.primitive (Access.performAll UpdateOperator.counted l' accesses).2) t' by
    have hbound := (Store.owner?_eq_some_iff h.owner?).2.1
    obtain ⟨t, ht, hholding⟩ := hrun l s (.refl (hbound.symm.trans h.lookup?))
    exact ⟨t, ht, .of_holding hholding⟩
  induction accesses with
  | nil => exact fun l' t ht => ⟨t, rfl, ht⟩
  | cons a rest ih =>
    intro l' t ht
    obtain ⟨t₁, hfirst, ht₁⟩ := evaluate_access call h ht a
    obtain ⟨t₂, hrest, ht₂⟩ := ih _ t₁ ht₁
    exact ⟨t₂, Run.bind_ok.2 ⟨_, t₁, hfirst, Run.bind_ok.2 ⟨_, t₂, hrest, rfl⟩⟩, ht₂⟩

end Steps

/-! ## Agreement -/

section Agreement

variable [Numeric ν] (residual : List Builtin) (reduce : Reducer ν) (call : Caller ν)

omit [Numeric ν] in
theorem Inlined.unique {l' : Literal ν} (h : p.Inlined σ name l τ) (h' : p.Inlined σ name l' τ) :
    l = l' := by
  have hheld := h.holding.held
  rw [h'.holding.held] at hheld
  cases hheld
  rfl

omit [Numeric ν] in
theorem Ran.unique {l' : Literal ν} (h : p.Ran s name l t) (h' : p.Ran s name l' t) : l = l' := by
  have hheld := h.holding.held
  rw [h'.holding.held] at hheld
  cases hheld
  rfl

/-- Inlining the accesses and running them gives the same literals, and leaves the variable with
the same one. -/
def AgreesOn (p : Place) (residual : List Builtin) (reduce : Reducer ν) (call : Caller ν)
    (σ : Scopes ν) (s : Store ν) (name : String) (accesses : List Access) : Prop :=
  ∃ result, p.InlinesTo residual reduce σ name accesses result ∧
    p.RunsTo call s name accesses result

/-- Where the two agree, they leave the same literal. -/
theorem AgreesOn.final {residual : List Builtin} {reduce : Reducer ν} {call : Caller ν}
    {accesses : List Access} (h : p.AgreesOn residual reduce call σ s name accesses)
    (hknows : p.Knows σ s name l) :
    (Access.performAll UpdateOperator.folded l accesses).2 =
      (Access.performAll UpdateOperator.counted l accesses).2 := by
  obtain ⟨result, ⟨τ, hinline, hτ⟩, t, hrun, ht⟩ := h
  obtain ⟨τ', hinline', hτ'⟩ := inlinesTo residual reduce hknows accesses
  obtain ⟨t', hrun', ht'⟩ := runsTo call hknows accesses
  obtain ⟨-, rfl⟩ := Prod.mk.inj (Except.ok.inj (hinline.symm.trans hinline'))
  obtain ⟨-, rfl⟩ := Prod.mk.inj (hrun.symm.trans hrun')
  exact (hτ'.unique hτ).trans (ht.unique ht')

/-- Both evaluators give the same literals all along a sequence of accesses exactly if its first
update does not count up a string. -/
theorem updates_agree_iff (h : p.Knows σ s name l) (accesses : List Access) :
    (∀ before, before <+: accesses → p.AgreesOn residual reduce call σ s name before) ↔
      ¬ (l.isString = true ∧ Access.firstUpdate? accesses = some .increment) := by
  constructor
  · rintro hagree ⟨hstring, hfirst⟩
    obtain ⟨before, hbefore, hwrites⟩ := Access.exists_prefix_of_firstUpdate? l hfirst
    have hfinal := (hagree before hbefore).final h
    rw [hwrites, hwrites, UpdateOperator.folded_eq_counted_iff] at hfinal
    exact hfinal ⟨hstring, rfl⟩
  · intro hfirst before hbefore
    have hsame : Access.performAll UpdateOperator.folded l before =
        Access.performAll UpdateOperator.counted l before := by
      apply Access.performAll_folded_eq
      intro op hop
      rw [op.folded_eq_counted_iff]
      rintro ⟨hstring, rfl⟩
      exact hfirst ⟨hstring, Access.firstUpdate?_of_prefix hbefore hop⟩
    have hinlines := inlinesTo residual reduce h before
    rw [hsame] at hinlines
    exact ⟨_, hinlines, runsTo call h before⟩

end Agreement

end Place

namespace Updates

def scopes : Scopes (Exact .zero) :=
  ((Scopes.empty []).root .closure "wave").2.define 0 "x" (.mutable (.boolean true))

def store : Store (Exact .zero) :=
  (Store.empty.extend []).2.bind 0 "x" (.boolean true)

def place : Place := ⟨⟨0, 0⟩, 0, 0, [0], 0⟩

theorem place_knows : place.Knows scopes store "x" (.boolean true) where
  lookupForWrite? := rfl
  floor := Nat.le_refl 0
  owner? := rfl
  lookup? := rfl

/-- Counting a truth value up and down gives the same everywhere, a string that is counted down as
well. -/
theorem truth_updates_agree :
    place.Knows scopes store "x" (.boolean true) ∧
      ∀ before, before <+:
          [.update .increment false, .read, .update .decrement true, .update .increment true] →
        place.AgreesOn [] (fun _ _ f _ _ => throw (.tooDeep 0 f)) (fun _ _ => throw .exhausted)
          scopes store "x" before := by
  refine ⟨place_knows, (Place.updates_agree_iff _ _ _ place_knows _).2 ?_⟩
  rintro ⟨⟨⟩, -⟩

def spelled : Function (Exact .zero) where
  params := ["t"]
  body :=
    [.declaration .mutable "x" (some (.literal (.string "5"))),
      .expression (.update .increment false "x"), .result (some (.identifier "x"))]

/-- A string that is counted up is joined with the one in inlining, and counts as a number in a
run. -/
theorem spelled_differs :
    spelled.residual "wave" .tight = .ok (.literal (.string "51")) ∧
      ((Run.call none 8 0 (.closure ⟨0, none, spelled, .global⟩) [.number (.of 3)]).outcome
        .initial).1 = .ok (.number (.of 6)) := by
  have hsix : (6 : ℚ) = 5 + 1 := by norm_num
  rw [hsix]
  exact ⟨rfl, rfl⟩

end Updates

end Waveform
