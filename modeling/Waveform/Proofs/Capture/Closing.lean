import Waveform.Proofs.Evaluation.Discipline
import Waveform.Proofs.Evaluation.Identities
import Waveform.Specialize.CapturedUnit

/-!
# Closed trees

The names that a tree mentions and does not bind, and the tree with expressions in their place. A
block binds its names before its first statement, and a loop binds its variable after the value
that it starts with. A declaration that stands alone, as the side of a branch, binds its name for
what comes after it.
-/

namespace Waveform

variable {ν : Type}

/-- The names that a statement binds in the frame that it stands in. -/
def Statement.boundNames : Statement ν → List String
  | .declaration _ name _ => [name]
  | .branch _ consequent none => consequent.boundNames
  | .branch _ consequent (some alternate) => consequent.boundNames ++ alternate.boundNames
  | _ => []

/-! ## Free names -/

/-- A place where a tree uses a name. -/
inductive Occurrence
  | read (name : String)
  | write (name : String)
  deriving DecidableEq, Repr

mutual

/-- Where an expression uses names that are not bound, in the order in which it does. -/
def Expression.free (bound : List String) : Expression ν → List Occurrence
  | .literal _ | .builtin _ => []
  | .identifier name => if name ∈ bound then [] else [.read name]
  | .array items => Expression.allFree bound items
  | .member object property => object.free bound ++ property.free bound
  | .unary _ argument => argument.free bound
  | .binary _ left right | .logical _ left right => left.free bound ++ right.free bound
  | .conditional test consequent alternate =>
    test.free bound ++ (consequent.free bound ++ alternate.free bound)
  | .call callee arguments => callee.free bound ++ Expression.allFree bound arguments
  | .function params body _ =>
    Statement.allFree (bound ++ (params ++ Statement.declaredNames body)) body
  | .assignment _ target value =>
    (if target ∈ bound then [] else [.write target]) ++ value.free bound
  | .update _ _ target => if target ∈ bound then [] else [.write target]

def Expression.allFree (bound : List String) : List (Expression ν) → List Occurrence
  | [] => []
  | e :: es => e.free bound ++ Expression.allFree bound es

def Expression.optionFree (bound : List String) : Option (Expression ν) → List Occurrence
  | none => []
  | some e => e.free bound

def Statement.free (bound : List String) : Statement ν → List Occurrence
  | .block body => Statement.allFree (bound ++ Statement.declaredNames body) body
  | .expression e => e.free bound
  | .result value => Expression.optionFree bound value
  | .branch test consequent none => test.free bound ++ consequent.free bound
  | .branch test consequent (some alternate) =>
    test.free bound ++
      (consequent.free bound ++ alternate.free (bound ++ consequent.boundNames))
  | .loop start test update body =>
    start.free bound ++
      (Expression.optionFree (bound ++ start.declaredNames) test ++
        (Expression.optionFree (bound ++ start.declaredNames) update ++
          body.free (bound ++ start.declaredNames)))
  | .declaration _ _ init => Expression.optionFree bound init
  | .function _ params body =>
    Statement.allFree (bound ++ (params ++ Statement.declaredNames body)) body

def Statement.allFree (bound : List String) : List (Statement ν) → List Occurrence
  | [] => []
  | s :: ss => s.free bound ++ Statement.allFree (bound ++ s.boundNames) ss

def LoopStart.free (bound : List String) : LoopStart ν → List Occurrence
  | .absent => []
  | .declaration _ _ init => Expression.optionFree bound init
  | .expression e => e.free bound

end

def Function.free (f : Function ν) : List Occurrence :=
  Statement.allFree (f.params ++ Statement.declaredNames f.body) f.body

section

variable {name : String}

mutual

theorem Expression.references_of_free : (bound : List String) → (e : Expression ν) →
    .read name ∈ e.free bound → e.references name = true
  | _, .literal _, h | _, .builtin _, h => (List.not_mem_nil h).elim
  | bound, .identifier other, h => by
    rw [Expression.free] at h
    split at h
    · exact (List.not_mem_nil h).elim
    · rw [Expression.references, beq_iff_eq]
      exact (Occurrence.read.inj (List.mem_singleton.1 h)).symm
  | bound, .array items, h => by
    rw [Expression.free] at h
    rw [Expression.references]
    exact Expression.anyReferences_of_free bound items h
  | bound, .member object property, h => by
    rw [Expression.free, List.mem_append] at h
    rw [Expression.references, Bool.or_eq_true]
    exact h.imp (object.references_of_free bound) (property.references_of_free bound)
  | bound, .unary _ argument, h => by
    rw [Expression.free] at h
    rw [Expression.references]
    exact argument.references_of_free bound h
  | bound, .binary _ left right, h | bound, .logical _ left right, h => by
    rw [Expression.free, List.mem_append] at h
    rw [Expression.references, Bool.or_eq_true]
    exact h.imp (left.references_of_free bound) (right.references_of_free bound)
  | bound, .conditional test consequent alternate, h => by
    rw [Expression.free, List.mem_append, List.mem_append] at h
    rw [Expression.references, Bool.or_eq_true, Bool.or_eq_true, or_assoc]
    exact h.imp (test.references_of_free bound)
      (Or.imp (consequent.references_of_free bound) (alternate.references_of_free bound))
  | bound, .call callee arguments, h => by
    rw [Expression.free, List.mem_append] at h
    rw [Expression.references, Bool.or_eq_true]
    exact h.imp (callee.references_of_free bound)
      (Expression.anyReferences_of_free bound arguments)
  | bound, .function _ body _, h => by
    rw [Expression.free] at h
    rw [Expression.references]
    exact Statement.anyReferences_of_free _ body h
  | bound, .assignment _ assigned value, h => by
    rw [Expression.free, List.mem_append] at h
    rw [Expression.references, Bool.or_eq_true]
    refine .inr (value.references_of_free bound (h.resolve_left fun hwrite => ?_))
    split at hwrite
    · exact List.not_mem_nil hwrite
    · cases List.mem_singleton.1 hwrite
  | bound, .update _ _ assigned, h => by
    rw [Expression.free] at h
    split at h
    · exact (List.not_mem_nil h).elim
    · cases List.mem_singleton.1 h

theorem Expression.anyReferences_of_free : (bound : List String) → (es : List (Expression ν)) →
    .read name ∈ Expression.allFree bound es → Expression.anyReferences name es = true
  | _, [], h => (List.not_mem_nil h).elim
  | bound, e :: es, h => by
    rw [Expression.allFree, List.mem_append] at h
    rw [Expression.anyReferences, Bool.or_eq_true]
    exact h.imp (e.references_of_free bound) (Expression.anyReferences_of_free bound es)

theorem Expression.optionReferences_of_free : (bound : List String) →
    (e : Option (Expression ν)) → .read name ∈ Expression.optionFree bound e →
      Expression.optionReferences name e = true
  | _, none, h => (List.not_mem_nil h).elim
  | bound, some e, h => e.references_of_free bound h

theorem Statement.references_of_free : (bound : List String) → (s : Statement ν) →
    .read name ∈ s.free bound → s.references name = true
  | bound, .block body, h => by
    rw [Statement.free] at h
    rw [Statement.references]
    exact Statement.anyReferences_of_free _ body h
  | bound, .expression e, h => by
    rw [Statement.free] at h
    rw [Statement.references]
    exact e.references_of_free bound h
  | bound, .result value, h => by
    rw [Statement.free] at h
    rw [Statement.references]
    exact Expression.optionReferences_of_free bound value h
  | bound, .branch test consequent none, h => by
    rw [Statement.free, List.mem_append] at h
    rw [Statement.references, Bool.or_eq_true, Bool.or_eq_true]
    exact .inl (h.imp (test.references_of_free bound) (consequent.references_of_free bound))
  | bound, .branch test consequent (some alternate), h => by
    rw [Statement.free, List.mem_append, List.mem_append] at h
    rw [Statement.references, Bool.or_eq_true, Bool.or_eq_true, or_assoc]
    exact h.imp (test.references_of_free bound)
      (Or.imp (consequent.references_of_free bound) (alternate.references_of_free _))
  | bound, .loop start test update body, h => by
    rw [Statement.free, List.mem_append, List.mem_append, List.mem_append] at h
    rw [Statement.references, Bool.or_eq_true, Bool.or_eq_true, Bool.or_eq_true, or_assoc,
      or_assoc]
    exact h.imp (start.references_of_free bound)
      (Or.imp (Expression.optionReferences_of_free _ test)
        (Or.imp (Expression.optionReferences_of_free _ update) (body.references_of_free _)))
  | bound, .declaration _ _ init, h => by
    rw [Statement.free] at h
    rw [Statement.references]
    exact Expression.optionReferences_of_free bound init h
  | bound, .function _ _ body, h => by
    rw [Statement.free] at h
    rw [Statement.references]
    exact Statement.anyReferences_of_free _ body h

theorem Statement.anyReferences_of_free : (bound : List String) → (ss : List (Statement ν)) →
    .read name ∈ Statement.allFree bound ss → Statement.anyReferences name ss = true
  | _, [], h => (List.not_mem_nil h).elim
  | bound, s :: ss, h => by
    rw [Statement.allFree, List.mem_append] at h
    rw [Statement.anyReferences, Bool.or_eq_true]
    exact h.imp (s.references_of_free bound) (Statement.anyReferences_of_free _ ss)

theorem LoopStart.references_of_free : (bound : List String) → (start : LoopStart ν) →
    .read name ∈ start.free bound → start.references name = true
  | _, .absent, h => (List.not_mem_nil h).elim
  | bound, .declaration _ _ init, h => Expression.optionReferences_of_free bound init h
  | bound, .expression e, h => e.references_of_free bound h

end

end

/-! ## Expressions for free names -/

section

variable (q : String → Expression ν)

mutual

def Expression.close (bound : List String) : Expression ν → Expression ν
  | .literal l => .literal l
  | .builtin b => .builtin b
  | .identifier name => if name ∈ bound then .identifier name else q name
  | .array items => .array (Expression.closeAll bound items)
  | .member object property => .member (object.close bound) (property.close bound)
  | .unary op argument => .unary op (argument.close bound)
  | .binary op left right => .binary op (left.close bound) (right.close bound)
  | .logical op left right => .logical op (left.close bound) (right.close bound)
  | .conditional test consequent alternate =>
    .conditional (test.close bound) (consequent.close bound) (alternate.close bound)
  | .call callee arguments => .call (callee.close bound) (Expression.closeAll bound arguments)
  | .function params body _ =>
    .function params (Statement.closeAll (bound ++ (params ++ Statement.declaredNames body)) body)
      none
  | .assignment op target value => .assignment op target (value.close bound)
  | .update op isBefore target => .update op isBefore target

def Expression.closeAll (bound : List String) : List (Expression ν) → List (Expression ν)
  | [] => []
  | e :: es => e.close bound :: Expression.closeAll bound es

def Expression.closeOption (bound : List String) : Option (Expression ν) → Option (Expression ν)
  | none => none
  | some e => some (e.close bound)

def Statement.close (bound : List String) : Statement ν → Statement ν
  | .block body => .block (Statement.closeAll (bound ++ Statement.declaredNames body) body)
  | .expression e => .expression (e.close bound)
  | .result value => .result (Expression.closeOption bound value)
  | .branch test consequent none => .branch (test.close bound) (consequent.close bound) none
  | .branch test consequent (some alternate) =>
    .branch (test.close bound) (consequent.close bound)
      (some (alternate.close (bound ++ consequent.boundNames)))
  | .loop start test update body =>
    .loop (start.close bound) (Expression.closeOption (bound ++ start.declaredNames) test)
      (Expression.closeOption (bound ++ start.declaredNames) update)
      (body.close (bound ++ start.declaredNames))
  | .declaration kind name init => .declaration kind name (Expression.closeOption bound init)
  | .function name params body =>
    .function name params
      (Statement.closeAll (bound ++ (params ++ Statement.declaredNames body)) body)

def Statement.closeAll (bound : List String) : List (Statement ν) → List (Statement ν)
  | [] => []
  | s :: ss => s.close bound :: Statement.closeAll (bound ++ s.boundNames) ss

def LoopStart.close (bound : List String) : LoopStart ν → LoopStart ν
  | .absent => .absent
  | .declaration kind name init => .declaration kind name (Expression.closeOption bound init)
  | .expression e => .expression (e.close bound)

end

/-- The function with expressions in place of the names that it mentions and binds nowhere. -/
def Function.close (f : Function ν) : Function ν :=
  ⟨f.params, Statement.closeAll q (f.params ++ Statement.declaredNames f.body) f.body⟩

end

/-! ## Values for free names -/

def Value.closures : Value ν → List (Closure ν)
  | .closure c => [c]
  | .pair _ head tail => head.closures ++ tail.closures
  | _ => []

theorem Value.mem_closures {v : Value ν} {c : Closure ν} : c ∈ v.closures ↔ v.Holds c := by
  induction v with
  | primitive l => simp [closures, Holds]
  | builtin b => simp [closures, Holds]
  | closure d => simp [closures, Holds, eq_comm]
  | pair i head tail ihead itail => simp [closures, Holds, ihead, itail]

def ClosureNames.quote (names : ClosureNames) : Value ν → Expression ν
  | .primitive l => .literal l
  | .builtin b => .builtin b
  | .pair _ head tail => .array [names.quote head, names.quote tail]
  | .closure c => .identifier ((names.name? c.identity).getD "")

namespace Store

variable (store : Store ν) (hardcoded : List Builtin)

/-- What a capture takes a free name for: the hardcoded builtin of that name, or else the value in
the nearest frame that binds it. -/
def captured? (env : Environment) (name : String) : Option (Value ν) :=
  ((hardcoded.find? (·.globalName == name)).map Value.builtin).or (store.lookup? name env)

def capturedAs (names : ClosureNames) (env : Environment) (name : String) : Expression ν :=
  ((store.captured? hardcoded env name).map names.quote).getD .undefined

def referents (env : Environment) (free : List Occurrence) : List (Closure ν) :=
  free.flatMap fun
    | .read name => ((store.captured? hardcoded env name).map Value.closures).getD []
    | .write _ => []

@[simp] theorem referents_nil (env : Environment) : store.referents hardcoded env [] = [] := rfl

@[simp] theorem referents_append (env : Environment) (free free' : List Occurrence) :
    store.referents hardcoded env (free ++ free') =
      store.referents hardcoded env free ++ store.referents hardcoded env free' :=
  List.flatMap_append

theorem referents_read {env : Environment} {name : String} {v : Value ν}
    (h : store.captured? hardcoded env name = some v) :
    store.referents hardcoded env [.read name] = v.closures := by
  simp [referents, h]

theorem mem_referents {env : Environment} {free : List Occurrence} {c : Closure ν} :
    c ∈ store.referents hardcoded env free ↔
      ∃ name, .read name ∈ free ∧ ∃ v, store.captured? hardcoded env name = some v ∧ v.Holds c := by
  constructor
  · intro h
    obtain ⟨occurrence, hmem, hc⟩ := List.mem_flatMap.1 h
    cases occurrence with
    | write name => cases hc
    | read name =>
      cases hv : store.captured? hardcoded env name with
      | none => simp [hv] at hc
      | some v =>
        simp only [hv, Option.map_some, Option.getD_some] at hc
        exact ⟨name, hmem, v, hv, Value.mem_closures.1 hc⟩
  · rintro ⟨name, hmem, v, hv, hc⟩
    refine List.mem_flatMap.2 ⟨_, hmem, ?_⟩
    simpa [hv] using Value.mem_closures.2 hc

theorem lookup?_of_captured? {env : Environment} {name : String} {v : Value ν} {c : Closure ν}
    (h : store.captured? hardcoded env name = some v) (hc : v.Holds c) :
    store.lookup? name env = some v := by
  rw [captured?] at h
  cases hb : hardcoded.find? (·.globalName == name) with
  | none =>
    rw [hb] at h
    exact h
  | some b =>
    rw [hb] at h
    obtain rfl : Value.builtin b = v := Option.some.inj h
    exact hc.elim

end Store

/-- The closures that the names stand for which a closure reads and does not bind. -/
def Closure.referents (c : Closure ν) (store : Store ν) (hardcoded : List Builtin) :
    List (Closure ν) :=
  store.referents hardcoded c.environment c.function.free

end Waveform
