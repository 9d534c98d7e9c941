import Waveform.Proofs.Symbolic.Meaning

/-!
# Suppositions

A side of a logical operator that is not run stands in the program as a truth value all the same.
What it would come to is followed here without running it, and without settling what a run would
have to find out. An entry of what has none may be whatever fits. Arithmetic goes on from there,
comparisons come to a truth value, both sides of a choice are followed, and where these may be
numbers it is not known which. Functions are entered, so that only finitely many calls inside each
other are followed at a time.
-/

namespace Waveform

variable {M : Mathematics}

abbrev Supposition (M : Mathematics) := Value (Exact M) → Store (Exact M) → Prop

abbrev CallSupposition (M : Mathematics) :=
  Closure (Exact M) → List (Value (Exact M)) → Store (Exact M) → Supposition M → Prop

namespace Value

def unknown : Value (Exact M) := .number .undefined

/-- What operands come to, where they are known to come to something. -/
def supposed : Option (Meaning M) → Value (Exact M)
  | some (.primitive l) => .primitive l
  | _ => unknown

/-- The length of the value, if it is a list. -/
def supposedLength (v : Value (Exact M)) : Value (Exact M) :=
  match v.listLength? with
  | some n => .number (Numeric.ofNat n)
  | none => unknown

/-- What an entry of the value is supposed to satisfy. An index that is not known may ask for any
entry of a pair, and what is known to be no pair has whatever entry fits. -/
def EntrySupposes (k : Value (Exact M) → Prop) : Value (Exact M) → Value (Exact M) → Prop
  | .pair _ head tail, .primitive (.number (some q)) => k (entry head tail q)
  | .pair _ head tail, _ => k head ∧ k tail ∧ k .undefined
  | .primitive (.number none), _ => k unknown
  | _, _ => ∃ v, k v

/-- What a call of the value is supposed to satisfy. What is known to be no function is not called
by the specializer either. -/
def CallSupposes (calls : CallSupposition M) (args : List (Value (Exact M))) (s : Store (Exact M))
    (k : Supposition M) : Value (Exact M) → Prop
  | .closure c => calls c args s k
  | .builtin .list => (Run.makeList args).After s k
  | .builtin .length => k (args.headD .undefined).supposedLength s
  | .builtin b => k (supposed (Meaning.call b (args.map .ofValue))) s
  | .primitive (.number none) => False
  | _ => True

end Value

section

variable (calls : CallSupposition M)

mutual

def Expression.Supposes (env : Environment) :
    Expression (Exact M) → Store (Exact M) → Supposition M → Prop
  | .literal l, s, k => k (.primitive l) s
  | .builtin b, s, k => k (.builtin b) s
  | .identifier name, s, k => (Run.read env name).After s k
  | .function params body _, s, k => (Run.makeClosure none ⟨params, body⟩ env).After s k
  | .array [head, tail], s, k =>
    head.Supposes env s fun u s => tail.Supposes env s fun v s => (Run.makePair u v).After s k
  | .member object property, s, k =>
    object.Supposes env s fun u s => property.Supposes env s fun v s =>
      u.EntrySupposes (k · s) v
  | .unary op argument, s, k =>
    argument.Supposes env s fun u s =>
      k (if op == .not then .boolean true else .supposed (Meaning.unary op (.ofValue u))) s
  | .binary op left right, s, k =>
    left.Supposes env s fun u s => right.Supposes env s fun v s =>
      k (if op.isComparison then .boolean true
        else .supposed (Meaning.binary op (.ofValue u) (.ofValue v))) s
  | .logical _ left right, s, k =>
    left.Supposes env s fun u s =>
      u.IsBoolean ∧ k u s ∧ right.Supposes env s fun v s => v.IsBoolean ∧ k v s
  | .conditional test consequent alternate, s, k =>
    test.Supposes env s fun u s => u.IsBoolean ∧
      ((k (.boolean true) s ∧ (consequent.Supposes env s fun v s => v.IsBoolean ∧ k v s) ∧
          alternate.Supposes env s fun v s => v.IsBoolean ∧ k v s) ∨
        k .unknown s ∧ (consequent.Supposes env s fun _ s => k .unknown s) ∧
          alternate.Supposes env s fun _ s => k .unknown s)
  | .call callee arguments, s, k =>
    callee.Supposes env s fun f s => Expression.allSuppose env arguments s fun args s =>
      f.CallSupposes calls args s k
  | .array _, _, _ | .assignment _ _ _, _, _ | .update _ _ _, _, _ => False

def Expression.allSuppose (env : Environment) : List (Expression (Exact M)) → Store (Exact M) →
    (List (Value (Exact M)) → Store (Exact M) → Prop) → Prop
  | [], s, k => k [] s
  | e :: es, s, k =>
    e.Supposes env s fun v s => Expression.allSuppose env es s fun vs s => k (v :: vs) s

end

/-- What the result of declarations and a return is supposed to satisfy. -/
def Statement.allSuppose (env : Environment) :
    List (Statement (Exact M)) → Store (Exact M) → Supposition M → Prop
  | [], s, k => k .undefined s
  | .function _ _ _ :: rest, s, k => Statement.allSuppose env rest s k
  | .declaration _ name (some e) :: rest, s, k =>
    e.Supposes calls env s fun v s =>
      (Run.define env name v).After s fun _ s => Statement.allSuppose env rest s k
  | .result (some e) :: _, s, k => e.Supposes calls env s k
  | _, _, _ => False

end

/-- What the value of a call is supposed to satisfy, where the given count of calls inside each
other is followed. -/
def Run.callSupposes : Nat → CallSupposition M
  | 0, _, _, _, _ => True
  | depth + 1, c, args, s, k =>
    (Run.extend c.environment).After s fun env s =>
      (Run.defineParams env c.function.params args).After s fun _ s =>
        (Statement.hoist env c.function.body).After s fun _ s =>
          Statement.allSuppose (Run.callSupposes depth) env c.function.body s k

/-- The expression is supposed to be a truth value, however many calls are followed. -/
def Expression.SupposesTruth (env : Environment) (e : Expression (Exact M))
    (s : Store (Exact M)) : Prop :=
  ∀ depth, e.Supposes (Run.callSupposes depth) env s fun v _ => v.IsBoolean

end Waveform
