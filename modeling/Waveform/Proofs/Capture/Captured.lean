import Waveform.Proofs.Evaluation.Discipline
import Waveform.Proofs.Evaluation.Identities
import Waveform.Specialize.CapturedUnit

/-!
# Captured trees

What a tree becomes when its closure is captured, without the state of the capture: names that the
tree binds itself stay, other names become their values, and closures among those become the names
that they have in the end. The names that are bound where a tree stands are a predicate, so that it
does not matter which frame binds them.
-/

namespace Waveform

variable {ν : Type}

abbrev Locals := String → Prop

namespace Locals

def none : Locals := fun _ => False

/-- The names that are bound inside something that binds some more. -/
def extend (l : Locals) (names : List String) : Locals := fun name => l name ∨ name ∈ names

theorem extend_nil (l : Locals) : l.extend [] = l := by
  funext name
  simp [extend]

theorem extend_of_subset {l : Locals} {names : List String} (h : ∀ name ∈ names, l name) :
    l.extend names = l := by
  funext name
  exact propext ⟨fun hname => hname.elim id (h name), .inl⟩

end Locals

/-- Whether the value is a function or a pair that holds one. -/
def Value.holdsFunction : Value ν → Bool
  | .closure _ => true
  | .pair _ head tail => head.holdsFunction || tail.holdsFunction
  | _ => false

/-- The side of a branch or the body of a loop is a statement that declares nothing. -/
def Statement.standsAlone (st : Statement ν) : Bool :=
  ! st.isDeclaration && ! st.isFunction

theorem Statement.declaredNames_of_standsAlone {st : Statement ν} (h : st.standsAlone = true) :
    Statement.declaredNames [st] = [] := by
  cases st with
  | declaration | function => cases h
  | _ => rfl

theorem Statement.declaredNames_cons (st : Statement ν) (rest : List (Statement ν)) :
    Statement.declaredNames (st :: rest) =
      Statement.declaredNames [st] ++ Statement.declaredNames rest := by
  cases st <;> rfl

/-! ## Scoped trees -/

mutual

/-- Whether every declaration in the expression stands in a block of its own function, and no loop
starts from a value that mentions the name that the loop declares. -/
def Expression.isScoped : Expression ν → Bool
  | .literal _ | .builtin _ | .identifier _ | .update _ _ _ => true
  | .array items => Expression.allScoped items
  | .member object property => object.isScoped && property.isScoped
  | .unary _ argument => argument.isScoped
  | .binary _ left right | .logical _ left right => left.isScoped && right.isScoped
  | .conditional test consequent alternate =>
    test.isScoped && consequent.isScoped && alternate.isScoped
  | .call callee arguments => callee.isScoped && Expression.allScoped arguments
  | .function _ body _ => Statement.allScoped body
  | .assignment _ _ value => value.isScoped

def Expression.allScoped : List (Expression ν) → Bool
  | [] => true
  | e :: es => e.isScoped && Expression.allScoped es

def Statement.isScoped : Statement ν → Bool
  | .block body => Statement.allScoped body
  | .expression e => e.isScoped
  | .result value => Expression.optionScoped value
  | .branch test consequent alternate =>
    test.isScoped && consequent.standsAlone && consequent.isScoped &&
      Statement.optionScoped alternate
  | .loop start test update body =>
    start.isScoped && Expression.optionScoped test && Expression.optionScoped update &&
      body.standsAlone && body.isScoped
  | .declaration _ _ init => Expression.optionScoped init
  | .function _ _ body => Statement.allScoped body

def Statement.allScoped : List (Statement ν) → Bool
  | [] => true
  | s :: ss => s.isScoped && Statement.allScoped ss

def LoopStart.isScoped : LoopStart ν → Bool
  | .absent => true
  | .declaration _ name init =>
    Expression.optionScoped init && ! Expression.optionReferences name init
  | .expression e => e.isScoped

def Expression.optionScoped : Option (Expression ν) → Bool
  | none => true
  | some e => e.isScoped

def Statement.optionScoped : Option (Statement ν) → Bool
  | none => true
  | some s => s.standsAlone && s.isScoped

end

/-! ## Trees with values for names -/

/-- What a capture takes from the run: the store, the builtins that names stand for even where
nothing binds them, and the names that closures go by in the end. -/
structure Origin (ν : Type) where
  store : Store ν
  hardcoded : List Builtin
  names : ClosureNames

namespace Origin

/-- An expression that makes the value again. -/
inductive Quotes (o : Origin ν) : Value ν → Expression ν → Prop
  | primitive (l : Literal ν) : Quotes o (.primitive l) (.literal l)
  | builtin (b : Builtin) : Quotes o (.builtin b) (.builtin b)
  | pair {i : Nat} {head tail : Value ν} {head' tail' : Expression ν}
    (hhead : Quotes o head head') (htail : Quotes o tail tail') :
    Quotes o (.pair i head tail) (.array [head', tail'])
  | closure {c : Closure ν} {name : String} (hname : o.names.name? c.identity = some name)
    (hreferenced : o.names.isReferenced name = true) : Quotes o (.closure c) (.identifier name)

def builtin? (o : Origin ν) (name : String) : Option Builtin :=
  o.hardcoded.find? (·.globalName == name)

end Origin

section

variable (o : Origin ν) (env : Environment)

mutual

/-- What an expression of a closure with the given environment is captured as. -/
inductive Expression.Captured : Locals → Expression ν → Expression ν → Prop
  | literal {l : Locals} (v : Literal ν) : Expression.Captured l (.literal v) (.literal v)
  | builtin {l : Locals} (b : Builtin) : Expression.Captured l (.builtin b) (.builtin b)
  | bound {l : Locals} {name : String} (h : l name) :
    Expression.Captured l (.identifier name) (.identifier name)
  | hardcoded {l : Locals} {name : String} {b : Builtin} (h : ¬ l name)
    (hb : o.builtin? name = some b) : Expression.Captured l (.identifier name) (.builtin b)
  | free {l : Locals} {name : String} {v : Value ν} {e : Expression ν} (h : ¬ l name)
    (hv : o.store.lookup? name env = some v) (he : o.Quotes v e) :
    Expression.Captured l (.identifier name) e
  | array {l : Locals} {items items' : List (Expression ν)}
    (h : Expression.CapturedAll l items items') :
    Expression.Captured l (.array items) (.array items')
  | member {l : Locals} {a b a' b' : Expression ν} (ha : Expression.Captured l a a')
    (hb : Expression.Captured l b b') :
    Expression.Captured l (.member a b) (.member a' b')
  | unary {l : Locals} {op : UnaryOperator} {a a' : Expression ν}
    (ha : Expression.Captured l a a') :
    Expression.Captured l (.unary op a) (.unary op a')
  | binary {l : Locals} {op : BinaryOperator} {a b a' b' : Expression ν}
    (ha : Expression.Captured l a a')
    (hb : Expression.Captured l b b') : Expression.Captured l (.binary op a b) (.binary op a' b')
  | logical {l : Locals} {op : LogicalOperator} {a b a' b' : Expression ν}
    (ha : Expression.Captured l a a')
    (hb : Expression.Captured l b b') : Expression.Captured l (.logical op a b) (.logical op a' b')
  | conditional {l : Locals} {c a b c' a' b' : Expression ν} (hc : Expression.Captured l c c')
    (ha : Expression.Captured l a a') (hb : Expression.Captured l b b') :
    Expression.Captured l (.conditional c a b) (.conditional c' a' b')
  | call {l : Locals} {callee callee' : Expression ν} {args args' : List (Expression ν)}
    (hcallee : Expression.Captured l callee callee') (hargs : Expression.CapturedAll l args args') :
    Expression.Captured l (.call callee args) (.call callee' args')
  | function {l : Locals} {params : List String} {body body' : List (Statement ν)}
    {home : Option Nat}
    (h : Statement.CapturedAll (l.extend (params ++ Statement.declaredNames body)) body body') :
    Expression.Captured l (.function params body home) (.function params body' none)
  | assignment {l : Locals} {op : AssignmentOperator} {target : String} {e e' : Expression ν}
    (htarget : l target) (he : Expression.Captured l e e') :
    Expression.Captured l (.assignment op target e) (.assignment op target e')
  | update {l : Locals} {op : UpdateOperator} {isBefore : Bool} {target : String}
    (htarget : l target) :
    Expression.Captured l (.update op isBefore target) (.update op isBefore target)

inductive Expression.CapturedAll : Locals → List (Expression ν) → List (Expression ν) → Prop
  | nil {l : Locals} : Expression.CapturedAll l [] []
  | cons {l : Locals} {e e' : Expression ν} {es es' : List (Expression ν)}
    (he : Expression.Captured l e e')
    (hes : Expression.CapturedAll l es es') : Expression.CapturedAll l (e :: es) (e' :: es')

inductive Expression.CapturedOption :
    Locals → Option (Expression ν) → Option (Expression ν) → Prop
  | none {l : Locals} : Expression.CapturedOption l none none
  | some {l : Locals} {e e' : Expression ν} (he : Expression.Captured l e e') :
    Expression.CapturedOption l (some e) (some e')

inductive Statement.Captured : Locals → Statement ν → Statement ν → Prop
  | block {l : Locals} {body body' : List (Statement ν)}
    (h : Statement.CapturedAll (l.extend (Statement.declaredNames body)) body body') :
    Statement.Captured l (.block body) (.block body')
  | expression {l : Locals} {e e' : Expression ν} (he : Expression.Captured l e e') :
    Statement.Captured l (.expression e) (.expression e')
  | result {l : Locals} {value value' : Option (Expression ν)}
    (h : Expression.CapturedOption l value value') :
    Statement.Captured l (.result value) (.result value')
  | branch {l : Locals} {test test' : Expression ν} {consequent consequent' : Statement ν}
    {alternate alternate' : Option (Statement ν)} (htest : Expression.Captured l test test')
    (halone : consequent.standsAlone = true)
    (hconsequent : Statement.Captured l consequent consequent')
    (halternate : Statement.CapturedOption l alternate alternate') :
    Statement.Captured l (.branch test consequent alternate) (.branch test' consequent' alternate')
  | loop {l : Locals} {start start' : LoopStart ν}
    {test test' update update' : Option (Expression ν)}
    {body body' : Statement ν}
    (hstart : LoopStart.Captured (l.extend start.declaredNames) start start')
    (htest : Expression.CapturedOption (l.extend start.declaredNames) test test')
    (hupdate : Expression.CapturedOption (l.extend start.declaredNames) update update')
    (halone : body.standsAlone = true)
    (hbody : Statement.Captured (l.extend start.declaredNames) body body') :
    Statement.Captured l (.loop start test update body) (.loop start' test' update' body')
  | declaration {l : Locals} {kind : DeclarationKind} {name : String}
    {init init' : Option (Expression ν)} (h : Expression.CapturedOption l init init') :
    Statement.Captured l (.declaration kind name init) (.declaration kind name init')
  | function {l : Locals} {name : String} {params : List String} {body body' : List (Statement ν)}
    (h : Statement.CapturedAll (l.extend (params ++ Statement.declaredNames body)) body body') :
    Statement.Captured l (.function name params body) (.function name params body')

inductive Statement.CapturedAll : Locals → List (Statement ν) → List (Statement ν) → Prop
  | nil {l : Locals} : Statement.CapturedAll l [] []
  | cons {l : Locals} {s s' : Statement ν} {ss ss' : List (Statement ν)}
    (hs : Statement.Captured l s s')
    (hss : Statement.CapturedAll l ss ss') : Statement.CapturedAll l (s :: ss) (s' :: ss')

inductive Statement.CapturedOption : Locals → Option (Statement ν) → Option (Statement ν) → Prop
  | none {l : Locals} : Statement.CapturedOption l none none
  | some {l : Locals} {s s' : Statement ν} (halone : s.standsAlone = true)
    (hs : Statement.Captured l s s') :
    Statement.CapturedOption l (some s) (some s')

inductive LoopStart.Captured : Locals → LoopStart ν → LoopStart ν → Prop
  | absent {l : Locals} : LoopStart.Captured l .absent .absent
  | declaration {l : Locals} {kind : DeclarationKind} {name : String}
    {init init' : Option (Expression ν)} (h : Expression.CapturedOption l init init') :
    LoopStart.Captured l (.declaration kind name init) (.declaration kind name init')
  | expression {l : Locals} {e e' : Expression ν} (he : Expression.Captured l e e') :
    LoopStart.Captured l (.expression e) (.expression e')

end

/-! ## Names that a tree does not mention -/

theorem Locals.extend_congr {l l' : Locals} {name : String} (h : l name ↔ l' name)
    (names : List String) : l.extend names name ↔ l'.extend names name :=
  or_congr_left h

variable {o : Origin ν} {env : Environment}

mutual

theorem Expression.Captured.congr : {l l' : Locals} → {e e' : Expression ν} →
    (∀ name, e.references name = true → (l name ↔ l' name)) →
      Expression.Captured o env l e e' → Expression.Captured o env l' e e'
  | _, _, .literal _, _, _, h => by
    cases h
    exact .literal _
  | _, _, .builtin _, _, _, h => by
    cases h
    exact .builtin _
  | l, l', .identifier name, _, hl, h => by
    have hname : l name ↔ l' name := hl name (by simp [Expression.references])
    cases h with
    | bound h => exact .bound (hname.1 h)
    | hardcoded h hb => exact .hardcoded (fun h' => h (hname.2 h')) hb
    | free h hv he => exact .free (fun h' => h (hname.2 h')) hv he
  | _, _, .array items, _, hl, h => by
    cases h with
    | array h =>
      exact .array (h.congr fun name hname => hl name (by simpa only [Expression.references]))
  | _, _, .member _ _, _, hl, h => by
    cases h with
    | member ha hb =>
      exact .member (ha.congr fun name hname => hl name (by simp [Expression.references, hname]))
        (hb.congr fun name hname => hl name (by simp [Expression.references, hname]))
  | _, _, .unary _ _, _, hl, h => by
    cases h with
    | unary ha =>
      exact .unary (ha.congr fun name hname => hl name (by simp [Expression.references, hname]))
  | _, _, .binary _ _ _, _, hl, h => by
    cases h with
    | binary ha hb =>
      exact .binary (ha.congr fun name hname => hl name (by simp [Expression.references, hname]))
        (hb.congr fun name hname => hl name (by simp [Expression.references, hname]))
  | _, _, .logical _ _ _, _, hl, h => by
    cases h with
    | logical ha hb =>
      exact .logical (ha.congr fun name hname => hl name (by simp [Expression.references, hname]))
        (hb.congr fun name hname => hl name (by simp [Expression.references, hname]))
  | _, _, .conditional _ _ _, _, hl, h => by
    cases h with
    | conditional hc ha hb =>
      exact .conditional (hc.congr fun name hname => hl name
        (by simp [Expression.references, hname]))
        (ha.congr fun name hname => hl name (by simp [Expression.references, hname]))
        (hb.congr fun name hname => hl name (by simp [Expression.references, hname]))
  | _, _, .call _ _, _, hl, h => by
    cases h with
    | call hcallee hargs =>
      exact .call (hcallee.congr fun name hname => hl name (by simp [Expression.references, hname]))
        (hargs.congr fun name hname => hl name (by simp [Expression.references, hname]))
  | _, _, .function _ _ _, _, hl, h => by
    cases h with
    | function h =>
      exact .function (h.congr fun name hname =>
        Locals.extend_congr (hl name (by simpa only [Expression.references] using hname)) _)
  | _, _, .assignment _ target _, _, hl, h => by
    cases h with
    | assignment htarget he =>
      exact .assignment ((hl target (by simp [Expression.references])).1 htarget)
        (he.congr fun name hname => hl name (by simp [Expression.references, hname]))
  | _, _, .update _ _ target, _, hl, h => by
    cases h with
    | update htarget => exact .update ((hl target (by simp [Expression.references])).1 htarget)

theorem Expression.CapturedAll.congr : {l l' : Locals} → {es es' : List (Expression ν)} →
    (∀ name, Expression.anyReferences name es = true → (l name ↔ l' name)) →
      Expression.CapturedAll o env l es es' → Expression.CapturedAll o env l' es es'
  | _, _, [], _, _, h => by
    cases h
    exact .nil
  | _, _, _ :: _, _, hl, h => by
    cases h with
    | cons he hes =>
      exact .cons (he.congr fun name hname => hl name (by simp [Expression.anyReferences, hname]))
        (hes.congr fun name hname => hl name (by simp [Expression.anyReferences, hname]))

theorem Expression.CapturedOption.congr : {l l' : Locals} → {e e' : Option (Expression ν)} →
    (∀ name, Expression.optionReferences name e = true → (l name ↔ l' name)) →
      Expression.CapturedOption o env l e e' → Expression.CapturedOption o env l' e e'
  | _, _, none, _, _, h => by
    cases h
    exact .none
  | _, _, some _, _, hl, h => by
    cases h with
    | some he =>
      exact .some (he.congr fun name hname => hl name (by simpa [Expression.optionReferences]))

theorem Statement.Captured.congr : {l l' : Locals} → {st st' : Statement ν} →
    (∀ name, st.references name = true → (l name ↔ l' name)) →
      Statement.Captured o env l st st' → Statement.Captured o env l' st st'
  | _, _, .block _, _, hl, h => by
    cases h with
    | block h =>
      exact .block (h.congr fun name hname =>
        Locals.extend_congr (hl name (by simpa only [Statement.references] using hname)) _)
  | _, _, .expression _, _, hl, h => by
    cases h with
    | expression he =>
      exact .expression (he.congr fun name hname => hl name
        (by simpa only [Statement.references] using hname))
  | _, _, .result _, _, hl, h => by
    cases h with
    | result h =>
      exact .result (h.congr fun name hname => hl name (by simpa only [Statement.references]))
  | _, _, .branch _ _ _, _, hl, h => by
    cases h with
    | branch htest halone hconsequent halternate =>
      exact .branch (htest.congr fun name hname => hl name
        (by simp [Statement.references, hname])) halone
        (hconsequent.congr fun name hname => hl name (by simp [Statement.references, hname]))
        (halternate.congr fun name hname => hl name (by simp [Statement.references, hname]))
  | _, _, .loop start _ _ _, _, hl, h => by
    cases h with
    | loop hstart htest hupdate halone hbody =>
      refine .loop (hstart.congr fun name hname => ?_) (htest.congr fun name hname => ?_)
        (hupdate.congr fun name hname => ?_) halone (hbody.congr fun name hname => ?_)
      all_goals exact Locals.extend_congr (hl name (by simp [Statement.references, hname])) _
  | _, _, .declaration _ _ _, _, hl, h => by
    cases h with
    | declaration h =>
      exact .declaration (h.congr fun name hname => hl name (by simpa only [Statement.references]))
  | _, _, .function _ _ _, _, hl, h => by
    cases h with
    | function h =>
      exact .function (h.congr fun name hname =>
        Locals.extend_congr (hl name (by simpa only [Statement.references] using hname)) _)

theorem Statement.CapturedAll.congr : {l l' : Locals} → {ss ss' : List (Statement ν)} →
    (∀ name, Statement.anyReferences name ss = true → (l name ↔ l' name)) →
      Statement.CapturedAll o env l ss ss' → Statement.CapturedAll o env l' ss ss'
  | _, _, [], _, _, h => by
    cases h
    exact .nil
  | _, _, _ :: _, _, hl, h => by
    cases h with
    | cons hs hss =>
      exact .cons (hs.congr fun name hname => hl name (by simp [Statement.anyReferences, hname]))
        (hss.congr fun name hname => hl name (by simp [Statement.anyReferences, hname]))

theorem Statement.CapturedOption.congr : {l l' : Locals} → {st st' : Option (Statement ν)} →
    (∀ name, Statement.optionReferences name st = true → (l name ↔ l' name)) →
      Statement.CapturedOption o env l st st' → Statement.CapturedOption o env l' st st'
  | _, _, none, _, _, h => by
    cases h
    exact .none
  | _, _, some _, _, hl, h => by
    cases h with
    | some halone hs =>
      exact .some halone (hs.congr fun name hname => hl name
        (by simpa [Statement.optionReferences]))

theorem LoopStart.Captured.congr : {l l' : Locals} → {start start' : LoopStart ν} →
    (∀ name, start.references name = true → (l name ↔ l' name)) →
      LoopStart.Captured o env l start start' → LoopStart.Captured o env l' start start'
  | _, _, .absent, _, _, h => by
    cases h
    exact .absent
  | _, _, .declaration _ _ _, _, hl, h => by
    cases h with
    | declaration h =>
      exact .declaration (h.congr fun name hname => hl name (by simpa only [LoopStart.references]))
  | _, _, .expression _, _, hl, h => by
    cases h with
    | expression he =>
      exact .expression (he.congr fun name hname => hl name (by simpa only [LoopStart.references]))

end

end

end Waveform
