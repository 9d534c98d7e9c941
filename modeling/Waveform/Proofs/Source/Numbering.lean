import Waveform.Source.Program

/-!
# The numbers of a program

A source tree does not depend on the number system of the program that it becomes: what it stands
for over some numbers is what it stands for over any others, with the numbers exchanged
(`Node.lower_map`).
-/

namespace Waveform

section Map

variable {ν ν' : Type}

def Literal.map (f : ν → ν') : Literal ν → Literal ν'
  | .undefined => .undefined
  | .null => .null
  | .boolean b => .boolean b
  | .number x => .number (f x)
  | .string s => .string s

mutual

def Expression.map (f : ν → ν') : Expression ν → Expression ν'
  | .literal l => .literal (l.map f)
  | .identifier name => .identifier name
  | .builtin b => .builtin b
  | .array items => .array (Expression.mapAll f items)
  | .member object property => .member (object.map f) (property.map f)
  | .unary op argument => .unary op (argument.map f)
  | .binary op left right => .binary op (left.map f) (right.map f)
  | .logical op left right => .logical op (left.map f) (right.map f)
  | .conditional test consequent alternate =>
    .conditional (test.map f) (consequent.map f) (alternate.map f)
  | .call callee arguments => .call (callee.map f) (Expression.mapAll f arguments)
  | .function params body home => .function params (Statement.mapAll f body) home
  | .assignment op target value => .assignment op target (value.map f)
  | .update op isBefore target => .update op isBefore target

def Expression.mapAll (f : ν → ν') : List (Expression ν) → List (Expression ν')
  | [] => []
  | e :: es => e.map f :: Expression.mapAll f es

def Expression.mapOption (f : ν → ν') : Option (Expression ν) → Option (Expression ν')
  | none => none
  | some e => some (e.map f)

def Statement.map (f : ν → ν') : Statement ν → Statement ν'
  | .block body => .block (Statement.mapAll f body)
  | .expression e => .expression (e.map f)
  | .result value => .result (Expression.mapOption f value)
  | .branch test consequent alternate =>
    .branch (test.map f) (consequent.map f) (Statement.mapOption f alternate)
  | .loop start test update body =>
    .loop (start.map f) (Expression.mapOption f test) (Expression.mapOption f update) (body.map f)
  | .declaration kind name init => .declaration kind name (Expression.mapOption f init)
  | .function name params body => .function name params (Statement.mapAll f body)

def Statement.mapAll (f : ν → ν') : List (Statement ν) → List (Statement ν')
  | [] => []
  | s :: ss => s.map f :: Statement.mapAll f ss

def Statement.mapOption (f : ν → ν') : Option (Statement ν) → Option (Statement ν')
  | none => none
  | some s => some (s.map f)

def LoopStart.map (f : ν → ν') : LoopStart ν → LoopStart ν'
  | .absent => .absent
  | .declaration kind name init => .declaration kind name (Expression.mapOption f init)
  | .expression e => .expression (e.map f)

end

end Map

namespace Source

variable {ν ν' : Type} {f : ν → ν'}

theorem ofList_map (ss : List (Statement ν)) :
    (Statement.ofList ss).map f = Statement.ofList (Waveform.Statement.mapAll f ss) := by
  match ss with
  | [] | [_] | _ :: _ :: _ => rfl

theorem mapAll_append (ss ts : List (Statement ν)) :
    Waveform.Statement.mapAll f (ss ++ ts) =
      Waveform.Statement.mapAll f ss ++ Waveform.Statement.mapAll f ts := by
  induction ss with
  | nil => rfl
  | cons s ss ih => exact congrArg (s.map f :: ·) ih

theorem mapAll_declarations (kind : DeclarationKind) (ds : List (String × Option (Expression ν))) :
    Waveform.Statement.mapAll f (ds.map fun (name, init) => .declaration kind name init) =
      (ds.map fun d => (d.1, Expression.mapOption f d.2)).map fun (name, init) =>
        .declaration kind name init := by
  induction ds with
  | nil => rfl
  | cons d ds ih =>
    exact congrArg (Statement.declaration kind d.1 (Expression.mapOption f d.2) :: ·) ih

variable [Numeric ν] [Numeric ν']

/-- The function takes written numbers and constants to the same ones of the other system. -/
structure KeepsNumbers (f : ν → ν') : Prop where
  numeral (n : Numeral) : f (Numeric.ofNumeral n) = Numeric.ofNumeral n
  constant (c : Waveform.Constant) : f (Numeric.constant c) = Numeric.constant c

theorem lowered_map_bind {α β γ : Type} (g : β → γ) (x : Lowered α) (k : α → Lowered β) :
    (x >>= k).map g = x >>= fun a => (k a).map g := by
  cases x <;> rfl

theorem lowered_bind_map {α β γ : Type} (g : α → β) (x : Lowered α) (k : β → Lowered γ) :
    x.map g >>= k = x >>= fun a => k (g a) := by
  cases x <;> rfl

theorem lowered_map_pure {α β : Type} (g : α → β) (a : α) :
    (pure a : Lowered α).map g = pure (g a) :=
  rfl

theorem nameExpression_map (hf : KeepsNumbers f) (name : String) :
    (nameExpression name : Expression ν).map f = nameExpression name := by
  unfold nameExpression
  split
  · rfl
  · exact congrArg Expression.number (hf.numeral _)
  · exact congrArg Expression.number (hf.numeral _)
  · rfl

theorem namedMember_map (hf : KeepsNumbers f) (start : Nat) (object : Node) (name : Option String) :
    (namedMember start object name : Lowered (Expression ν)).map (Expression.map f) =
      namedMember start object name := by
  have hmember (n : String) :
      (mathMember? n : Option (Expression ν)).map (Expression.map f) = mathMember? n := by
    unfold mathMember?
    split
    · rfl
    · rw [Option.map_map]
      congr 1
      funext c
      exact congrArg Expression.number (hf.constant c)
  unfold namedMember
  split
  · next n =>
    rw [← hmember n]
    cases mathMember? (ν := ν) n <;> rfl
  · next h => rfl

theorem Constant.toLiteral_map (hf : KeepsNumbers f) (c : Constant) :
    (c.toLiteral : Literal ν).map f = c.toLiteral := by
  cases c with
  | number d => exact congrArg Literal.number (hf.numeral _)
  | _ => rfl

mutual

/-- What a source tree stands for does not depend on the number system. -/
theorem Node.lower_map (hf : KeepsNumbers f) : (n : Node) →
    (n.lower : Lowered (Expression ν)).map (Expression.map f) = n.lower
  | .identifier _ name => congrArg Except.ok (nameExpression_map hf name)
  | .constant _ c => congrArg (Except.ok ∘ Expression.literal) (Constant.toLiteral_map hf c)
  | .array start elements => by
    simp only [Node.lower, ← lowerElements_map hf,
      lowered_map_bind, lowered_bind_map, lowered_map_pure]
    rfl
  | .group _ inner => by
    rw [Node.lower, Node.lower]
    exact inner.lower_map hf
  | .member _ object property => by
    simp only [Node.lower, ← object.lower_map hf, ← property.lower_map hf,
      lowered_map_bind, lowered_bind_map, lowered_map_pure]
    rfl
  | .field start object name => namedMember_map hf start object name
  | .unary _ op argument => by
    simp only [Node.lower, ← argument.lower_map hf,
      lowered_map_bind, lowered_bind_map, lowered_map_pure]
    rfl
  | .binary start op left right => by
    simp only [Node.lower, ← left.lower_map hf, ← right.lower_map hf,
      lowered_map_bind, lowered_bind_map]
    cases op <;> rfl
  | .conditional _ test consequent alternate => by
    simp only [Node.lower, ← test.lower_map hf, ← consequent.lower_map hf, ← alternate.lower_map hf,
      lowered_map_bind, lowered_bind_map, lowered_map_pure]
    rfl
  | .call start callee elements => by
    simp only [Node.lower, ← callee.lower_map hf, ← lowerElements_map hf,
      lowered_map_bind, lowered_bind_map, lowered_map_pure]
    rfl
  | .arrow _ params body | .function _ params body => by
    simp only [Node.lower, ← lowerClauses_map hf,
      lowered_map_bind, lowered_bind_map, lowered_map_pure]
    rfl
  | .assignment start target op value => by
    simp only [Node.lower, lowered_map_bind]
    congr 1
    funext name
    cases op with
    | none => rfl
    | some op =>
      simp only [← value.lower_map hf, lowered_map_bind, lowered_bind_map, lowered_map_pure]
      rfl
  | .update start op isBefore target => by
    simp only [Node.lower, lowered_map_bind, lowered_map_pure]
    rfl
  | .unsupported _ _ => rfl

theorem lowerElements_map (hf : KeepsNumbers f) {reason : Reason} {start : Nat} :
    (es : List Element) →
    (lowerElements reason start es : Lowered (List (Expression ν))).map (Expression.mapAll f) =
      lowerElements reason start es
  | [] => rfl
  | .item value :: rest => by
    simp only [lowerElements, ← value.lower_map hf, ← lowerElements_map hf rest,
      lowered_map_bind, lowered_bind_map, lowered_map_pure]
    rfl
  | .hole :: _ | .spread _ _ :: _ => rfl

theorem lowerOption_map (hf : KeepsNumbers f) : (n : Option Node) →
    (lowerOption n : Lowered (Option (Expression ν))).map (Expression.mapOption f) = lowerOption n
  | none => rfl
  | some n => by
    simp only [lowerOption, ← n.lower_map hf, lowered_map_bind, lowered_bind_map, lowered_map_pure]
    rfl

theorem Clause.lower_map (hf : KeepsNumbers f) : (c : Clause) →
    (c.lower : Lowered (List (Statement ν))).map (Statement.mapAll f) = c.lower
  | .empty => rfl
  | .block body => by
    simp only [Clause.lower, ← lowerClauses_map hf,
      lowered_map_bind, lowered_bind_map, lowered_map_pure]
    rfl
  | .expression value => by
    simp only [Clause.lower, ← value.lower_map hf,
      lowered_map_bind, lowered_bind_map, lowered_map_pure]
    rfl
  | .result value => by
    simp only [Clause.lower, ← lowerOption_map hf,
      lowered_map_bind, lowered_bind_map, lowered_map_pure]
    rfl
  | .branch test consequent alternate => by
    simp only [Clause.lower, ← test.lower_map hf, ← consequent.lower_map hf,
      ← lowerAlternate_map hf,
      lowered_map_bind, lowered_bind_map, lowered_map_pure, ← ofList_map]
    rfl
  | .loop init test update body => by
    simp only [Clause.lower, ← init.lower_map hf, ← lowerOption_map hf, ← body.lower_map hf,
      lowered_map_bind, lowered_bind_map, lowered_map_pure, ← ofList_map]
    rfl
  | .declarations start word declarators => by
    simp only [Clause.lower, lowered_map_bind, lowered_map_pure]
    congr 1
    funext kind
    rw [← lowerDeclarators_map hf, lowered_bind_map]
    congr 1
    funext ds
    exact congrArg Except.ok (mapAll_declarations kind ds)
  | .function name params body => by
    simp only [Clause.lower, ← lowerClauses_map hf,
      lowered_map_bind, lowered_bind_map, lowered_map_pure]
    rfl
  | .unsupported _ => rfl

theorem lowerClauses_map (hf : KeepsNumbers f) : (cs : List Clause) →
    (lowerClauses cs : Lowered (List (Statement ν))).map (Statement.mapAll f) = lowerClauses cs
  | [] => rfl
  | c :: cs => by
    simp only [lowerClauses, ← c.lower_map hf, ← lowerClauses_map hf cs,
      lowered_map_bind, lowered_bind_map, lowered_map_pure,
      mapAll_append]

theorem lowerAlternate_map (hf : KeepsNumbers f) : (c : Option Clause) →
    (lowerAlternate c : Lowered (Option (Statement ν))).map (Statement.mapOption f) =
      lowerAlternate c
  | none => rfl
  | some c => by
    simp only [lowerAlternate, ← c.lower_map hf,
      lowered_map_bind, lowered_bind_map, lowered_map_pure, ← ofList_map]
    rfl

theorem LoopInit.lower_map (hf : KeepsNumbers f) : (i : LoopInit) →
    (i.lower : Lowered (LoopStart ν)).map (LoopStart.map f) = i.lower
  | .absent => rfl
  | .declarations start word declarators => by
    simp only [LoopInit.lower, lowered_map_bind]
    congr 1
    funext kind
    rw [← lowerDeclarators_map hf, lowered_bind_map]
    congr 1
    funext ds
    match ds with
    | [] | [_] | _ :: _ :: _ => rfl
  | .expression value => by
    simp only [LoopInit.lower, ← value.lower_map hf,
      lowered_map_bind, lowered_bind_map, lowered_map_pure]
    rfl

theorem lowerDeclarators_map (hf : KeepsNumbers f) {kind : DeclarationKind} :
    (ds : List Declarator) →
    (lowerDeclarators kind ds : Lowered (List (String × Option (Expression ν)))).map
      (List.map fun d => (d.1, Expression.mapOption f d.2)) = lowerDeclarators kind ds
  | [] => rfl
  | .mk binding init :: rest => by
    simp only [lowerDeclarators, ← lowerOption_map hf init, ← lowerDeclarators_map hf rest,
      lowered_map_bind, lowered_bind_map]
    congr 1
    funext name
    congr 1
    funext e
    cases e <;> cases kind <;> cases lowerDeclarators (ν := ν) _ rest <;> rfl

end

end Source

end Waveform
