import Waveform.Prelude
import Waveform.Proofs.Prelude.Trees
import Waveform.Proofs.Source.Numbering
import Waveform.Proofs.Source.Reading

/-!
# The text of the prelude

What the functions of the prelude are is read off its text. `Node.spells` compares a source tree
with a tree over the natural numbers, and such a tree stands for one over any other numbers. The
text is read part by part: statements that are read one after the other are read as a whole.
-/

namespace Waveform

namespace Source

deriving instance DecidableEq for Lexeme

def bindingsSpell : List Binding → List String → Bool
  | [], [] => true
  | .name _ name :: bindings, p :: ps => name == p && bindingsSpell bindings ps
  | _, _ => false

mutual

def Node.spells : Node → Expression Nat → Bool
  | .identifier _ name, .identifier other =>
    name == other && ! ["undefined", "NaN", "Infinity"].contains name
  | .constant _ .null, .literal .null => true
  | .constant _ (.number d), .literal (.number n) => d == .ofNat n
  | .array _ elements, .array items => elementsSpell elements items
  | .group _ inner, e => inner.spells e
  | .member _ object property, .member object' property' =>
    object.spells object' && property.spells property'
  | .binary _ (.operation op) left right, .binary op' left' right' =>
    op == op' && left.spells left' && right.spells right'
  | .conditional _ test consequent alternate, .conditional test' consequent' alternate' =>
    test.spells test' && consequent.spells consequent' && alternate.spells alternate'
  | .call _ callee elements, .call callee' items =>
    callee.spells callee' && elementsSpell elements items
  | .arrow _ bindings clauses, .function params body none =>
    bindingsSpell bindings params && clausesSpell clauses body
  | _, _ => false
termination_by structural x => x

def elementsSpell : List Element → List (Expression Nat) → Bool
  | [], [] => true
  | .item value :: elements, e :: es => value.spells e && elementsSpell elements es
  | _, _ => false
termination_by structural x => x

def Clause.spells : Clause → Statement Nat → Bool
  | .block clauses, .block body => clausesSpell clauses body
  | .result (some value), .result (some e) => value.spells e
  | .branch test consequent (some alternate), .branch test' consequent' (some alternate') =>
    test.spells test' && consequent.spells consequent' && alternate.spells alternate'
  | .declarations _ .const [.mk (.name _ name) (some value)],
      .declaration .constant name' (some e) =>
    name == name' && value.spells e
  | .function name bindings clauses, .function name' params body =>
    name == name' && bindingsSpell bindings params && clausesSpell clauses body
  | _, _ => false
termination_by structural x => x

def clausesSpell : List Clause → List (Statement Nat) → Bool
  | [], [] => true
  | c :: cs, s :: ss => c.spells s && clausesSpell cs ss
  | _, _ => false
termination_by structural x => x

end

variable {ν : Type} [Numeric ν]

theorem mapM_parameter {bindings : List Binding} {params : List String}
    (h : bindingsSpell bindings params = true) : bindings.mapM parameter = .ok params := by
  induction bindings, params using bindingsSpell.induct with
  | case1 => rfl
  | case2 _ name bindings p ps ih =>
    simp only [bindingsSpell, Bool.and_eq_true, beq_iff_eq] at h
    rw [List.mapM_cons, lowered_bind]
    exact ⟨p, congrArg Except.ok h.1, lowered_bind.2 ⟨ps, ih h.2, rfl⟩⟩
  | case3 => simp_all [bindingsSpell]

theorem nameExpression_of_notMem {name : String}
    (h : ["undefined", "NaN", "Infinity"].contains name = false) :
    (nameExpression name : Expression ν) = .identifier name := by
  rw [nameExpression] <;> rintro rfl <;> simp at h

mutual

/-- What a source tree spells is what it stands for. -/
theorem Node.lower_of_spells : ∀ {n : Node} {e : Expression Nat}, n.spells e = true →
    n.lower = .ok (e.map (Numeric.ofNat : Nat → ν))
  | .identifier _ name, .identifier other, h => by
    simp only [Node.spells, Bool.and_eq_true, beq_iff_eq, Bool.not_eq_true'] at h
    obtain ⟨rfl, hname⟩ := h
    exact congrArg Except.ok (nameExpression_of_notMem hname)
  | .constant _ .null, .literal .null, _ => rfl
  | .constant _ (.number d), .literal (.number n), h => by
    obtain rfl := beq_iff_eq.1 h
    rfl
  | .array start elements, .array items, h => by
    simp only [Node.lower, lowered_bind]
    exact ⟨_, lowerElements_of_spell h, rfl⟩
  | .group _ inner, e, h => by
    rw [Node.spells] at h
    rw [Node.lower]
    exact Node.lower_of_spells h
  | .member _ object property, .member object' property', h => by
    simp only [Node.spells, Bool.and_eq_true] at h
    simp only [Node.lower, lowered_bind]
    exact ⟨_, Node.lower_of_spells h.1, _, Node.lower_of_spells h.2, rfl⟩
  | .binary _ (.operation op) left right, .binary op' left' right', h => by
    simp only [Node.spells, Bool.and_eq_true, beq_iff_eq] at h
    obtain ⟨⟨rfl, hleft⟩, hright⟩ := h
    simp only [Node.lower, lowered_bind]
    exact ⟨_, Node.lower_of_spells hleft, _, Node.lower_of_spells hright, rfl⟩
  | .conditional _ test consequent alternate, .conditional test' consequent' alternate', h => by
    simp only [Node.spells, Bool.and_eq_true] at h
    obtain ⟨⟨htest, hconsequent⟩, halternate⟩ := h
    simp only [Node.lower, lowered_bind]
    exact ⟨_, Node.lower_of_spells htest, _, Node.lower_of_spells hconsequent,
      _, Node.lower_of_spells halternate, rfl⟩
  | .call _ callee elements, .call callee' items, h => by
    simp only [Node.spells, Bool.and_eq_true] at h
    simp only [Node.lower, lowered_bind]
    exact ⟨_, Node.lower_of_spells h.1, _, lowerElements_of_spell h.2, rfl⟩
  | .arrow _ bindings clauses, .function params body none, h => by
    simp only [Node.spells, Bool.and_eq_true] at h
    simp only [Node.lower, lowered_bind]
    exact ⟨_, mapM_parameter h.1, _, lowerClauses_of_spell h.2, rfl⟩

theorem lowerElements_of_spell {reason : Reason} {start : Nat} : ∀ {elements : List Element}
    {items : List (Expression Nat)}, elementsSpell elements items = true →
    lowerElements reason start elements =
      .ok (Expression.mapAll (Numeric.ofNat : Nat → ν) items)
  | [], [], _ => rfl
  | .item value :: elements, e :: es, h => by
    simp only [elementsSpell, Bool.and_eq_true] at h
    simp only [lowerElements, lowered_bind]
    exact ⟨_, Node.lower_of_spells h.1, _, lowerElements_of_spell h.2, rfl⟩

theorem Clause.lower_of_spells : ∀ {c : Clause} {s : Statement Nat}, c.spells s = true →
    c.lower = .ok [s.map (Numeric.ofNat : Nat → ν)]
  | .block clauses, .block body, h => by
    simp only [Clause.lower, lowered_bind]
    exact ⟨_, lowerClauses_of_spell h, rfl⟩
  | .result (some value), .result (some e), h => by
    simp only [Clause.lower, lowerOption, lowered_bind]
    exact ⟨_, ⟨_, Node.lower_of_spells h, rfl⟩, rfl⟩
  | .branch test consequent (some alternate), .branch test' consequent' (some alternate'), h => by
    simp only [Clause.spells, Bool.and_eq_true] at h
    obtain ⟨⟨htest, hconsequent⟩, halternate⟩ := h
    simp only [Clause.lower, lowerAlternate, lowered_bind]
    exact ⟨_, Node.lower_of_spells htest, _, Clause.lower_of_spells hconsequent,
      _, ⟨_, Clause.lower_of_spells halternate, rfl⟩, rfl⟩
  | .declarations _ .const [.mk (.name _ name) (some value)],
      .declaration .constant name' (some e), h => by
    simp only [Clause.spells, Bool.and_eq_true, beq_iff_eq] at h
    obtain ⟨rfl, hvalue⟩ := h
    simp only [Clause.lower, lowered_bind]
    refine ⟨_, rfl, [(name, some _)], ?_, rfl⟩
    simp only [lowerDeclarators, lowerOption, lowered_bind]
    exact ⟨_, rfl, _, ⟨_, Node.lower_of_spells hvalue, rfl⟩, rfl⟩
  | .function name bindings clauses, .function name' params body, h => by
    simp only [Clause.spells, Bool.and_eq_true, beq_iff_eq] at h
    obtain ⟨⟨rfl, hparams⟩, hbody⟩ := h
    simp only [Clause.lower, lowered_bind]
    exact ⟨_, mapM_parameter hparams, _, lowerClauses_of_spell hbody, rfl⟩

theorem lowerClauses_of_spell : ∀ {cs : List Clause} {ss : List (Statement Nat)},
    clausesSpell cs ss = true →
    lowerClauses cs = .ok (Statement.mapAll (Numeric.ofNat : Nat → ν) ss)
  | [], [], _ => rfl
  | c :: cs, s :: ss, h => by
    simp only [clausesSpell, Bool.and_eq_true] at h
    simp only [lowerClauses, lowered_bind]
    exact ⟨_, Clause.lower_of_spells h.1, _, lowerClauses_of_spell h.2, rfl⟩

end

theorem lowerClauses_append {cs ds : List Clause} {body body' : List (Statement ν)}
    (h : lowerClauses cs = .ok body) (h' : lowerClauses ds = .ok body') :
    lowerClauses (cs ++ ds) = .ok (body ++ body') := by
  induction cs generalizing body with
  | nil =>
    cases h
    exact h'
  | cons c cs ih =>
    simp only [lowerClauses, lowered_bind] at h
    obtain ⟨first, hfirst, rest, hrest, h⟩ := h
    cases h
    simp only [List.cons_append, lowerClauses, lowered_bind]
    exact ⟨first, hfirst, rest ++ body', ih hrest, by rw [List.append_assoc]; rfl⟩

/-! ## Reading part by part -/

/-- Reads statements of a program one after the other, none of which asks for strict code. -/
def readClauses (supply : Nat) : Nat → Parse (List Clause)
  | 0 => pure []
  | count + 1 => do
    guardThat (! (← atStatementsEnd))
    guardThat (! (← atWord "await"))
    let first ← grammar (supply + count) (.statement {} true)
    guardThat (! first.isStrictDirective)
    return first :: (← readClauses supply count)

/-- What is read one statement after the other is the start of what is read as a whole. -/
theorem ends_readClauses {supply count : Nat} {atStart : Bool} {l : Lexeme}
    {Q : List Clause → Lexeme → Prop} (hstart : count = 0 → atStart = false)
    (h : Ends (readClauses supply count) l fun cs m =>
      Ends (grammar supply (.statements {} true false)) m fun ds k => Q (cs ++ ds) k) :
    Ends (grammar (supply + count) (.statements {} true atStart)) l Q := by
  induction count generalizing l atStart Q with
  | zero =>
    rw [hstart rfl]
    exact ends_pure.1 h
  | succ count ih =>
    change Ends (statements (grammar (supply + count)) {} true atStart) l Q
    simp only [readClauses, ends_bind, ends_guardThat, ends_atWord, ends_pure] at h
    unfold statements
    rw [ends_bind]
    refine h.imp fun isEnd m h => ?_
    obtain ⟨hend, hawait, h⟩ := h
    rw [Bool.not_eq_true'] at hend hawait
    rw [if_neg (by rw [hend]; exact Bool.false_ne_true)]
    simp only [ends_bind, ends_guardThat, ends_atWord, ends_current, hawait]
    refine ⟨rfl, h.imp fun first k h => ?_⟩
    obtain ⟨hdirective, h⟩ := h
    rw [Bool.not_eq_true'] at hdirective
    rw [hdirective, Bool.and_false, Bool.false_and, if_neg Bool.false_ne_true]
    simp only [ends_bind, ends_pure]
    exact ih (Q := fun ds => Q (first :: ds)) (fun _ => rfl) h

/-- The statements from a place of the text on, as they are read part by part. -/
inductive InParts (text : List Char) : (supply start : Nat) → List Clause → Prop
  | finish {supply start l} : lexeme? (text.drop start) start true = some l →
    l.token = .finish → InParts text (supply + 1) start []
  | part {supply count start stop l m cs ds} :
    lexeme? (text.drop start) start true = some l →
    (readClauses supply count).run l = some (cs, m) →
    lexeme? (text.drop stop) stop true = some m →
    InParts text supply stop ds → InParts text (supply + count) start (cs ++ ds)

theorem InParts.ends {text : List Char} {supply start : Nat} {cs : List Clause}
    (h : InParts text supply start cs) {l : Lexeme}
    (hl : lexeme? (text.drop start) start true = some l) :
    Ends (grammar supply (.statements {} true false)) l fun ds m =>
      ds = cs ∧ m.token = .finish := by
  induction h generalizing l with
  | @finish supply start l' hl' hfinish =>
    cases hl.symm.trans hl'
    change Ends (statements (grammar supply) {} true false) l' _
    unfold statements atStatementsEnd
    simp only [ends_bind, ends_current, hfinish, ends_pure, if_true, and_self]
  | @part supply count start stop l' m cs ds hl' hrun hm hrest ih =>
    cases hl.symm.trans hl'
    exact ends_readClauses (fun _ => rfl) ⟨cs, m, hrun, (ih hm).imp fun _ _ h => ⟨h.1 ▸ rfl, h.2⟩⟩

/-- A text that is read part by part is read. -/
theorem parse?_of_reads {text : List Char} {count : Nat} {l m : Lexeme} {supply stop : Nat}
    {cs ds : List Clause} (hline : withoutInterpreterLine text = (text, 0))
    (hsupply : depthPerCharacter * (text.length + 2) = supply + (count + 1))
    (hl : lexeme? text 0 true = some l)
    (hrun : (readClauses supply (count + 1)).run l = some (cs, m))
    (hm : lexeme? (text.drop stop) stop true = some m) (hrest : InParts text supply stop ds) :
    parse? text = some (cs ++ ds) := by
  obtain ⟨es, k, hes, hk⟩ : Ends (grammar (supply + (count + 1)) (.statements {} true true)) l
      fun es k => es = cs ++ ds ∧ k.token = .finish :=
    ends_readClauses nofun ⟨cs, m, hrun, (hrest.ends hm).imp fun _ _ h => ⟨h.1 ▸ rfl, h.2⟩⟩
  simp only [parse?, hline, hsupply, hl, Option.bind_some, hes, hk.2, hk.1, beq_self_eq_true,
    if_true]

end Source

namespace Statement

variable {ν ν' : Type}

theorem functionNames_append (ss ts : List (Statement ν)) :
    functionNames (ss ++ ts) = functionNames ss ++ functionNames ts := by
  induction ss with
  | nil => rfl
  | cons s ss ih =>
    cases s with
    | function name params body => exact congrArg (name :: ·) ih
    | _ => exact ih

theorem functionNames_mapAll (f : ν → ν') (ss : List (Statement ν)) :
    functionNames (mapAll f ss) = functionNames ss := by
  induction ss with
  | nil => rfl
  | cons s ss ih =>
    cases s with
    | function name params body => exact congrArg (name :: ·) ih
    | _ => exact ih

end Statement

namespace Prelude

/-- The number system with one number. -/
instance : Numeric Unit where
  ofNumeral _ := ()
  constant _ := ()
  neg _ := ()
  add _ _ := ()
  sub _ _ := ()
  mul _ _ := ()
  div _ _ := ()
  rem _ _ := ()
  pow _ _ := ()
  eq _ _ := true
  lt _ _ := false
  apply _ _ := none
  toNat? _ := none
  draw _ := ()
  text _ := ""

/-- The names of the functions that statements declare, if they are statements of a program. -/
def declaredBy (clauses : List Source.Clause) : Option (List String) :=
  match (Source.lowerClauses clauses : Source.Lowered (List (Statement Unit))) with
  | .ok body => some (Statement.functionNames body)
  | .error _ => none

/-- Whether the statements declare functions of the given names, and those among them that sounds
are put together with as the prelude does. -/
def fits (names : List String) (clauses : List Source.Clause) : Bool :=
  declaredBy clauses == some names &&
    (functions (id : Nat → Nat)).all fun (name, f) =>
      ! names.contains name || clauses.any fun c => c.spells (.function name f.params f.body)

theorem exists_body {names : List String} {clauses : List Source.Clause}
    (h : fits names clauses = true) (ν : Type) [Numeric ν] :
    ∃ body : List (Statement ν), Source.lowerClauses clauses = .ok body ∧
      Statement.functionNames body = names := by
  have hnames : declaredBy clauses = some names := beq_iff_eq.1 (Bool.and_eq_true_iff.1 h).1
  have hkeeps : Source.KeepsNumbers (fun _ : ν => ()) := ⟨fun _ => rfl, fun _ => rfl⟩
  rw [declaredBy, ← Source.lowerClauses_map hkeeps] at hnames
  cases hbody : (Source.lowerClauses clauses : Source.Lowered (List (Statement ν))) with
  | error r =>
    rw [hbody] at hnames
    cases hnames
  | ok body =>
    rw [hbody] at hnames
    refine ⟨body, rfl, ?_⟩
    rw [← Statement.functionNames_mapAll (fun _ : ν => ())]
    exact Option.some.inj hnames

theorem exists_spelled {names : List String} {clauses : List Source.Clause}
    (h : fits names clauses = true) {name : String} {f : Function Nat}
    (hf : (name, f) ∈ functions id) (hname : name ∈ names) :
    ∃ c ∈ clauses, c.spells (.function name f.params f.body) = true := by
  have hany := List.all_eq_true.1 (Bool.and_eq_true_iff.1 h).2 _ hf
  rcases Bool.or_eq_true_iff.1 hany with hnot | hany
  · rw [Bool.not_eq_true', List.contains_iff_mem.2 hname] at hnot
    cases hnot
  · exact List.any_eq_true.1 hany

theorem fits_append {names names' : List String} {cs ds : List Source.Clause}
    (h : fits names cs = true) (h' : fits names' ds = true) :
    fits (names ++ names') (cs ++ ds) = true := by
  refine Bool.and_eq_true_iff.2 ⟨?_, List.all_eq_true.2 fun (name, f) hf => ?_⟩
  · obtain ⟨body, hbody, hnames⟩ := exists_body h Unit
    obtain ⟨body', hbody', hnames'⟩ := exists_body h' Unit
    have hall : (Source.lowerClauses (cs ++ ds) : Source.Lowered (List (Statement Unit))) =
        .ok (body ++ body') := Source.lowerClauses_append hbody hbody'
    rw [declaredBy, hall, beq_iff_eq, ← hnames, ← hnames']
    exact congrArg some (Statement.functionNames_append body body')
  · by_cases hname : name ∈ names ++ names'
    · rw [Bool.or_eq_true, List.any_eq_true]
      rcases List.mem_append.1 hname with hname | hname
      · obtain ⟨c, hc, hspells⟩ := exists_spelled h hf hname
        exact .inr ⟨c, List.mem_append_left _ hc, hspells⟩
      · obtain ⟨c, hc, hspells⟩ := exists_spelled h' hf hname
        exact .inr ⟨c, List.mem_append_right _ hc, hspells⟩
    · rw [Bool.or_eq_true, Bool.not_eq_true']
      exact .inl (Bool.eq_false_iff.2 fun h => hname (List.contains_iff_mem.1 h))

set_option maxRecDepth 1000000 in
noncomputable def characters : { cs : List Char // text = String.ofList cs } :=
  ⟨_, rfl⟩

/-- Whether `count` statements that fit stand between two places of the text. -/
noncomputable def reads (start count stop supply : Nat) (names : List String) : Bool :=
  (Source.lexeme? (characters.val.drop start) start true).any fun l =>
    ((Source.readClauses supply count).run l).any fun (clauses, m) =>
      decide (Source.lexeme? (characters.val.drop stop) stop true = some m) && fits names clauses

/-- Statements that stand one after the other in the text, from one place to another, with what is
left to read the text behind them with, and the names of the functions that they declare. The text
is checked part by part, which takes less room than to check it at once. -/
structure Part where
  start : Nat
  count : Nat
  stop : Nat
  supply : Nat
  names : List String
  isRead : reads start count stop supply names = true

set_option maxRecDepth 100000

def basics : Part :=
  ⟨0, 16, 2275, 141404, ["pair", "head", "tail", "is_null", "accumulate", "get_wave",
    "get_duration", "make_sound", "silence_sound", "noise_sound", "sine_sound", "square_sound",
    "triangle_sound", "sawtooth_sound", "linear_decay"], by decide +kernel⟩

def combinators : Part :=
  ⟨2275, 5, 4740, 141399, ["adsr", "consecutively", "simultaneously", "midi_note_to_frequency",
    "stacking_adsr"], by decide +kernel⟩

def instruments : Part :=
  ⟨4740, 6, 6359, 141393, ["trombone", "piano", "bell", "violin", "cello", "chords1"],
    by decide +kernel⟩

def chords : Part :=
  ⟨6359, 5, 8227, 141388, ["chords2", "chords3", "chords4", "chords7", "chords8"],
    by decide +kernel⟩

def tune : Part :=
  ⟨8227, 1, 11783, 141387, ["rhapsody"], by decide +kernel⟩

theorem characters_length : characters.val.length = 11783 := by
  decide +kernel

theorem characters_encodingMark : Source.withoutEncodingMark characters.val = characters.val :=
  rfl

theorem characters_interpreterLine :
    Source.withoutInterpreterLine characters.val = (characters.val, 0) :=
  rfl

theorem Part.exists_run (p : Part) :
    ∃ l cs m, Source.lexeme? (characters.val.drop p.start) p.start true = some l ∧
      (Source.readClauses p.supply p.count).run l = some (cs, m) ∧
      Source.lexeme? (characters.val.drop p.stop) p.stop true = some m ∧
        fits p.names cs = true := by
  obtain ⟨l, hl, h⟩ := (Option.any_eq_true _ _).1 p.isRead
  obtain ⟨⟨cs, m⟩, hrun, h⟩ := (Option.any_eq_true _ _).1 h
  obtain ⟨hm, hfits⟩ := Bool.and_eq_true_iff.1 h
  exact ⟨l, cs, m, hl, hrun, of_decide_eq_true hm, hfits⟩

theorem Part.exists_reads (p : Part) {names : List String}
    (hrest : ∃ ds, Source.InParts characters.val p.supply p.stop ds ∧ fits names ds = true) :
    ∃ cs, Source.InParts characters.val (p.supply + p.count) p.start cs ∧
      fits (p.names ++ names) cs = true := by
  obtain ⟨ds, hds, hnames⟩ := hrest
  obtain ⟨l, cs, m, hl, hrun, hm, hfits⟩ := p.exists_run
  exact ⟨cs ++ ds, .part hl hrun hm hds, fits_append hfits hnames⟩

def declaredNames : List String :=
  basics.names ++ (combinators.names ++ (instruments.names ++ (chords.names ++
    (tune.names ++ []))))

theorem parse?_text : ∃ clauses,
    Source.parse? (Source.withoutEncodingMark text.toList) = some clauses ∧
      fits declaredNames clauses = true := by
  have hend : ∃ ds, Source.InParts characters.val tune.supply tune.stop ds ∧ fits [] ds = true := by
    refine ⟨[], .finish (l := ⟨.finish, 11783, true, [], 11783, [], 11783⟩) ?_ rfl, rfl⟩
    change Source.lexeme? (characters.val.drop 11783) 11783 true = _
    rw [List.drop_eq_nil_of_le (Nat.le_of_eq characters_length)]
    rfl
  obtain ⟨ds, hds, hnames⟩ := combinators.exists_reads (instruments.exists_reads
    (chords.exists_reads (tune.exists_reads hend)))
  obtain ⟨l, first, m, hl, hrun, hm, hfirst⟩ := basics.exists_run
  refine ⟨first ++ ds, ?_, fits_append hfirst hnames⟩
  rw [characters.property, String.toList_ofList, characters_encodingMark]
  exact Source.parse?_of_reads characters_interpreterLine
    (by rw [characters_length]; rfl) hl hrun hm hds

end Prelude

end Waveform
