import Waveform.Proofs.Source.Spelling
import Waveform.Source.Parser

/-!
# Stepping through the parser

`Ends p l Q` says that a parser succeeds at a token and what holds of what it answers. There is one
equation for each way to build a parser, so that a parser is followed along the tokens of a line by
rewriting.
-/

namespace Waveform

namespace Source

/-- The parser succeeds at the token, and its answer and the token behind have the property. -/
def Ends {α : Type} (p : Parse α) (l : Lexeme) (Q : α → Lexeme → Prop) : Prop :=
  ∃ a m, p.run l = some (a, m) ∧ Q a m

section

variable {α β : Type} {p : Parse α} {f : α → Parse β} {l : Lexeme} {Q R : α → Lexeme → Prop}
  {S : β → Lexeme → Prop}

theorem Ends.imp (h : Ends p l Q) (hQR : ∀ a m, Q a m → R a m) : Ends p l R := by
  obtain ⟨a, m, hrun, hQ⟩ := h
  exact ⟨a, m, hrun, hQR a m hQ⟩

@[simp] theorem ends_pure {a : α} : Ends (pure a) l Q ↔ Q a l := by
  constructor
  · rintro ⟨b, m, hrun, hQ⟩
    cases hrun
    exact hQ
  · exact fun hQ => ⟨a, l, rfl, hQ⟩

@[simp] theorem ends_bind : Ends (p >>= f) l S ↔ Ends p l fun a m => Ends (f a) m S := by
  constructor
  · rintro ⟨b, m, hrun, hS⟩
    simp only [StateT.run_bind, Option.bind_eq_bind, Option.bind_eq_some_iff] at hrun
    obtain ⟨⟨a, k⟩, hp, hf⟩ := hrun
    exact ⟨a, k, hp, b, m, hf, hS⟩
  · rintro ⟨a, k, hp, b, m, hf, hS⟩
    refine ⟨b, m, ?_, hS⟩
    simp [StateT.run_bind, hp, hf]

@[simp] theorem ends_map {g : α → β} : Ends (g <$> p) l S ↔ Ends p l fun a m => S (g a) m := by
  simp only [map_eq_pure_bind, ends_bind, ends_pure]

@[simp] theorem ends_liftM {o : Option α} : Ends (liftM o) l Q ↔ ∃ a, o = some a ∧ Q a l := by
  constructor
  · rintro ⟨a, m, hrun, hQ⟩
    cases o with
    | none => cases hrun
    | some b =>
      cases hrun
      exact ⟨a, rfl, hQ⟩
  · rintro ⟨a, rfl, hQ⟩
    exact ⟨a, l, rfl, hQ⟩

@[simp] theorem ends_ite {c : Prop} [Decidable c] {q : Parse α} :
    Ends (if c then p else q) l Q ↔ if c then Ends p l Q else Ends q l Q := by
  split <;> rfl

end

section

variable {l : Lexeme} {Q : Unit → Lexeme → Prop} {B : Bool → Lexeme → Prop} {text name : String}

@[simp] theorem ends_current {Q : Lexeme → Lexeme → Prop} : Ends current l Q ↔ Q l l := by
  constructor
  · rintro ⟨b, m, hrun, hQ⟩
    cases hrun
    exact hQ
  · exact fun hQ => ⟨l, l, rfl, hQ⟩

@[simp] theorem ends_next? {Q : Option Lexeme → Lexeme → Prop} :
    Ends next? l Q ↔ Q (lexeme? l.rest l.stop false) l := by
  simp [next?]

@[simp] theorem ends_guardThat {c : Bool} : Ends (guardThat c) l Q ↔ c = true ∧ Q () l := by
  cases c with
  | true => simp [guardThat]
  | false =>
    simp only [guardThat, Bool.false_eq_true, if_false, false_and, iff_false]
    rintro ⟨a, m, hrun, -⟩
    cases hrun

@[simp] theorem ends_advance : Ends advance l Q ↔ l.Next (Q ()) := by
  simp only [advance, resume, ends_bind, ends_current, Lexeme.Next]
  cases lexeme? l.rest l.stop false with
  | none =>
    simp only [reduceCtorEq, false_and, exists_false, iff_false]
    rintro ⟨a, m, hrun, -⟩
    cases hrun
  | some m =>
    simp only [Option.some.injEq, exists_eq_left']
    constructor
    · rintro ⟨a, k, hrun, hQ⟩
      cases hrun
      exact hQ
    · exact fun hQ => ⟨(), m, rfl, hQ⟩

@[simp] theorem ends_atMark : Ends (atMark text) l B ↔ B (l.token.isMark text) l := by
  simp [atMark]

@[simp] theorem ends_atWord : Ends (atWord name) l B ↔ B (l.token.isWord name) l := by
  simp [atWord]

@[simp] theorem ends_acceptMark : Ends (acceptMark text) l B ↔
    if l.token.isMark text then l.Next (B true) else B false l := by
  simp [acceptMark]

@[simp] theorem ends_acceptWord : Ends (acceptWord name) l B ↔
    if l.token.isWord name then l.Next (B true) else B false l := by
  simp [acceptWord]

@[simp] theorem ends_expectMark :
    Ends (expectMark text) l Q ↔ l.token.isMark text = true ∧ l.Next (Q ()) := by
  simp [expectMark]

@[simp] theorem ends_expectWord :
    Ends (expectWord name) l Q ↔ l.token.isWord name = true ∧ l.Next (Q ()) := by
  simp [expectWord]

@[simp] theorem ends_atImpliedEnd : Ends atImpliedEnd l B ↔
    B (l.afterLineEnd || l.token == .finish || l.token.isMark "\x7d") l := by
  simp [atImpliedEnd]

@[simp] theorem ends_atStatementEnd : Ends atStatementEnd l B ↔
    B (l.token.isMark ";" ||
      (l.afterLineEnd || l.token == .finish || l.token.isMark "\x7d")) l := by
  simp [atStatementEnd]

@[simp] theorem ends_statementEnd : Ends statementEnd l Q ↔
    if l.token.isMark ";" then l.Next (Q ())
    else (l.afterLineEnd || l.token == .finish || l.token.isMark "\x7d") = true ∧ Q () l := by
  cases h : l.token.isMark ";" <;> simp [statementEnd, h]

end

end Source

end Waveform
