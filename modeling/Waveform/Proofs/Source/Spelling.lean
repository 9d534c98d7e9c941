import Waveform.Source.Token
import Waveform.Text.Quoted

/-!
# Spelling

Which tokens a text is read as. `Spells` follows the tokens of a line from the current one on, and
`Lexes` says that a text spells tokens wherever it stands, as long as the character behind it is of
a kind that does not run into them. Texts that lex are put together with `Lexes.append`, and the
rest of this module is one lemma for each kind of token but numbers.
-/

namespace Waveform

namespace Source

def Lexeme.Next (l : Lexeme) (P : Lexeme → Prop) : Prop :=
  ∃ m, lexeme? l.rest l.stop false = some m ∧ P m

/-- The tokens stand on one line from the current one on, and the token behind them has the
property. -/
def Spells : List Token → (Lexeme → Prop) → Lexeme → Prop
  | [], P, l => P l
  | t :: ts, P, l => l.token = t ∧ l.Next fun m => m.afterLineEnd = false ∧ Spells ts P m

/-- Wherever the text stands, its first token is there and has the property. -/
def Opens (cs : List Char) (P : Lexeme → Prop) : Prop :=
  ∀ offset afterLineEnd, ∃ l, lexeme? cs offset afterLineEnd = some l ∧
    l.afterLineEnd = afterLineEnd ∧ P l

def StartsWith (kind : Char → Bool) (cs : List Char) : Prop :=
  ∀ c ∈ cs.head?, kind c = true

instance {kind : Char → Bool} {cs : List Char} : Decidable (StartsWith kind cs) :=
  decidable_of_iff (cs.head?.all kind = true) (Option.all_eq_true kind cs.head?)

/-- The text spells the tokens wherever a character of the kind follows, or none. No token is
shorter than a character. -/
structure Lexes (follow : Char → Bool) (cs : List Char) (ts : List Token) : Prop where
  length_le : ts.length ≤ cs.length
  opens : ∀ rest P, StartsWith follow rest → Opens rest P → Opens (cs ++ rest) (Spells ts P)

variable {P Q : Lexeme → Prop} {l : Lexeme} {t : Token} {ts us : List Token}
  {cs ds rest : List Char} {follow follow' : Char → Bool}

theorem Lexeme.Next.imp (h : l.Next P) (hPQ : ∀ m, P m → Q m) : l.Next Q := by
  obtain ⟨m, hm, hP⟩ := h
  exact ⟨m, hm, hPQ m hP⟩

theorem spells_append : Spells (ts ++ us) P l ↔ Spells ts (Spells us P) l := by
  induction ts generalizing l with
  | nil => rfl
  | cons t ts ih => simp only [List.cons_append, Spells, ih]

theorem Opens.imp (h : Opens cs P) (hPQ : ∀ m, P m → Q m) : Opens cs Q := by
  intro offset b
  obtain ⟨l, hl, hb, hP⟩ := h offset b
  exact ⟨l, hl, hb, hPQ l hP⟩

/-! ## Texts in a row -/

@[simp] theorem startsWith_nil : StartsWith follow [] := nofun

@[simp] theorem startsWith_cons {c : Char} : StartsWith follow (c :: cs) ↔ follow c = true := by
  simp [StartsWith]

theorem StartsWith.imp (h : StartsWith follow cs)
    (hfollow : ∀ c, follow c = true → follow' c = true) :
    StartsWith follow' cs :=
  fun c hc => hfollow c (h c hc)

theorem StartsWith.append (h : StartsWith follow cs) (hcs : cs ≠ []) :
    StartsWith follow (cs ++ rest) := by
  cases cs with
  | nil => exact absurd rfl hcs
  | cons c cs => exact h

theorem Lexes.nil : Lexes follow [] [] :=
  ⟨Nat.le_refl 0, fun _ _ _ h => h⟩

theorem Lexes.imp (h : Lexes follow cs ts) (hfollow : ∀ c, follow' c = true → follow c = true) :
    Lexes follow' cs ts :=
  ⟨h.length_le, fun rest P hrest => h.opens rest P (hrest.imp hfollow)⟩

/-- Texts one after the other spell the tokens of both, if the second starts with a character that
may follow the first. -/
theorem Lexes.append (h : Lexes follow cs ts) (h' : Lexes follow' ds us) (hds : ds ≠ [])
    (hstart : StartsWith follow ds) : Lexes follow' (cs ++ ds) (ts ++ us) where
  length_le := by
    have hcs := h.length_le
    have hds := h'.length_le
    simp only [List.length_append]
    omega
  opens rest P hrest hopens := by
    rw [List.append_assoc]
    have hrow := h.opens (ds ++ rest) (Spells us P) (hstart.append hds)
      (h'.opens rest P hrest hopens)
    exact hrow.imp fun m hm => spells_append.2 hm

theorem Lexes.append_any (h : Lexes (fun _ => true) cs ts) (h' : Lexes follow ds us) :
    Lexes follow (cs ++ ds) (ts ++ us) where
  length_le := by
    have hcs := h.length_le
    have hds := h'.length_le
    simp only [List.length_append]
    omega
  opens rest P hrest hopens := by
    rw [List.append_assoc]
    have hrow := h.opens (ds ++ rest) (Spells us P) (fun _ _ => rfl) (h'.opens rest P hrest hopens)
    exact hrow.imp fun m hm => spells_append.2 hm

/-! ## Space -/

theorem opens_space (h : Opens cs P) : Opens (' ' :: cs) P := by
  intro offset b
  obtain ⟨l, hl, hb, hP⟩ := h (offset + 1) b
  refine ⟨l, ?_, hb, hP⟩
  rw [← hl]
  simp [lexeme?, skip, isLineEnd, isSpace]

theorem Lexes.space (h : Lexes follow cs ts) : Lexes follow (' ' :: cs) ts where
  length_le := Nat.le_succ_of_le h.length_le
  opens rest P hrest hopens := opens_space (h.opens rest P hrest hopens)

def isSolid (c : Char) : Bool :=
  ! isLineEnd c && ! isSpace c && c != '/' && c != '<' && c != '-'

theorem skip_of_isSolid {c : Char} (h : isSolid c = true) (cs : List Char) (n : Nat) (b : Bool) :
    skip .code (c :: cs) n b none = some ⟨c :: cs, n, b, none⟩ := by
  simp only [isSolid, Bool.and_eq_true, Bool.not_eq_true', bne_iff_ne, ne_eq] at h
  obtain ⟨⟨⟨⟨hline, hspace⟩, hslash⟩, hless⟩, hminus⟩ := h
  simp [skip, hline, hspace, hslash, hless, hminus]

theorem Lexes.ofToken (hcs : cs ≠ [])
    (hskip : ∀ rest n b, StartsWith follow rest →
      skip .code (cs ++ rest) n b none = some ⟨cs ++ rest, n, b, none⟩)
    (htoken : ∀ rest, StartsWith follow rest →
      ∃ count, token? (cs ++ rest) = some ⟨t, rest, count⟩) : Lexes follow cs [t] where
  length_le := List.length_pos_iff.2 hcs
  opens rest P hrest hopens := by
    intro offset b
    obtain ⟨count, hread⟩ := htoken rest hrest
    obtain ⟨m, hm, hb, hP⟩ := hopens (offset + count) false
    simp only [lexeme?, hskip rest offset b hrest, hread, Option.bind_some, Option.map_some]
    exact ⟨_, rfl, rfl, rfl, m, hm, hb, hP⟩

theorem Lexes.ofSolid {c : Char} (hc : isSolid c = true)
    (htoken : ∀ rest, StartsWith follow rest →
      ∃ count, token? (c :: cs ++ rest) = some ⟨t, rest, count⟩) : Lexes follow (c :: cs) [t] :=
  .ofToken (List.cons_ne_nil c cs) (fun rest n b _ => skip_of_isSolid hc (cs ++ rest) n b) htoken

/-! ## Words -/

def endsName (c : Char) : Bool :=
  ! isNamePart c && c != '\\'

def gapCodes : List Nat :=
  [0x2F, 0x3C, 0x2D, 0x20, 0, 0x9, 0xA, 0xB, 0xC, 0xD, 0x85, 0xA0, 0xFEFF, 0x1680, 0x2028, 0x2029,
    0x202F, 0x205F, 0x3000] ++ List.range' 0x2000 11

theorem mem_gapCodes {c : Char} (h : isSolid c = false) : c.toNat ∈ gapCodes := by
  simp only [isSolid, isLineEnd, isSpace, Bool.and_eq_false_iff, Bool.not_eq_false',
    Bool.or_eq_true, beq_iff_eq, Bool.and_eq_true, decide_eq_true_eq, bne_eq_false_iff_eq] at h
  simp only [gapCodes, List.mem_append, List.mem_cons, List.not_mem_nil, or_false,
    List.mem_range'_1]
  rcases h with (((h | h) | rfl) | rfl) | rfl
  · rcases h with ((rfl | rfl) | h) | h
    · decide
    · decide
    · simp [h]
    · simp [h]
  · rcases h with (((h | hrange) | h) | h) | h
    · rcases h with (((((((h | h) | h) | h) | h) | h) | h) | h) | h <;> simp [h]
    · exact .inr (by omega)
    all_goals simp [h]
  all_goals decide

theorem inRanges_toList (ranges : Array (Nat × Nat)) (n : Nat) :
    inRanges ranges n = ranges.toList.any fun r => r.1 ≤ n && n ≤ r.2 := by
  rw [Array.any_toList]
  rfl

/-- Ranges that all characters of a gap are in, and no letters. -/
def gapRanges : List (Nat × Nat) :=
  [(0, 0xA0), (0x1680, 0x1680), (0x2000, 0x205F), (0x3000, 0x3000), (0xFEFF, 0xFEFF)]

theorem exists_gapRange : ∀ n ∈ gapCodes, ∃ g ∈ gapRanges, g.1 ≤ n ∧ n ≤ g.2 := by
  decide

theorem letterRanges_gapRanges : (gapRanges.all fun g => letterRanges.toList.all fun r =>
    Nat.blt r.2 g.1 || Nat.blt g.2 r.1) = true := by
  decide +kernel

theorem letterRanges_gapCodes {n : Nat} (hn : n ∈ gapCodes) :
    letterRanges.toList.any (fun r => r.1 ≤ n && n ≤ r.2) = false := by
  obtain ⟨g, hg, hlow, hhigh⟩ := exists_gapRange n hn
  rw [List.any_eq_false]
  intro r hr hin
  simp only [Bool.and_eq_true, decide_eq_true_eq] at hin
  have hapart := List.all_eq_true.1 (List.all_eq_true.1 letterRanges_gapRanges g hg) r hr
  rw [Bool.or_eq_true, Nat.blt_eq, Nat.blt_eq] at hapart
  omega

theorem isNameStart_gapCodes {n : Nat} (hn : n ∈ gapCodes) :
    isNameStart (Char.ofNat n) = false := by
  have hplain : ∀ n ∈ gapCodes, (Char.ofNat n).toNat = n ∧ (Char.ofNat n).isAlpha = false ∧
      (Char.ofNat n == '_') = false ∧ (Char.ofNat n == '$') = false := by
    decide
  obtain ⟨hcode, halpha, hunderscore, hdollar⟩ := hplain n hn
  simp only [isNameStart, inRanges_toList, hcode, letterRanges_gapCodes hn, halpha, hunderscore,
    hdollar, Bool.and_false, Bool.or_false]

theorem isSolid_of_kind {kind : Char → Bool} (hkind : ∀ n ∈ gapCodes, kind (Char.ofNat n) = false)
    {c : Char} (h : kind c = true) : isSolid c = true := by
  cases hsolid : isSolid c with
  | true => rfl
  | false =>
    have hgap := hkind c.toNat (mem_gapCodes hsolid)
    rw [Char.ofNat_toNat, h] at hgap
    cases hgap

theorem isSolid_of_isNameStart {c : Char} (h : isNameStart c = true) : isSolid c = true :=
  isSolid_of_kind (fun _ hn => isNameStart_gapCodes hn) h

theorem isNamePart_of_isNameStart {c : Char} (h : isNameStart c = true) : isNamePart c = true := by
  simp only [isNameStart, isNamePart, Bool.or_eq_true, Bool.and_eq_true, Char.isAlphanum] at h ⊢
  rcases h with ((h | h) | h) | ⟨h, h'⟩ <;> simp [*]

theorem takeWhile_append_stop {α : Type} {p : α → Bool} {xs rest : List α}
    (hxs : ∀ x ∈ xs, p x = true) (hrest : ∀ x ∈ rest.head?, p x = false) :
    (xs ++ rest).takeWhile p = xs := by
  rw [List.takeWhile_append_of_pos hxs]
  cases rest with
  | nil => simp
  | cons x rest => simp [hrest x rfl]

theorem name?_of_plain (hname : ∀ c ∈ cs, isNamePart c = true) (hrest : StartsWith endsName rest) :
    name? (cs ++ rest) = some (⟨String.ofList cs, rest, cs.length⟩, false) := by
  have hplain : (cs ++ rest).takeWhile isNamePart = cs :=
    takeWhile_append_stop hname fun c hc => by simpa using (Bool.and_eq_true_iff.1 (hrest c hc)).1
  have hslash : ∀ ds, rest ≠ '\\' :: ds := by
    rintro ds rfl
    exact absurd (hrest '\\' rfl) (by decide)
  simp [name?, hplain]

def isWordText (cs : List Char) : Bool :=
  match cs with
  | [] => false
  | c :: cs => isNameStart c && cs.all isNamePart

theorem Lexes.word {name : String} (h : isWordText name.toList = true) :
    Lexes endsName name.toList [.word name false] := by
  cases hname : name.toList with
  | nil => simp [hname, isWordText] at h
  | cons c cs =>
    simp only [hname, isWordText, Bool.and_eq_true, List.all_eq_true] at h
    obtain ⟨hstart, hparts⟩ := h
    have hall : ∀ d ∈ c :: cs, isNamePart d = true := by
      intro d hd
      cases hd with
      | head => exact isNamePart_of_isNameStart hstart
      | tail _ hd => exact hparts d hd
    refine .ofSolid (isSolid_of_isNameStart hstart) fun rest hrest => ⟨(c :: cs).length, ?_⟩
    have hread := name?_of_plain hall hrest
    rw [← hname, String.ofList_toList, hname, List.cons_append] at hread
    simp [token?, hstart, hread]

/-! ## Strings -/

theorem digitValue?_hexDigit (n : Nat) : digitValue? 16 (hexDigit n) = some (n % 16) := by
  have h : ∀ m < 16, digitValue? 16 (Nat.digitChar m) = some m := by decide
  exact h (n % 16) (Nat.mod_lt n (by decide))

theorem codePoint?_hexDigit {n : Nat} (hn : n < 256) (rest : List Char) :
    codePoint? ('0' :: '0' :: hexDigit (n / 16) :: hexDigit n :: rest) =
      some ⟨(n, ['0', '0', hexDigit (n / 16), hexDigit n]), rest, 4⟩ := by
  have hzero : digitValue? 16 '0' = some 0 := by decide
  have hdigits : digits 16 4 ('0' :: '0' :: hexDigit (n / 16) :: hexDigit n :: rest) =
      ['0', '0', hexDigit (n / 16), hexDigit n] := by
    simp [digits, hzero, digitValue?_hexDigit]
  have hvalue : valueOfDigits 16 ['0', '0', hexDigit (n / 16), hexDigit n] = n := by
    simp only [valueOfDigits, List.foldl_cons, List.foldl_nil, hzero, digitValue?_hexDigit,
      Option.getD_some]
    omega
  simp [codePoint?, hdigits, hvalue]

/-- A character is read back from between quotes as it is written there. -/
theorem escapeChar_reads (c : Char) (rest : List Char) :
    escapeChar c = [c] ∧ c ≠ '"' ∧ c ≠ '\\' ∧ c ≠ '\n' ∧ c ≠ '\r' ∨
      ∃ ds count, escapeChar c = '\\' :: ds ∧
        escape? (ds ++ rest) = some ⟨([c], false), rest, count⟩ := by
  unfold escapeChar
  split
  case h_8 hquote hslash _ _ hline hreturn _ =>
    split
    · next hc =>
      have hpoint := codePoint?_hexDigit (n := c.toNat) (by omega) rest
      have hsurrogate : isSurrogate c.toNat = false := by
        simp only [isSurrogate, Bool.and_eq_false_iff, decide_eq_false_iff_not]
        omega
      refine .inr ⟨['u', '0', '0', hexDigit (c.toNat / 16), hexDigit c.toNat], 5, rfl, ?_⟩
      simp [escape?, hpoint, hsurrogate, Char.ofNat_toNat]
    · exact .inl ⟨rfl, hquote, hslash, hline, hreturn⟩
  all_goals exact .inr ⟨_, _, rfl, rfl⟩

/-- An escaped text is read up to the closing quote. -/
theorem string?_escaped (cs soFar rest : List Char) (fuel count : Nat) (hfuel : cs.length < fuel) :
    ∃ total, string? '"' fuel (cs.flatMap escapeChar ++ '"' :: rest) soFar false count =
      some ⟨.string (String.ofList (soFar.reverse ++ cs)) false, rest, total⟩ := by
  induction cs generalizing soFar fuel count with
  | nil =>
    obtain ⟨fuel, rfl⟩ : ∃ k, fuel = k + 1 := ⟨fuel - 1, by simp at hfuel; omega⟩
    exact ⟨count + 1, by simp [string?]⟩
  | cons c cs ih =>
    rw [List.length_cons] at hfuel
    obtain ⟨fuel, rfl⟩ : ∃ k, fuel = k + 1 := ⟨fuel - 1, by omega⟩
    have hfuel' : cs.length < fuel := by omega
    rw [List.flatMap_cons, List.append_assoc]
    rcases escapeChar_reads c (cs.flatMap escapeChar ++ '"' :: rest) with
      ⟨hplain, hquote, hslash, hline, hreturn⟩ | ⟨ds, taken, hescape, hread⟩
    · obtain ⟨total, htotal⟩ := ih (c :: soFar) fuel (count + 1) hfuel'
      refine ⟨total, ?_⟩
      rw [List.reverse_cons, List.append_assoc, List.singleton_append] at htotal
      simp [hplain, string?, hquote, hslash, hline, hreturn, htotal]
    · obtain ⟨total, htotal⟩ := ih (c :: soFar) fuel (count + taken + 1) hfuel'
      refine ⟨total, ?_⟩
      rw [List.reverse_cons, List.append_assoc, List.singleton_append] at htotal
      simp [hescape, string?, hread, htotal]

theorem length_le_escaped (cs : List Char) : cs.length ≤ (cs.flatMap escapeChar).length := by
  induction cs with
  | nil => exact Nat.le_refl 0
  | cons c cs ih =>
    have hc : 1 ≤ (escapeChar c).length := by
      rcases escapeChar_reads c [] with ⟨hplain, -⟩ | ⟨ds, -, hescape, -⟩
      · simp [hplain]
      · simp [hescape]
    rw [List.flatMap_cons, List.length_append, List.length_cons]
    omega

theorem Lexes.quote (text : String) :
    Lexes (fun _ => true) (quote text).toList [.string text false] := by
  have htext : (Waveform.quote text).toList = '"' :: (text.toList.flatMap escapeChar ++ ['"']) := by
    simp [Waveform.quote]
  rw [htext]
  refine .ofSolid (by decide) fun rest _ => ?_
  have hlength := length_le_escaped text.toList
  obtain ⟨total, hread⟩ := string?_escaped text.toList [] rest
    ((text.toList.flatMap escapeChar ++ '"' :: rest).length + 1) 1
    (by simp only [List.length_append]; omega)
  rw [List.reverse_nil, List.nil_append, String.ofList_toList] at hread
  rw [List.cons_append, List.append_assoc, List.singleton_append]
  exact ⟨total, hread⟩

/-! ## Marks -/

def plainMarks : List String :=
  ["(", ")", "[", "]", "\x7b", "\x7d", ";", ",", "++"]

theorem Lexes.plainMark {m : String} (hm : m ∈ plainMarks) :
    Lexes (fun _ => true) m.toList [.mark m] := by
  have hread : ∀ m ∈ plainMarks, m.toList ≠ [] ∧ ∀ rest : List Char,
      (∀ n b, skip .code (m.toList ++ rest) n b none = some ⟨m.toList ++ rest, n, b, none⟩) ∧
        token? (m.toList ++ rest) = some ⟨.mark m, rest, m.length⟩ := by
    simp only [plainMarks, List.forall_mem_cons]
    and_intros <;> first | decide | exact fun _ => ⟨fun _ _ => rfl, rfl⟩ | nofun
  obtain ⟨hne, hrest⟩ := hread m hm
  exact .ofToken hne (fun rest n b _ => (hrest rest).1 n b) fun rest _ => ⟨_, (hrest rest).2⟩

def spacedMarks : List String :=
  ["===", "!==", "=>", "==", "!=", "<=", ">=", "&&", "||", "+=", "-=", "*=", "/=", "%=", "**", "<",
    ">", "+", "-", "*", "/", "%", "?", ":", "="]

def isBlank (c : Char) : Bool :=
  c == ' '

theorem eq_nil_or_blank (h : StartsWith isBlank rest) : rest = [] ∨ ∃ ds, rest = ' ' :: ds := by
  cases rest with
  | nil => exact .inl rfl
  | cons c ds => exact .inr ⟨ds, by simpa [isBlank] using h⟩

theorem Lexes.spacedMark {m : String} (hm : m ∈ spacedMarks) :
    Lexes isBlank m.toList [.mark m] := by
  have hread : ∀ m ∈ spacedMarks, m.toList ≠ [] ∧ ∀ rest : List Char,
      (rest = [] ∨ ∃ ds, rest = ' ' :: ds) →
      (∀ n b, skip .code (m.toList ++ rest) n b none = some ⟨m.toList ++ rest, n, b, none⟩) ∧
        token? (m.toList ++ rest) = some ⟨.mark m, rest, m.length⟩ := by
    simp only [spacedMarks, List.forall_mem_cons]
    and_intros <;> first
      | decide
      | (rintro rest (rfl | ⟨ds, rfl⟩) <;> exact ⟨fun _ _ => rfl, rfl⟩)
  obtain ⟨hne, hrest⟩ := hread m hm
  exact .ofToken hne (fun rest n b h => (hrest rest (eq_nil_or_blank h)).1 n b)
    fun rest h => ⟨_, (hrest rest (eq_nil_or_blank h)).2⟩

theorem Lexes.not : Lexes (· != '=') ['!'] [.mark "!"] := by
  refine .ofSolid (by decide) fun rest hrest => ⟨1, ?_⟩
  rw [List.singleton_append]
  have htoken : token? ('!' :: rest) = mark? ('!' :: rest) := rfl
  cases rest with
  | nil => rfl
  | cons c ds =>
    have hc : c ≠ '=' := by simpa using hrest
    simp [htoken, mark?, spelledMarks, marks, List.isPrefixOf, hc.symm]

theorem Lexes.plus : Lexes (fun c => c != '=' && c != '+') ['+'] [.mark "+"] := by
  refine .ofSolid (by decide) fun rest hrest => ⟨1, ?_⟩
  rw [List.singleton_append]
  have htoken : token? ('+' :: rest) = mark? ('+' :: rest) := rfl
  cases rest with
  | nil => rfl
  | cons c ds =>
    have hc : c ≠ '=' ∧ c ≠ '+' := by simpa using hrest
    have hplus : ('+' == c) = false := beq_eq_false_iff_ne.2 hc.2.symm
    simp [htoken, mark?, spelledMarks, marks, List.isPrefixOf, hc.1.symm, hplus]

theorem Lexes.minus : Lexes (fun c => c != '=' && c != '-') ['-'] [.mark "-"] := by
  refine .ofToken (by decide) (fun rest n b hrest => ?_) fun rest hrest => ⟨1, ?_⟩
  all_goals rw [List.singleton_append]
  · cases rest with
    | nil => rfl
    | cons c ds =>
      have hc : c ≠ '=' ∧ c ≠ '-' := by simpa using hrest
      simp [skip, isLineEnd, isSpace, hc.2]
  · have htoken : token? ('-' :: rest) = mark? ('-' :: rest) := rfl
    cases rest with
    | nil => rfl
    | cons c ds =>
      have hc : c ≠ '=' ∧ c ≠ '-' := by simpa using hrest
      have hminus : ('-' == c) = false := beq_eq_false_iff_ne.2 hc.2.symm
      simp [htoken, mark?, spelledMarks, marks, List.isPrefixOf, hc.1.symm, hminus]

theorem Lexes.decrement : Lexes (· != '>') ['-', '-'] [.mark "--"] := by
  refine .ofToken (by decide) (fun rest n b hrest => ?_) fun rest hrest => ⟨2, rfl⟩
  cases rest with
  | nil => rfl
  | cons c ds =>
    have hc : c ≠ '>' := by simpa using hrest
    simp [skip, isLineEnd, isSpace, hc]

theorem isDigit_of_isNameStart {c : Char} (h : isNameStart c = true) : c.isDigit = false := by
  have halpha : c.isAlpha = (decide ('A'.val ≤ c.val ∧ c.val ≤ 'Z'.val) ||
    decide ('a'.val ≤ c.val) && decide (c.val ≤ 'z'.val)) := rfl
  simp only [isNameStart, halpha, Char.isDigit, Bool.or_eq_true, Bool.and_eq_true,
    decide_eq_true_eq, beq_iff_eq, Char.toNat, UInt32.le_iff_toNat_le, Bool.and_eq_false_iff,
    decide_eq_false_iff_not] at h ⊢
  rcases h with (((h | h) | rfl) | rfl) | ⟨h, -⟩
  · have h1 := h.1
    simp at h1 ⊢
    omega
  · have h1 := h.1
    simp at h1 ⊢
    omega
  · decide
  · decide
  · simp at h ⊢
    omega

theorem Lexes.point : Lexes isNameStart ['.'] [.mark "."] := by
  refine .ofSolid (by decide) fun rest hrest => ⟨1, ?_⟩
  rw [List.singleton_append]
  cases rest with
  | nil => rfl
  | cons c ds =>
    have hc : isNameStart c = true := by simpa using hrest
    have hpoint : ('.' == c) = false := by
      cases hpoint : '.' == c with
      | false => rfl
      | true =>
        rw [← eq_of_beq hpoint] at hc
        exact absurd hc (by decide)
    have htoken : token? ('.' :: c :: ds) = mark? ('.' :: c :: ds) := by
      simp [token?, isNameStart, isDigit_of_isNameStart hc]
    simp [htoken, mark?, spelledMarks, marks, List.isPrefixOf, hpoint]

end Source

end Waveform
