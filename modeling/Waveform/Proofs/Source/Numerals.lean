import Waveform.Proofs.Source.Spelling

/-!
# Numerals

A number that is a whole text is read from the start of a longer one as well, if a character follows
that ends it. There is one lemma for each part of a number, which says that the text behind does not
matter.
-/

namespace Waveform

namespace Source

/-- The character ends a number: none of the letters, digits and signs in numbers. -/
def isBreak (c : Char) : Bool :=
  [' ', '(', ')', '[', ']', ',', ';'].contains c

def Read.extend {α : Type} (r : Read α) (rest : List Char) : Read α :=
  { r with rest := r.rest ++ rest }

variable {rest : List Char}

theorem isBreak_cases {c : Char} (h : isBreak c = true) :
    c = ' ' ∨ c = '(' ∨ c = ')' ∨ c = '[' ∨ c = ']' ∨ c = ',' ∨ c = ';' := by
  simpa [isBreak] using h

theorem takeWhile_append_break {p : Char → Bool} (hp : ∀ c, isBreak c = true → p c = false)
    (hrest : StartsWith isBreak rest) (cs : List Char) :
    (cs ++ rest).takeWhile p = cs.takeWhile p := by
  induction cs with
  | nil =>
    cases rest with
    | nil => rfl
    | cons c cs =>
      have hc := hp c (hrest c rfl)
      simp [hc]
  | cons c cs ih =>
    simp only [List.cons_append, List.takeWhile_cons, ih]

theorem digitValue?_of_isBreak {base : Nat} {c : Char} (h : isBreak c = true) :
    ((digitValue? base c).isSome || c == '_') = false := by
  have hhex : hexValue? c = none ∧ (c == '_') = false := by
    rcases isBreak_cases h with rfl | rfl | rfl | rfl | rfl | rfl | rfl <;> decide
  simp [digitValue?, hhex]

theorem groupedDigits?_append (hrest : StartsWith isBreak rest) (base : Nat) (cs : List Char) :
    groupedDigits? base (cs ++ rest) = (groupedDigits? base cs).map (·.extend rest) := by
  have hrow := takeWhile_append_break
    (p := fun c => (digitValue? base c).isSome || c == '_')
    (fun c hc => digitValue?_of_isBreak hc) hrest cs
  have hlength : (cs.takeWhile fun c => (digitValue? base c).isSome || c == '_').length ≤
      cs.length :=
    (List.takeWhile_sublist _).length_le
  simp only [groupedDigits?, hrow, List.drop_append_of_le_length hlength]
  split <;> rfl


/-- The sign of an exponent, the text behind it, and how long the sign is. -/
def exponentSign (cs : List Char) : Bool × List Char × Nat :=
  match cs with
  | '-' :: ds => (true, ds, 1)
  | '+' :: ds => (false, ds, 1)
  | ds => (false, ds, 0)

theorem exponentSign_append (hrest : StartsWith isBreak rest) (cs : List Char) :
    exponentSign (cs ++ rest) =
      ((exponentSign cs).1, (exponentSign cs).2.1 ++ rest, (exponentSign cs).2.2) := by
  cases cs with
  | nil =>
    cases rest with
    | nil => rfl
    | cons c cs =>
      rcases isBreak_cases (hrest c rfl) with rfl | rfl | rfl | rfl | rfl | rfl | rfl <;> rfl
  | cons c cs =>
    simp only [List.cons_append, exponentSign]
    split <;> simp_all

theorem exponent?_cons (c : Char) (cs : List Char) : exponent? (c :: cs) =
    if c == 'e' || c == 'E' then
      (groupedDigits? 10 (exponentSign cs).2.1).bind fun r =>
        if r.value.isEmpty then none
        else some ⟨if (exponentSign cs).1 then -(Decimal.digitsValue r.value : Int)
          else Decimal.digitsValue r.value, r.rest, r.count + (exponentSign cs).2.2 + 1⟩
    else some ⟨0, c :: cs, 0⟩ := rfl

theorem exponent?_append (hrest : StartsWith isBreak rest) (cs : List Char) :
    exponent? (cs ++ rest) = (exponent? cs).map (·.extend rest) := by
  cases cs with
  | nil =>
    cases rest with
    | nil => rfl
    | cons c cs =>
      have hc : (c == 'e' || c == 'E') = false := by
        rcases isBreak_cases (hrest c rfl) with rfl | rfl | rfl | rfl | rfl | rfl | rfl <;> decide
      simp only [List.nil_append, exponent?, hc]
      rfl
  | cons c cs =>
    simp only [List.cons_append, exponent?_cons, exponentSign_append hrest,
      groupedDigits?_append hrest]
    by_cases hc : (c == 'e' || c == 'E') = true
    · simp only [hc, if_true]
      cases groupedDigits? 10 (exponentSign cs).2.1 with
      | none => rfl
      | some r =>
        simp only [Option.map_some, Option.bind_some, Read.extend]
        split <;> rfl
    · simp only [hc]
      rfl

def fraction? (cs : List Char) : Option (Read (List Char)) :=
  match cs with
  | '.' :: ds => (groupedDigits? 10 ds).map fun r => ⟨r.value, r.rest, r.count + 1⟩
  | ds => some ⟨[], ds, 0⟩

theorem fraction?_append (hrest : StartsWith isBreak rest) (cs : List Char) :
    fraction? (cs ++ rest) = (fraction? cs).map (·.extend rest) := by
  cases cs with
  | nil =>
    cases rest with
    | nil => rfl
    | cons c cs =>
      rcases isBreak_cases (hrest c rfl) with rfl | rfl | rfl | rfl | rfl | rfl | rfl <;> rfl
  | cons c cs =>
    by_cases hc : c = '.'
    · subst hc
      simp only [List.cons_append, fraction?, groupedDigits?_append hrest, Option.map_map]
      rfl
    · simp [fraction?, hc, Read.extend]

theorem fractional?_eq (whole : List Char) (count : Nat) (cs : List Char) :
    fractional? whole count cs = (fraction? cs).bind fun f => (exponent? f.rest).bind fun e =>
      if whole.isEmpty && f.value.isEmpty then none
      else some ⟨some ⟨false, Decimal.digitsValue (whole ++ f.value), e.value - f.value.length⟩,
        e.rest, count + f.count + e.count⟩ := rfl

theorem fractional?_append (hrest : StartsWith isBreak rest) (whole : List Char) (count : Nat)
    (cs : List Char) :
    fractional? whole count (cs ++ rest) = (fractional? whole count cs).map (·.extend rest) := by
  rw [fractional?_eq, fractional?_eq, fraction?_append hrest]
  cases fraction? cs with
  | none => rfl
  | some f =>
    simp only [Option.map_some, Option.bind_some, Read.extend, exponent?_append hrest]
    cases exponent? f.rest with
    | none => rfl
    | some e =>
      simp only [Option.map_some, Option.bind_some]
      split <;> rfl

/-- Whether a number is marked as a large one does not depend on the text behind it. -/
theorem large_or_plain (hrest : StartsWith isBreak rest) (cs : List Char) :
    (∃ ds, cs = 'n' :: ds) ∨ (∀ ds, cs ≠ 'n' :: ds) ∧ ∀ ds, cs ++ rest ≠ 'n' :: ds := by
  cases cs with
  | nil =>
    refine .inr ⟨nofun, fun ds hds => ?_⟩
    have hbreak := hrest 'n' (by rw [← List.nil_append rest, hds]; rfl)
    exact absurd hbreak (by decide)
  | cons c cs =>
    by_cases hc : c = 'n'
    · exact .inl ⟨cs, by rw [hc]⟩
    · exact .inr ⟨fun _ h => hc (List.cons.inj h).1, fun _ h => hc (List.cons.inj h).1⟩

theorem decimal?_append (hrest : StartsWith isBreak rest) {cs : List Char} (hcs : cs ≠ []) :
    decimal? (cs ++ rest) = (decimal? cs).map fun r => (r.1.extend rest, r.2) := by
  unfold decimal?
  rw [groupedDigits?_append hrest]
  cases groupedDigits? 10 cs with
  | none => rfl
  | some r =>
    have hhead : (cs ++ rest).head? = cs.head? := by
      cases cs with
      | nil => exact absurd rfl hcs
      | cons c cs => rfl
    simp only [Option.map_some, Option.bind_some, Read.extend, hhead]
    rcases large_or_plain hrest r.rest with ⟨ds, hlarge⟩ | ⟨hplain, hplain'⟩
    · simp only [hlarge, List.cons_append]
      split <;> rfl
    · split
      · next h => exact absurd h (hplain' _)
      · rw [fractional?_append hrest]
        split
        · rfl
        · simp only [Option.map_map]
          rfl

theorem inBase?_append (hrest : StartsWith isBreak rest) (base : Nat) (cs : List Char) :
    inBase? base (cs ++ rest) = (inBase? base cs).map (·.extend rest) := by
  unfold inBase?
  rw [groupedDigits?_append hrest]
  cases groupedDigits? base cs with
  | none => rfl
  | some r =>
    simp only [Option.map_some, Option.bind_some, Read.extend]
    split
    · rfl
    rcases large_or_plain hrest r.rest with ⟨ds, hlarge⟩ | ⟨hplain, hplain'⟩
    · simp only [hlarge, List.cons_append]
      rfl
    · split
      · next h => exact absurd h (hplain' _)
      · rfl

/-- The number at the start of a text, before it is known whether a name follows. -/
def numeral? (cs : List Char) : Option (Read (Option Decimal) × Bool) :=
  match cs with
  | '0' :: c :: ds =>
    if c == 'x' || c == 'X' then (inBase? 16 ds).map fun r => (r, false)
    else if c == 'o' || c == 'O' then (inBase? 8 ds).map fun r => (r, false)
    else if c == 'b' || c == 'B' then (inBase? 2 ds).map fun r => (r, false)
    else decimal? cs
  | cs => decimal? cs

theorem number?_eq (cs : List Char) : number? cs = (numeral? cs).bind fun (r, legacy) =>
    if r.value.isSome && r.rest.head?.any isNameStart then none
    else some ⟨numberToken r.value legacy, r.rest, r.count⟩ := rfl

theorem numeral?_append (hrest : StartsWith isBreak rest) {cs : List Char} (hcs : cs ≠ []) :
    numeral? (cs ++ rest) = (numeral? cs).map fun r => (r.1.extend rest, r.2) := by
  have hdecimal := decimal?_append hrest hcs
  rcases cs with _ | ⟨c, _ | ⟨d, ds⟩⟩
  · exact absurd rfl hcs
  · have hplain : numeral? [c] = decimal? [c] := by
      unfold numeral?
      split
      · next h => cases h
      · rfl
    rw [hplain, ← hdecimal]
    cases rest with
    | nil => exact hplain
    | cons d ds =>
      by_cases hc : c = '0'
      · subst hc
        rcases isBreak_cases (hrest d rfl) with rfl | rfl | rfl | rfl | rfl | rfl | rfl <;> rfl
      · simp [numeral?, hc]
  · by_cases hc : c = '0'
    · subst hc
      simp only [List.cons_append] at hdecimal ⊢
      simp only [numeral?, inBase?_append hrest, hdecimal]
      by_cases hx : (d == 'x' || d == 'X') = true
      · simp only [hx, if_true, Option.map_map]
        rfl
      by_cases ho : (d == 'o' || d == 'O') = true
      · simp only [if_neg hx, if_pos ho, Option.map_map]
        rfl
      by_cases hb : (d == 'b' || d == 'B') = true
      · simp only [if_neg hx, if_neg ho, if_pos hb, Option.map_map]
        rfl
      · simp only [hx, ho, hb]
        rfl
    · simpa [numeral?, hc] using hdecimal

theorem isNameStart_of_isBreak {c : Char} (h : isBreak c = true) : isNameStart c = false := by
  rcases isBreak_cases h with rfl | rfl | rfl | rfl | rfl | rfl | rfl <;> decide +kernel

theorem number?_append (hrest : StartsWith isBreak rest) {cs : List Char} {t : Token} {count : Nat}
    (hcs : cs ≠ []) (h : number? cs = some ⟨t, [], count⟩) :
    number? (cs ++ rest) = some ⟨t, rest, count⟩ := by
  rw [number?_eq] at h ⊢
  rw [numeral?_append hrest hcs]
  cases hnumeral : numeral? cs with
  | none =>
    rw [hnumeral] at h
    cases h
  | some r =>
    obtain ⟨r, legacy⟩ := r
    rw [hnumeral] at h
    simp only [Option.bind_some, Option.ite_none_left_eq_some, Option.some.injEq,
      Read.mk.injEq] at h
    obtain ⟨-, rfl, hend, rfl⟩ := h
    have hname : rest.head?.any isNameStart = false := by
      cases rest with
      | nil => rfl
      | cons c cs => exact isNameStart_of_isBreak (hrest c rfl)
    simp [Read.extend, hend, hname]


theorem string?_value {quote : Char} {fuel : Nat} {cs soFar : List Char} {legacy : Bool}
    {count : Nat}
    {r : Read Token} (h : string? quote fuel cs soFar legacy count = some r) :
    ∃ text legacy, r.value = .string text legacy := by
  induction fuel generalizing cs soFar legacy count with
  | zero => simp [string?] at h
  | succ fuel ih =>
    cases cs with
    | nil => simp [string?] at h
    | cons c cs =>
      rw [string?] at h
      split at h
      · cases h
        exact ⟨_, _, rfl⟩
      split at h
      · split at h
        · cases h
        · exact ih h
      split at h
      · cases h
      · exact ih h

theorem number?_of_token? {cs : List Char} {d : Decimal} {legacy : Bool} {count : Nat}
    (h : token? cs = some ⟨.number d legacy, rest, count⟩) :
    number? cs = some ⟨.number d legacy, rest, count⟩ ∧ ∃ c ds, cs = c :: ds ∧
      (c.isDigit = true ∨ c = '.' ∧ ds.head?.any Char.isDigit = true) := by
  cases cs with
  | nil => cases h
  | cons c ds =>
    rw [token?] at h
    split at h
    · cases hname : name? (c :: ds) with
      | none => simp [hname] at h
      | some r =>
        simp only [hname, Option.bind_some] at h
        split at h <;> cases h
    split at h
    · next hdigit => exact ⟨h, c, ds, rfl, .inl hdigit⟩
    split at h
    · next hpoint =>
      simp only [Bool.and_eq_true, beq_iff_eq] at hpoint
      exact ⟨h, c, ds, rfl, .inr hpoint⟩
    split at h
    · obtain ⟨_, _, hvalue⟩ := string?_value h
      cases hvalue
    · simp only [mark?, Option.map_eq_some_iff, Read.mk.injEq] at h
      obtain ⟨_, -, hvalue, -⟩ := h
      cases hvalue

theorem isSolid_of_isDigit {c : Char} (h : c.isDigit = true) : isSolid c = true :=
  isSolid_of_kind (by decide) h

theorem Lexes.number {text : String} {d : Decimal} {count : Nat}
    (h : token? text.toList = some ⟨.number d false, [], count⟩) :
    Lexes isBreak text.toList [.number d false] := by
  obtain ⟨hnumber, c, ds, hcs, hc⟩ := number?_of_token? h
  rw [hcs] at hnumber ⊢
  have hread : ∀ rest, StartsWith isBreak rest →
      number? (c :: (ds ++ rest)) = some ⟨.number d false, rest, count⟩ :=
    fun rest hrest => number?_append hrest (List.cons_ne_nil c ds) hnumber
  rcases hc with hdigit | ⟨rfl, hdigit⟩
  · have hname : isNameStart c = false := by
      cases hname : isNameStart c with
      | false => rfl
      | true => rw [isDigit_of_isNameStart hname] at hdigit; cases hdigit
    have hslash : c ≠ '\\' := by
      rintro rfl
      exact absurd hdigit (by decide)
    refine .ofSolid (isSolid_of_isDigit hdigit) fun rest hrest => ⟨count, ?_⟩
    simp [token?, hname, hslash, hdigit, hread rest hrest]
  · refine .ofSolid (by decide) fun rest hrest => ⟨count, ?_⟩
    cases ds with
    | nil => cases hdigit
    | cons e ds =>
      have he : e.isDigit = true := hdigit
      have hnumber := hread rest hrest
      rw [List.cons_append] at hnumber
      simp [token?, isNameStart, he, hnumber]

end Source

end Waveform
