import Mathlib.Algebra.Order.Field.Rat
import Mathlib.Data.List.Induction
import Mathlib.Data.List.TakeWhile
import Mathlib.Tactic.FieldSimp
import Mathlib.Tactic.IntervalCases
import Mathlib.Tactic.Ring
import Waveform.Proofs.Number.Exact
import Waveform.Source.Character
import Waveform.Syntax.Literal

/-!
# Numbers that are written in a text

The number that a text counts as in arithmetic, by the grammar that the language of programs has
for it: a text without blanks at its ends is empty, a signed decimal, a signed `Infinity` or a whole
number in another base, and any other text is not a number. `numeralOfTrimmed` knows all of these
but the numbers in other bases (`numeralOfTrimmed_denotes`, `numeralOfTrimmed_based`).
-/

namespace Waveform

def Decimal.magnitude (d : Decimal) : ℚ :=
  d.mantissa * 10 ^ d.exponent

namespace Written

/-- A row of digits, which may be empty, and its value. -/
inductive Digits (base : Nat) : List Char → Nat → Prop
  | nil : Digits base [] 0
  | snoc {cs c n v} : Digits base cs n → Source.digitValue? base c = some v →
    Digits base (cs ++ [c]) (base * n + v)

inductive Exponent : List Char → Int → Prop
  | absent : Exponent [] 0
  | unsigned {c ds n} : c = 'e' ∨ c = 'E' → ds ≠ [] → Digits 10 ds n → Exponent (c :: ds) n
  | plus {c ds n} : c = 'e' ∨ c = 'E' → ds ≠ [] → Digits 10 ds n → Exponent (c :: '+' :: ds) n
  | minus {c ds n} : c = 'e' ∨ c = 'E' → ds ≠ [] → Digits 10 ds n →
    Exponent (c :: '-' :: ds) (-n)

/-- A decimal without a sign: digits, which may have a point before, behind or among them, and an
exponent. -/
inductive Unsigned : List Char → ℚ → Prop
  | whole {ds tail n e} : ds ≠ [] → Digits 10 ds n → Exponent tail e →
    Unsigned (ds ++ tail) (n * 10 ^ e)
  | point {ds fs tail n m e} : ds ≠ [] ∨ fs ≠ [] → Digits 10 ds n → Digits 10 fs m →
    Exponent tail e → Unsigned (ds ++ '.' :: (fs ++ tail)) ((n + m / 10 ^ fs.length) * 10 ^ e)

inductive Sign : List Char → Bool → Prop
  | none : Sign [] false
  | plus : Sign ['+'] false
  | minus : Sign ['-'] true

/-- A whole number in another base, which has no sign. -/
inductive Based : List Char → Nat → Prop
  | intro {letter base ds n} :
    (letter, base) ∈ [('x', 16), ('X', 16), ('o', 8), ('O', 8), ('b', 2), ('B', 2)] →
    ds ≠ [] → Digits base ds n → Based ('0' :: letter :: ds) n

/-- A finite number, with its sign and its magnitude. -/
inductive Finite : List Char → Bool → ℚ → Prop
  | empty : Finite [] false 0
  | decimal {sign negative cs q} : Sign sign negative → Unsigned cs q →
    Finite (sign ++ cs) negative q
  | based {cs n} : Based cs n → Finite cs false n

inductive Infinite : List Char → Bool → Prop
  | intro {sign negative} : Sign sign negative → Infinite (sign ++ "Infinity".toList) negative

def Denotes (cs : List Char) : Numeral → Prop
  | .finite d => Finite cs d.negative d.magnitude
  | .infinite negative => Infinite cs negative
  | .notANumber => (∀ negative q, ¬ Finite cs negative q) ∧ ∀ negative, ¬ Infinite cs negative

def Same : Numeral → Numeral → Prop
  | .finite d, .finite d' => d.negative = d'.negative ∧ d.magnitude = d'.magnitude
  | .infinite negative, .infinite negative' => negative = negative'
  | .notANumber, .notANumber => True
  | _, _ => False

/-! ## Digits -/

def decimalDigits : List Char :=
  ['0', '1', '2', '3', '4', '5', '6', '7', '8', '9']

theorem isDigit_iff_mem {c : Char} : c.isDigit = true ↔ c ∈ decimalDigits := by
  constructor
  · intro h
    have hrange : 48 ≤ c.toNat ∧ c.toNat ≤ 57 := by
      simpa [Char.isDigit, UInt32.le_iff_toNat_le] using h
    obtain ⟨hlow, hhigh⟩ := hrange
    rw [← Char.ofNat_toNat c]
    generalize c.toNat = n at hlow hhigh ⊢
    interval_cases n <;> decide
  · intro h
    exact List.all_eq_true.1 (by decide : decimalDigits.all Char.isDigit = true) c h

theorem ten_le_hexValue? {c : Char} {v : Nat} (hdigit : c.isDigit = false)
    (hv : Source.hexValue? c = some v) : 10 ≤ v := by
  have hlow {a b : Char} (h : (a ≤ c && c ≤ b) = true) : a.toNat ≤ c.toNat :=
    UInt32.le_iff_toNat_le.1 (of_decide_eq_true (Bool.and_eq_true_iff.1 h).1)
  rw [Source.hexValue?, if_neg (Bool.eq_false_iff.1 hdigit)] at hv
  split at hv
  · next h =>
    cases hv
    exact Nat.le_sub_of_add_le (hlow h)
  · split at hv
    · next h =>
      cases hv
      exact Nat.le_sub_of_add_le (hlow h)
    · cases hv

theorem digitValue?_ten {c : Char} {v : Nat} :
    Source.digitValue? 10 c = some v ↔ c.isDigit = true ∧ c.toNat - '0'.toNat = v := by
  cases hdigit : c.isDigit with
  | true =>
    have hvalues : decimalDigits.all
        (fun c => Source.digitValue? 10 c == some (c.toNat - '0'.toNat)) = true := by decide
    have hvalue : Source.digitValue? 10 c = some (c.toNat - '0'.toNat) :=
      eq_of_beq (List.all_eq_true.1 hvalues c (isDigit_iff_mem.1 hdigit))
    rw [hvalue, Option.some.injEq, and_iff_right rfl]
  | false =>
    rw [Source.digitValue?]
    cases hvalue : Source.hexValue? c with
    | none => simp
    | some w => simp [Option.filter, Nat.not_lt.2 (ten_le_hexValue? hdigit hvalue)]

theorem digitsValue_concat (cs : List Char) (c : Char) :
    Decimal.digitsValue (cs ++ [c]) = 10 * Decimal.digitsValue cs + (c.toNat - '0'.toNat) := by
  rw [Decimal.digitsValue, List.foldl_append]
  rfl

theorem digits_ten {cs : List Char} {n : Nat} :
    Digits 10 cs n ↔ (∀ c ∈ cs, c.isDigit = true) ∧ Decimal.digitsValue cs = n := by
  constructor
  · intro h
    induction h with
    | nil => exact ⟨nofun, rfl⟩
    | @snoc cs c n v _ hc ih =>
      obtain ⟨hall, rfl⟩ := ih
      obtain ⟨hdigit, rfl⟩ := digitValue?_ten.1 hc
      exact ⟨List.forall_mem_append.2 ⟨hall, List.forall_mem_singleton.2 hdigit⟩,
        digitsValue_concat cs c⟩
  · rintro ⟨hall, rfl⟩
    induction cs using List.reverseRecOn with
    | nil => exact .nil
    | append_singleton cs c ih =>
      obtain ⟨hcs, hc⟩ := List.forall_mem_append.1 hall
      rw [digitsValue_concat]
      exact .snoc (ih hcs) (digitValue?_ten.2 ⟨hc c (List.mem_singleton_self c), rfl⟩)

theorem digitsValue_append (cs ds : List Char) :
    Decimal.digitsValue (cs ++ ds) =
      Decimal.digitsValue cs * 10 ^ ds.length + Decimal.digitsValue ds := by
  induction ds using List.reverseRecOn with
  | nil => simp [Decimal.digitsValue]
  | append_singleton ds c ih =>
    rw [← List.append_assoc, digitsValue_concat, digitsValue_concat, ih, List.length_append,
      List.length_singleton]
    ring

theorem digits?_iff {cs : List Char} {n : Nat} :
    Decimal.digits? cs = some n ↔ cs ≠ [] ∧ Digits 10 cs n := by
  rw [Decimal.digits?, digits_ten]
  by_cases hcs : cs = []
  · simp [hcs]
  · by_cases hall : ∀ c ∈ cs, c.isDigit = true
    · have hany : cs.any (! ·.isDigit) = false := by simpa using hall
      rw [if_neg (by simp [hcs, hany]), and_iff_right hcs, and_iff_right hall, Option.some.injEq]
    · have hany : cs.any (! ·.isDigit) = true := by simpa using hall
      rw [if_pos (by simp [hany])]
      simp [hall]

/-! ## Exponents -/

section

variable {c : Char} (hc : c = 'e' ∨ c = 'E')

include hc

theorem exponent?_minus (ds : List Char) :
    Decimal.exponent? (c :: '-' :: ds) = (Decimal.digits? ds).map fun n : Nat => -(n : Int) := by
  rw [Decimal.exponent?, if_pos (by simpa using hc)]
  cases Decimal.digits? ds <;> rfl

theorem exponent?_plus (ds : List Char) :
    Decimal.exponent? (c :: '+' :: ds) = (Decimal.digits? ds).map Int.ofNat := by
  rw [Decimal.exponent?, if_pos (by simpa using hc)]

theorem exponent?_unsigned {ds : List Char} (hminus : ∀ rest, ds ≠ '-' :: rest)
    (hplus : ∀ rest, ds ≠ '+' :: rest) :
    Decimal.exponent? (c :: ds) = (Decimal.digits? ds).map Int.ofNat := by
  rw [Decimal.exponent?, if_pos (by simpa using hc)]
  · exact hminus
  · exact hplus

end

theorem exponent?_iff {cs : List Char} {e : Int} :
    Decimal.exponent? cs = some e ↔ Exponent cs e := by
  constructor
  · intro h
    fun_cases Decimal.exponent? cs with
    | case1 =>
      cases h
      exact .absent
    | case2 c hletter ds =>
      have hc : c = 'e' ∨ c = 'E' := by simpa using hletter
      rw [exponent?_minus hc] at h
      obtain ⟨n, hn, rfl⟩ := Option.map_eq_some_iff.1 h
      exact .minus hc (digits?_iff.1 hn).1 (digits?_iff.1 hn).2
    | case3 c hletter ds =>
      have hc : c = 'e' ∨ c = 'E' := by simpa using hletter
      rw [exponent?_plus hc] at h
      obtain ⟨n, hn, rfl⟩ := Option.map_eq_some_iff.1 h
      exact .plus hc (digits?_iff.1 hn).1 (digits?_iff.1 hn).2
    | case4 c hletter ds hminus hplus =>
      have hc : c = 'e' ∨ c = 'E' := by simpa using hletter
      rw [exponent?_unsigned hc hminus hplus] at h
      obtain ⟨n, hn, rfl⟩ := Option.map_eq_some_iff.1 h
      exact .unsigned hc (digits?_iff.1 hn).1 (digits?_iff.1 hn).2
    | case5 c cs hletter =>
      unfold Decimal.exponent? at h
      rw [if_neg hletter] at h
      cases h
  · intro h
    cases h with
    | absent => rfl
    | plus hc hds hdigits => rw [exponent?_plus hc, digits?_iff.2 ⟨hds, hdigits⟩]; rfl
    | minus hc hds hdigits => rw [exponent?_minus hc, digits?_iff.2 ⟨hds, hdigits⟩]; rfl
    | unsigned hc hds hdigits =>
      have hall := (digits_ten.1 hdigits).1
      rw [exponent?_unsigned hc, digits?_iff.2 ⟨hds, hdigits⟩]
      · rfl
      · rintro rest rfl
        exact absurd (hall '-' (List.mem_cons_self ..)) (by decide)
      · rintro rest rfl
        exact absurd (hall '+' (List.mem_cons_self ..)) (by decide)

theorem Exponent.head {cs : List Char} {e : Int} (h : Exponent cs e) {c : Char}
    (hc : c ∈ cs.head?) : c = 'e' ∨ c = 'E' := by
  cases h with
  | absent => cases hc
  | unsigned he | plus he | minus he =>
    cases hc
    exact he

/-! ## Decimals -/

section

variable {negative : Bool} {ds fs tail : List Char}

theorem span_digits (hds : ∀ c ∈ ds, c.isDigit = true)
    (htail : ∀ c ∈ tail.head?, c.isDigit = false) :
    (ds ++ tail).takeWhile Char.isDigit = ds ∧ (ds ++ tail).dropWhile Char.isDigit = tail := by
  rw [List.takeWhile_append_of_pos hds, List.dropWhile_append_of_pos hds]
  cases tail with
  | nil => simp
  | cons c rest => simp [htail c rfl]

theorem unsigned?_whole (negative : Bool) (hds : ∀ c ∈ ds, c.isDigit = true)
    (htail : ∀ c ∈ tail.head?, c.isDigit = false) (hpoint : ∀ rest, tail ≠ '.' :: rest) :
    Decimal.unsigned? negative (ds ++ tail) =
      if ds.isEmpty then none
      else (Decimal.exponent? tail).map fun e => ⟨negative, Decimal.digitsValue ds, e⟩ := by
  obtain ⟨htake, hdrop⟩ := span_digits hds htail
  rw [Decimal.unsigned?, htake, hdrop]
  split
  · next fraction rest hsplit =>
    split at hsplit
    · next rest => exact absurd rfl (hpoint rest)
    · cases hsplit
      simp

theorem unsigned?_point (negative : Bool) (hds : ∀ c ∈ ds, c.isDigit = true)
    (hfs : ∀ c ∈ fs, c.isDigit = true) (htail : ∀ c ∈ tail.head?, c.isDigit = false) :
    Decimal.unsigned? negative (ds ++ '.' :: (fs ++ tail)) =
      if ds.isEmpty && fs.isEmpty then none
      else (Decimal.exponent? tail).map fun e =>
        ⟨negative, Decimal.digitsValue (ds ++ fs), e - fs.length⟩ := by
  have hpoint : ∀ c ∈ ('.' :: (fs ++ tail)).head?, c.isDigit = false := by simp
  obtain ⟨htake, hdrop⟩ := span_digits hds hpoint
  obtain ⟨htake', hdrop'⟩ := span_digits hfs htail
  rw [Decimal.unsigned?, htake, hdrop]
  simp only [htake', hdrop']

/-- Every text is digits with a rest behind them, or with a point, more digits and a rest. -/
theorem exists_split (cs : List Char) :
    ∃ ds tail, (∀ c ∈ ds, c.isDigit = true) ∧ (∀ c ∈ tail.head?, c.isDigit = false) ∧
      ((cs = ds ++ tail ∧ ∀ rest, tail ≠ '.' :: rest) ∨
        ∃ fs, (∀ c ∈ fs, c.isDigit = true) ∧ cs = ds ++ '.' :: (fs ++ tail)) := by
  have hdigits (cs : List Char) : ∀ c ∈ cs.takeWhile Char.isDigit, c.isDigit = true :=
    fun _ => List.mem_takeWhile_imp
  have hrest (cs : List Char) : ∀ c ∈ (cs.dropWhile Char.isDigit).head?, c.isDigit = false := by
    intro c hc
    have hnot := List.head?_dropWhile_not Char.isDigit cs
    rw [Option.mem_def.1 hc] at hnot
    exact hnot
  have hcs := (List.takeWhile_append_dropWhile (p := Char.isDigit) (l := cs)).symm
  by_cases hpoint : ∃ rest, cs.dropWhile Char.isDigit = '.' :: rest
  · obtain ⟨rest, hpoint⟩ := hpoint
    refine ⟨_, rest.dropWhile Char.isDigit, hdigits cs, hrest rest,
      .inr ⟨_, hdigits rest, ?_⟩⟩
    rw [List.takeWhile_append_dropWhile, ← hpoint]
    exact hcs
  · exact ⟨_, _, hdigits cs, hrest cs, .inl ⟨hcs, not_exists.1 hpoint⟩⟩

theorem magnitude_point (negative : Bool) (ds fs : List Char) (e : Int) :
    (⟨negative, Decimal.digitsValue (ds ++ fs), e - fs.length⟩ : Decimal).magnitude =
      (Decimal.digitsValue ds + Decimal.digitsValue fs / 10 ^ fs.length) * 10 ^ e := by
  have hten : (10 : ℚ) ^ fs.length ≠ 0 := pow_ne_zero _ (by norm_num)
  rw [Decimal.magnitude, digitsValue_append, zpow_sub₀ (by norm_num), zpow_natCast]
  push_cast
  field_simp

/-- What the reader of decimals accepts is a decimal with the value that it reads. -/
theorem unsigned?_sound {cs : List Char} {d : Decimal}
    (h : Decimal.unsigned? negative cs = some d) :
    d.negative = negative ∧ Unsigned cs d.magnitude := by
  obtain ⟨ds, tail, hds, htail, ⟨rfl, hpoint⟩ | ⟨fs, hfs, rfl⟩⟩ := exists_split cs
  · rw [unsigned?_whole negative hds htail hpoint] at h
    split at h
    · cases h
    · next hsome =>
      obtain ⟨e, he, rfl⟩ := Option.map_eq_some_iff.1 h
      exact ⟨rfl, .whole (by simpa using hsome) (digits_ten.2 ⟨hds, rfl⟩) (exponent?_iff.1 he)⟩
  · rw [unsigned?_point negative hds hfs htail] at h
    split at h
    · cases h
    · next hsome =>
      obtain ⟨e, he, rfl⟩ := Option.map_eq_some_iff.1 h
      rw [magnitude_point]
      have hsome : ds ≠ [] ∨ fs ≠ [] := by
        simpa [Decidable.imp_iff_not_or] using hsome
      exact ⟨rfl, .point hsome (digits_ten.2 ⟨hds, rfl⟩) (digits_ten.2 ⟨hfs, rfl⟩)
        (exponent?_iff.1 he)⟩

theorem Exponent.head_isDigit {e : Int} (h : Exponent tail e) :
    ∀ c ∈ tail.head?, c.isDigit = false := by
  intro c hc
  obtain rfl | rfl := h.head hc <;> rfl

theorem Exponent.ne_point {e : Int} (h : Exponent tail e) (rest : List Char) :
    tail ≠ '.' :: rest := by
  rintro rfl
  obtain hc | hc := h.head rfl <;> revert hc <;> decide

/-- Every decimal is accepted by the reader, with its value. -/
theorem unsigned?_complete (negative : Bool) {cs : List Char} {q : ℚ} (h : Unsigned cs q) :
    ∃ d, Decimal.unsigned? negative cs = some d ∧ d.negative = negative ∧ d.magnitude = q := by
  cases h with
  | whole hsome hwhole htail =>
    obtain ⟨hds, rfl⟩ := digits_ten.1 hwhole
    rw [unsigned?_whole negative hds htail.head_isDigit htail.ne_point, if_neg (by simpa),
      exponent?_iff.2 htail]
    exact ⟨_, rfl, rfl, rfl⟩
  | point hsome hwhole hfraction htail =>
    obtain ⟨hds, rfl⟩ := digits_ten.1 hwhole
    obtain ⟨hfs, rfl⟩ := digits_ten.1 hfraction
    rw [unsigned?_point negative hds hfs htail.head_isDigit,
      if_neg (by simpa [Decidable.imp_iff_not_or] using hsome), exponent?_iff.2 htail]
    exact ⟨_, rfl, rfl, magnitude_point ..⟩

end

/-! ## Letters -/

def Unlettered (cs : List Char) : Prop :=
  ∀ c ∈ cs, c.isAlpha = true → c = 'e' ∨ c = 'E'

instance (cs : List Char) : Decidable (Unlettered cs) :=
  List.decidableBAll _ cs

theorem unlettered_cons {c : Char} {cs : List Char} :
    Unlettered (c :: cs) ↔ (c.isAlpha = true → c = 'e' ∨ c = 'E') ∧ Unlettered cs :=
  List.forall_mem_cons

theorem unlettered_append {cs ds : List Char} :
    Unlettered (cs ++ ds) ↔ Unlettered cs ∧ Unlettered ds :=
  List.forall_mem_append

theorem any_letter {cs : List Char} :
    (cs.any fun c => c.isAlpha && c != 'e' && c != 'E') = true ↔ ¬ Unlettered cs := by
  simp [Unlettered, and_assoc]

theorem Digits.unlettered {ds : List Char} {n : Nat} (h : Digits 10 ds n) : Unlettered ds := by
  intro c hc hletter
  have hdigit := isDigit_iff_mem.1 ((digits_ten.1 h).1 c hc)
  have hnone : decimalDigits.all (! ·.isAlpha) = true := by decide
  have hnot := List.all_eq_true.1 hnone c hdigit
  rw [hletter] at hnot
  cases hnot

theorem Exponent.unlettered {cs : List Char} {e : Int} (h : Exponent cs e) : Unlettered cs := by
  cases h with
  | absent => exact List.forall_mem_nil _
  | unsigned hc _ hds => exact unlettered_cons.2 ⟨fun _ => hc, hds.unlettered⟩
  | plus hc _ hds | minus hc _ hds =>
    exact unlettered_cons.2 ⟨fun _ => hc, unlettered_cons.2 ⟨by decide, hds.unlettered⟩⟩

theorem Unsigned.unlettered {cs : List Char} {q : ℚ} (h : Unsigned cs q) : Unlettered cs := by
  cases h with
  | whole _ hds htail => exact unlettered_append.2 ⟨hds.unlettered, htail.unlettered⟩
  | point _ hds hfs htail =>
    exact unlettered_append.2 ⟨hds.unlettered, unlettered_cons.2
      ⟨by decide, unlettered_append.2 ⟨hfs.unlettered, htail.unlettered⟩⟩⟩

theorem Based.not_unlettered {cs : List Char} {n : Nat} (h : Based cs n) : ¬ Unlettered cs := by
  obtain ⟨hbase, -, -⟩ := h
  intro hcs
  have hletter := (unlettered_cons.1 (unlettered_cons.1 hcs).2).1
  simp only [List.mem_cons, Prod.mk.injEq, List.not_mem_nil, or_false] at hbase
  obtain ⟨rfl, -⟩ | ⟨rfl, -⟩ | ⟨rfl, -⟩ | ⟨rfl, -⟩ | ⟨rfl, -⟩ | ⟨rfl, -⟩ := hbase <;>
    exact absurd hletter (by decide)

theorem Infinite.not_unlettered {cs : List Char} {negative : Bool} (h : Infinite cs negative) :
    ¬ Unlettered cs := by
  obtain ⟨hsign⟩ := h
  cases hsign <;> decide

theorem Sign.unlettered {cs : List Char} {negative : Bool} (h : Sign cs negative) :
    Unlettered cs := by
  cases h <;> decide

theorem Finite.unlettered {cs : List Char} {negative : Bool} {q : ℚ}
    (h : Finite cs negative q) (hbased : ∀ n, ¬ Based cs n) : Unlettered cs := by
  cases h with
  | empty => exact List.forall_mem_nil _
  | decimal hsign hdecimal =>
    exact unlettered_append.2 ⟨hsign.unlettered, hdecimal.unlettered⟩
  | based h => exact absurd h (hbased _)

/-! ## Signs -/

theorem toLower_ne_n {c : Char} (h : c.isAlpha = true → c = 'e' ∨ c = 'E') : c.toLower ≠ 'n' := by
  intro hlower
  cases halpha : c.isAlpha with
  | true => obtain rfl | rfl := h halpha <;> revert hlower <;> decide
  | false =>
    have hupper : c.isUpper = false := (Bool.or_eq_false_iff.1 halpha).1
    have hsame : c.toLower = c := dif_neg (of_decide_eq_false hupper)
    rw [hsame.symm.trans hlower] at halpha
    cases halpha

theorem unsigned?_of_unlettered {cs : List Char} (h : Unlettered cs) (negative : Bool) :
    Numeral.unsigned? negative cs = (Decimal.unsigned? negative cs).map .finite := by
  -- each of the words has an n
  have hword {word : String} (hn : 'n' ∈ word.toList) : cs.map Char.toLower ≠ word.toList := by
    intro hcs
    rw [← hcs, List.mem_map] at hn
    obtain ⟨c, hc, hlower⟩ := hn
    exact toLower_ne_n (h c hc) hlower
  rw [Numeral.unsigned?]
  simp only [hword (by decide : 'n' ∈ "inf".toList), hword (by decide : 'n' ∈ "infinity".toList),
    hword (by decide : 'n' ∈ "nan".toList), decide_false, Bool.or_false, Bool.false_eq_true,
    if_false]

theorem unsigned?_eq_some {cs : List Char} {negative : Bool} {n : Numeral} (hcs : Unlettered cs)
    (h : Numeral.unsigned? negative cs = some n) :
    ∃ d, n = .finite d ∧ d.negative = negative ∧ Unsigned cs d.magnitude := by
  rw [unsigned?_of_unlettered hcs] at h
  obtain ⟨d, hd, rfl⟩ := Option.map_eq_some_iff.1 h
  exact ⟨d, rfl, unsigned?_sound hd⟩

theorem ofChars?_unsigned {cs : List Char} (hminus : ∀ rest, cs ≠ '-' :: rest)
    (hplus : ∀ rest, cs ≠ '+' :: rest) : Numeral.ofChars? cs = Numeral.unsigned? false cs := by
  rw [Numeral.ofChars?]
  · exact hminus
  · exact hplus

theorem ofChars?_sound {cs : List Char} {n : Numeral} (hcs : Unlettered cs)
    (h : Numeral.ofChars? cs = some n) :
    ∃ d, n = .finite d ∧ Finite cs d.negative d.magnitude := by
  fun_cases Numeral.ofChars? cs with
  | case1 cs =>
    obtain ⟨d, rfl, hnegative, hd⟩ := unsigned?_eq_some (unlettered_cons.1 hcs).2 h
    exact ⟨d, rfl, hnegative ▸ .decimal .minus hd⟩
  | case2 cs =>
    obtain ⟨d, rfl, hnegative, hd⟩ := unsigned?_eq_some (unlettered_cons.1 hcs).2 h
    exact ⟨d, rfl, hnegative ▸ .decimal .plus hd⟩
  | case3 _ hminus hplus =>
    rw [ofChars?_unsigned hminus hplus] at h
    obtain ⟨d, rfl, hnegative, hd⟩ := unsigned?_eq_some hcs h
    exact ⟨d, rfl, hnegative ▸ .decimal .none hd⟩

theorem Unsigned.ne_cons {cs : List Char} {q : ℚ} (h : Unsigned cs q) {c : Char}
    (hdigit : c.isDigit = false) (hpoint : c ≠ '.') (rest : List Char) : cs ≠ c :: rest := by
  intro hcs
  have hhead {d : Char} {ds : List Char} {n : Nat} (hds : Digits 10 (d :: ds) n) : d ≠ c := by
    rintro rfl
    exact Bool.false_ne_true (hdigit.symm.trans ((digits_ten.1 hds).1 d (List.mem_cons_self ..)))
  cases h with
  | @whole ds tail n e hsome hds =>
    cases ds with
    | nil => exact hsome rfl
    | cons d ds => exact hhead hds (List.cons.inj hcs).1
  | @point ds fs tail n m e _ hds =>
    cases ds with
    | nil => exact hpoint (List.cons.inj hcs).1.symm
    | cons d ds => exact hhead hds (List.cons.inj hcs).1

theorem ofChars?_complete {sign cs : List Char} {negative : Bool} {q : ℚ}
    (hsign : Sign sign negative) (h : Unsigned cs q) :
    ∃ d, Numeral.ofChars? (sign ++ cs) = some (.finite d) ∧ d.negative = negative ∧
      d.magnitude = q := by
  have hread : Numeral.ofChars? (sign ++ cs) = Numeral.unsigned? negative cs := by
    cases hsign with
    | plus | minus => rfl
    | none => exact ofChars?_unsigned (h.ne_cons rfl (by decide)) (h.ne_cons rfl (by decide))
  obtain ⟨d, hd, hvalue⟩ := unsigned?_complete negative h
  rw [hread, unsigned?_of_unlettered h.unlettered, hd]
  exact ⟨d, rfl, hvalue⟩

/-! ## Texts -/

section

variable {cs : List Char}

theorem numeralOfTrimmed_infinite {negative : Bool} (h : Infinite cs negative) :
    Literal.numeralOfTrimmed cs = .infinite negative := by
  obtain ⟨hsign⟩ := h
  cases hsign <;> rfl

/-- A text that is neither empty nor infinite is read as a decimal, if its letters allow it. -/
theorem numeralOfTrimmed_eq (hsome : cs ≠ []) (h : ∀ negative, ¬ Infinite cs negative) :
    Literal.numeralOfTrimmed cs =
      if Unlettered cs then (Numeral.ofChars? cs).getD .notANumber else .notANumber := by
  have hword {sign : List Char} {negative : Bool} (hsign : Sign sign negative) :
      cs ≠ sign ++ "Infinity".toList := by
    rintro rfl
    exact h negative ⟨hsign⟩
  have hunsigned : cs ≠ "Infinity".toList := hword .none
  have hplus : cs ≠ "+Infinity".toList := hword .plus
  have hminus : cs ≠ "-Infinity".toList := hword .minus
  rw [Literal.numeralOfTrimmed]
  -- the words stay closed, or `simp` compares them with the text letter by letter
  generalize "Infinity".toList = unsignedWord at hunsigned ⊢
  generalize "+Infinity".toList = plusWord at hplus ⊢
  generalize "-Infinity".toList = minusWord at hminus ⊢
  simp only [List.isEmpty_iff, hsome, hunsigned, hplus, hminus, decide_false, Bool.or_false,
    Bool.false_eq_true, if_false, any_letter, ite_not]

theorem numeralOfTrimmed_based {n : Nat} (h : Based cs n) :
    Literal.numeralOfTrimmed cs = .notANumber := by
  have hinfinite (negative : Bool) : ¬ Infinite cs negative := by
    rintro ⟨hsign⟩
    cases hsign <;> cases h
  have hsome : cs ≠ [] := by
    rintro rfl
    cases h
  rw [numeralOfTrimmed_eq hsome hinfinite, if_neg h.not_unlettered]

variable (hbased : ∀ n, ¬ Based cs n)

include hbased

theorem numeralOfTrimmed_finite {negative : Bool} {q : ℚ} (h : Finite cs negative q) :
    ∃ d, Literal.numeralOfTrimmed cs = .finite d ∧ d.negative = negative ∧ d.magnitude = q := by
  have hcs := h.unlettered hbased
  cases h with
  | empty => exact ⟨.ofNat 0, rfl, rfl, by simp [Decimal.magnitude, Decimal.ofNat]⟩
  | based h => exact absurd h (hbased _)
  | @decimal sign _ cs _ hsign hdecimal =>
    obtain ⟨d, hd, hvalue⟩ := ofChars?_complete hsign hdecimal
    have hsome : sign ++ cs ≠ [] := by
      intro hnil
      rw [hnil] at hd
      cases hd
    rw [numeralOfTrimmed_eq hsome fun _ h => h.not_unlettered hcs, if_pos hcs, hd]
    exact ⟨d, rfl, hvalue⟩

theorem numeralOfTrimmed_denotes : Denotes cs (Literal.numeralOfTrimmed cs) := by
  by_cases hinfinite : ∃ negative, Infinite cs negative
  · obtain ⟨negative, hinfinite⟩ := hinfinite
    rw [numeralOfTrimmed_infinite hinfinite]
    exact hinfinite
  rw [not_exists] at hinfinite
  by_cases hsome : cs = []
  · subst hsome
    have hzero : (Decimal.ofNat 0).magnitude = 0 := by simp [Decimal.magnitude, Decimal.ofNat]
    change Finite [] false (Decimal.ofNat 0).magnitude
    rw [hzero]
    exact .empty
  have hread := numeralOfTrimmed_eq hsome hinfinite
  by_cases hcs : Unlettered cs
  · rw [if_pos hcs] at hread
    cases hnumber : Numeral.ofChars? cs with
    | some n =>
      obtain ⟨d, rfl, hd⟩ := ofChars?_sound hcs hnumber
      rw [hread, hnumber]
      exact hd
    | none =>
      rw [hnumber] at hread
      rw [hread]
      refine ⟨fun negative q h => ?_, hinfinite⟩
      obtain ⟨d, hd, -⟩ := numeralOfTrimmed_finite hbased h
      rw [hread] at hd
      cases hd
  · rw [hread, if_neg hcs]
    exact ⟨fun _ _ h => hcs (h.unlettered hbased), hinfinite⟩

theorem Denotes.same {n : Numeral} (h : Denotes cs n) : Same n (Literal.numeralOfTrimmed cs) := by
  cases n with
  | finite d =>
    obtain ⟨d', hd', hnegative, hmagnitude⟩ := numeralOfTrimmed_finite hbased h
    rw [hd']
    exact ⟨hnegative.symm, hmagnitude.symm⟩
  | infinite negative =>
    rw [numeralOfTrimmed_infinite h]
    exact rfl
  | notANumber =>
    have hread := numeralOfTrimmed_denotes hbased
    cases hnumber : Literal.numeralOfTrimmed cs with
    | finite d => exact absurd (hnumber ▸ hread) (h.1 _ _)
    | infinite negative => exact absurd (hnumber ▸ hread) (h.2 _)
    | notANumber => trivial

end

/-! ## Blanks -/

/-- The blanks and the ends of lines of the language of programs. They have the byte order mark
among them, and the next line character not. -/
def isWhite (c : Char) : Bool :=
  let n := c.toNat
  (0x9 ≤ n && n ≤ 0xD) || n == 0x20 || n == 0xA0 || n == 0xFEFF || n == 0x1680 ||
    (0x2000 ≤ n && n ≤ 0x200A) || n == 0x2028 || n == 0x2029 || n == 0x202F ||
    n == 0x205F || n == 0x3000

def trimWhite (cs : List Char) : List Char :=
  ((cs.dropWhile isWhite).reverse.dropWhile isWhite).reverse

theorem isWhite_eq_isBlank {c : Char} (hline : c.toNat ≠ 0x85) (hmark : c.toNat ≠ 0xFEFF) :
    isWhite c = isBlank c := by
  rw [← beq_eq_false_iff_ne] at hline hmark
  simp only [isWhite, isBlank, hline, hmark, Bool.or_false]

theorem trimWhite_eq_trimBlanks {cs : List Char}
    (h : ∀ c ∈ cs, c.toNat ≠ 0x85 ∧ c.toNat ≠ 0xFEFF) : trimWhite cs = trimBlanks cs := by
  have hdrop (cs : List Char) (h : ∀ c ∈ cs, isWhite c = isBlank c) :
      cs.dropWhile isWhite = cs.dropWhile isBlank := by
    induction cs with
    | nil => rfl
    | cons c cs ih =>
      rw [List.forall_mem_cons] at h
      rw [List.dropWhile_cons, List.dropWhile_cons, h.1, ih h.2]
  have hwhite : ∀ c ∈ cs, isWhite c = isBlank c :=
    fun c hc => isWhite_eq_isBlank (h c hc).1 (h c hc).2
  rw [trimWhite, trimBlanks, hdrop cs hwhite, hdrop]
  intro c hc
  exact hwhite c ((List.dropWhile_sublist _).subset (List.mem_reverse.1 hc))

end Written

open Written

/-- A string counts as the number that its text stands for between its blanks, unless that is a
number in another base, or one of the two characters that not both kinds of blanks have is at an
end. -/
theorem Literal.toNumber_written {ν : Type} [Numeric ν] {s : String}
    (htrim : trimWhite s.toList = trimBlanks s.toList)
    (hbased : ∀ n, ¬ Based (trimWhite s.toList) n) :
    ∃ n, Denotes (trimWhite s.toList) n ∧ (∀ m, Denotes (trimWhite s.toList) m → Same m n) ∧
      (Literal.string s : Literal ν).toNumber = Numeric.ofNumeral n := by
  refine ⟨_, numeralOfTrimmed_denotes hbased, fun m h => h.same hbased, ?_⟩
  rw [htrim]
  rfl

/-- The text of twelve and a half is read between its blanks. -/
theorem halfText_written :
    trimWhite " 12.5 ".toList = trimBlanks " 12.5 ".toList ∧
      (∀ n, ¬ Based (trimWhite " 12.5 ".toList) n) ∧
      ∃ n, Denotes (trimWhite " 12.5 ".toList) n ∧
        (∀ m, Denotes (trimWhite " 12.5 ".toList) m → Same m n) ∧
        (Literal.string " 12.5 " : Literal (Exact .zero)).toNumber = Numeric.ofNumeral n := by
  have htrim : trimWhite " 12.5 ".toList = trimBlanks " 12.5 ".toList :=
    trimWhite_eq_trimBlanks (by simp)
  have hbased (n : Nat) : ¬ Based (trimWhite " 12.5 ".toList) n :=
    fun h => h.not_unlettered (by decide)
  exact ⟨htrim, hbased, Literal.toNumber_written htrim hbased⟩

/-- The text of sixteen in base sixteen counts as no number, though it stands for sixteen. -/
theorem hexText_notANumber :
    Denotes (trimWhite "0x10".toList) (.finite (.ofNat 16)) ∧
      (Literal.string "0x10" : Literal (Exact .zero)).toNumber = Numeric.nan ∧
      (Numeric.ofNumeral (.finite (.ofNat 16)) : Exact .zero) ≠ Numeric.nan := by
  have hone : Digits 16 ['1'] 1 := @Digits.snoc 16 [] '1' 0 1 .nil (by decide)
  have hdigits : Digits 16 ['1', '0'] 16 := @Digits.snoc 16 ['1'] '0' 1 0 hone (by decide)
  have hbased : Based "0x10".toList 16 := .intro (by decide) (by decide) hdigits
  have hmagnitude : (Decimal.ofNat 16).magnitude = (16 : ℕ) := by
    simp [Decimal.magnitude, Decimal.ofNat]
  refine ⟨?_, ?_, nofun⟩
  · change Finite "0x10".toList false (Decimal.ofNat 16).magnitude
    rw [hmagnitude]
    exact .based hbased
  · change Numeric.ofNumeral (Literal.numeralOfTrimmed "0x10".toList) = _
    rw [numeralOfTrimmed_based hbased]
    rfl

end Waveform
