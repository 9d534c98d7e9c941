import Waveform.Proofs.Evaluation.Effects
import Waveform.Proofs.Number.Decoding
import Waveform.Proofs.Number.Exact
import Waveform.Proofs.Simplification.Rewriting

/-!
# Shortened assignments

An assignment of a sum that starts with its target is written as `x += e`, and as `++x` where the
sum adds a one. The longer form reads the target before it evaluates `e` and the shorter one after,
and `++x` counts up what it reads as a number where a sum may join strings. Apart from these two
differences the forms do the same.
-/

namespace Waveform

/-- No other number equals one. -/
class Numeric.UniqueOne (ν : Type) [Numeric ν] : Prop where
  eq_one (x : ν) : Numeric.isOne x = true → x = Numeric.one

instance {M : Mathematics} : Numeric.UniqueOne (Exact M) where
  eq_one _ h := Exact.isOne_iff.1 h

namespace Double

open Float.Model

theorem eq_of_toBits {x y : Float} (h : x.toBits = y.toBits) : x = y := by
  obtain ⟨⟨a, ha⟩⟩ := x
  obtain ⟨⟨b, hb⟩⟩ := y
  obtain rfl : a = b := h
  rfl

theorem toBits_of_classify {x : Float} (h : classify x = .finite ⟨false, 2 ^ 52, -52⟩) :
    x.toBits.toNat = 0x3ff0000000000000 := by
  have hlt : x.toBits.toNat < 2 ^ 64 := x.toBits.toNat_lt
  have h52 : pow2 52 = 2 ^ 52 := rfl
  have h11 : pow2 11 = 2 ^ 11 := rfl
  have h63 : pow2 63 = 2 ^ 63 := rfl
  unfold classify at h
  simp only [h52, h11, h63, beq_iff_eq] at h
  split at h
  · split at h <;> cases h
  · split at h
    · injection h with h
      injection h with hsign hmantissa hexponent
      have := Nat.mod_lt x.toBits.toNat (Nat.two_pow_pos 52)
      omega
    · injection h with h
      injection h with hsign hmantissa hexponent
      rw [beq_eq_false_iff_ne] at hsign
      omega

theorem eq_one_of_isOne {x : Float} (h : Numeric.isOne x = true) : x = Numeric.one := by
  have hunpacks := unpacks x
  rw [isOne_eq] at h
  generalize hc : classify x = c at hunpacks
  generalize x.toModel.unpack = u at hunpacks h
  cases hunpacks with
  | notANumber => cases h
  | infinite negative | zero negative exponent => cases negative <;> cases h
  | finite negative mantissa exponent hpos hlt hnormal =>
    obtain ⟨hsign, rfl, rfl⟩ := (beq_one hpos).1 h
    cases negative with
    | true => cases hsign
    | false => exact eq_of_toBits (UInt64.toNat_inj.1 (toBits_of_classify hc))

instance : Numeric.UniqueOne Float where
  eq_one _ := eq_one_of_isOne

end Double

variable {ν : Type} [Numeric ν]

def Value.joins (v : Value ν) : Bool :=
  match v.toPrimitive with
  | .string _ => true
  | _ => false

theorem Value.add_number_iff (v : Value ν) (x : ν) :
    BinaryOperator.add.apply (.number v.toNumber) (.number x) =
        BinaryOperator.add.apply v (.number x) ↔ v.joins = false := by
  cases v with
  | primitive l => cases l <;> simp [joins, toPrimitive, toNumber, BinaryOperator.apply,
      BinaryOperator.evaluate, BinaryOperator.addLiterals, Value.number, Literal.toNumber]
  | pair | closure | builtin => simp [joins, toPrimitive, toNumber, BinaryOperator.apply,
      BinaryOperator.evaluate, BinaryOperator.addLiterals, Value.number]

namespace Simplify

/-- What the value adds to the target, where it is a sum that starts with the target. -/
def addend? (target : String) : Expression ν → Option (Expression ν)
  | .binary .add (.identifier name) right => if name == target then some right else none
  | _ => none

def isWrittenOne (e : Expression ν) : Bool :=
  (e.asNumber?.map Numeric.isOne).getD false

theorem eq_number_of_isWrittenOne {e : Expression ν} (h : isWrittenOne e = true) :
    ∃ x, Numeric.isOne x = true ∧ e = .number x := by
  unfold isWrittenOne at h
  cases hx : e.asNumber? with
  | none =>
    rw [hx] at h
    cases h
  | some x =>
    rw [hx] at h
    exact ⟨x, h, Expression.eq_number_of_asNumber? hx⟩

theorem assignment_eq (op : AssignmentOperator) (target : String) (value : Expression ν) :
    assignment op target value =
      match op, addend? target value with
      | .assign, some addend =>
        if isWrittenOne addend then .update .increment true target
        else .assignment .addAssign target addend
      | _, _ => .assignment op target value := by
  unfold assignment
  split
  · next name right =>
    rw [addend?]
    split <;> rfl
  · next hne =>
    split
    · next addend haddend =>
      unfold addend? at haddend
      split at haddend
      · exact absurd rfl (hne _ _ rfl)
      · cases haddend
    · rfl

omit [Numeric ν] in
theorem eq_sum_of_addend? {target : String} {value addend : Expression ν}
    (h : addend? target value = some addend) :
    value = .binary .add (.identifier target) addend := by
  unfold addend? at h
  split at h
  · next name right =>
    obtain ⟨hname, ⟨⟩⟩ := Option.ite_none_right_eq_some.1 h
    rw [beq_iff_eq.1 hname]
  · cases h

end Simplify

namespace Expression

variable {call : Caller ν} {env : Environment} {s s' t : Store ν} {target : String}
  {op : AssignmentOperator} {value addend : Expression ν} {v : Value ν}

/-- The run of an assignment: the value first, then the target if the operator takes it, and the
write last. -/
theorem assignment_ok :
    ((assignment op target value).evaluate call env).outcome s = (.ok v, s') ↔
      ∃ w t i, (value.evaluate call env).outcome s = (.ok w, t) ∧
        (match op.binaryOperator? with
          | some o => ∃ current, t.lookup? target env = some current ∧ v = o.apply current w
          | none => v = w) ∧
        t.owner? target env = some i ∧ s' = t.bind i target v := by
  have hwrite {w : Value ν} {t : Store ν} :
      (do Run.assign env target w; return w : Run ν (Value ν)).outcome t = (.ok v, s') ↔
        ∃ i, v = w ∧ t.owner? target env = some i ∧ s' = t.bind i target v := by
    rw [Run.bind_ok]
    constructor
    · rintro ⟨_, t', hassign, hr⟩
      obtain ⟨i, hi, rfl⟩ := Run.assign_ok.1 hassign
      cases hr
      exact ⟨i, rfl, hi, rfl⟩
    · rintro ⟨i, rfl, hi, rfl⟩
      exact ⟨(), _, Run.outcome_assign_of_owner hi v, rfl⟩
  rw [evaluate, Run.bind_ok]
  cases op.binaryOperator? with
  | none =>
    constructor
    · rintro ⟨w, t, hw, hrest⟩
      obtain ⟨i, rfl, hi, hs'⟩ := hwrite (w := w).1 hrest
      exact ⟨v, t, i, hw, rfl, hi, hs'⟩
    · rintro ⟨w, t, i, hw, rfl, hi, hs'⟩
      exact ⟨v, t, hw, hwrite.2 ⟨i, rfl, hi, hs'⟩⟩
  | some o =>
    constructor
    · rintro ⟨w, t, hw, hrest⟩
      obtain ⟨current, t', hread, hassign⟩ := Run.bind_ok.1 hrest
      obtain ⟨hcurrent, rfl⟩ := Run.read_ok.1 hread
      obtain ⟨i, hv, hi, hs'⟩ := hwrite.1 hassign
      exact ⟨w, _, i, hw, ⟨current, hcurrent, hv⟩, hi, hs'⟩
    · rintro ⟨w, t, i, hw, ⟨current, hcurrent, hv⟩, hi, hs'⟩
      refine ⟨w, t, hw, Run.bind_ok.2 ⟨current, t, Run.outcome_read_of_lookup hcurrent, ?_⟩⟩
      exact hwrite.2 ⟨i, hv, hi, hs'⟩

/-- What `x = x + e` adds to `x` is what its shortest form adds: where `++x` takes the place of the
sum, `x` is added as a number, and otherwise `e` makes no difference to the sum that `x` is in. -/
def AddsAlike (call : Caller ν) (env : Environment) (target : String) (addend : Expression ν)
    (s : Store ν) : Prop :=
  ∀ current, s.lookup? target env = some current →
    if Simplify.isWrittenOne addend then current.joins = false
    else (addend.evaluate call env).After s fun w t => ∀ later, t.lookup? target env = some later →
      BinaryOperator.add.apply later w = BinaryOperator.add.apply current w

def ShortensAlike (call : Caller ν) (env : Environment) (op : AssignmentOperator)
    (target : String) (value : Expression ν) (s : Store ν) : Prop :=
  op = .assign → ∀ addend, Simplify.addend? target value = some addend →
    addend.AddsAlike call env target s

omit [Numeric ν] in
theorem exists_lookup?_of_owner? {i : Nat} (h : t.owner? target env = some i) :
    ∃ current, t.lookup? target env = some current := by
  obtain ⟨-, hlookup, hcontains⟩ := Store.owner?_eq_some_iff h
  rw [hlookup]
  exact Option.isSome_iff_exists.1 hcontains

/-- The expression writes the target where another run, which ends with the store, has written the
value, and does the same otherwise. It writes the same value exactly on the condition. -/
def Rewrites (call : Caller ν) (env : Environment) (target : String) (e : Expression ν)
    (s s' : Store ν) (v : Value ν) (same : Prop) : Prop :=
  ∃ (v' : Value ν) (t : Store ν) (i : Nat), s' = t.bind i target v ∧
    (e.evaluate call env).outcome s = (.ok v', t.bind i target v') ∧ (v' = v ↔ same)

theorem increment_rewrites [Numeric.UniqueOne ν] {x : ν} (hx : Numeric.isOne x = true)
    (h : ((assignment .assign target
      (.binary .add (.identifier target) (.number x))).evaluate call env).outcome s = (.ok v, s')) :
    (update .increment true target).Rewrites call env target s s' v
      ((number x).AddsAlike call env target s) := by
  obtain rfl := Numeric.UniqueOne.eq_one x hx
  obtain ⟨w, t, i, hw, rfl, hi, rfl⟩ := assignment_ok.1 h
  obtain ⟨current, t', hread, hsum⟩ := Run.bind_ok.1 hw
  obtain ⟨hcurrent, rfl⟩ := Run.read_ok.1 hread
  cases hsum
  have hone : Simplify.isWrittenOne (number (Numeric.one : ν)) = true := hx
  have hcounts : ((update .increment true target).evaluate call env).outcome t =
      (.ok (BinaryOperator.add.apply (.number current.toNumber) (.number Numeric.one)),
        t.bind i target
          (BinaryOperator.add.apply (.number current.toNumber) (.number Numeric.one))) := by
    refine Run.bind_ok.2 ⟨current, t, Run.outcome_read_of_lookup hcurrent, ?_⟩
    exact Run.bind_ok.2 ⟨(), _, Run.outcome_assign_of_owner hi _, rfl⟩
  refine ⟨_, t, i, rfl, hcounts, (current.add_number_iff Numeric.one).trans ?_⟩
  constructor
  · intro hjoins c hc
    obtain rfl := Option.some.inj (hc.symm.trans hcurrent)
    rwa [if_pos hone]
  · intro halike
    have hjoins := halike current hcurrent
    rwa [if_pos hone] at hjoins

/-- Adding to the target once the addend is evaluated against adding to what it was before. -/
theorem addAssign_rewrites (hnotOne : Simplify.isWrittenOne addend = false)
    (h : ((assignment .assign target
      (.binary .add (.identifier target) addend)).evaluate call env).outcome s = (.ok v, s')) :
    (assignment .addAssign target addend).Rewrites call env target s s' v
      (addend.AddsAlike call env target s) := by
  obtain ⟨w, t, i, hw, rfl, hi, rfl⟩ := assignment_ok.1 h
  obtain ⟨current, s₁, hread, hsum⟩ := Run.bind_ok.1 hw
  obtain ⟨hcurrent, rfl⟩ := Run.read_ok.1 hread
  obtain ⟨u, t', hu, happly⟩ := Run.bind_ok.1 hsum
  cases happly
  obtain ⟨later, hlater⟩ := exists_lookup?_of_owner? hi
  refine ⟨_, t, i, rfl, assignment_ok.2 ⟨u, t, i, hu, ⟨later, hlater, rfl⟩, hi, rfl⟩, ?_⟩
  constructor
  · intro hsame c hc
    obtain rfl := Option.some.inj (hc.symm.trans hcurrent)
    rw [hnotOne, if_neg Bool.false_ne_true]
    refine .of_outcome hu fun l hl => ?_
    obtain rfl := Option.some.inj (hl.symm.trans hlater)
    exact hsame
  · intro halike
    have hsum := halike current hcurrent
    rw [hnotOne, if_neg Bool.false_ne_true] at hsum
    exact hsum u t hu later hlater

/-- The simplified assignment evaluates whenever the assignment does and does the same, where it
writes the same value. It does that exactly where the assignment shortens alike. -/
theorem simplify_assignment_rewrites [Numeric.UniqueOne ν]
    (h : ((assignment op target value).evaluate call env).outcome s = (.ok v, s')) :
    (assignment op target value).simplify.Rewrites call env target s s' v
      (ShortensAlike call env op target value s) := by
  change (Simplify.assignment op target value).Rewrites call env target s s' v _
  rw [Simplify.assignment_eq]
  split
  · next addend haddend =>
    have halike : ShortensAlike call env .assign target value s ↔
        addend.AddsAlike call env target s := by
      rw [ShortensAlike, haddend]
      exact ⟨fun h => h rfl addend rfl, fun h _ _ heq => Option.some.inj heq ▸ h⟩
    rw [halike]
    rw [Simplify.eq_sum_of_addend? haddend] at h
    split
    · next hone =>
      obtain ⟨x, hx, rfl⟩ := Simplify.eq_number_of_isWrittenOne hone
      exact increment_rewrites hx h
    · next hnotOne => exact addAssign_rewrites (by simpa using hnotOne) h
  · next hplain =>
    obtain ⟨w, t, i, hw, hv, hi, rfl⟩ := assignment_ok.1 h
    refine ⟨v, t, i, rfl, h, iff_of_true rfl ?_⟩
    rintro rfl addend haddend
    exact absurd haddend (hplain addend rfl)

/-- Simplifying an assignment keeps its value and all bindings exactly where it shortens alike. -/
theorem evaluate_simplify_assignment [Numeric.UniqueOne ν]
    (h : ((assignment op target value).evaluate call env).outcome s = (.ok v, s')) :
    ((assignment op target value).simplify.evaluate call env).outcome s = (.ok v, s') ↔
      ShortensAlike call env op target value s := by
  obtain ⟨v', t, i, rfl, hsimplified, hsame⟩ := simplify_assignment_rewrites h
  rw [hsimplified, ← hsame]
  constructor
  · intro heq
    cases (Prod.mk.inj heq).1
    rfl
  · rintro rfl
    rfl

/-- An assignment adds alike if what it adds leaves the target alone, and if a one is added to
something that joins no strings. -/
theorem AddsAlike.of_lookup?
    (hone : Simplify.isWrittenOne addend = true →
      ∀ current, s.lookup? target env = some current → current.joins = false)
    (hlookup : (addend.evaluate call env).After s fun _ t =>
      t.lookup? target env = s.lookup? target env) :
    addend.AddsAlike call env target s := by
  intro current hcurrent
  split
  · next h => exact hone h current hcurrent
  · intro w t ht later hlater
    rw [hlookup w t ht, hcurrent] at hlater
    rw [Option.some.inj hlater]

end Expression

/-! ## Sums with their targets -/

/-- A store with one frame, in which `x` is a one and `s` a text. -/
def Store.counting : Store (Exact .zero) :=
  (Store.empty.extend []).2.bind 0 "x" (.number (.of 1)) |>.bind 0 "s" (.string "a")

def Caller.two : Caller (Exact .zero) :=
  fun _ _ => pure (.number (.of 2))

namespace Expression

def collecting : Expression (Exact .zero) :=
  .binary .add (.identifier "x") (.call (.builtin .random) [])

theorem evaluate_simplify_collecting :
    ((assignment .assign "x" collecting).evaluate .two [0]).outcome .counting =
        (.ok (.number (.of (1 + 2))), Store.counting.bind 0 "x" (.number (.of (1 + 2)))) ∧
      ShortensAlike .two [0] .assign "x" collecting .counting ∧
      (((assignment .assign "x" collecting).simplify.evaluate .two [0]).outcome .counting =
          (.ok (.number (.of (1 + 2))), Store.counting.bind 0 "x" (.number (.of (1 + 2)))) ↔
        ShortensAlike .two [0] .assign "x" collecting .counting) := by
  have hrun : ((assignment .assign "x" collecting).evaluate .two [0]).outcome .counting =
      (.ok (.number (.of (1 + 2))), Store.counting.bind 0 "x" (.number (.of (1 + 2)))) := rfl
  refine ⟨hrun, ?_, evaluate_simplify_assignment hrun⟩
  rintro - addend ⟨⟩
  refine .of_lookup? nofun fun w t ht => ?_
  cases ht
  rfl

def resetting : Expression (Exact .zero) :=
  .binary .add (.identifier "x") (.assignment .assign "x" (.number (.of 5)))

def numbering : Expression (Exact .zero) :=
  .binary .add (.identifier "s") (.number (.of 1))

/-- The shortest form of a sum reads what the addend has written, and counts up from a text. -/
theorem evaluate_simplify_resetting :
    ((assignment .assign "x" resetting).evaluate .two [0]).outcome .counting =
        (.ok (.number (.of (1 + 5))), Store.counting.bind 0 "x" (.number (.of 5)) |>.bind 0 "x"
          (.number (.of (1 + 5)))) ∧
      ((assignment .assign "x" resetting).simplify.evaluate .two [0]).outcome .counting =
        (.ok (.number (.of (5 + 5))), Store.counting.bind 0 "x" (.number (.of 5)) |>.bind 0 "x"
          (.number (.of (5 + 5)))) ∧
      ((assignment .assign "s" numbering).evaluate .two [0]).outcome .counting =
        (.ok (.string "a1"), Store.counting.bind 0 "s" (.string "a1")) ∧
      ((assignment .assign "s" numbering).simplify.evaluate .two [0]).outcome .counting =
        (.ok (.number Numeric.nan), Store.counting.bind 0 "s" (.number Numeric.nan)) :=
  ⟨rfl, rfl, rfl, rfl⟩

end Expression

end Waveform
