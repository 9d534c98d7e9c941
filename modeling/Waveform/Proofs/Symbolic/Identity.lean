import Waveform.Proofs.Symbolic.HigherOrder

/-!
# Identity of pairs

The specializer keeps a pair as an array, which it copies to every use of the pair, and each copy is
evaluated to a pair of its own. As long as a run compares no pair with itself, whichever way it came
by the two, comparisons come to the same for the copies, and the expression that a function is
reduced to evaluates to what the function returns. A pair that is compared with itself is taken for
two.
-/

namespace Waveform

variable {M : Mathematics}

/-- In a typed run, the expression that a function of numbers is reduced to evaluates to what the
function returns, up to the identity of pairs and functions. Pairs may be compared there, but none
with itself. Besides, typed runs have no loops, test truth values only and choose between numbers
and truth values only. They make functions or take branches, but not both, and all their pairs are
made on the way. -/
theorem Function.distinct_residual_evaluates {f : Function (Exact M)}
    {options : SpecializationOptions} {path : String} {e : Expression (Exact M)} {args : List ℚ}
    {higherOrder : Prop} {patience i : Nat} {name : Option String}
    (hinline : f.residual path options = .ok e) (hargs : ∀ q ∈ args, 0 ≤ q)
    (hlength : f.params.length ≤ args.length) (hpatience : options.maxInlineDepth + 1 < patience)
    (hobeys : Run.callObeys (.typed higherOrder) none patience 0
      (.closure ⟨i, name, f, .global⟩) (Value.ofNumbers args) .initial) :
    ∃ v s w t,
      (Run.call none patience 0 (.closure ⟨i, name, f, .global⟩)
        (Value.ofNumbers args)).outcome .initial = (.ok v, s) ∧
      (Run.call none patience 0 (.closure ⟨i, name, ⟨f.params, [.result (some e)]⟩, .global⟩)
        (Value.ofNumbers args)).outcome .initial = (.ok w, t) ∧
      Meaning.ofValue w = Meaning.ofValue v := by
  obtain ⟨v, s, hrun, hdenote⟩ :=
    Function.residual_denotes hinline hargs hlength hpatience hobeys
  obtain ⟨patience, rfl⟩ : ∃ n, patience = n + 2 := ⟨patience - 2, by omega⟩
  have hlimit : (none : Option Nat).any (· ≤ 0) = false := rfl
  obtain ⟨w, t, hw, hsame⟩ :=
    Function.call_denoted hlength hdenote hlimit patience i name .global .initial
  exact ⟨v, s, w, t, hrun, hw, hsame⟩

/-- Asks whether a pair is an entry of another one, which holds a pair of the same entries. -/
def Function.comparing : Function (Exact .zero) :=
  ⟨["t"],
    [.declaration .constant "p" (some (.array [.identifier "t", .null])),
    .declaration .constant "q" (some (.array [.array [.identifier "t", .null], .null])),
    .result (some (.conditional (.binary .strictEqual (.identifier "p")
      (.member (.identifier "q") (.number Numeric.zero))) (.number Numeric.one)
        (.identifier "t")))]⟩

def Expression.compared : Expression (Exact .zero) :=
  .conditional (.binary .strictEqual (.array [.identifier "t", .null])
    (.array [.identifier "t", .null])) (.number Numeric.one) (.identifier "t")

theorem Function.comparing_obeys : Run.callObeys (.typed True) none 34 0
    (.closure ⟨0, none, .comparing, .global⟩) (Value.ofNumbers [7]) .initial := by
  refine fun _ => ⟨trivial, fun _ => trivial, .of_outcome rfl (.of_outcome rfl ?_)⟩
  refine .of_outcome rfl ⟨⟨trivial, .of_outcome rfl trivial⟩, .of_outcome rfl fun _ => ?_⟩
  refine ⟨⟨⟨trivial, .of_outcome rfl trivial⟩, .of_outcome rfl trivial⟩,
    .of_outcome rfl fun _ => ⟨⟨⟨?_, .of_outcome rfl ?_⟩, .of_outcome rfl (.inl trivial)⟩,
      fun _ _ _ _ => trivial⟩⟩
  · refine ⟨trivial, .of_outcome rfl ⟨⟨trivial, .of_outcome rfl ⟨trivial, .of_outcome rfl ?_⟩⟩,
      .of_outcome rfl ⟨rfl, _, rfl⟩⟩⟩
    exact ⟨_, _, _, 0, rfl, rfl⟩
  · exact ⟨⟨false, rfl⟩, nofun, fun _ => ⟨trivial, .of_outcome rfl (.inl ⟨_, rfl⟩)⟩⟩

theorem Function.comparing_residual_evaluates :
    Function.comparing.residual "wave" .tight = .ok .compared ∧
      ∃ v s w t,
        (Run.call none 34 0 (.closure ⟨0, none, .comparing, .global⟩)
          (Value.ofNumbers [7])).outcome .initial = (.ok v, s) ∧
        (Run.call none 34 0 (.closure ⟨0, none, ⟨["t"], [.result (some .compared)]⟩, .global⟩)
          (Value.ofNumbers [7])).outcome .initial = (.ok w, t) ∧
        Meaning.ofValue w = Meaning.ofValue v := by
  have hinline : Function.comparing.residual "wave" .tight = .ok .compared := rfl
  exact ⟨hinline, Function.distinct_residual_evaluates hinline (by decide) (by decide) (by decide)
    Function.comparing_obeys⟩

def Function.reflecting : Function (Exact .zero) :=
  ⟨["t"],
    [.declaration .constant "p" (some (.array [.identifier "t", .null])),
    .result (some (.binary .strictEqual (.identifier "p") (.identifier "p")))]⟩

/-- What is left of a pair that is compared with itself is a comparison of two pairs. -/
theorem Function.reflecting_residual_differs :
    Function.reflecting.residual "wave" .tight =
        .ok (.binary .strictEqual (.array [.identifier "t", .null])
          (.array [.identifier "t", .null])) ∧
      ((Run.call none 34 0 (.closure ⟨0, none, .reflecting, .global⟩)
        (Value.ofNumbers [3])).outcome .initial).1 = .ok (.boolean true) ∧
      ((Run.call none 34 0 (.closure ⟨0, none, ⟨["t"], [.result (some (.binary .strictEqual
        (.array [.identifier "t", .null]) (.array [.identifier "t", .null])))]⟩, .global⟩)
          (Value.ofNumbers [3])).outcome .initial).1 =
          .ok (.boolean false : Value (Exact .zero)) :=
  ⟨rfl, rfl, rfl⟩

end Waveform
