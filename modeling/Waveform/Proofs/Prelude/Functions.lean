import Waveform.Prelude
import Waveform.Proofs.Number.Exact
import Waveform.Proofs.Prelude.Finishing
import Waveform.Proofs.Prelude.Trees

/-!
# Functions of the prelude

The functions of the prelude that pairs, lists and sounds are put together with, and what calls of
them give. A call of such a function finds the others in the global frame.
-/

namespace Waveform

namespace Prelude

variable {M : Mathematics}

/-- What the global frame holds. Functions have the given identities. -/
def known (identity : String → Nat) : List (String × Value (Exact M)) :=
  ("length", .builtin .length) :: (functions Numeric.ofNat).map fun (name, f) =>
    (name, .closure ⟨identity name, some name, f, .global⟩)

def global (identity : String → Nat) (name : String) (f : Function (Exact M)) :
    Value (Exact M) :=
  .closure ⟨identity name, some name, f, .global⟩

/-- The global frame of a store holds the functions. -/
structure Ready (identity : String → Nat) (s : Store (Exact M)) : Prop where
  made : s.HasFrames .global
  knows : s.Knows .global (known identity)

variable {identity : String → Nat} {s t : Store (Exact M)} {a b v w : Value (Exact M)}
  {P : Value (Exact M) → Store (Exact M) → Prop} {i : Nat}

namespace Ready

theorem later (h : Ready identity s) (hst : s.Extends ∅ t) : Ready identity t :=
  ⟨h.made.later hst, h.knows.later h.made hst⟩

theorem returns_pair (h : Ready identity s)
    (hP : ∀ t, s.Extends ∅ t → ∀ i, P (.pair i a b) t) :
    Run.Returns (global identity "pair" pair) [a, b] s P := by
  apply Run.returns_closure h.made h.knows
  intro k t ht
  apply Statement.returning_block rfl
  apply Statement.allReturn_result ht.kept
  apply Expression.yields_pair
  apply Expression.yields_identifier ht.knows rfl
  apply Expression.yields_identifier ht.knows rfl
  exact fun u hu => hP u (ht.kept.trans hu)

theorem returns_head (h : Ready identity s) (hP : ∀ t, s.Extends ∅ t → P a t) :
    Run.Returns (global identity "head" (head Numeric.ofNat)) [.pair i a b] s P := by
  apply Run.returns_closure h.made h.knows
  intro k t ht
  apply Statement.returning_block rfl
  apply Statement.allReturn_result ht.kept
  apply Expression.yields_member
  apply Expression.yields_identifier ht.knows rfl
  apply Expression.yields_literal
  exact ⟨a, rfl, hP t ht.kept⟩

theorem returns_tail (h : Ready identity s) (hP : ∀ t, s.Extends ∅ t → P b t) :
    Run.Returns (global identity "tail" (tail Numeric.ofNat)) [.pair i a b] s P := by
  apply Run.returns_closure h.made h.knows
  intro k t ht
  apply Statement.returning_block rfl
  apply Statement.allReturn_result ht.kept
  apply Expression.yields_member
  apply Expression.yields_identifier ht.knows rfl
  apply Expression.yields_literal
  exact ⟨b, rfl, hP t ht.kept⟩

theorem returns_isNull (h : Ready identity s)
    (hP : ∀ t, s.Extends ∅ t → P (.boolean (a.same .null)) t) :
    Run.Returns (global identity "is_null" isNull) [a] s P := by
  apply Run.returns_closure h.made h.knows
  intro k t ht
  apply Statement.returning_block rfl
  apply Statement.allReturn_result ht.kept
  apply Expression.yields_binary
  apply Expression.yields_identifier ht.knows rfl
  apply Expression.yields_literal
  exact hP t ht.kept

end Ready

/-! ## Lists -/

/-- The value is a chain of pairs, with an item for each entry of the list. -/
def IsList {α : Type} (Item : Value (Exact M) → α → Prop) : Value (Exact M) → List α → Prop
  | v, [] => v = .null
  | v, x :: xs => ∃ i first rest, v = .pair i first rest ∧ Item first x ∧ IsList Item rest xs

section IsList

variable {α : Type} {Item Item' : Value (Exact M) → α → Prop} {xs : List α}

theorem IsList.mono (h : IsList Item v xs) (hItem : ∀ w x, Item w x → Item' w x) :
    IsList Item' v xs := by
  induction xs generalizing v with
  | nil => exact h
  | cons x xs ih =>
    obtain ⟨i, first, rest, rfl, hfirst, hrest⟩ := h
    exact ⟨i, first, rest, rfl, hItem first x hfirst, ih hrest⟩

theorem IsList.listLength? (h : IsList Item v xs) : v.listLength? = some xs.length := by
  induction xs generalizing v with
  | nil =>
    subst h
    rfl
  | cons x xs ih =>
    obtain ⟨i, first, rest, rfl, -, hrest⟩ := h
    rw [Value.listLength?, ih hrest]
    rfl

theorem ofNat_eq (n : Nat) : (Numeric.ofNat n : Exact M) = .of n := by
  change Exact.of (Exact.ofDecimal (.ofNat n)) = Exact.of (n : ℚ)
  simp [Exact.ofDecimal, Decimal.ofNat]

theorem IsList.returns_length (h : IsList Item v xs) (hP : P (.number (.of xs.length)) s) :
    Run.Returns (.builtin .length) [v] s P := by
  have hcall (n : Nat) : (Run.unlimited (n + 1) (.builtin .length) [v]).outcome s =
      (.ok (.number (.of xs.length)), s) := by
    rw [← ofNat_eq]
    simp only [Run.unlimited, Run.call, Run.applyBuiltin, List.headD_cons, h.listLength?]
    rfl
  refine ⟨1, _, s, fun n hn => ?_, .refl ∅ s, hP⟩
  obtain ⟨n, rfl⟩ : ∃ m, n = m + 1 := ⟨n - 1, by omega⟩
  exact hcall n

end IsList

/-- A list is put together from its end. What the items and the results are has to last while frames
are made, and the operator has to take in one more item. -/
theorem Ready.returns_accumulate {α : Type}
    {I : Store (Exact M) → Value (Exact M) → α → Prop}
    {R : Store (Exact M) → Value (Exact M) → List α → Prop}
    (hI : ∀ s t v x, s.Extends ∅ t → I s v x → I t v x)
    (hR : ∀ s t v xs, s.Extends ∅ t → R s v xs → R t v xs)
    {op initial : Value (Exact M)} {xs : List α} (h : Ready identity s)
    (hop : ∀ t, s.Extends ∅ t → ∀ x xs a b, I t a x → R t b xs →
      Run.Returns op [a, b] t fun w u => R u w (x :: xs))
    (hinitial : R s initial []) (hlist : IsList (I s) v xs) :
    Run.Returns (global identity "accumulate" accumulate) [op, initial, v] s
      fun w t => R t w xs := by
  induction xs generalizing s v with
  | nil =>
    subst hlist
    apply Run.returns_closure h.made h.knows
    intro k t ht
    apply Statement.returning_block rfl
    apply Statement.allReturn_branch rfl rfl ht.knows ht.made
    apply Expression.yields_call_known ht.knows rfl rfl
    apply (h.later ht.kept).returns_isNull
    intro u htu inner r hur _ hknows
    have hsr := (ht.kept.trans htu).trans hur
    apply Statement.allReturn_result hsr
    apply Expression.yields_identifier hknows rfl
    exact hR _ _ _ _ hsr hinitial
  | cons x xs ih =>
    obtain ⟨i, first, rest, rfl, hfirst, hrest⟩ := hlist
    apply Run.returns_closure h.made h.knows
    intro k t ht
    apply Statement.returning_block rfl
    apply Statement.allReturn_branch rfl rfl ht.knows ht.made
    apply Expression.yields_call_known ht.knows rfl rfl
    apply (h.later ht.kept).returns_isNull
    intro u htu inner r hur hframes hknows
    have hsr := (ht.kept.trans htu).trans hur
    apply Statement.allReturn_result hsr
    apply Expression.yields_call_name hknows rfl
    apply Expression.allYield_cons
    apply Expression.yields_call_known hknows rfl rfl
    apply (h.later hsr).returns_head
    intro r₁ hr₁
    have hknows₁ := hknows.later hframes hr₁
    have hsr₁ := hsr.trans hr₁
    apply Expression.allYield_cons
    apply Expression.yields_call_name hknows₁ rfl
    apply Expression.allYield_identifier hknows₁ rfl
    apply Expression.allYield_identifier hknows₁ rfl
    apply Expression.allYield_cons
    apply Expression.yields_call_known hknows₁ rfl rfl
    apply (h.later hsr₁).returns_tail
    intro r₂ hr₂
    have hsr₂ := hsr₁.trans hr₂
    apply Expression.allYield_nil
    have hlater := ih (h.later hsr₂) (fun t ht => hop t (hsr₂.trans ht))
      (hR _ _ _ _ hsr₂ hinitial) (hrest.mono fun w y => hI _ _ w y hsr₂)
    apply hlater.mono
    intro w r₃ hr₃ hw
    have hsr₃ := hsr₂.trans hr₃
    apply Expression.allYield_nil
    exact hop r₃ hsr₃ x xs first w (hI _ _ _ _ hsr₃ hfirst) hw

end Prelude

end Waveform
