import Waveform.Proofs.Symbolic.Simplification

/-!
# What an expression may denote

An expression that asks for an entry of what has none denotes nothing. With a value of its own for
each entry in it, its operators come to something all the same. Simplifying the expression keeps
what it may denote in that way.
-/

namespace Waveform

open Simplify

variable {M : Mathematics} {ρ : Valuation}

namespace Expression

mutual

/-- What the expression may denote, where every entry in it may be anything. -/
def MayDenote (ρ : Valuation) : Expression (Exact M) → Meaning M → Prop
  | .member _ _, _ => True
  | .unary op a, d => ∃ u, a.MayDenote ρ u ∧ Meaning.unary op u = some d
  | .binary op a b, d =>
    ∃ u v, a.MayDenote ρ u ∧ b.MayDenote ρ v ∧ Meaning.binary op u v = some d
  | .call (.builtin b) arguments, d =>
    ∃ args, AllMayDenote ρ arguments args ∧ Meaning.call b args = some d
  | e, d => e.denote ρ = some d

def AllMayDenote (ρ : Valuation) : List (Expression (Exact M)) → List (Meaning M) → Prop
  | [], ds => ds = []
  | e :: es, ds => ∃ d rest, e.MayDenote ρ d ∧ AllMayDenote ρ es rest ∧ ds = d :: rest

end

variable {e : Expression (Exact M)} {d : Meaning M}

mutual

theorem mayDenote_of_denote : (e : Expression (Exact M)) → {d : Meaning M} →
    e.denote ρ = some d → e.MayDenote ρ d
  | .member _ _, _, _ => trivial
  | .unary op a, d, h => by
    obtain ⟨u, hu, hd⟩ := denote_unary.1 h
    exact ⟨u, mayDenote_of_denote a hu, hd⟩
  | .binary op a b, d, h => by
    obtain ⟨u, v, hu, hv, hd⟩ := denote_binary.1 h
    exact ⟨u, v, mayDenote_of_denote a hu, mayDenote_of_denote b hv, hd⟩
  | .call callee arguments, d, h => by
    cases callee with
    | builtin b =>
      rw [denote] at h
      obtain ⟨args, hargs, hd⟩ := Option.bind_eq_some_iff.1 h
      exact ⟨args, allMayDenote_of_denoteAll arguments hargs, hd⟩
    | _ => exact h
  | .literal _, _, h | .identifier _, _, h | .builtin _, _, h | .array _, _, h
  | .logical _ _ _, _, h | .conditional _ _ _, _, h | .function _ _ _, _, h
  | .assignment _ _ _, _, h | .update _ _ _, _, h => h

theorem allMayDenote_of_denoteAll : (es : List (Expression (Exact M))) → {ds : List (Meaning M)} →
    denoteAll ρ es = some ds → AllMayDenote ρ es ds
  | [], _, h => (Option.some.inj h).symm
  | e :: es, _, h => by
    obtain ⟨d, hd, h⟩ := Option.bind_eq_some_iff.1 h
    obtain ⟨ds, hds, rfl⟩ := Option.map_eq_some_iff.1 h
    exact ⟨d, ds, mayDenote_of_denote e hd, allMayDenote_of_denoteAll es hds, rfl⟩

end

theorem mayDenote_literal {l : Literal (Exact M)} :
    (literal l).MayDenote ρ d ↔ d = .primitive l := by
  change (literal l).denote ρ = some d ↔ _
  rw [denote, Option.some.injEq, eq_comm]

theorem not_mayDenote_structure (h : isStructure e = true) {l : Literal (Exact M)} :
    ¬ e.MayDenote ρ (.primitive l) := by
  cases e with
  | array _ | function _ _ _ | builtin _ => exact denote_isStructure h
  | _ => cases h

variable (hρ : ∀ name q, ρ name = some q → 0 ≤ q)

include hρ

theorem faithful_mayDenote : Faithful (MayDenote ρ : Expression (Exact M) → _) Meaning.binary where
  literal l d := mayDenote_literal
  identifier name q h := by
    obtain ⟨p, hp, hq⟩ := Option.map_eq_some_iff.1 h
    exact hρ name q (Meaning.number_inj hq ▸ hp)
  unique name d d' h h' := Option.some.inj (h.symm.trans h')
  structured e l h := not_mayDenote_structure h
  binary op a b d := .rfl
  total op h := rfl
  quotient u d := Meaning.eq_of_divide_one
  fold op l m d := Meaning.binary_primitives
  compare op l c v d h hv := Semantics.eq_boolean_of_compare h hv

theorem mayDenote_unary_rule {op : UnaryOperator} {a : Expression (Exact M)}
    (h : (unary op a).MayDenote ρ d) : (Simplify.unary op a).MayDenote ρ d := by
  unfold Simplify.unary
  split
  · next l hl =>
    obtain ⟨u, hu, hd⟩ := h
    obtain rfl := (faithful_mayDenote hρ).eq_of_asLiteral? hl hu
    exact mayDenote_literal.2 (Meaning.unary_primitive hd)
  · exact h

theorem mayDenote_upTo (depth : Nat) (h : e.MayDenote ρ d) : (upTo depth e).MayDenote ρ d := by
  induction depth generalizing e d with
  | zero => exact h
  | succ depth ih =>
    have hkeeps := ((Semantics.lawful_ofValuation (M := M) hρ).upTo_keeps (depth + 1) e).1 d
    rw [Semantics.denote_ofValuation, Semantics.denote_ofValuation] at hkeeps
    cases e with
    | unary op a =>
      obtain ⟨u, hu, hd⟩ := h
      exact mayDenote_unary_rule hρ ⟨u, ih hu, hd⟩
    | binary op a b =>
      obtain ⟨u, v, hu, hv, hd⟩ := h
      exact (faithful_mayDenote hρ).reads_binary_rule (fun _ _ _ _ _ => ih)
        ⟨u, v, ih hu, ih hv, hd⟩
    | logical _ _ _ | conditional _ _ _ | assignment _ _ _ =>
      exact mayDenote_of_denote _ (hkeeps h)
    | literal _ | identifier _ | builtin _ | array _ | member _ _ | call _ _ | function _ _ _
    | update _ _ _ => exact h

/-- Simplifying an expression keeps what it may denote. -/
theorem mayDenote_simplify (h : e.MayDenote ρ d) : e.simplify.MayDenote ρ d :=
  mayDenote_upTo hρ e.reach h

theorem isTruth_of_mayDenote {u : Bool} (h : e.MayDenote ρ (.boolean u)) : e.isTruth ρ = true := by
  cases e with
  | member _ _ => rfl
  | unary op a =>
    obtain ⟨v, -, hd⟩ := h
    rw [isTruth, Meaning.eq_not_of_unary hd]
    rfl
  | binary op a b =>
    obtain ⟨v, w, -, -, hd⟩ := h
    exact Meaning.isComparison_of_binary hd
  | call callee arguments =>
    cases callee with
    | builtin b =>
      obtain ⟨args, -, hd⟩ := h
      have hcall := Meaning.isSome_call_bind b args
      rw [hd] at hcall
      cases hcall
    | _ => cases h
  | _ => exact isTruth_of_denote hρ h

end Expression

end Waveform
