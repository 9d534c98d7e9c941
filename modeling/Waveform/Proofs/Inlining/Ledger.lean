import Mathlib.Algebra.BigOperators.Group.Finset.Piecewise
import Mathlib.Algebra.Order.BigOperators.Group.Finset
import Waveform.Proofs.Inlining.Hereditary
import Waveform.Proofs.Inlining.Outcome
import Waveform.Proofs.Inlining.Uses

/-!
# Accounts of draws

The specializer reads a name by copying what the name stands for. A copy of something that draws
would draw once more, so a name that stands for such a thing may be read once at most, and names
that are read more often stand for what draws nothing. Under this usage, what is inlined and what is
stored under the names that are still to be read never draws more often than the text that was
inlined: `Usage.Spends` states this of one reduction, and `Spends.bind` joins the accounts of two.
-/

namespace Waveform

variable {ν α β : Type}

/-- How a program uses its names. -/
structure Usage where
  /-- The names that may stand for what draws, and are read once at most. -/
  drawn : List String
  /-- The names that stand for functions only, with the parameters of these. -/
  functions : List (String × List String)

namespace Usage

variable (U : Usage)

def isDrawn (name : String) : Bool :=
  U.drawn.contains name

theorem isDrawn_iff {U : Usage} {name : String} : U.isDrawn name = true ↔ name ∈ U.drawn :=
  List.contains_iff_mem

/-- The parameters of every function that the name stands for. -/
def params? (name : String) : Option (List String) :=
  U.functions.lookup name

/-- Whether the name may stand for any value, and not just for functions. -/
def isPlain (name : String) : Bool :=
  (U.params? name).isNone

/-- Draws are accounted for, and reads of the names that may stand for them. -/
def Covers : Use → Prop
  | .draw => True
  | .read name => name ∈ U.drawn

/-- Whether the expression neither draws nor reads a name that may stand for what draws. -/
def isFree (e : Expression ν) : Bool :=
  e.uses .draw == 0 && U.drawn.all fun name => e.uses (.read name) == 0

def IsFree (e : Expression ν) : Prop :=
  ∀ u, U.Covers u → e.uses u = 0

theorem isFree_iff {U : Usage} {e : Expression ν} : U.isFree e = true ↔ U.IsFree e := by
  simp only [isFree, Bool.and_eq_true, beq_iff_eq, List.all_eq_true]
  constructor
  · rintro ⟨hdraw, hread⟩ u hu
    cases u with
    | draw => exact hdraw
    | read name => exact hread name hu
  · exact fun h => ⟨h .draw trivial, fun name hname => h (.read name) hname⟩

/-- Whether what the initializer comes to has the parameters that are called by the name. -/
def signs (name : String) : Option (Expression ν) → Bool
  | some (.function params _ _) => (U.params? name).all (· == params)
  | _ => U.isPlain name

def binds (name : String) (init : Option (Expression ν)) : Bool :=
  (U.isDrawn name || init.all U.isFree) && U.signs name init

/-- Whether the arguments may be bound to the parameters, as far as there are any. -/
def accepts (params : List String) (arguments : List (Expression ν)) : Bool :=
  (params.zip arguments).all fun p => U.isDrawn p.1 || U.isFree p.2

def passes (callee : Expression ν) (arguments : List (Expression ν)) : Bool :=
  match callee with
  | .identifier name =>
    match U.params? name with
    | some params => U.accepts params arguments
    | none => arguments.all U.isFree
  | _ => arguments.all U.isFree

end Usage

section Fits

variable (U : Usage)

/-- Whether the functions that the statements declare neither draw nor read what may draw. -/
def Statement.hoistsFree (body : List (Statement ν)) : Bool :=
  body.all fun
    | .function _ params body => U.isFree (.function params body none)
    | _ => true

mutual

/-- Whether an expression keeps to the usage. An assignment whose value goes on to be used writes
nothing that draws. -/
def Expression.fits : Expression ν → Bool
  | .literal _ | .identifier _ => true
  | .builtin b => b != .random
  | .array items => Expression.allFit items
  | .member object property => object.fits && property.fits
  | .unary _ argument => argument.fits
  | .binary _ left right | .logical _ left right => left.fits && right.fits
  | .conditional test consequent alternate => test.fits && consequent.fits && alternate.fits
  | .call (.builtin _) arguments => Expression.allFit arguments
  | .call callee arguments =>
    callee.fits && Expression.allFit arguments && U.passes callee arguments
  | .function params body _ =>
    params.all U.isPlain && Statement.allFit body
  | .assignment _ name value => value.fits && U.isFree value && U.isPlain name
  | .update _ _ name => U.isPlain name

def Expression.allFit : List (Expression ν) → Bool
  | [] => true
  | e :: es => e.fits && Expression.allFit es

def Expression.optionFits : Option (Expression ν) → Bool
  | none => true
  | some e => e.fits

/-- Whether a statement keeps to the usage. No loop does, since its rounds are inlined one by
one. -/
def Statement.fits : Statement ν → Bool
  | .declaration _ name init => Expression.optionFits init && U.binds name init
  | .function name params body =>
    params.all U.isPlain && Statement.allFit body &&
      U.binds name (some (.function params body none))
  | .expression e =>
    match e with
    | .assignment _ name value =>
      value.fits && (U.isDrawn name || U.isFree value) && U.isPlain name
    | e => e.fits
  | .result value => Expression.optionFits value
  | .block body => Statement.allFit body
  | .branch test consequent alternate =>
    test.fits && consequent.fits && Statement.optionFits alternate
  | .loop _ _ _ _ => false

/-- The functions that are declared after a branch are bound once more where the branch goes on. -/
def Statement.allFit : List (Statement ν) → Bool
  | [] => true
  | s :: ss => s.fits && Statement.allFit ss && (! s.isBranch || Statement.hoistsFree U ss)

def Statement.optionFits : Option (Statement ν) → Bool
  | none => true
  | some s => s.fits

end

end Fits

namespace Usage

variable {U : Usage}

theorem hereditary_fits [Numeric ν] (U : Usage) :
    Expression.Hereditary fun e : Expression ν => e.fits U = true where
  literal l := by rw [Expression.fits]
  unary op a := by rw [Expression.fits]
  binary op a b := by rw [Expression.fits, Bool.and_eq_true]
  logical op a b := by rw [Expression.fits, Bool.and_eq_true]
  conditional t c a := by rw [Expression.fits, Bool.and_eq_true, Bool.and_eq_true, and_assoc]
  assignment op target value h := by
    unfold Simplify.assignment
    split
    · next name right =>
      split
      · rw [Expression.fits, Bool.and_eq_true, Bool.and_eq_true] at h
        obtain ⟨⟨hfits, hfree⟩, hparams⟩ := h
        split
        · rw [Expression.fits]
          exact hparams
        · rw [Expression.fits, Bool.and_eq_true] at hfits
          rw [Expression.fits, hfits.2, hparams, isFree_iff.2]
          · rfl
          · intro u hu
            have := isFree_iff.1 hfree u hu
            rw [Expression.uses_binary] at this
            omega
      · exact h
    · exact h

end Usage

/-! ## What is stored -/

def Scope.Binding.value? : Scope.Binding ν → Option (Expression ν)
  | .parameter => none
  | .mutable value | .constant value | .hardcoded value => some value

def Scope.Binding.uses (b : Scope.Binding ν) (u : Use) : ℕ :=
  b.value?.elim 0 fun e => e.uses u

/-- Which uses are spent when only the live names may still be read. -/
def Use.spent (live : Finset String) : Use → ℕ
  | .draw => 0
  | .read name => if name ∈ live then 0 else 1

theorem Use.spent_le_one (live : Finset String) (u : Use) : u.spent live ≤ 1 := by
  cases u with
  | draw => exact Nat.zero_le 1
  | read name =>
    rw [spent]
    split <;> omega

namespace Scopes

def held (σ : Scopes ν) (i : Nat) (name : String) (u : Use) : ℕ :=
  ((σ.frame i).bindings.find? name).elim 0 fun b => b.uses u

def stored (σ : Scopes ν) (name : String) (u : Use) : ℕ :=
  ∑ i ∈ Finset.range σ.size, σ.held i name u

/-- The uses under the live names, and those that are spent with the others. -/
def balance (σ : Scopes ν) (live : Finset String) (u : Use) : ℕ :=
  ∑ name ∈ live, σ.stored name u + u.spent live

variable {σ : Scopes ν} {live : Finset String} {u : Use}

theorem held_of_le {i : Nat} (h : σ.size ≤ i) (name : String) : σ.held i name u = 0 := by
  rw [held, frame_of_le h]
  rfl

theorem held_le_stored (σ : Scopes ν) (i : Nat) (name : String) (u : Use) :
    σ.held i name u ≤ σ.stored name u := by
  by_cases hi : i < σ.size
  · exact Finset.single_le_sum (f := fun i => σ.held i name u) (fun _ _ => Nat.zero_le _)
      (Finset.mem_range.2 hi)
  · rw [held_of_le (Nat.le_of_not_lt hi)]
    exact Nat.zero_le _

theorem held_child (σ : Scopes ν) (i : Nat) (kind : Scope.Kind) (j : Nat) (name : String)
    (u : Use) : (σ.child i kind).2.held j name u = σ.held j name u := by
  rw [held, find?_child]
  rfl

theorem stored_child (σ : Scopes ν) (i : Nat) (kind : Scope.Kind) (name : String) (u : Use) :
    (σ.child i kind).2.stored name u = σ.stored name u := by
  rw [stored, size_child, Finset.sum_range_succ, held_child, held_of_le (Nat.le_refl _), add_zero]
  exact Finset.sum_congr rfl fun j _ => held_child ..

theorem balance_child (σ : Scopes ν) (i : Nat) (kind : Scope.Kind) (live : Finset String)
    (u : Use) : (σ.child i kind).2.balance live u = σ.balance live u := by
  simp only [balance, stored_child]

theorem held_define_le (σ : Scopes ν) (i : Nat) (name : String) (b : Scope.Binding ν) (j : Nat)
    (other : String) (u : Use) :
    (σ.define i name b).held j other u ≤
      σ.held j other u + if j = i then (if other = name then b.uses u else 0) else 0 := by
  cases hfind : ((σ.define i name b).frame j).bindings.find? other with
  | none =>
    rw [held, hfind]
    exact Nat.zero_le _
  | some c =>
    have hheld : (σ.define i name b).held j other u = c.uses u := by
      rw [held, hfind]
      rfl
    rw [hheld]
    rcases find?_define hfind with ⟨rfl, rfl, rfl⟩ | hc
    · rw [if_pos rfl, if_pos rfl]
      exact Nat.le_add_left ..
    · rw [held, hc]
      exact Nat.le_add_right ..

theorem stored_define_le (σ : Scopes ν) (i : Nat) (name : String) (b : Scope.Binding ν)
    (other : String) (u : Use) :
    (σ.define i name b).stored other u ≤
      σ.stored other u + if other = name then b.uses u else 0 := by
  calc (σ.define i name b).stored other u
      ≤ ∑ j ∈ Finset.range σ.size, (σ.held j other u +
          if j = i then (if other = name then b.uses u else 0) else 0) := by
        rw [stored, size_define]
        exact Finset.sum_le_sum fun j _ => held_define_le σ i name b j other u
    _ ≤ σ.stored other u + if other = name then b.uses u else 0 := by
        rw [Finset.sum_add_distrib, Finset.sum_ite_eq']
        refine Nat.add_le_add_left ?_ _
        split
        · exact le_rfl
        · exact Nat.zero_le _

theorem balance_define_le (σ : Scopes ν) (i : Nat) (name : String) (b : Scope.Binding ν)
    (live : Finset String) (u : Use) :
    (σ.define i name b).balance live u ≤
      σ.balance live u + if name ∈ live then b.uses u else 0 := by
  calc (σ.define i name b).balance live u
      ≤ ∑ other ∈ live, (σ.stored other u + if other = name then b.uses u else 0) +
          u.spent live :=
        Nat.add_le_add_right (Finset.sum_le_sum fun other _ => stored_define_le ..) _
    _ = σ.balance live u + if name ∈ live then b.uses u else 0 := by
        rw [Finset.sum_add_distrib, Finset.sum_ite_eq', balance]
        omega

/-- Reading a live name takes what is stored under it, and the name is not live any more. -/
theorem take_le {i : Nat} {name : String} {b : Scope.Binding ν} (hlive : name ∈ live)
    (hfind : (σ.frame i).bindings.find? name = some b) (u : Use) :
    b.uses u + σ.balance (live.erase name) u ≤
      σ.balance live u + if u = .read name then 1 else 0 := by
  have hstored : b.uses u ≤ σ.stored name u := by
    refine le_trans (le_of_eq ?_) (held_le_stored σ i name u)
    rw [held, hfind]
    rfl
  have hspent : u.spent (live.erase name) ≤ u.spent live + if u = .read name then 1 else 0 := by
    cases u with
    | draw => exact Nat.zero_le _
    | read other =>
      simp only [Use.spent, Finset.mem_erase, Use.read.injEq]
      split_ifs <;> simp_all
  have hsum := Finset.add_sum_erase live (fun name => σ.stored name u) hlive
  simp only [balance]
  omega

theorem balance_empty (σ : Scopes ν) (u : Use) : σ.balance ∅ u = u.spent ∅ := by
  rw [balance, Finset.sum_empty, zero_add]

end Scopes

/-! ## Accounts -/

namespace Usage

section

variable (U : Usage)

/-- A name may stand for the value. -/
structure Allows (name : String) (value : Expression ν) : Prop where
  fits : value.fits U = true
  free : name ∈ U.drawn ∨ U.IsFree value
  params : ∀ ps, U.params? name = some ps → ∀ params body home,
    value = .function params body home → params = ps

/-- A name may be bound so. Names that stay names are none of those that are accounted for. -/
def Permits (name : String) (b : Scope.Binding ν) : Prop :=
  match b.value? with
  | none => name ∉ U.drawn ∧ U.isPlain name = true
  | some value => U.Allows name value

/-- The frames keep to the usage. -/
structure Holds (σ : Scopes ν) : Prop where
  permits : ∀ i name b, (σ.frame i).bindings.find? name = some b → U.Permits name b
  hardcoded : Builtin.random ∉ σ.hardcoded

/-- What is still to be read is read once at most, in the text and in what is stored. -/
def Affords (live : Finset String) (σ : Scopes ν) (text : Use → ℕ) : Prop :=
  ∀ name ∈ U.drawn, text (.read name) + σ.balance live (.read name) ≤ 1

/-- The reduction of a text keeps to the usage, and the account of what it comes to and of what it
stores does not exceed that of the text and of what was stored before. Some names may not be live
any more. -/
def Spends (x : Inlining ν α) (text : Use → ℕ) (cost : α → Use → ℕ) (Q : α → Prop) : Prop :=
  ∀ σ a σ', U.Holds σ → x.run σ = .ok (a, σ') → U.Holds σ' ∧ Q a ∧
    ∀ live, U.Affords live σ text → ∃ live' ⊆ live, ∀ u, U.Covers u →
      cost a u + σ'.balance live' u ≤ text u + σ.balance live u

end

variable {U : Usage} {Q R : α → Prop} {text text' : Use → ℕ} {cost cost' : α → Use → ℕ}

/-! ### Frames -/

theorem Holds.child {σ : Scopes ν} (h : U.Holds σ) (i : Nat) (kind : Scope.Kind) :
    U.Holds (σ.child i kind).2 where
  permits j name b hb := by
    rw [Scopes.find?_child] at hb
    exact h.permits j name b hb
  hardcoded := h.hardcoded

theorem Holds.define {σ : Scopes ν} (h : U.Holds σ) (i : Nat) {name : String}
    {binding : Scope.Binding ν} (hbinding : U.Permits name binding) :
    U.Holds (σ.define i name binding) where
  permits j other b hb := by
    rcases Scopes.find?_define hb with ⟨-, rfl, rfl⟩ | hb
    · exact hbinding
    · exact h.permits j other b hb
  hardcoded := h.hardcoded

/-! ### Reductions -/

theorem Affords.mem_live {live : Finset String} {σ : Scopes ν} (h : U.Affords live σ text)
    {name : String} (hname : name ∈ U.drawn) (htext : 0 < text (.read name)) : name ∈ live := by
  by_contra hlive
  have hspent : Use.spent live (.read name) = 1 := if_neg hlive
  have hle := h name hname
  rw [Scopes.balance, hspent] at hle
  omega

theorem spends_pure {a : α} (ha : Q a) (hcost : ∀ u, U.Covers u → cost a u ≤ text u) :
    U.Spends (pure a : Inlining ν α) text cost Q := by
  intro σ b σ' hσ hrun
  obtain ⟨rfl, rfl⟩ := Inlining.pure_ok.1 hrun
  exact ⟨hσ, ha, fun live _ => ⟨live, Finset.Subset.refl _, fun u hu =>
    Nat.add_le_add_right (hcost u hu) _⟩⟩

theorem spends_throw (e : SpecializationError ν) :
    U.Spends (throw e : Inlining ν α) text cost Q :=
  fun _ _ _ _ hrun => (Inlining.throw_ok.1 hrun).elim

theorem Spends.bind {x : Inlining ν α} {f : α → Inlining ν β} {cost' : β → Use → ℕ}
    {R : β → Prop} (hx : U.Spends x text cost Q)
    (hf : ∀ a, Q a → U.Spends (f a) (cost a) cost' R) : U.Spends (x >>= f) text cost' R := by
  intro σ b υ hσ hrun
  obtain ⟨a, τ, ha, hb⟩ := Inlining.bind_ok.1 hrun
  obtain ⟨hτ, hq, hfirst⟩ := hx σ a τ hσ ha
  obtain ⟨hυ, hr, hsecond⟩ := hf a hq τ b υ hτ hb
  refine ⟨hυ, hr, fun live hlive => ?_⟩
  obtain ⟨live₁, hsub₁, hle₁⟩ := hfirst live hlive
  obtain ⟨live₂, hsub₂, hle₂⟩ := hsecond live₁ fun name hname =>
    (hle₁ (.read name) hname).trans (hlive name hname)
  exact ⟨live₂, hsub₂.trans hsub₁, fun u hu => (hle₂ u hu).trans (hle₁ u hu)⟩

theorem Spends.beside {x : Inlining ν α} (h : U.Spends x text cost Q) (more : Use → ℕ) :
    U.Spends x (fun u => text u + more u) (fun a u => cost a u + more u) Q := by
  intro σ a σ' hσ hrun
  obtain ⟨hσ', hq, hspends⟩ := h σ a σ' hσ hrun
  refine ⟨hσ', hq, fun live hlive => ?_⟩
  obtain ⟨live', hsub, hle⟩ := hspends live fun name hname =>
    (Nat.add_le_add_right (Nat.le_add_right ..) _).trans (hlive name hname)
  refine ⟨live', hsub, fun u hu => ?_⟩
  rw [add_right_comm, add_right_comm (text u)]
  exact Nat.add_le_add_right (hle u hu) _

theorem Spends.mono {x : Inlining ν α} (h : U.Spends x text cost Q)
    (htext : ∀ u, U.Covers u → text u ≤ text' u)
    (hcost : ∀ a, Q a → ∀ u, U.Covers u → cost' a u ≤ cost a u) (hQ : ∀ a, Q a → R a) :
    U.Spends x text' cost' R := by
  intro σ a σ' hσ hrun
  obtain ⟨hσ', hq, hspends⟩ := h σ a σ' hσ hrun
  refine ⟨hσ', hQ a hq, fun live hlive => ?_⟩
  obtain ⟨live', hsub, hle⟩ := hspends live fun name hname => by
    have := hlive name hname
    have := htext (.read name) hname
    omega
  refine ⟨live', hsub, fun u hu => ?_⟩
  have := hle u hu
  have := htext u hu
  have := hcost a hq u hu
  omega

theorem Spends.after {x : Inlining ν α} (h : U.Spends x text cost Q) (before : Use → ℕ) :
    U.Spends x (fun u => before u + text u) (fun a u => before u + cost a u) Q :=
  (h.beside before).mono (fun _ _ => (Nat.add_comm ..).le) (fun _ _ _ _ => (Nat.add_comm ..).le)
    fun _ h => h

theorem Spends.more {x : Inlining ν α} (h : U.Spends x text cost Q)
    (htext : ∀ u, text u ≤ text' u) : U.Spends x text' cost Q :=
  h.mono (fun u _ => htext u) (fun _ _ _ _ => le_rfl) fun _ h => h

theorem Spends.imp {x : Inlining ν α} (h : U.Spends x text cost Q) (hQ : ∀ a, Q a → R a) :
    U.Spends x text cost R :=
  h.mono (fun _ _ => le_rfl) (fun _ _ _ _ => le_rfl) hQ

/-- What a text comes to that neither draws nor reads what may draw does neither, even when there is
something left to read. -/
theorem Spends.free {x : Inlining ν (Expression ν)} {Q : Expression ν → Prop}
    (h : U.Spends x text Expression.uses Q) :
    U.Spends x text Expression.uses fun a =>
      Q a ∧ ((∀ u, U.Covers u → text u = 0) → U.IsFree a) := by
  intro σ a σ' hσ hrun
  obtain ⟨hσ', hq, hspends⟩ := h σ a σ' hσ hrun
  refine ⟨hσ', ⟨hq, fun htext u hu => ?_⟩, hspends⟩
  obtain ⟨live', hsub, hle⟩ := hspends ∅ fun name hname => by
    rw [htext (.read name) hname, Scopes.balance_empty, zero_add]
    exact Use.spent_le_one ..
  obtain rfl := Finset.subset_empty.1 hsub
  have hle := hle u hu
  rw [htext u hu, Scopes.balance_empty, Scopes.balance_empty] at hle
  omega

theorem spends_branching {floors : Floors} {inner : Floors → Inlining ν α}
    (h : ∀ floors, U.Spends (inner floors) text cost Q) :
    U.Spends (Inlining.branching floors inner) text cost Q :=
  fun σ a σ' hσ hrun => h _ σ a σ' hσ (Inlining.branching_ok.1 hrun)

theorem spends_child (scope : Nat) (kind : Scope.Kind) :
    U.Spends (Inlining.child (ν := ν) scope kind) text (fun _ => text) fun _ => True := by
  intro σ i σ' hσ hrun
  obtain ⟨-, rfl⟩ := Inlining.child_ok.1 hrun
  refine ⟨hσ.child scope kind, trivial, fun live _ => ⟨live, Finset.Subset.refl _, fun u _ => ?_⟩⟩
  rw [Scopes.balance_child]

theorem spends_modify {f : Scopes ν → Scopes ν}
    (hholds : ∀ σ, U.Holds σ → U.Holds (f σ))
    (hbalance : ∀ σ live u, U.Covers u → (f σ).balance live u ≤ text u + σ.balance live u) :
    U.Spends (modify f : Inlining ν PUnit) text (fun _ _ => 0) fun _ => True := by
  intro σ _ σ' hσ hrun
  obtain rfl := Inlining.modify_ok.1 hrun
  refine ⟨hholds σ hσ, trivial, fun live _ => ⟨live, Finset.Subset.refl _, fun u hu => ?_⟩⟩
  rw [zero_add]
  exact hbalance σ live u hu

theorem balance_define_le (σ : Scopes ν) (i : Nat) (name : String) (b : Scope.Binding ν)
    (live : Finset String) (u : Use) :
    (σ.define i name b).balance live u ≤ b.uses u + σ.balance live u := by
  have := Scopes.balance_define_le σ i name b live u
  split at this <;> omega

theorem spends_define (scope : Nat) {name : String} {b : Scope.Binding ν}
    (hb : U.Permits name b) :
    U.Spends (Inlining.define scope name b) b.uses (fun _ _ => 0) fun _ => True :=
  spends_modify (fun _ hσ => hσ.define scope hb) fun σ live u _ =>
    balance_define_le σ scope name b live u

/-! ### Names -/

theorem isFree_literal (l : Literal ν) : U.IsFree (.literal l) :=
  fun _ _ => rfl

theorem allows_plain {name : String} {value : Expression ν} (hplain : U.isPlain name = true)
    (hfits : value.fits U = true) (hfree : name ∈ U.drawn ∨ U.IsFree value) :
    U.Allows name value where
  fits := hfits
  free := hfree
  params ps hps := by
    rw [isPlain, hps] at hplain
    cases hplain

theorem spends_defineArguments (scope : Nat) {params : List String}
    {arguments : List (Expression ν)} (hparams : params.all U.isPlain = true)
    (hfits : Expression.allFit U arguments = true)
    (haccepts : U.accepts params arguments = true) :
    U.Spends (modify (·.defineArguments scope params arguments) : Inlining ν PUnit)
      (Expression.usesAll arguments) (fun _ _ => 0) fun _ => True := by
  refine spends_modify (fun σ hσ => ?_) fun σ live u _ => ?_
  · induction params generalizing σ arguments with
    | nil => exact hσ
    | cons p ps ih =>
      rw [List.all_cons, Bool.and_eq_true] at hparams
      cases arguments with
      | nil =>
        refine ih hparams.2 hfits ?_ _ (hσ.define scope (allows_plain hparams.1
          (by rw [Expression.undefined, Expression.fits]) (.inr (isFree_literal _))))
        rw [accepts, List.zip_nil_right, List.all_nil]
      | cons e es =>
        rw [Expression.allFit, Bool.and_eq_true] at hfits
        rw [accepts, List.zip_cons_cons, List.all_cons, Bool.and_eq_true, Bool.or_eq_true,
          isDrawn_iff, isFree_iff] at haccepts
        exact ih hparams.2 hfits.2 haccepts.2 _
          (hσ.define scope (allows_plain hparams.1 hfits.1 haccepts.1))
  · clear hparams hfits haccepts
    induction params generalizing σ arguments with
    | nil => exact Nat.le_add_left ..
    | cons p ps ih =>
      cases arguments with
      | nil =>
        refine (ih _).trans (Nat.add_le_add_left ?_ _)
        exact (balance_define_le ..).trans (Nat.zero_add _).le
      | cons e es =>
        have hfirst := balance_define_le σ scope p (.constant e) live u
        have hrest : ((σ.define scope p (.constant e)).defineArguments scope ps es).balance live u ≤
          Expression.usesAll es u + (σ.define scope p (.constant e)).balance live u := ih _
        rw [Expression.usesAll_cons]
        change _ ≤ e.uses u + _ at hfirst
        rw [Scopes.defineArguments]
        omega

theorem spends_read (scope : Nat) (name : String) :
    U.Spends (Inlining.read (ν := ν) scope name) (Expression.identifier (ν := ν) name).uses
      Expression.uses fun a => a.fits U = true ∧ ∀ ps, U.params? name = some ps →
        ∀ params body home, a = .function params body home → params = ps := by
  intro σ a σ' hσ hrun
  obtain ⟨rfl, owner, b, hlookup, ha⟩ := Inlining.read_ok hrun
  replace ha : a = b.value?.getD (.identifier name) := by cases b <;> exact ha
  unfold Scopes.lookup? at hlookup
  split at hlookup
  · next found hfound =>
    cases hlookup
    obtain ⟨-, hfind⟩ := Scopes.mem_of_findIn? hfound
    have hpermits := hσ.permits owner name b hfind
    rw [Permits] at hpermits
    cases hvalue : b.value? with
    | none =>
      rw [hvalue] at ha
      subst ha
      refine ⟨hσ, ⟨by rw [Option.getD_none, Expression.fits], fun _ _ _ _ _ => nofun⟩, ?_⟩
      exact fun live _ => ⟨live, Finset.Subset.refl _, fun _ _ => le_rfl⟩
    | some value =>
      rw [hvalue] at ha hpermits
      obtain rfl : a = value := ha
      have huses : b.uses = a.uses := by
        funext u
        rw [Scope.Binding.uses, hvalue]
        rfl
      refine ⟨hσ, ⟨hpermits.fits, hpermits.params⟩, fun live hlive => ?_⟩
      rcases hpermits.free with hname | hfree
      · have hmem : name ∈ live := hlive.mem_live hname (by simp)
        refine ⟨live.erase name, Finset.erase_subset .., fun u _ => ?_⟩
        have := Scopes.take_le hmem hfind u
        rw [huses] at this
        rw [Expression.uses_identifier, add_comm (ite ..)]
        exact this
      · refine ⟨live, Finset.Subset.refl _, fun u hu => ?_⟩
        rw [hfree u hu]
        omega
  · obtain ⟨builtin, hbuiltin, ⟨⟩⟩ := Option.map_eq_some_iff.1 hlookup
    subst ha
    have hne : builtin ≠ .random := by
      rintro rfl
      exact hσ.hardcoded (List.mem_of_find?_eq_some hbuiltin)
    refine ⟨hσ, ⟨?_, fun _ _ _ _ _ => nofun⟩, fun live _ => ⟨live, Finset.Subset.refl _, ?_⟩⟩
    · rw [Scope.Binding.value?, Option.getD_some, Expression.fits, bne_iff_ne]
      exact hne
    · intro u _
      rw [Scope.Binding.value?, Option.getD_some, Expression.uses_builtin]
      omega

theorem spends_write (floors : Floors) (scope : Nat) {target : String} {value : Expression ν}
    (h : U.Allows target value) :
    U.Spends (Inlining.assign floors scope target fun _ => value) value.uses (fun _ _ => 0)
      fun r => r.2 = value := by
  intro σ r σ' hσ hrun
  obtain ⟨owner, current, -, -, rfl, rfl⟩ := Inlining.assign_ok hrun
  refine ⟨hσ.define owner h, rfl, fun live _ => ⟨live, Finset.Subset.refl _, fun u _ => ?_⟩⟩
  rw [zero_add]
  exact balance_define_le ..

theorem spends_rewrite (floors : Floors) (scope : Nat) {target : String}
    {update : Expression ν → Expression ν} (more : Use → ℕ) (hplain : U.isPlain target = true)
    (hfits : ∀ current, current.fits U = true → (update current).fits U = true)
    (huses : ∀ current u, (update current).uses u ≤ current.uses u + more u)
    (hmore : target ∈ U.drawn ∨ ∀ u, U.Covers u → more u = 0) :
    U.Spends (Inlining.assign floors scope target update)
      (fun u => (Expression.identifier (ν := ν) target).uses u + more u)
      (fun r u => r.1.uses u + more u) fun r =>
        r.1.fits U = true ∧ r.2.fits U = true ∧ ∀ u, r.2.uses u ≤ r.1.uses u + more u := by
  intro σ r σ' hσ hrun
  obtain ⟨owner, current, hfound, -, rfl, rfl⟩ := Inlining.assign_ok hrun
  obtain ⟨-, hfind⟩ := Scopes.mem_of_findIn? hfound
  have hcurrent : U.Allows target current := hσ.permits owner target _ hfind
  have hfree : U.IsFree current → (∀ u, U.Covers u → more u = 0) → U.IsFree (update current) :=
    fun hcurrent hmore u hu => by
      have := huses current u
      rw [hcurrent u hu, hmore u hu] at this
      exact Nat.le_zero.1 this
  have hallows : U.Allows target (update current) := by
    refine allows_plain hplain (hfits current hcurrent.fits) ?_
    rcases hcurrent.free with hname | hcurrent
    · exact .inl hname
    · exact hmore.imp_right (hfree hcurrent)
  refine ⟨hσ.define owner hallows, ⟨hcurrent.fits, hallows.fits, huses current⟩, ?_⟩
  intro live hlive
  by_cases hname : target ∈ U.drawn
  · have hmem : target ∈ live := hlive.mem_live hname (by simp)
    refine ⟨live.erase target, Finset.erase_subset .., fun u _ => ?_⟩
    have htake := Scopes.take_le hmem hfind u
    have hdefine := Scopes.balance_define_le σ owner target (.mutable (update current))
      (live.erase target) u
    rw [if_neg (Finset.notMem_erase target live)] at hdefine
    change current.uses u + _ ≤ _ at htake
    dsimp only
    rw [Expression.uses_identifier]
    omega
  · have hzero := hmore.resolve_left hname
    have hcurrent := hcurrent.free.resolve_left hname
    refine ⟨live, Finset.Subset.refl _, fun u hu => ?_⟩
    have hdefine := balance_define_le σ owner target (.mutable (update current)) live u
    have hupdate : (Scope.Binding.mutable (update current)).uses u = 0 :=
      hfree hcurrent hzero u hu
    dsimp only
    rw [hcurrent u hu, hzero u hu]
    omega

end Usage

end Waveform
