import Waveform.Proofs.Symbolic.Steps
import Waveform.Proofs.Symbolic.Summation

/-!
# Terms that call functions

A round of a loop may add what functions without parameters give. Such functions can read the
variable that is added to, which arithmetic in the term of a sum cannot. In every round the
specializer inlines the calls as if the variable had its value from before the loop, whereas a run
calls the functions while the variable has its value before the round.
-/

namespace Waveform

open Semantics (ofNames lawful_ofNames)

variable {M : Mathematics}

/-- A function without parameters whose result is arithmetic. -/
structure Getter (M : Mathematics) where
  name : String
  result : Expression (Exact M)
  arithmetic : result.isArithmetic = true

namespace Getter

def function (G : Getter M) (home : Option Nat) : Expression (Exact M) :=
  .function [] [.result (some G.result)] home

def closure (G : Getter M) (id : Nat) (env : Environment) : Closure (Exact M) :=
  ⟨id, some G.name, ⟨[], [.result (some G.result)]⟩, env⟩

end Getter

/-- Arithmetic, calls of functions, and operations on them. -/
inductive Addend (M : Mathematics)
  | plain (e : Expression (Exact M)) (arithmetic : e.isArithmetic = true)
  | call (G : Getter M)
  | binary (op : BinaryOperator) (a b : Addend M)

namespace Addend

def expression : Addend M → Expression (Exact M)
  | .plain e _ => e
  | .call G => .call (.identifier G.name) []
  | .binary op a b => .binary op a.expression b.expression

def calls : Addend M → List String
  | .plain _ _ => []
  | .call G => [G.name]
  | .binary _ a b => a.calls ++ b.calls

/-- What it is inlined to, given what names stand for around it and in the functions. -/
def resolve (μ κ : String → Expression (Exact M)) : Addend M → Expression (Exact M)
  | .plain e _ => e.resolve μ
  | .call G => (G.result.resolve κ).simplify
  | .binary op a b => (Expression.binary op (a.resolve μ κ) (b.resolve μ κ)).simplify

/-- The number that it comes to, given what names stand for around it and in the functions. -/
def Comes (ν ξ : Literals M) : Addend M → ℚ → Prop
  | .plain e _, q => (ofNames ν).denote e = some (.number q)
  | .call G, q => (ofNames ξ).denote G.result = some (.number q)
  | .binary op a b, q => ∃ p r, a.Comes ν ξ p ∧ b.Comes ν ξ r ∧
    op.combine? (.number (.of p)) (.number (.of r)) = some (.number (.of q) : Literal (Exact M))

section

variable {ν ξ : Literals M} {ρ : Valuation} {μ κ : String → Expression (Exact M)}

theorem Comes.unique {a : Addend M} {q q' : ℚ} (h : a.Comes ν ξ q) (h' : a.Comes ν ξ q') :
    q = q' := by
  induction a generalizing q q' with
  | plain e _ => exact Meaning.number_inj (Option.some.inj (h.symm.trans h'))
  | call G => exact Meaning.number_inj (Option.some.inj (h.symm.trans h'))
  | binary op a b iha ihb =>
    obtain ⟨p, r, hp, hr, hq⟩ := h
    obtain ⟨p', r', hp', hr', hq'⟩ := h'
    rw [iha hp hp', ihb hr hr', hq'] at hq
    exact (Exact.of_inj (Literal.number.inj (Option.some.inj hq))).symm

/-- What it is inlined to denotes the number that it comes to. -/
theorem Comes.denote_resolve (hρ : ∀ name q, ρ name = some q → 0 ≤ q) (hμ : ρ.Denotes ν μ)
    (hκ : ρ.Denotes ξ κ) {a : Addend M} {q : ℚ} (h : a.Comes ν ξ q) :
    (ofNames ρ.names).denote (a.resolve μ κ) = some (.number q) := by
  induction a generalizing q with
  | plain e _ => exact Expression.denote_resolve hρ hμ e h
  | call G =>
    exact (lawful_ofNames hρ).denote_simplify (Expression.denote_resolve hρ hκ G.result h)
  | binary op a b iha ihb =>
    obtain ⟨p, r, hp, hr, hq⟩ := h
    refine (lawful_ofNames hρ).denote_simplify
      (Semantics.denote_binary.2 ⟨_, _, iha hp, ihb hr, ?_⟩)
    exact Literals.operate_eq_some.2 ⟨_, _, _, rfl, rfl, rfl, hq⟩

end

/-! ### Inlining -/

section

variable {options : SpecializationOptions} {depth i j home outer : Nat} {σ τ : Scopes (Exact M)}
  {μ κ : String → Expression (Exact M)} {hidden : List String}

/-- From the frame, its names can be read unless they are hidden, and its functions are seen. These
were made in one frame, from which the names of their results can be read. -/
def Shown (σ : Scopes (Exact M)) (i home : Nat) (μ κ : String → Expression (Exact M))
    (hidden : List String) : Addend M → Prop
  | .plain e _ => ∀ name, e.references name = true → name ∉ hidden →
    (Inlining.read i name).run σ = .ok (μ name, σ)
  | .call G => σ.seen? i G.name = some (.constant (G.function (some home))) ∧
    σ.Resolves home G.result κ
  | .binary _ a b => a.Shown σ i home μ κ hidden ∧ b.Shown σ i home μ κ hidden

open Scopes Inlining

theorem Shown.congr {a : Addend M} (h : a.Shown σ i home μ κ hidden)
    (hseen : ∀ name, τ.seen? j name = σ.seen? i name)
    (hhome : ∀ name, τ.seen? home name = σ.seen? home name) : a.Shown τ j home μ κ hidden := by
  induction a with
  | plain e _ => exact fun name hname hhidden => read_congr (hseen name) (h name hname hhidden)
  | call G =>
    exact ⟨(hseen G.name).trans h.1, fun name hname => read_congr (hhome name) (h.2 name hname)⟩
  | binary op a b iha ihb => exact ⟨iha h.1, ihb h.2⟩

theorem Shown.undisturbed {a : Addend M} (h : a.Shown σ i home μ κ hidden) (hplace : σ.HasPlace i)
    (hhome : σ.HasPlace home) (hτ : σ.Undisturbed τ) : a.Shown τ i home μ κ hidden :=
  h.congr (hτ.seen? hplace) (hτ.seen? hhome)

theorem Shown.child {a : Addend M} (h : a.Shown σ i home μ κ hidden) (hplace : σ.HasPlace i)
    (hhome : σ.HasPlace home) (kind : Scope.Kind) :
    a.Shown (σ.child i kind).2 σ.size home μ κ hidden :=
  h.congr (seen?_child hplace kind) ((undisturbed_child σ i kind).seen? hhome)

theorem Shown.iteration {L : Summation M} {a : Addend M}
    (h : a.Shown σ i home μ κ [L.counter]) (hplace : σ.HasPlace i) (hhome : σ.HasPlace home)
    (hcalls : L.counter ∉ a.calls) (k : ℕ) :
    a.Shown (L.iteration σ i k) σ.size home (L.meaning μ k) κ [] := by
  have hseen := seen?_child_define hplace .loop L.counter
    (.constant (.number (.of (L.index k)) : Expression (Exact M)))
  have hτ := Summation.undisturbed_iteration (Undisturbed.refl σ) L i k
  induction a with
  | plain e _ =>
    intro name hname _
    have hname' := hseen name
    rw [Summation.meaning]
    by_cases hcounter : name = L.counter
    · rw [if_pos hcounter] at hname' ⊢
      rw [Summation.iteration, read_run, hname']
      rfl
    · rw [if_neg hcounter] at hname' ⊢
      exact read_congr hname' (h name hname (by simpa using hcounter))
  | call G =>
    have hname := hseen G.name
    rw [if_neg fun heq => hcalls (by simp [calls, heq])] at hname
    exact ⟨hname.trans h.1, fun name hname => read_congr (hτ.seen? hhome name) (h.2 name hname)⟩
  | binary op a b iha ihb =>
    rw [calls, List.mem_append, not_or] at hcalls
    exact ⟨iha h.1 hcalls.1, ihb h.2 hcalls.2⟩

theorem Shown.inline {a : Addend M} (h : a.Shown σ i home μ κ []) (hplace : σ.HasPlace i)
    (hhome : σ.HasPlace home) (floors : Floors) :
    ∃ τ, σ.Undisturbed τ ∧ (a.expression.inline options.residualBuiltins
      (Inlining.reduce options (depth + 1)) floors i).run σ = .ok (a.resolve μ κ, τ) := by
  induction a generalizing σ with
  | plain e harithmetic =>
    exact ⟨σ, .refl σ, Expression.inline_of_isArithmetic floors e harithmetic
      fun name hname => h name hname List.not_mem_nil⟩
  | call G =>
    have hread : (Expression.identifier G.name).InlinesTo options
        (Inlining.reduce options (depth + 1)) i σ (G.function (some home)) :=
      Expression.inlinesTo_identifier h.1
    have hresult : G.result.InlinesTo options (Inlining.reduce options depth) (σ.size + 1)
        (σ.body home) (G.result.resolve κ) := fun floors =>
      Expression.inline_of_isArithmetic floors G.result G.arithmetic fun name hname =>
        read_congr (seen?_body hhome name) (h.2 name hname)
    refine ⟨σ.body home, (undisturbed_child ..).trans (undisturbed_child ..), ?_⟩
    rw [expression, call_function (hread floors)]
    exact reduce_of_body rfl (inlineAll_result hresult)
  | binary op a b iha ihb =>
    obtain ⟨τ, hτ, ha⟩ := iha h.1 hplace hhome
    obtain ⟨υ, hυ, hb⟩ := ihb (h.2.undisturbed hplace hhome hτ) (hτ.hasPlace hplace)
      (hτ.hasPlace hhome)
    refine ⟨υ, hτ.trans hυ, ?_⟩
    rw [expression, Expression.inline, run_bind_of_ok ha, run_bind_of_ok hb]
    rfl

theorem Shown.yields {L : Summation M} {a : Addend M} (h : a.Shown σ outer home μ κ [L.counter])
    (hplace : σ.HasPlace outer) (hhome : σ.HasPlace home) (hcalls : L.counter ∉ a.calls)
    (floors : Floors) :
    L.Yields options.residualBuiltins (Inlining.reduce options (depth + 1)) floors outer σ
      a.expression fun k => a.resolve (L.meaning μ k) κ := by
  intro τ hτ k
  have hplace' : τ.HasPlace outer := hτ.hasPlace hplace
  have hhome' : τ.HasPlace home := hτ.hasPlace hhome
  have hiteration : σ.Undisturbed (L.iteration τ outer k) :=
    Summation.undisturbed_iteration hτ L outer k
  have hshown := (h.undisturbed hplace hhome hτ).iteration hplace' hhome' hcalls k
  have hsize : (L.iteration τ outer k).HasPlace τ.size :=
    hasPlace_define (hasPlace_child hplace' .loop) _ _ _
  obtain ⟨υ, hυ, hinline⟩ := hshown.inline hsize (hiteration.hasPlace hhome) floors
  exact ⟨υ, hiteration.trans hυ, hinline⟩

end

/-! ### Runs -/

section

variable {L : Summation M} {ν ξ : Literals M} {ρ : Valuation} {μ : String → Expression (Exact M)}
  {current : Expression (Exact M)} {c x : ℚ} {s t : Store (Exact M)} {env home : Environment}
  {owner k : ℕ}

/-- What the names of the functions stand for while the variable has a value. -/
def recalling (ξ : Literals M) (accumulator : String) (x : ℚ) : Literals M :=
  Function.update ξ accumulator (some (.number (.of x)))

def Bound (s : Store (Exact M)) (env home : Environment) : Addend M → Prop
  | .plain _ _ => True
  | .call G => ∃ id, s.lookup? G.name env = some (.closure (G.closure id home))
  | .binary _ a b => a.Bound s env home ∧ b.Bound s env home

/-- The functions see the variable, and names in them stand for literals. -/
structure Home (L : Summation M) (ξ : Literals M) (s : Store (Exact M)) (home : Environment)
    (owner : Nat) : Prop where
  frames : s.HasFrames home
  binds : ξ.HoldsIn s home
  owner : s.owner? L.accumulator home = some owner

theorem Home.holdsIn (h : Home L ξ s home owner) (hAt : L.At s owner x k t) :
    (recalling ξ L.accumulator x).HoldsIn t home := by
  intro name l hl
  rw [recalling, Function.update_apply] at hl
  split at hl
  · next hname =>
    cases hl
    rw [hname, hAt.lookup?_accumulator h.frames h.owner]
    rfl
  · next hname => rw [hAt.lookup?_before h.frames hname, h.binds name l hl]

/-- In a round it gives the number that it comes to while the variable has its value. -/
theorem Comes.gives {a : Addend M} {q : ℚ}
    (h : a.Comes (L.names ν k) (recalling ξ L.accumulator x) q)
    (hs : L.Agrees current μ ρ ν c s env owner) (hhome : Home L ξ s home owner)
    (hbound : a.Bound s env home) (hcalls : L.counter ∉ a.calls) (patience depth : Nat) :
    L.Gives (Run.call none (patience + 1) depth) s owner env k x a.expression q := by
  induction a generalizing q with
  | plain e _ =>
    intro t inner hAt hinner
    obtain ⟨_, ⟨⟩, hvalue⟩ := Expression.evaluate_of_denote (Run.call none (patience + 1) depth)
      (hinner.holdsIn_names hAt hs.frames hs.binds) e h
    exact ⟨t, hvalue, hAt, hinner⟩
  | call G =>
    intro t inner hAt hinner
    obtain ⟨id, hid⟩ := hbound
    have hcounter : G.name ≠ L.counter := fun heq => hcalls (by simp [calls, heq])
    have haccumulator : G.name ≠ L.accumulator := by
      intro heq
      rw [heq, hs.value] at hid
      cases hid
    have hread : ((Expression.identifier G.name).evaluate (Run.call none (patience + 1) depth)
        (inner ++ s.frames.size :: env)).outcome t = (.ok (.closure (G.closure id home)), t) := by
      refine Run.outcome_read_of_lookup ?_
      rw [hinner.lookup?_outer hAt hcounter, hAt.lookup?_before hs.frames haccumulator, hid]
    obtain ⟨_, ⟨⟩, hvalue⟩ := Expression.evaluate_of_denote
      (Run.call none patience (depth + 1)) ((hhome.holdsIn hAt).extend home) G.result h
    exact ⟨_, Expression.evaluate_call hread
      (Run.outcome_body rfl (Statement.executeAll_result hvalue)), hAt.extend home,
      (hinner.extend hAt home).tail⟩
  | binary op a b iha ihb =>
    intro t inner hAt hinner
    obtain ⟨p, r, hp, hr, hq⟩ := h
    rw [calls, List.mem_append, not_or] at hcalls
    obtain ⟨t₁, ha, hAt₁, hinner₁⟩ := iha hp hbound.1 hcalls.1 t inner hAt hinner
    obtain ⟨t₂, hb, hAt₂, hinner₂⟩ := ihb hr hbound.2 hcalls.2 t₁ inner hAt₁ hinner₁
    have hevaluate := Option.some.inj (Option.ite_none_right_eq_some.1 hq).2
    have happly : op.apply (.number (.of p)) (.number (.of r)) =
        (.number (.of q) : Value (Exact M)) :=
      (Reading.binary_apply_primitives op _ _).trans (congrArg Value.primitive hevaluate)
    refine ⟨t₂, ?_, hAt₂, hinner₂⟩
    rw [expression, Expression.evaluate]
    refine Run.bind_ok.2 ⟨_, t₁, ha, Run.bind_ok.2 ⟨_, t₂, hb, ?_⟩⟩
    rw [happly]
    rfl

end

end Addend

end Waveform
