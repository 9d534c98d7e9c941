import Waveform.Proofs.Inlining.Hereditary
import Waveform.Proofs.Symbolic.HigherOrder
import Waveform.Proofs.Symbolic.Simplification
import Waveform.Proofs.Symbolic.Steps

/-!
# Recursion over a list

A function that adds up a list calls itself once for each entry and once more for the end of the
list. Over a list that is known, inlining follows these calls to the end if they may be nested as
deep as that. What is left is the sum of the entries.
-/

namespace Waveform

theorem Expression.isOver_hereditary {ν : Type} [Numeric ν] (names : List String) :
    Expression.Hereditary fun e : Expression ν => e.isOver names = true where
  literal _ := rfl
  unary _ _ := Iff.rfl
  binary _ _ _ := Bool.and_eq_true_iff
  logical _ _ _ := Bool.and_eq_true_iff
  conditional t c a := by simp [isOver, and_assoc]
  assignment _ _ _ := nofun

def Flow.result {ν : Type} (x : Except (SpecializationError ν) (Flow ν × Scopes ν)) :
    Except (SpecializationError ν) (Expression ν) :=
  x.map fun
    | (.returned value, _) => value
    | (.continues, _) => .undefined

theorem Flow.result_returned {ν : Type}
    (x : Except (SpecializationError ν) (Expression ν × Scopes ν)) :
    Flow.result (x.map fun r => (.returned r.1, r.2)) = x.map Prod.fst := by
  cases x <;> rfl

theorem Function.residual_eq_started {ν : Type} [Numeric ν] (f : Function ν) (path : String)
    (options : SpecializationOptions) :
    f.residual path options = Flow.result ((Statement.inlineAll options
      (Inlining.reduce options options.maxInlineDepth) ⟨0, 0⟩ 1 true f.body).run
        ((Scopes.start options.hardcodedBuiltins path f.params).hoist 1 f.body)) := by
  have hblock : (((((Scopes.empty (ν := ν) options.hardcodedBuiltins).root .closure
      path).2.defineParameters 0 f.params).child 0 .block).1) = 1 := by
    rw [Scopes.child, Scopes.size_defineParameters]
    rfl
  rw [← hblock]
  unfold Function.residual
  dsimp only [Scopes.start]
  split
  · next hrun => exact (congrArg Flow.result hrun).symm
  · next hrun => exact (congrArg Flow.result hrun).symm
  · next hrun => exact (congrArg Flow.result hrun).symm

variable {M : Mathematics}

namespace ListSum

/-- An entry of the list. -/
inductive Item
  | number (value : ℚ)
  | parameter (name : String)

namespace Item

def expression : Item → Expression (Exact M)
  | number q => .number (.of q)
  | parameter name => .identifier name

def value (ρ : Valuation) : Item → ℚ
  | number q => q
  | parameter name => (ρ name).getD 0

/-- The entry is a number or one of the parameters, and none that the function itself hides. -/
def IsKnown (params : List String) : Item → Prop
  | number _ => True
  | parameter name => name ∈ params ∧ name ≠ "sum"

end Item

/-- The first entry and the sum of the others, or zero at the end of the list. -/
def step : Expression (Exact M) :=
  .conditional (.binary .strictEqual (.identifier "xs") .null) (.number (.of 0))
    (.binary .add (.member (.identifier "xs") (.number (.of 0)))
      (.call (.identifier "sum") [.member (.identifier "xs") (.number (.of 1))]))

def sum : Function (Exact M) := ⟨["xs"], [.result (some step)]⟩

def total (params : List String) (items : List Item) : Function (Exact M) where
  params := params
  body :=
    [.ofDeclaration ⟨"sum", sum⟩,
      .result (some (.call (.identifier "sum")
        [.call (.builtin .list) (items.map (·.expression))]))]

def folded : List (Expression (Exact M)) → Expression (Exact M)
  | [] => .number (.of 0)
  | e :: es => (Expression.binary .add e (folded es)).simplify.simplify

/-! ## Inlining the calls -/

/-- The function is bound in its own frame. -/
structure Bound (σ : Scopes (Exact M)) (home : Nat) : Prop where
  place : σ.HasPlace home
  seen : σ.seen? home "sum" = some (.constant (.function ["xs"] [.result (some step)] (some home)))

variable {σ : Scopes (Exact M)} {home : Nat}

/-- The scopes with a frame for a call, in which the parameter is bound, and one for its body. -/
def entered (σ : Scopes (Exact M)) (home : Nat) (list : Expression (Exact M)) :
    Scopes (Exact M) :=
  (((σ.child home .substitute).2.define σ.size "xs" (.constant list)).child σ.size .block).2

section Entered

variable (h : Bound σ home) (list : Expression (Exact M))

theorem undisturbed_entered : σ.Undisturbed (entered σ home list) :=
  ((Scopes.undisturbed_child ..).define (Nat.le_refl _) ..).trans (Scopes.undisturbed_child ..)

include h

theorem Bound.seen?_entered (name : String) :
    (entered σ home list).seen? (σ.size + 1) name =
      if name = "xs" then some (.constant list) else σ.seen? home name := by
  have hplace := Scopes.hasPlace_define (Scopes.hasPlace_child h.place .substitute) σ.size "xs"
    (.constant list)
  have hseen := Scopes.seen?_child hplace .block name
  rw [Scopes.size_define, Scopes.size_child] at hseen
  rw [entered, hseen, Scopes.seen?_child_define h.place]

theorem Bound.entered : Bound (entered σ home list) home where
  place := (undisturbed_entered list).hasPlace h.place
  seen := ((undisturbed_entered list).seen? h.place "sum").trans h.seen

end Entered

theorem reduce_succ (options : SpecializationOptions) (depth : Nat) (floors : Floors)
    (scope : Nat) (list : Expression (Exact M)) :
    (Inlining.reduce options (depth + 1) floors scope sum (some home) [list]).run σ =
      (do
        let value ← step.inline options.residualBuiltins (Inlining.reduce options depth)
          { floors with call := σ.size } (σ.size + 1)
        return value.simplify : Inlining (Exact M) (Expression (Exact M))).run
          (entered σ home list) := by
  have hsize : ((σ.child home .substitute).2.define σ.size "xs" (.constant list)).size =
      σ.size + 1 := by
    rw [Scopes.size_define, Scopes.size_child]
  rw [Inlining.reduce, Inlining.run_child_bind, Inlining.run_modify_bind, Inlining.run_child_bind,
    Inlining.run_modify_bind]
  dsimp only [Scopes.defineArguments, Option.getD_some, sum]
  rw [hsize, Statement.inlineAll, Statement.step]
  simp only [bind_assoc, pure_bind]
  rfl

section Step

variable {residual : List Builtin} {reduce : Reducer (Exact M)} {floors : Floors} {scope : Nat}
  {τ : Scopes (Exact M)}

theorem member_pair {e rest : Expression (Exact M)}
    (hxs : τ.seen? scope "xs" = some (.constant (.array [e, rest]))) (k : ℕ) :
    ((Expression.member (.identifier "xs") (.number (.of k))).inline residual reduce floors
      scope).run τ = .ok ([e, rest][k]?.getD .undefined, τ) := by
  have hread : ((Expression.identifier "xs").inline residual reduce floors scope).run τ =
      .ok (.array [e, rest], τ) := by
    rw [Expression.inline, Inlining.read_run, hxs]
    rfl
  have hnumber : ((Expression.number (.of k)).inline residual reduce floors scope).run τ =
      .ok (.number (.of k), τ) := by
    rw [Expression.number, Expression.inline]
    rfl
  have hk : Numeric.toNat? (.of k : Exact M) = some k := Exact.toNat?_iff.2 rfl
  rw [Expression.inline, Inlining.run_bind_of_ok hread, Inlining.run_bind_of_ok hnumber]
  change (pure (((Numeric.toNat? (.of k : Exact M)).bind fun i => [e, rest][i]?).getD .undefined) :
    Inlining (Exact M) (Expression (Exact M))).run τ = _
  rw [hk]
  rfl

theorem test_run {list : Expression (Exact M)} {b : Bool}
    (hxs : τ.seen? scope "xs" = some (.constant list))
    (hb : (Expression.binary .strictEqual list .null).simplify = .boolean b) :
    ((Expression.binary .strictEqual (.identifier "xs") .null).inline residual reduce floors
      scope).run τ = .ok (.boolean b, τ) := by
  have hread : ((Expression.identifier "xs").inline residual reduce floors scope).run τ =
      .ok (list, τ) := by
    rw [Expression.inline, Inlining.read_run, hxs]
    rfl
  have hnull : (Expression.null.inline residual reduce floors scope).run τ = .ok (.null, τ) := by
    rw [Expression.null, Expression.inline]
    rfl
  rw [Expression.inline, Inlining.run_bind_of_ok hread, Inlining.run_bind_of_ok hnull, hb]
  rfl

theorem step_null (hxs : τ.seen? scope "xs" = some (.constant .null)) :
    (step.inline residual reduce floors scope).run τ = .ok (.number (.of 0), τ) := by
  rw [step, Expression.inline, Inlining.run_bind_of_ok (test_run hxs rfl)]
  change ((Expression.number (.of 0)).inline residual reduce floors scope).run τ = _
  rw [Expression.number, Expression.inline]
  rfl

/-- Before the end of the list, the step adds the first entry to what a call gives for the
others. -/
theorem step_pair {e rest : Expression (Exact M)} {home : Nat}
    (hxs : τ.seen? scope "xs" = some (.constant (.array [e, rest])))
    (hsum : τ.seen? scope "sum" =
      some (.constant (.function ["xs"] [.result (some step)] (some home)))) :
    (step.inline residual reduce floors scope).run τ =
      (do
        let others ← reduce floors scope sum (some home) [rest]
        return (Expression.binary .add e others).simplify :
          Inlining (Exact M) (Expression (Exact M))).run τ := by
  have hfirst : ((Expression.member (.identifier "xs") (.number (.of 0))).inline residual reduce
      floors scope).run τ = .ok (e, τ) := by simpa using member_pair hxs 0
  have hothers : ((Expression.member (.identifier "xs") (.number (.of 1))).inline residual reduce
      floors scope).run τ = .ok (rest, τ) := by simpa using member_pair hxs 1
  have hcallee : ((Expression.identifier "sum").inline residual reduce floors scope).run τ =
      .ok (.function ["xs"] [.result (some step)] (some home), τ) := by
    rw [Expression.inline, Inlining.read_run, hsum]
    rfl
  have harguments : (Expression.inlineAll residual reduce floors scope
      [.member (.identifier "xs") (.number (.of 1))]).run τ = .ok ([rest], τ) := by
    rw [Expression.inlineAll, Inlining.run_bind_of_ok hothers]
    rfl
  rw [step, Expression.inline, Inlining.run_bind_of_ok (test_run hxs rfl)]
  change ((Expression.binary .add _ _).inline residual reduce floors scope).run τ = _
  rw [Expression.inline, Inlining.run_bind_of_ok hfirst, Expression.inline, bind_assoc,
    Inlining.run_bind_of_ok hcallee, bind_assoc, Inlining.run_bind_of_ok harguments]
  rfl

end Step

/-- Calls of the function that may be nested to the given depth come to the end of a list exactly
if it has fewer entries than that. -/
theorem reduce_run (options : SpecializationOptions) (items : List (Expression (Exact M)))
    (depth : Nat) (floors : Floors) (scope : Nat) (h : Bound σ home) :
    (items.length < depth → ∃ τ,
      (Inlining.reduce options depth floors scope sum (some home) [.ofList items]).run σ =
        .ok (folded items, τ)) ∧
    (depth ≤ items.length →
      (Inlining.reduce options depth floors scope sum (some home) [.ofList items]).run σ =
        .error (.tooDeep options.maxInlineDepth sum)) := by
  induction items generalizing depth floors scope σ with
  | nil =>
    cases depth with
    | zero => exact ⟨fun hlt => absurd hlt (Nat.lt_irrefl 0), fun _ => rfl⟩
    | succ depth =>
      refine ⟨fun _ => ?_, fun hle => absurd hle (Nat.not_succ_le_zero depth)⟩
      have hxs := h.seen?_entered .null "xs"
      rw [if_pos rfl] at hxs
      exact ⟨_, (reduce_succ ..).trans (Inlining.run_bind_of_ok (step_null hxs))⟩
  | cons e es ih =>
    cases depth with
    | zero => exact ⟨fun hlt => absurd hlt (Nat.not_lt_zero _), fun _ => rfl⟩
    | succ depth =>
      have hxs := h.seen?_entered (.ofList (e :: es)) "xs"
      rw [if_pos rfl] at hxs
      have hsum := h.seen?_entered (.ofList (e :: es)) "sum"
      rw [if_neg (by decide), h.seen] at hsum
      obtain ⟨hends, hdeep⟩ := ih depth { floors with call := σ.size } (σ.size + 1)
        (h.entered (.ofList (e :: es)))
      rw [reduce_succ, StateT.run_bind, step_pair hxs hsum, List.length_cons]
      constructor
      · intro hlength
        obtain ⟨τ, hτ⟩ := hends (by omega)
        refine ⟨τ, ?_⟩
        change StateT.run (Inlining.reduce options depth _ _ sum (some home) [.ofList es] >>= _) _
          >>= _ = _
        rw [Inlining.run_bind_of_ok hτ]
        rfl
      · intro hlength
        have hτ := hdeep (by omega)
        change StateT.run (Inlining.reduce options depth _ _ sum (some home) [.ofList es] >>= _) _
          >>= _ = _
        rw [StateT.run_bind, hτ]
        rfl

/-! ## The function that returns the sum -/

section Total

variable {params : List String} {items : List Item}

def base (options : SpecializationOptions) (path : String) (params : List String) :
    Scopes (Exact M) :=
  (Scopes.start options.hardcodedBuiltins path params).define 1 "sum"
    (.constant (.function ["xs"] [.result (some step)] (some 1)))

variable (options : SpecializationOptions) (path : String)

theorem one_lt_size_start (hardcoded : List Builtin) (params : List String) :
    1 < (Scopes.start hardcoded path params : Scopes (Exact M)).size := by
  rw [Scopes.start, Scopes.size_child, Scopes.size_defineParameters]
  exact Nat.one_lt_two

theorem base_bound (params : List String) :
    Bound (base options path params : Scopes (Exact M)) 1 where
  place := Scopes.hasPlace_define (Scopes.hasPlace_start _ path params) 1 _ _
  seen := by
    rw [base, Scopes.seen?_define (one_lt_size_start ..), if_pos rfl]

theorem shows_base (params : List String) :
    (base options path params : Scopes (Exact M)).Shows 1 (params.filter (· ≠ "sum"))
      .identifier := by
  have hstart : (Scopes.start options.hardcodedBuiltins path params : Scopes (Exact M)).Shows 1
      (params.filter (· ≠ "sum")) .identifier :=
    (Scopes.shows_start options.hardcodedBuiltins path params).mono (List.filter_subset_self ..)
  exact hstart.define_other (one_lt_size_start ..) (by simp) _

theorem isOver_item {item : Item} (h : item.IsKnown params) :
    (item.expression : Expression (Exact M)).isOver (params.filter (· ≠ "sum")) = true := by
  cases item with
  | number q => rfl
  | parameter name =>
    change (params.filter (· ≠ "sum")).contains name = true
    rw [List.contains_iff_mem, List.mem_filter]
    exact ⟨h.1, by simpa using h.2⟩

theorem isOver_item_params {item : Item} (h : item.IsKnown params) :
    (item.expression : Expression (Exact M)).isOver params = true := by
  cases item with
  | number q => rfl
  | parameter name => exact List.contains_iff_mem.2 h.1

theorem resolve_item (item : Item) :
    (item.expression : Expression (Exact M)).resolve .identifier = item.expression := by
  cases item <;> rfl

variable {reduce : Reducer (Exact M)} {floors : Floors}

theorem inlineAll_items (h : ∀ item ∈ items, item.IsKnown params) :
    (Expression.inlineAll options.residualBuiltins reduce floors 1
      (items.map (·.expression))).run (base options path params : Scopes (Exact M)) =
        .ok (items.map (·.expression), base options path params) := by
  induction items with
  | nil => rfl
  | cons item items ih =>
    have hitem : (item.expression.inline options.residualBuiltins reduce floors 1).run
        (base options path params : Scopes (Exact M)) =
          .ok (item.expression.resolve .identifier, base options path params) :=
      (shows_base options path params).inlinesTo (isOver_item (h item (List.mem_cons_self ..)))
        floors
    rw [resolve_item] at hitem
    have hitems := ih fun other hother => h other (List.mem_cons_of_mem _ hother)
    rw [List.map_cons, Expression.inlineAll, Inlining.run_bind_of_ok hitem,
      Inlining.run_bind_of_ok hitems]
    rfl

theorem inline_list (h : ∀ item ∈ items, item.IsKnown params) :
    ((Expression.call (.builtin .list) (items.map (·.expression))).inline options.residualBuiltins
      reduce floors 1).run (base options path params : Scopes (Exact M)) =
        .ok (.ofList (items.map (·.expression)), base options path params) := by
  have hcallee : ((Expression.builtin .list).inline options.residualBuiltins reduce floors 1).run
      (base options path params : Scopes (Exact M)) =
        .ok (.builtin .list, base options path params) := by
    rw [Expression.inline]
    rfl
  rw [Expression.inline, Inlining.run_bind_of_ok hcallee,
    Inlining.run_bind_of_ok (inlineAll_items options path h)]
  rfl

theorem residual_total (h : ∀ item ∈ items, item.IsKnown params) :
    (total params items : Function (Exact M)).residual path options =
      ((Inlining.reduce options options.maxInlineDepth ⟨0, 0⟩ 1 sum (some 1)
        [.ofList (items.map (·.expression))]).run (base options path params)).map Prod.fst := by
  let σ : Scopes (Exact M) := base options path params
  let reduce : Reducer (Exact M) := Inlining.reduce options options.maxInlineDepth
  have hcallee : ((Expression.identifier "sum").inline options.residualBuiltins reduce ⟨0, 0⟩
      1).run σ = .ok (.function ["xs"] [.result (some step)] (some 1), σ) := by
    rw [Expression.inline, Inlining.read_run, (base_bound options path params).seen]
    rfl
  have hargument : (Expression.inlineAll options.residualBuiltins reduce ⟨0, 0⟩ 1
      [.call (.builtin .list) (items.map (·.expression))]).run σ =
        .ok ([.ofList (items.map (·.expression))], σ) := by
    rw [Expression.inlineAll, Inlining.run_bind_of_ok (inline_list options path h)]
    rfl
  have hcall : ((Expression.call (.identifier "sum") [.call (.builtin .list)
      (items.map (·.expression))]).inline options.residualBuiltins reduce ⟨0, 0⟩ 1).run σ =
        (reduce ⟨0, 0⟩ 1 sum (some 1) [.ofList (items.map (·.expression))]).run σ := by
    rw [Expression.inline, Inlining.run_bind_of_ok hcallee, Inlining.run_bind_of_ok hargument]
    rfl
  have hbody : (Statement.inlineAll options reduce ⟨0, 0⟩ 1 true
      (total params items : Function (Exact M)).body).run σ =
        ((reduce ⟨0, 0⟩ 1 sum (some 1) [.ofList (items.map (·.expression))]).run σ).map
          fun r => (.returned r.1, r.2) := by
    rw [total, Statement.inlineAll]
    change (Statement.inlineAll options reduce ⟨0, 0⟩ 1 true [.result (some _)]).run σ = _
    rw [Statement.inlineAll, Statement.step, bind_assoc, StateT.run_bind, hcall]
    rcases (reduce ⟨0, 0⟩ 1 sum (some 1) [.ofList (items.map (·.expression))]).run σ with
      _ | ⟨_, _⟩ <;> rfl
  rw [Function.residual_eq_started]
  change Flow.result (StateT.run _ σ) = _
  rw [hbody]
  exact Flow.result_returned _

/-! ## The sum that is left -/

theorem isOver_folded {names : List String} {es : List (Expression (Exact M))}
    (h : ∀ e ∈ es, e.isOver names = true) : (folded es).isOver names = true := by
  induction es with
  | nil => rfl
  | cons e es ih =>
    have hrest := ih fun other hother => h other (List.mem_cons_of_mem _ hother)
    have hsum : (Expression.binary .add e (folded es)).isOver names = true :=
      Bool.and_eq_true_iff.2 ⟨h e (List.mem_cons_self ..), hrest⟩
    have hereditary := Expression.isOver_hereditary (ν := Exact M) names
    exact hereditary.simplify (hereditary.simplify hsum)

variable {ρ : Valuation}

theorem denote_item (hρ : ∀ p ∈ params, (ρ p).isSome = true) {item : Item}
    (h : item.IsKnown params) :
    (item.expression : Expression (Exact M)).denote ρ = some (.number (item.value ρ)) := by
  cases item with
  | number q =>
    rw [Item.expression, Expression.number, Expression.denote]
    rfl
  | parameter name =>
    obtain ⟨q, hq⟩ := Option.isSome_iff_exists.1 (hρ name h.1)
    rw [Item.expression, Expression.denote, hq, Item.value, hq]
    rfl

/-- What is left denotes the sum of what the entries stand for. -/
theorem denote_folded (hnonneg : ∀ name q, ρ name = some q → 0 ≤ q)
    (hρ : ∀ p ∈ params, (ρ p).isSome = true) (h : ∀ item ∈ items, item.IsKnown params) :
    (folded (items.map (·.expression)) : Expression (Exact M)).denote ρ =
      some (.number (items.map (·.value ρ)).sum) := by
  induction items with
  | nil =>
    rw [List.map_nil, folded, Expression.number, Expression.denote]
    rfl
  | cons item items ih =>
    have hrest := ih fun other hother => h other (List.mem_cons_of_mem _ hother)
    have hitem := denote_item (M := M) hρ (h item (List.mem_cons_self ..))
    have hsum : (Expression.binary .add item.expression
        (folded (items.map (·.expression)))).denote ρ =
          some (.number (item.value ρ + (items.map (·.value ρ)).sum) : Meaning M) :=
      Expression.denote_binary.2 ⟨_, _, hitem, hrest, rfl⟩
    rw [List.map_cons, folded, List.map_cons, List.sum_cons]
    exact Expression.denote_simplify hnonneg (Expression.denote_simplify hnonneg hsum)

theorem isSome_ofArguments (params : List String) (args : List ℚ) {p : String} (hp : p ∈ params) :
    (Valuation.ofArguments params args p).isSome = true := by
  rw [Valuation.ofArguments, Bindings.isSome_withParams, List.contains_iff_mem.2 hp, Bool.true_or]

/-- The sum of a list is reduced exactly if calls may be nested deeper than the list is long. What
is left has no calls and no other parts than literals, parameters and operators, and evaluates to
the sum of the entries for all arguments that are not negative. -/
theorem total_residual (h : ∀ item ∈ items, item.IsKnown params) :
    (items.length < options.maxInlineDepth →
      ∃ e : Expression (Exact M), (total params items).residual path options = .ok e ∧
        e.isOver params = true ∧
        ∀ args : List ℚ, (∀ q ∈ args, 0 ≤ q) → params.length ≤ args.length →
          ∀ patience i name env s, ∃ t,
            (Run.call none (patience + 2) 0
              (.closure ⟨i, name, ⟨params, [.result (some e)]⟩, env⟩)
              (Value.ofNumbers args)).outcome s = (.ok (.number (.of
                  (items.map (·.value (.ofArguments params args))).sum)), t)) ∧
    (options.maxInlineDepth ≤ items.length →
      ∃ error, (total params items : Function (Exact M)).residual path options = .error error ∧
        error.kind = .recursionLimit) := by
  have hreduce := reduce_run (M := M) options (items.map (·.expression)) options.maxInlineDepth
    ⟨0, 0⟩ 1 (base_bound options path params)
  rw [List.length_map] at hreduce
  obtain ⟨hends, hdeep⟩ := hreduce
  rw [residual_total options path h]
  constructor
  · intro hlength
    obtain ⟨τ, hτ⟩ := hends hlength
    refine ⟨folded (items.map (·.expression)), by rw [hτ]; rfl, ?_, ?_⟩
    · apply isOver_folded
      intro e he
      obtain ⟨item, hitem, rfl⟩ := List.mem_map.1 he
      exact isOver_item_params (h item hitem)
    · intro args hargs hparams patience i name env s
      have hdenote := denote_folded (M := M) (Valuation.ofArguments_nonneg params hargs)
        (fun p hp => isSome_ofArguments params args hp) h
      exact Function.call_result hparams hdenote rfl patience i name env s
  · intro hlength
    exact ⟨_, by rw [hdeep hlength]; rfl, rfl⟩

end Total

/-- The sum of a parameter and a number, within the limit and beyond it. -/
theorem pair_total_residual :
    (∃ e : Expression (Exact .zero),
      (total ["t"] [.parameter "t", .number 2]).residual "wave" .tight = .ok e ∧
        e.isOver ["t"] = true ∧
        ∃ t, (Run.call none 2 0 (.closure ⟨0, none, ⟨["t"], [.result (some e)]⟩, .global⟩)
          (Value.ofNumbers [5])).outcome .initial = (.ok (.number (.of 7)), t)) ∧
      ∃ error, (total ["t"] [.parameter "t", .number 2] : Function (Exact .zero)).residual "wave"
        { SpecializationOptions.tight with maxInlineDepth := 2 } = .error error ∧
          error.kind = .recursionLimit := by
  have hknown : ∀ item ∈ [Item.parameter "t", .number 2], item.IsKnown ["t"] := by
    simp [Item.IsKnown]
  have hsum : (7 : ℚ) = ([Item.parameter "t", .number 2].map
      (·.value (.ofArguments ["t"] [5]))).sum := by
    change (7 : ℚ) = 5 + (2 + 0)
    norm_num
  obtain ⟨e, he, hover, hcall⟩ := (total_residual .tight "wave" hknown).1 (by decide)
  refine ⟨⟨e, he, hover, ?_⟩, (total_residual _ "wave" hknown).2 (by decide)⟩
  rw [hsum]
  exact hcall [5] (by simp) (by decide) 0 0 none .global .initial

end ListSum

end Waveform
