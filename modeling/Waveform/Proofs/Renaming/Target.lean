import Waveform.Proofs.Number.Exact
import Waveform.Proofs.Renaming.Residual
import Waveform.Proofs.Renaming.Worklist

/-!
# Specializations under two names

What a closure is specialized to does not depend on the name that it is asked for by, as long as no
function on the way binds that name itself: a name that the merged function declares for the closure
would be hidden there.
-/

namespace Waveform

variable {ν : Type} {ρ : String → String}

/-! ## Checks -/

section Checks

/-- Two checks both find something, or neither does and the property holds. -/
def ChecksAlike (check check' : Except (SpecializationError ν) Unit) (same : Prop) : Prop :=
  (∃ e e', check = .error e ∧ check' = .error e') ∨ check = .ok () ∧ check' = .ok () ∧ same

theorem ChecksAlike.imp {check check' : Except (SpecializationError ν) Unit} {same same' : Prop}
    (h : ChecksAlike check check' same) (himp : same → same') :
    ChecksAlike check check' same' := by
  rcases h with herror | ⟨hok, hok', hsame⟩
  · exact .inl herror
  · exact .inr ⟨hok, hok', himp hsame⟩

theorem ChecksAlike.bind {first first' second second' : Except (SpecializationError ν) Unit}
    {same same' : Prop} (h : ChecksAlike first first' same)
    (h' : ChecksAlike second second' same') :
    ChecksAlike (first >>= fun _ => second) (first' >>= fun _ => second') (same ∧ same') := by
  rcases h with ⟨e, e', rfl, rfl⟩ | ⟨rfl, rfl, hsame⟩
  · exact .inl ⟨e, e', rfl, rfl⟩
  · exact h'.imp fun hsame' => ⟨hsame, hsame'⟩

variable {params : List String} {residual : List Builtin}

mutual

/-- What is accepted has no names but those of parameters, so it is the same under other names, if
the parameters keep theirs. -/
theorem Expression.checkResidual_rename (hρ : Function.Injective ρ)
    (hparams : ∀ p ∈ params, ρ p = p) : (e : Expression ν) →
      ChecksAlike (e.checkResidual params residual) ((e.rename ρ).checkResidual params residual)
        (e.rename ρ = e)
  | .literal _ => .inr ⟨rfl, rfl, rfl⟩
  | .identifier name => by
    have hcontains : params.contains (ρ name) = params.contains name := by
      rw [Bool.eq_iff_iff, List.contains_iff_mem, List.contains_iff_mem]
      constructor
      · exact fun hmem => hρ (hparams _ hmem) ▸ hmem
      · exact fun hmem => (hparams _ hmem).symm ▸ hmem
    simp only [Expression.rename, Expression.checkResidual, hcontains]
    split
    · next hmem => exact .inr ⟨rfl, rfl, by rw [hparams _ (List.contains_iff_mem.1 hmem)]⟩
    · exact .inl ⟨_, _, rfl, rfl⟩
  | .builtin _ | .function _ _ _ | .assignment _ _ _ | .update _ _ _ => .inl ⟨_, _, rfl, rfl⟩
  | .call callee arguments => by
    cases callee with
    | builtin b =>
      simp only [Expression.rename, Expression.checkResidual]
      split
      · exact (Expression.checkAllResidual_rename hρ hparams arguments).imp fun h => by rw [h]
      · exact .inl ⟨_, _, rfl, rfl⟩
    | _ => exact .inl ⟨_, _, rfl, rfl⟩
  | .array items => by
    simp only [Expression.rename, Expression.checkResidual]
    exact (Expression.checkAllResidual_rename hρ hparams items).imp fun h => by rw [h]
  | .member object property => by
    simp only [Expression.rename, Expression.checkResidual]
    refine ((object.checkResidual_rename hρ hparams).bind
      (property.checkResidual_rename hρ hparams)).imp fun h => ?_
    rw [h.1, h.2]
  | .unary op argument => by
    simp only [Expression.rename, Expression.checkResidual]
    exact (argument.checkResidual_rename hρ hparams).imp fun h => by rw [h]
  | .binary op left right | .logical op left right => by
    simp only [Expression.rename, Expression.checkResidual]
    refine ((left.checkResidual_rename hρ hparams).bind
      (right.checkResidual_rename hρ hparams)).imp fun h => ?_
    rw [h.1, h.2]
  | .conditional test consequent alternate => by
    simp only [Expression.rename, Expression.checkResidual]
    refine ((test.checkResidual_rename hρ hparams).bind
      ((consequent.checkResidual_rename hρ hparams).bind
        (alternate.checkResidual_rename hρ hparams))).imp fun h => ?_
    rw [h.1, h.2.1, h.2.2]

theorem Expression.checkAllResidual_rename (hρ : Function.Injective ρ)
    (hparams : ∀ p ∈ params, ρ p = p) : (es : List (Expression ν)) →
      ChecksAlike (Expression.checkAllResidual params residual es)
        (Expression.checkAllResidual params residual (Expression.renameAll ρ es))
        (Expression.renameAll ρ es = es)
  | [] => .inr ⟨rfl, rfl, rfl⟩
  | e :: es => by
    simp only [Expression.renameAll, Expression.checkAllResidual]
    refine ((e.checkResidual_rename hρ hparams).bind
      (Expression.checkAllResidual_rename hρ hparams es)).imp fun h => ?_
    rw [h.1, h.2]

end

end Checks

/-! ## Closures -/

section Closures

open CapturedUnits

variable [Numeric ν] {store : Store ν} {options : SpecializationOptions} {c : Closure ν}
  {n n' : String}

def Function.specialize (f : Function ν) (name : String) (options : SpecializationOptions) :
    Except (SpecializationError ν) (FunctionDeclaration ν) := do
  let value ← f.residual name options
  value.checkResidual f.params options.residualBuiltins
  return ⟨name, f.params, [.result (some value)]⟩

theorem Closure.specialize_of_merge {u : CapturedUnits ν} {merged : Function ν}
    (hu : ofClosure store options.hardcodedBuiltins n c = .ok u)
    (hmerge : u.merge n = .ok merged) :
    c.specialize store n options = merged.specialize n options := by
  rw [specialize, hu]
  change (u.merge n >>= _) = _
  rw [hmerge]
  rfl

/-- A function that is given other names for all but its parameters has the same result. -/
theorem Function.specialize_rename (hρ : Function.Injective ρ)
    (hhelper : ∀ b ∈ options.hardcodedBuiltins, ρ b.globalName = b.globalName) {f : Function ν}
    (hparams : ∀ p ∈ f.params, ρ p = p) (n n' : String) :
    (∃ e e', f.specialize n options = .error e ∧ (f.rename ρ).specialize n' options = .error e') ∨
      ∃ g, f.specialize n options = .ok ⟨n, g⟩ ∧
        (f.rename ρ).specialize n' options = .ok ⟨n', g⟩ := by
  unfold specialize
  rcases f.residual_rename hρ hhelper n n' with ⟨e, e', he, he'⟩ | ⟨value, hvalue, hvalue'⟩
  · rw [he, he']
    exact .inl ⟨e, e', rfl, rfl⟩
  · rw [hvalue, hvalue', rename, map_eq_self hparams]
    simp only [bind, Except.bind]
    rcases value.checkResidual_rename hρ hparams with ⟨e, e', he, he'⟩ | ⟨hok, hok', hsame⟩
    · rw [he, he']
      exact .inl ⟨e, e', rfl, rfl⟩
    · rw [hok, hok', hsame]
      exact .inr ⟨_, rfl, rfl⟩

/-- Under two names that are neither bound in a function that the closure leads to nor those of
helpers, a closure is specialized to one function, or under neither. -/
theorem Closure.specialize_name_indifferent
    (hhelper : ∀ b ∈ options.hardcodedBuiltins, Apart n n' b.globalName)
    (hown : ∀ d, c.Refers store options.hardcodedBuiltins d →
      ∀ name ∈ d.function.binders, Apart n n' name) :
    (∃ e e', c.specialize store n options = .error e ∧
        c.specialize store n' options = .error e') ∨
      ∃ f, c.specialize store n options = .ok ⟨n, f⟩ ∧
        c.specialize store n' options = .ok ⟨n', f⟩ := by
  rcases (abreast_start store options.hardcodedBuiltins n n' c).collect (store.made + 1) with
    ⟨e, e', he, he'⟩ | ⟨u, u', captured, hu, hu', habreast⟩
  · have hfails {m : String} {e : SpecializationError ν}
        (h : ofClosure store options.hardcodedBuiltins m c = .error e) :
        c.specialize store m options = .error e := by
      rw [specialize, h]
      rfl
    exact .inl ⟨e, e', hfails he, hfails he'⟩
  · obtain ⟨ρ, hρ⟩ := habreast.exists_translates
    obtain ⟨merged, hmerge, hmerge'⟩ := exists_merge_rename hu hu' habreast hρ
      fun d hd => hown d (habreast.left.refers hd)
    have hparams : ∀ p ∈ merged.params, ρ p = p := by
      rw [params_of_merge hu hmerge]
      exact fun p hp => hρ.apart (hown c .refl p (List.mem_append_left _ hp))
    rw [specialize_of_merge hu hmerge, specialize_of_merge hu' hmerge']
    exact Function.specialize_rename hρ.injective (fun b hb => hρ.apart (hhelper b hb)) hparams n n'

end Closures

/-! ### A name that is hidden

A function that calls itself, and binds another name for a function of its own. -/

namespace Hiding

open CapturedUnits

def wave : Function (Exact .zero) :=
  ⟨["t"], [.declaration .constant "h" (some (.function [] [.result (some (.number (.of 5)))] none)),
    .result (some (.conditional (.binary .strictEqual (.identifier "t") .null) (.number (.of 3))
      (.binary .add (.call (.identifier "wave") [.null]) (.call (.identifier "h") []))))]⟩

def program : Program (Exact .zero) where
  body := [.declaration .constant "wave" (some (.function wave.params wave.body none))]

def waveClosure : Closure (Exact .zero) := ⟨0, some "wave", wave, .global⟩

def store : Store (Exact .zero) := ⟨#[⟨("wave", .closure waveClosure) :: globals⟩], 1, 0⟩

/-- The function that the closure is specialized to, with its value for other arguments than
null. -/
def result (value : Int) : Function (Exact .zero) :=
  ⟨["t"], [.result (some (.conditional (.binary .strictEqual (.identifier "t") .null)
    (.number (.of 3)) (.number (.of value))))]⟩

/-- The name and the two numbers of a specialization that has the form of `result`. -/
def parts? : Except (SpecializationError (Exact .zero)) (FunctionDeclaration (Exact .zero)) →
    Option (String × Exact .zero × Exact .zero)
  | .ok ⟨name, ["t"], [.result (some (.conditional (.binary .strictEqual (.identifier "t")
      (.literal .null)) (.literal (.number a)) (.literal (.number b))))]⟩ => some (name, a, b)
  | _ => none

theorem eq_result {r : Except (SpecializationError (Exact .zero))
    (FunctionDeclaration (Exact .zero))} {name : String} {value : Int}
    (h : parts? r = some (name, .of 3, .of value)) : r = .ok ⟨name, result value⟩ := by
  unfold parts? at h
  split at h
  · cases h
    rfl
  · cases h

theorem refers_wave {d : Closure (Exact .zero)} (h : waveClosure.Refers store [.length] d) :
    d = waveClosure := by
  induction h with
  | refl => rfl
  | step _ he ih =>
    subst ih
    have hreferents : waveClosure.referents store [.length] = [waveClosure] := rfl
    rw [hreferents] at he
    exact List.mem_singleton.1 he

/-- Under a name that nothing binds the closure comes to the same function as under its own. -/
theorem specialize_other_name : program.run .standard = .ok store ∧
    waveClosure.specialize store "wave" .standard = .ok ⟨"wave", result 8⟩ ∧
    waveClosure.specialize store "other" .standard = .ok ⟨"other", result 8⟩ := by
  have hrun : program.run .standard = .ok store := rfl
  have hwave : waveClosure.specialize store "wave" .standard = .ok ⟨"wave", result 8⟩ :=
    eq_result (by decide +kernel)
  have hhelper : ∀ b ∈ SpecializationOptions.standard.hardcodedBuiltins,
      Apart "wave" "other" b.globalName := by
    rw [SpecializationOptions.standard, List.forall_mem_singleton]
    exact ⟨by decide, by decide, by decide⟩
  have hown : ∀ d, waveClosure.Refers store SpecializationOptions.standard.hardcodedBuiltins d →
      ∀ name ∈ d.function.binders, Apart "wave" "other" name := by
    intro d hd
    rw [refers_wave hd]
    have hbinders : waveClosure.function.binders = ["t", "h"] := rfl
    rw [hbinders, List.forall_mem_cons, List.forall_mem_singleton]
    exact ⟨⟨by decide, by decide, by decide⟩, by decide, by decide, by decide⟩
  rcases Closure.specialize_name_indifferent hhelper hown with
    ⟨e, e', he, -⟩ | ⟨f, hf, hother⟩
  · rw [hwave] at he
    cases he
  · rw [hwave] at hf
    cases hf
    exact ⟨hrun, hwave, hother⟩

/-- Under the name of its own constant the closure calls the constant in place of itself. -/
theorem specialize_depends_on_name : program.run .standard = .ok store ∧
    waveClosure.specialize store "wave" .standard = .ok ⟨"wave", result 8⟩ ∧
    waveClosure.specialize store "h" .standard = .ok ⟨"h", result 10⟩ ∧ result 8 ≠ result 10 := by
  have hbody : (result 8).body ≠ (result 10).body := by
    have hvalue : (Exact.of 8 : Exact .zero) ≠ .of 10 :=
      fun h => absurd (Exact.of_inj h) (by decide)
    simpa [result, Expression.number] using hvalue
  exact ⟨rfl, eq_result (by decide +kernel), eq_result (by decide +kernel),
    fun h => hbody (congrArg Function.body h)⟩

end Hiding

end Waveform
