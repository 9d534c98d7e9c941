import Waveform.Proofs.Inlining.Correspondence

/-!
# Entering blocks and calls

What both sides do before the first statement of a block or of a function: they open frames, bind
arguments and bind the functions that the block declares. Afterwards the frames correspond again,
in a world that knows the new ones.
-/

namespace Waveform

variable {ν : Type}

namespace Store

def bindParams (s : Store ν) (i : Nat) : List String → List (Value ν) → Store ν
  | [], _ => s
  | p :: ps, [] => (s.bind i p .undefined).bindParams i ps []
  | p :: ps, a :: as => (s.bind i p a).bindParams i ps as

@[simp] theorem size_bindParams (s : Store ν) (i : Nat) (params : List String)
    (args : List (Value ν)) : (s.bindParams i params args).frames.size = s.frames.size := by
  induction params generalizing s args with
  | nil => rfl
  | cons p ps ih => cases args <;> simp [bindParams, ih]

theorem frame_bindParams_self (s : Store ν) {i : Nat} (h : i < s.frames.size)
    (params : List String) (args : List (Value ν)) :
    (s.bindParams i params args).frame i = (s.frame i).withParams .undefined params args := by
  induction params generalizing s args with
  | nil => cases args <;> rfl
  | cons p ps ih =>
    cases args with
    | nil => rw [bindParams, ih _ (by simpa using h), frame_bind _ _ _ _ _ h, if_pos rfl]; rfl
    | cons a as => rw [bindParams, ih _ (by simpa using h), frame_bind _ _ _ _ _ h, if_pos rfl]; rfl

theorem frame_bindParams_of_ne (s : Store ν) {i j : Nat} (h : i < s.frames.size) (hj : j ≠ i)
    (params : List String) (args : List (Value ν)) :
    (s.bindParams i params args).frame j = s.frame j := by
  induction params generalizing s args with
  | nil => cases args <;> rfl
  | cons p ps ih =>
    cases args with
    | nil => rw [bindParams, ih _ (by simpa using h), frame_bind _ _ _ _ _ h, if_neg hj]
    | cons a as => rw [bindParams, ih _ (by simpa using h), frame_bind _ _ _ _ _ h, if_neg hj]

end Store

@[simp] theorem Run.outcome_defineParams (i : Nat) (env : Environment) (params : List String)
    (args : List (Value ν)) (s : Store ν) :
    (Run.defineParams (i :: env) params args).outcome s = (.ok (), s.bindParams i params args) := by
  induction params generalizing args s with
  | nil => cases args <;> rfl
  | cons p ps ih =>
    cases args with
    | nil => rw [Run.defineParams, Run.outcome_bind, Run.outcome_define]; exact ih _ _
    | cons a as => rw [Run.defineParams, Run.outcome_bind, Run.outcome_define]; exact ih _ _

namespace Scopes

theorem frame_defineArguments_self (σ : Scopes ν) {scope : Nat} (h : scope < σ.size)
    (params : List String) (arguments : List (Expression ν)) :
    ((σ.defineArguments scope params arguments).frame scope).bindings =
      (σ.frame scope).bindings.withParams (.constant .undefined) params
        (arguments.map .constant) := by
  induction params generalizing σ arguments with
  | nil => cases arguments <;> rfl
  | cons p ps ih =>
    cases arguments with
    | nil => rw [defineArguments, ih _ (by simpa using h), frame_define_self h]; rfl
    | cons e es => rw [defineArguments, ih _ (by simpa using h), frame_define_self h]; rfl

@[simp] theorem size_defineArguments (σ : Scopes ν) (scope : Nat) (params : List String)
    (arguments : List (Expression ν)) :
    (σ.defineArguments scope params arguments).size = σ.size := by
  induction params generalizing σ arguments with
  | nil => rfl
  | cons p ps ih => cases arguments <;> simp [defineArguments, ih]

theorem defineParameters_cons (σ : Scopes ν) (scope : Nat) (p : String) (ps : List String) :
    σ.defineParameters scope (p :: ps) =
      (σ.define scope p .parameter).defineParameters scope ps := rfl

@[simp] theorem size_defineParameters (σ : Scopes ν) (scope : Nat) (params : List String) :
    (σ.defineParameters scope params).size = σ.size := by
  induction params generalizing σ with
  | nil => rfl
  | cons p ps ih => rw [defineParameters_cons, ih, size_define]

theorem extends_defineParameters (σ : Scopes ν) (scope : Nat) (params : List String) :
    σ.Extends (σ.defineParameters scope params) := by
  induction params generalizing σ with
  | nil => exact .refl σ
  | cons p ps ih =>
    rw [defineParameters_cons]
    exact (extends_define σ scope p _).trans (ih _)

theorem find?_defineParameters (σ : Scopes ν) {scope : Nat} (h : scope < σ.size)
    (params : List String) (name : String) :
    ((σ.defineParameters scope params).frame scope).bindings.find? name =
      if name ∈ params then some .parameter else (σ.frame scope).bindings.find? name := by
  induction params generalizing σ with
  | nil => simp [defineParameters]
  | cons p ps ih =>
    rw [defineParameters_cons, ih _ (by simpa using h), frame_define_self h]
    simp only [Bindings.find?_insert, List.mem_cons]
    by_cases hp : name = p <;> simp [hp]

theorem hoist_of_none (σ : Scopes ν) (scope : Nat) {body : List (Statement ν)}
    (h : Statement.declaresFunction body = false) : σ.hoist scope body = σ := by
  induction body generalizing σ with
  | nil => rfl
  | cons s rest ih =>
    cases s with
    | function _ _ _ => cases h
    | _ => exact ih σ h

theorem chain_child (σ : Scopes ν) (i : Nat) (kind : Scope.Kind) :
    (σ.child i kind).2.chain σ.size = σ.size :: σ.chain i := by
  rw [chain, (frame_child_size σ i kind).2]

end Scopes

theorem Placed.child {W W' : World} {σ : Scopes ν} {scope : Nat} {env : Environment} {i : Nat}
    (h : Placed W σ scope env) (hi : W' i = some [σ.size]) (hlt : ∀ k ∈ env, k < i)
    (hW : W.Grows W') (kind : Scope.Kind) :
    Placed W' (σ.child scope kind).2 σ.size (i :: env) where
  bound := by simp
  chain := by
    rw [Scopes.chain_child]
    exact .frame hi hlt (h.chain.mono hW)

namespace Reading

variable {r : Reading ν} {W : World} {σ σ' : Scopes ν} {s s' : Store ν}

theorem agrees_insert {home : Nat → Environment → Prop} {b : Bindings (Scope.Binding ν)}
    {b' : Bindings (Value ν)} (hb : ∀ name, r.Agrees home name (b.find? name) (b'.find? name))
    {e : Expression ν} {v : Value ν} (hm : r.Models home e v) (p name : String) :
    r.Agrees home name ((b.insert p (.constant e)).find? name) ((b'.insert p v).find? name) := by
  rw [Bindings.find?_insert, Bindings.find?_insert]
  split
  · exact .constant hm
  · exact hb name

theorem agrees_withParams {home : Nat → Environment → Prop}
    (hundefined : r.Reads .undefined .undefined) {b : Bindings (Scope.Binding ν)}
    {b' : Bindings (Value ν)} (hb : ∀ name, r.Agrees home name (b.find? name) (b'.find? name))
    {arguments : List (Expression ν)} {args : List (Value ν)}
    (hargs : List.Forall₂ (r.Models home) arguments args) (params : List String) (name : String) :
    r.Agrees home name
      ((b.withParams (.constant .undefined) params (arguments.map .constant)).find? name)
      ((b'.withParams .undefined params args).find? name) := by
  induction params generalizing b b' arguments args with
  | nil =>
    cases hargs with
    | nil => exact hb name
    | cons _ _ => exact hb name
  | cons p ps ih =>
    cases hargs with
    | nil => exact ih (agrees_insert hb (.residual hundefined) p) .nil
    | cons hm hrest => exact ih (agrees_insert hb hm p) hrest

theorem Corr.size_pos (h : r.Corr W σ s) : 0 < s.frames.size := by
  by_contra hzero
  have hb := h.builtins .abs
  rw [Store.frame_of_le (by omega)] at hb
  cases hb

theorem Corr.chain_lt (h : r.Corr W σ s) {env : Environment} {ks : List Nat}
    (hch : Chain W env ks) : ∀ k ∈ env, k < s.frames.size := by
  cases hch with
  | global =>
    intro k hk
    obtain rfl : k = 0 := by simpa [Environment.global] using hk
    exact h.size_pos
  | frame hi hlt _ =>
    have hsize := (h.bound hi).2.1
    intro k hk
    rcases List.mem_cons.1 hk with rfl | hk
    · exact hsize
    · exact Nat.lt_trans (hlt k hk) hsize

theorem Corr.fresh (h : r.Corr W σ s) : W s.frames.size = none := by
  cases hi : W s.frames.size with
  | none => rfl
  | some js => exact absurd (h.bound hi).2.1 (Nat.lt_irrefl _)

theorem Corr.opened (h : r.Corr W σ s) (hσ : σ.Extends σ')
    (hframe : ∀ j < σ.size, σ'.frame j = σ.frame j) {js : List Nat}
    (hjs : ∀ j ∈ js, σ.size ≤ j ∧ j < σ'.size) (hs : s'.frames.size = s.frames.size + 1)
    (hold : ∀ k < s.frames.size, s'.frame k = s.frame k)
    (hnew : ∀ name, r.Agrees (r.Home W σ) name (binding σ' js name)
      ((s'.frame s.frames.size).find? name)) :
    r.Corr (W.insert s.frames.size js) σ' s' := by
  have hW := World.grows_insert h.fresh js
  have hbefore := h.extend hσ hframe
  have hpos := h.size_pos
  refine ⟨fun b => ?_, fun {i ks} hi => ?_, fun {i i' ks ks' j} hi hi' hj hj' => ?_,
    fun {i ks} name hi => ?_⟩
  · rw [hold 0 hpos]
    exact h.builtins b
  · by_cases hin : i = s.frames.size
    · subst hin
      obtain rfl : js = ks := by simpa using hi
      exact ⟨hpos, by omega, fun j hj => (hjs j hj).2⟩
    · rw [World.insert_of_ne W hin] at hi
      obtain ⟨hi0, hlt, hmem⟩ := hbefore.bound hi
      exact ⟨hi0, by omega, hmem⟩
  · have hsame {i : Nat} {ks : List Nat} (hi : W.insert s.frames.size js i = some ks)
        (hj : j ∈ ks) : (i = s.frames.size ↔ σ.size ≤ j) ∧ (i ≠ s.frames.size → W i = some ks) := by
      by_cases hin : i = s.frames.size
      · subst hin
        obtain rfl : js = ks := by simpa using hi
        exact ⟨⟨fun _ => (hjs j hj).1, fun _ => rfl⟩, fun hne => absurd rfl hne⟩
      · rw [World.insert_of_ne W hin] at hi
        have hlt := (h.bound hi).2.2 j hj
        exact ⟨⟨fun he => absurd he hin, fun hle => by omega⟩, fun _ => hi⟩
    by_cases hin : i = s.frames.size
    · rw [hin, (hsame hi' hj').1.2 ((hsame hi hj).1.1 hin)]
    · have hin' : i' ≠ s.frames.size := fun he => hin ((hsame hi hj).1.2 ((hsame hi' hj').1.1 he))
      exact h.apart ((hsame hi hj).2 hin) ((hsame hi' hj').2 hin') hj hj'
  · by_cases hin : i = s.frames.size
    · subst hin
      obtain rfl : js = ks := by simpa using hi
      exact (hnew name).mono fun _ _ hh => hh.mono hW hσ
    · rw [World.insert_of_ne W hin] at hi
      rw [hold i (h.bound hi).2.1]
      exact (hbefore.entries name hi).mono fun _ _ hh => hh.mono hW (.refl _)

theorem Corr.hoist {must : Prop} {scope : Nat} {env : Environment} (howned : Owned W scope env) :
    ∀ {body : List (Statement ν)} {σ : Scopes ν} {s : Store ν},
      (Statement.declaresFunction body = true → r.higherOrder) → r.Corr W σ s →
      Placed W σ scope env →
      (Statement.hoist env body).Ensures must s fun _ t => r.Corr W (σ.hoist scope body) t := by
  intro body
  obtain ⟨i, outer, js, rfl, hi⟩ := howned
  induction body with
  | nil => exact fun _ h _ => .of_outcome (Run.outcome_pure _ _) h
  | cons st rest ih =>
    intro σ s hfun h hplaced
    cases st with
    | function name params body =>
      have hr := hfun rfl
      refine .step (Run.outcome_makeClosure _ _ _ _) (.step (Run.outcome_define _ _ _ _) ?_)
      have hclosure : r.Models (r.Home W σ) (.function params body (some scope))
          (.closure ⟨s.made, some name, ⟨params, body⟩, i :: outer⟩) :=
        .closure ⟨hr, hplaced⟩
      have hmade : r.Corr W σ { s with made := s.made + 1 } := h.of_frames rfl
      exact ih (fun _ => hr) (hmade.define hi (.constant hclosure))
        (hplaced.mono (.refl W) (Scopes.extends_define σ scope _ _))
    | block body | expression e | result e | branch t c a | loop a b c d | declaration k n i =>
      exact ih hfun h hplaced

/-- What holds once both sides are inside a block. -/
structure Inside (r : Reading ν) (W : World) (σ : Scopes ν) (scope : Nat) (inner : Environment)
    (t : Store ν) : Prop where
  corr : r.Corr W σ t
  placed : Placed W σ scope inner
  owned : Owned W scope inner

theorem Corr.enter {must : Prop} {scope : Nat} {env : Environment} {body : List (Statement ν)}
    (h : r.Corr W σ s) (hplaced : Placed W σ scope env)
    (hfun : Statement.declaresFunction body = true → r.higherOrder) :
    (Run.enter env body).Ensures must s fun inner t =>
      ∃ W', W.Grows W' ∧
        r.Inside W' ((σ.child scope .block).2.hoist σ.size body) σ.size inner t := by
  have hW := World.grows_insert h.fresh [σ.size]
  have hopened : r.Corr (W.insert s.frames.size [σ.size]) (σ.child scope .block).2
      (s.extend env).2 := by
    refine h.opened (Scopes.extends_child σ scope .block)
      (fun j hj => Scopes.frame_child_of_lt σ scope j .block hj) ?_ (by simp)
      (fun k _ => Store.frame_extend s env k) fun name => ?_
    · simp
    · rw [binding_cons, (Scopes.frame_child_size σ scope .block).1, Store.frame_extend,
        Store.frame_of_le (Nat.le_refl _)]
      exact .unbound
  have hinner := hplaced.child (World.insert_self W _ _) (h.chain_lt hplaced.chain) hW .block
  have howned : Owned (W.insert s.frames.size [σ.size]) σ.size (s.frames.size :: env) :=
    ⟨_, _, _, rfl, World.insert_self W _ _⟩
  refine .step (Run.outcome_extend env s) ?_
  refine (hopened.hoist howned hfun hinner).bind fun _ t _ hcorr => ?_
  refine .of_outcome (Run.outcome_pure _ t) ⟨_, hW, hcorr, ?_, howned⟩
  exact hinner.mono (.refl _) (Scopes.extends_hoist _ _ _)

theorem Corr.enterPlain {must : Prop} {scope : Nat} {env : Environment} {st : Statement ν}
    (h : r.Corr W σ s) (hplaced : Placed W σ scope env) (hst : st.isFunction = false) :
    (Run.enter env [st]).Ensures must s fun inner t =>
      ∃ W', W.Grows W' ∧ r.Corr W' σ t ∧ Placed W' σ scope inner := by
  have hW := World.grows_insert h.fresh []
  have hopened : r.Corr (W.insert s.frames.size []) σ (s.extend env).2 := by
    refine h.opened (.refl σ) (fun _ _ => rfl) (by simp) (by simp)
      (fun k _ => Store.frame_extend s env k) fun name => ?_
    rw [Store.frame_extend, Store.frame_of_le (Nat.le_refl _)]
    exact .unbound
  have hhoist : Statement.hoist (s.frames.size :: env) [st] = pure () := by
    cases st with
    | function name params body => cases hst
    | _ => rfl
  refine .step (Run.outcome_extend env s) ?_
  rw [hhoist]
  refine .step (Run.outcome_pure _ _) (.of_outcome (Run.outcome_pure _ _) ?_)
  refine ⟨_, hW, hopened, hplaced.bound, ?_⟩
  exact .frame (World.insert_self W _ _) (h.chain_lt hplaced.chain) (hplaced.chain.mono hW)

/-- What follows a split is inlined in a frame of its own, and run in the frame of its block. -/
theorem Corr.overlay (h : r.Corr W σ s) (hh : ¬ r.higherOrder) {scope : Nat} {env : Environment}
    (hplaced : Placed W σ scope env) (howned : Owned W scope env) :
    ∃ W', r.Inside W' (σ.child scope .block).2 σ.size env s := by
  obtain ⟨i, outer, js, rfl, hi⟩ := howned
  have hsize := (Scopes.extends_child σ scope .block).size_le
  have hframe (j : Nat) (hj : j < σ.size) : (σ.child scope .block).2.frame j = σ.frame j :=
    Scopes.frame_child_of_lt σ scope j .block hj
  have hbelow := h.extend (Scopes.extends_child σ scope .block) hframe
  have hsame {k : Nat} {ks : List Nat} {j : Nat}
      (hk : W.insert i (σ.size :: scope :: js) k = some ks) (hj : j ∈ ks) (hlt : j < σ.size) :
      ∃ ks', W k = some ks' ∧ j ∈ ks' := by
    by_cases hki : k = i
    · subst hki
      obtain rfl : σ.size :: scope :: js = ks := by simpa using hk
      refine ⟨scope :: js, hi, ?_⟩
      rcases List.mem_cons.1 hj with rfl | hj
      · exact absurd hlt (Nat.lt_irrefl _)
      · exact hj
    · rw [World.insert_of_ne W hki] at hk
      exact ⟨ks, hk, hj⟩
  have hcorr : r.Corr (W.insert i (σ.size :: scope :: js)) (σ.child scope .block).2 s := by
    refine ⟨h.builtins, fun {k ks} hk => ?_, fun {k k' ks ks' j} hk hk' hj hj' => ?_,
      fun {k ks} name hk => ?_⟩
    · by_cases hki : k = i
      · subst hki
        obtain rfl : σ.size :: scope :: js = ks := by simpa using hk
        obtain ⟨hpos, hlt, hjs⟩ := hbelow.bound hi
        refine ⟨hpos, hlt, fun j hj => ?_⟩
        rcases List.mem_cons.1 hj with rfl | hj
        · simp
        · exact hjs j hj
      · rw [World.insert_of_ne W hki] at hk
        exact hbelow.bound hk
    · by_cases hlt : j < σ.size
      · obtain ⟨_, hold, hmem⟩ := hsame hk hj hlt
        obtain ⟨_, hold', hmem'⟩ := hsame hk' hj' hlt
        exact h.apart hold hold' hmem hmem'
      · have hat {k : Nat} {ks : List Nat}
            (hk : W.insert i (σ.size :: scope :: js) k = some ks) (hj : j ∈ ks) : k = i := by
          by_contra hki
          rw [World.insert_of_ne W hki] at hk
          exact hlt ((h.bound hk).2.2 j hj)
        rw [hat hk hj, hat hk' hj']
    · by_cases hki : k = i
      · subst hki
        obtain rfl : σ.size :: scope :: js = ks := by simpa using hk
        rw [binding_cons, (Scopes.frame_child_size σ scope .block).1]
        exact (hbelow.entries name hi).mono fun _ _ hhome => absurd hhome.higherOrder hh
      · rw [World.insert_of_ne W hki] at hk
        exact (hbelow.entries name hk).mono fun _ _ hhome => absurd hhome.higherOrder hh
  refine ⟨_, hcorr, ⟨by simp, ?_⟩, i, outer, scope :: js, rfl, World.insert_self W _ _⟩
  rw [Scopes.chain_child]
  have hchain := hplaced.chain
  generalize σ.chain scope = ks at hchain
  cases hchain with
  | global =>
    exact absurd (h.bound hi).1 (Nat.lt_irrefl _)
  | frame hi' hlt hrest =>
    obtain rfl : scope :: js = _ := Option.some.inj (hi.symm.trans hi')
    refine .frame (World.insert_self W _ _) hlt (hrest.congr fun k hk => ?_)
    exact World.insert_of_ne W (Nat.ne_of_lt (hlt k hk)) _

/-- Both sides enter a call: the specializer has a frame for the arguments and one for the body,
and the run has one for both. -/
theorem Corr.enterCall (hundefined : r.Reads .undefined .undefined) {must : Prop} {home : Nat}
    {env : Environment} {params : List String} {body : List (Statement ν)}
    {arguments : List (Expression ν)} {args : List (Value ν)} (h : r.Corr W σ s)
    (hhome : r.Home W σ home env)
    (hargs : List.Forall₂ (r.Models (r.Home W σ)) arguments args)
    (hσ : σ' = (((σ.child home .substitute).2.defineArguments σ.size params arguments).child
      σ.size .block).2)
    (hs : s' = (s.extend env).2.bindParams s.frames.size params args) :
    (Statement.hoist (s.frames.size :: env) body).Ensures must s' fun _ t =>
      ∃ W', W.Grows W' ∧
        r.Inside W' (σ'.hoist (σ.size + 1) body) (σ.size + 1) (s.frames.size :: env) t := by
  have hW := World.grows_insert h.fresh [σ.size + 1, σ.size]
  have hsize : ((σ.child home .substitute).2.defineArguments σ.size params arguments).size =
      σ.size + 1 := by simp
  have hargsExtend := Scopes.extends_defineArguments (σ.child home .substitute).2 σ.size params
    arguments
  have hextend : σ.Extends σ' := by
    rw [hσ]
    exact ((Scopes.extends_child σ home .substitute).trans hargsExtend).trans
      (Scopes.extends_child _ _ _)
  have hframe : ∀ j < σ.size, σ'.frame j = σ.frame j := fun j hj => by
    rw [hσ, Scopes.frame_child_of_lt _ _ _ _ (by omega),
      Scopes.frame_defineArguments_of_ne _ (by omega), Scopes.frame_child_of_lt _ _ _ _ hj]
  have hblock := Scopes.frame_child_size
    ((σ.child home .substitute).2.defineArguments σ.size params arguments) σ.size .block
  rw [hsize, ← hσ] at hblock
  have hbindings : (σ'.frame σ.size).bindings =
      Bindings.empty.withParams (.constant .undefined) params (arguments.map .constant) := by
    rw [hσ, Scopes.frame_child_of_lt _ _ _ _ (by omega),
      Scopes.frame_defineArguments_self _ (by simp), (Scopes.frame_child_size σ home _).1]
  have hstore : s'.frame s.frames.size = Bindings.empty.withParams .undefined params args := by
    rw [hs, Store.frame_bindParams_self _ (by simp), Store.frame_extend,
      Store.frame_of_le (Nat.le_refl _)]
  have hopened : r.Corr (W.insert s.frames.size [σ.size + 1, σ.size]) σ' s' := by
    refine h.opened hextend hframe ?_ (by simp [hs]) (fun k hk => ?_) fun name => ?_
    · intro j hj
      have : σ'.size = σ.size + 2 := by simp [hσ]
      simp at hj
      omega
    · rw [hs, Store.frame_bindParams_of_ne _ (by simp) (by omega), Store.frame_extend]
    · rw [binding_cons, hblock.1, binding_cons, hbindings, hstore]
      have hempty (name : String) : r.Agrees (r.Home W σ) name
          ((Bindings.empty : Bindings (Scope.Binding ν)).find? name)
          ((Bindings.empty : Bindings (Value ν)).find? name) := .unbound
      have hagrees := agrees_withParams hundefined hempty hargs params name
      simpa [binding, Scopes.findIn?] using hagrees
  have hchain : σ'.chain (σ.size + 1) = [σ.size + 1, σ.size] ++ σ.chain home := by
    rw [Scopes.chain, hblock.2, hargsExtend.chain (by simp), Scopes.chain_child]
    rfl
  have hplaced : Placed (W.insert s.frames.size [σ.size + 1, σ.size]) σ' (σ.size + 1)
      (s.frames.size :: env) := by
    refine ⟨by simp [hσ], ?_⟩
    rw [hchain]
    exact .frame (World.insert_self W _ _) (h.chain_lt hhome.placed.chain)
      (hhome.placed.chain.mono hW)
  have howned : Owned (W.insert s.frames.size [σ.size + 1, σ.size]) (σ.size + 1)
      (s.frames.size :: env) := ⟨_, _, _, rfl, World.insert_self W _ _⟩
  refine (hopened.hoist howned (fun _ => hhome.higherOrder) hplaced).mono fun _ t hcorr => ?_
  exact ⟨_, hW, hcorr, hplaced.mono (.refl _) (Scopes.extends_hoist _ _ _), howned⟩

/-- What both sides start a function from that the global frame surrounds: its parameters have
values in the run, and stay names for the specializer. -/
theorem Corr.start (hardcoded : List Builtin) (path : String)
    (hbuiltins : ∀ b : Builtin, (s.frame 0).find? b.globalName = some (.builtin b))
    {params : List String} {args : List (Value ν)}
    (hparams : ∀ p v, (Bindings.empty.withParams .undefined params args).find? p = some v →
      r.Reads (.identifier p) v)
    (hσ : σ = ((((Scopes.empty hardcoded).root .closure path).2.defineParameters 0 params).child 0
      .block).2)
    (hs : s' = (s.extend .global).2.bindParams s.frames.size params args) :
    ∃ W, r.Inside W σ 1 (s.frames.size :: Environment.global) s' := by
  have hempty : r.Corr (fun _ => none) (Scopes.empty hardcoded) s := by
    refine ⟨hbuiltins, ?_, ?_, ?_⟩
    · intro i js hi
      cases hi
    · intro i i' js js' j hi
      cases hi
    · intro i js name hi
      cases hi
  have hpos := hempty.size_pos
  have hsize : (((Scopes.empty (ν := ν) hardcoded).root .closure path).2.defineParameters 0
      params).size = 1 := by
    rw [Scopes.size_defineParameters]
    rfl
  have hblock := Scopes.frame_child_size
    (((Scopes.empty (ν := ν) hardcoded).root .closure path).2.defineParameters 0 params) 0 .block
  rw [hsize, ← hσ] at hblock
  have hroot : ∀ name, (σ.frame 0).bindings.find? name =
      if name ∈ params then some .parameter else none := fun name => by
    rw [hσ, Scopes.frame_child_of_lt _ _ _ _ (by omega),
      Scopes.find?_defineParameters _ (by simp [Scopes.root, Scopes.size])]
    rfl
  have hstore : s'.frame s.frames.size = Bindings.empty.withParams .undefined params args := by
    rw [hs, Store.frame_bindParams_self _ (by simp), Store.frame_extend,
      Store.frame_of_le (Nat.le_refl _)]
  have hcorr : r.Corr (World.insert (fun _ => none) s.frames.size [1, 0]) σ s' := by
    refine hempty.opened ?_ ?_ ?_ ?_ ?_ fun name => ?_
    · refine ⟨Nat.zero_le _, fun j hj => absurd hj (Nat.not_lt_zero _), ?_⟩
      rw [hσ]
      exact (Scopes.extends_defineParameters _ _ _).hardcoded
    · exact fun j hj => absurd hj (Nat.not_lt_zero _)
    · intro j hj
      have : σ.size = 2 := by simp [hσ, hsize]
      have hj : j = 1 ∨ j = 0 := by simpa using hj
      exact ⟨Nat.zero_le _, by omega⟩
    · simp [hs]
    · intro k hk
      rw [hs, Store.frame_bindParams_of_ne _ (by simp) (by omega), Store.frame_extend]
    · have hsome := Bindings.isSome_withParams Value.undefined Bindings.empty params args name
      rw [binding_cons, hblock.1, binding_cons, hroot, hstore]
      cases hv : (Bindings.empty.withParams .undefined params args).find? name with
      | none =>
        have hnot : name ∉ params := by simpa [hv] using hsome
        rw [if_neg hnot]
        exact .unbound
      | some v =>
        have hmem : name ∈ params := by simpa [hv] using hsome
        rw [if_pos hmem]
        exact .parameter (hparams name v hv)
  have hchain : σ.chain 1 = [1, 0] ++ [] := by
    rw [Scopes.chain, hblock.2,
      (Scopes.extends_defineParameters _ _ _).chain (by simp [Scopes.root, Scopes.size])]
    rfl
  refine ⟨_, hcorr, ⟨by simp [hσ, hsize], ?_⟩, _, _, _, rfl, World.insert_self _ _ _⟩
  rw [hchain]
  refine .frame (World.insert_self _ _ _) (fun k hk => ?_) .global
  obtain rfl : k = 0 := by simpa [Environment.global] using hk
  exact hpos

end Reading

end Waveform
