import Waveform.Proofs.Capture.Evaluation

/-!
# Execution of captured statements

A statement and what it is captured as follow each other: both open their frames, bind what they
declare and end alike. The names that a block declares are those of the frame that it is run in.
-/

namespace Waveform

variable {ν : Type}

namespace Mirror

variable {m : Mirror ν} {W : Twins} {s s' t : Store ν} {home env env' : Environment} {l : Locals}

/-- Statements go on alike, or return values that mirror each other. -/
inductive Completes (m : Mirror ν) (W : Twins) : Completion ν → Completion ν → Prop
  | normal : Completes m W .normal .normal
  | returned {v v' : Value ν} (hv : m.Mirrors W v v') :
    Completes m W (.returned v) (.returned v')

abbrev Completions (m : Mirror ν) : Relation ν (Completion ν) (Completion ν) :=
  fun W c c' _ => m.Completes W c c'

abbrev Anything {ν α α' : Type} : Relation ν α α' := fun _ _ _ _ => True

/-! ## Frames of blocks -/

/-- The innermost frame is one of the run, which declares the names. -/
def Owns (m : Mirror ν) (names : List String) (env : Environment) : Prop :=
  ∃ i outer, env = i :: outer ∧ m.base ≤ i ∧
    ∀ name ∈ names, name ∈ m.declared i ∧ ¬ m.IsReserved name

theorem Owns.mono {names names' : List String} (h : m.Owns names env) (hsub : names' ⊆ names) :
    m.Owns names' env := by
  obtain ⟨i, outer, rfl, hi, hnames⟩ := h
  exact ⟨i, outer, rfl, hi, fun name hname => hnames name (hsub hname)⟩

/-- The innermost frame is one of the run, and binds the name. -/
def Carries (m : Mirror ν) (s : Store ν) (env : Environment) (name : String) : Prop :=
  ∃ i outer, env = i :: outer ∧ m.base ≤ i ∧ (s.frame i).contains name = true

theorem Carries.keep {name : String} (h : m.Carries s env name) (hkeeps : s.Keeps t) :
    m.Carries t env name := by
  obtain ⟨i, outer, rfl, hi, hcontains⟩ := h
  exact ⟨i, outer, rfl, hi, hkeeps.contains hcontains⟩

theorem Carries.settled {name : String} (hcarries : m.Carries s env name) (h : m.Agrees W s s') :
    s.IsSettled m.base m.declared name env := by
  obtain ⟨i, outer, rfl, hi, hcontains⟩ := hcarries
  exact ⟨fun _ _ => hcontains, fun hnot => absurd (h.declared hi hcontains) (hnot hi)⟩

theorem Placed.head {i : Nat} {outer : Environment} (hplaced : m.Placed home l (i :: outer) env')
    (hi : m.base ≤ i) : ∃ outer', env' = m.frame i :: outer' := by
  cases hplaced with
  | unit hhosts => exact absurd (hhosts.old (List.mem_cons_self ..)) (Nat.not_lt.2 hi)
  | root _ => exact ⟨_, by rw [m.frame_base]⟩
  | frame _ _ => exact ⟨_, rfl⟩

theorem Placed.opened {names : List String} (hplaced : m.Placed home l env env')
    (h : m.Agrees W s s') (hframe : m.discipline.frame s.frames.size names) :
    m.Placed home (l.extend names) (s.frames.size :: env) (s'.frames.size :: env') ∧
      m.Owns names (s.frames.size :: env) := by
  obtain ⟨rfl, hplain⟩ := hframe
  refine ⟨?_, _, _, rfl, Nat.le_of_lt h.opened, fun name hname => ⟨hname, fun hreserved => ?_⟩⟩
  · rw [h.size]
    exact .frame hplaced h.opened
  · exact hreserved.elim (hplain name hname).1 (hplain name hname).2

theorem Agrees.follows_define (h : m.Agrees W s s') (hplaced : m.Placed home l env env')
    {name : String} (howns : m.Owns [name] env) {v v' : Value ν} (hv : m.Mirrors W v v') :
    m.Follows (fun _ _ _ t => (∀ i ∈ env.head?, i < s.frames.size) → m.Carries t env name) W
      (Run.define env name v) (Run.define env' name v') s s' := by
  obtain ⟨i, outer, rfl, hi, hnames⟩ := howns
  obtain ⟨hdeclared, hplain⟩ := hnames name (List.mem_singleton_self name)
  obtain ⟨outer', rfl⟩ := hplaced.head hi
  refine .of_outcome (Run.outcome_define _ _ _ _) (Run.outcome_define _ _ _ _)
    (Set.Subset.refl W) (s.keeps_bind i name v) (h.bind hi hdeclared hplain hv) fun hmade => ?_
  refine ⟨i, outer, rfl, hi, ?_⟩
  rw [Store.define, Bindings.contains, Store.find?_bind (hmade i rfl), if_pos ⟨rfl, rfl⟩]
  rfl

theorem Agrees.follows_hoist (h : m.Agrees W s s') (hplaced : m.Placed home l env env')
    {body body' : List (Statement ν)} (howns : m.Owns (Statement.declaredNames body) env)
    (hbody : Statement.CapturedAll m.toOrigin home l body body') :
    m.Follows Anything W (Statement.hoist env body) (Statement.hoist env' body') s s' := by
  induction body generalizing body' W s s' with
  | nil =>
    cases hbody
    exact .pure h trivial
  | cons st rest ih =>
    cases hbody with
    | cons hst hrest =>
      cases hst with
      | function hfunction =>
        refine .bind (h.follows_makeClosure hplaced _ hfunction) ?_
        intro W' v v' t t' _ _ _ h' hv
        refine .bind (h'.follows_define hplaced (howns.mono ?_) hv) ?_
        · exact List.cons_subset.2 ⟨List.mem_cons_self .., List.nil_subset _⟩
        · intro W'' _ _ u u' _ _ _ h'' _
          exact ih h'' (howns.mono (List.subset_cons_self _ _)) hrest
      | declaration _ =>
        have hfollows := ih h (howns.mono (List.subset_cons_self _ _)) hrest
        exact hfollows
      | _ =>
        have hfollows := ih h howns hrest
        exact hfollows

theorem Agrees.follows_enter (h : m.Agrees W s s') (hplaced : m.Placed home l env env')
    {body body' : List (Statement ν)}
    (hframe : m.discipline.frame s.frames.size (Statement.declaredNames body))
    (hbody : Statement.CapturedAll m.toOrigin home (l.extend (Statement.declaredNames body))
      body body') :
    m.Follows (fun _ inner inner' _ =>
        m.Placed home (l.extend (Statement.declaredNames body)) inner inner' ∧
          m.Owns (Statement.declaredNames body) inner) W
      (Run.enter env body) (Run.enter env' body') s s' := by
  obtain ⟨hinner, howns⟩ := hplaced.opened h hframe
  have hextend : m.Follows (fun _ inner inner' _ => inner = s.frames.size :: env ∧
      inner' = s'.frames.size :: env') W (Run.extend env) (Run.extend env') s s' :=
    .of_outcome (Run.outcome_extend env s) (Run.outcome_extend env' s') (Set.Subset.refl W)
      (s.keeps_extend env) (h.extend env env') ⟨rfl, rfl⟩
  refine .bind hextend ?_
  rintro W' _ _ t t' _ _ _ h' ⟨rfl, rfl⟩
  refine .bind (h'.follows_hoist hinner howns hbody) ?_
  intro W'' _ _ u u' _ _ _ h'' _
  exact .pure h'' ⟨hinner, howns⟩

/-! ## Copies of a loop's name -/

section

variable {scope scope' iteration iteration' : Environment} {copied : Option String}

theorem Agrees.follows_copyIn (h : m.Agrees W s s') (hscope : m.Placed home l scope scope')
    (hiteration : m.Placed home l iteration iteration')
    (hmade : ∀ i ∈ iteration.head?, i < s.frames.size)
    (howns : m.Owns copied.toList iteration)
    (hcopied : ∀ name ∈ copied, l name ∧ m.Carries s scope name) :
    m.Follows (fun _ _ _ t => ∀ name ∈ copied, m.Carries t iteration name) W
      (Run.copyIn scope iteration copied) (Run.copyIn scope' iteration' copied) s s' := by
  cases copied with
  | none => exact .pure h nofun
  | some name =>
    obtain ⟨hname, hcarries⟩ := hcopied name rfl
    obtain ⟨i, v, v', -, -, -, hv, hv', hmirrors⟩ :=
      hscope.find h hname (hcarries.settled h)
    have hdefine : m.Follows (fun _ _ _ t => ∀ other ∈ some name, m.Carries t iteration other) W
        (Run.define iteration name v) (Run.define iteration' name v') s s' := by
      refine (h.follows_define hiteration howns hmirrors).mono
        fun W' _ _ t hcarries other hother => ?_
      cases hother
      exact hcarries hmade
    unfold Follows at hdefine ⊢
    rw [Run.outcome_copyIn, Run.outcome_copyIn, hv, hv']
    exact hdefine

theorem Agrees.follows_copyOut (h : m.Agrees W s s') (hscope : m.Placed home l scope scope')
    (hiteration : m.Placed home l iteration iteration')
    (hcopied : ∀ name ∈ copied, l name ∧ m.Carries s scope name ∧ m.Carries s iteration name) :
    m.Follows Anything W (Run.copyOut iteration scope copied)
      (Run.copyOut iteration' scope' copied) s s' := by
  cases copied with
  | none => exact .pure h trivial
  | some name =>
    obtain ⟨hname, hcarries, hiterationCarries⟩ := hcopied name rfl
    obtain ⟨i, v, v', -, -, -, hv, hv', hmirrors⟩ :=
      hiteration.find h hname (hiterationCarries.settled h)
    have hassign := h.follows_assign hscope hname (hcarries.settled h) hmirrors
    unfold Follows at hassign ⊢
    rw [Run.outcome_copyOut, Run.outcome_copyOut, hv, hv']
    exact hassign

end

/-! ## Rounds -/

/-- Rounds follow each other if one does, wherever names that are bound may be relied on. -/
theorem follows_rounds {test test' : Run ν Bool} {body body' : Run ν (Completion ν)}
    {testObeys bodyObeys P : Store ν → Prop} (hP : ∀ {s t : Store ν}, s.Keeps t → P s → P t)
    (htest : ∀ {W s s'}, m.Agrees W s s' → P s → testObeys s →
      m.Follows (fun _ b b' _ => b' = b) W test test' s s')
    (hbody : ∀ {W s s'}, m.Agrees W s s' → P s → bodyObeys s →
      m.Follows m.Completions W body body' s s') (patience : Nat) :
    ∀ {W s s'}, m.Agrees W s s' → P s →
      Run.roundsObey test body testObeys bodyObeys patience s →
        m.Follows m.Completions W (Run.rounds test body patience)
          (Run.rounds test' body' patience) s s' := by
  induction patience with
  | zero => exact fun _ _ _ => .error .rfl
  | succ patience ih =>
    intro W s s' h hs hobeys
    rw [Run.rounds, Run.rounds]
    refine .bind (htest h hs hobeys.1) ?_
    intro W' b b' t t' ht _ hkeeps h' hb
    obtain rfl : b' = b := hb
    cases b' with
    | false => exact .pure h' .normal
    | true =>
      obtain ⟨hbodyObeys, hrest⟩ := hobeys.2 true t ht rfl
      refine .bind (hbody h' (hP hkeeps hs) hbodyObeys) ?_
      intro W'' c c' u u' hu _ hkeeps' h'' hc
      cases hc with
      | normal => exact ih h'' (hP (hkeeps.trans hkeeps') hs) (hrest _ u hu rfl)
      | returned hv => exact .pure h'' (.returned hv)

end Mirror

/-! ## Statements -/

theorem Expression.Captured.ne_function {o : Origin ν} {home : Environment} {l : Locals}
    {e e' : Expression ν}
    
    (hcaptured : Expression.Captured o home l e e')
    (he : ∀ params body home, e ≠ .function params body home) :
    ∀ params body home, e' ≠ .function params body home := by
  intro params body place
  cases hcaptured with
  | function _ => exact absurd rfl (he _ _ _)
  | free _ _ hq =>
    rintro rfl
    cases hq
  | _ => nofun

section

open Mirror

variable [Numeric ν] {m : Mirror ν} {call call' : Caller ν} {check : CallCheck ν}
  {home env env' : Environment} {l : Locals}

theorem Mirror.Agrees.follows_declare {W : Twins} {s s' : Store ν} (h : m.Agrees W s s')
    (hcalls : m.CallsFollow call call' check) (hplaced : m.Placed home l env env') {name : String}
    (howns : m.Owns [name] env) {init init' : Option (Expression ν)}
    (hinit : Expression.CapturedOption m.toOrigin home l init init')
    (hobeys : Expression.initObeys m.discipline call check env init s) :
    m.Follows (fun _ _ _ t => (∀ i ∈ env.head?, i < s.frames.size) → m.Carries t env name) W
      (Run.declare call env name init) (Run.declare call' env' name init') s s' := by
  have hdefine {x x' : Run ν (Value ν)} (hx : m.Follows m.Values W x x' s s') :
      m.Follows (fun _ _ _ t => (∀ i ∈ env.head?, i < s.frames.size) → m.Carries t env name) W
        (do let v ← x; Run.define env name v) (do let v ← x'; Run.define env' name v) s s' := by
    refine .bind hx fun W' v v' t t' _ _ hkeeps h' hv => ?_
    refine (h'.follows_define hplaced howns hv).mono fun _ _ _ u hcarries hmade => ?_
    exact hcarries fun i hi => Nat.lt_of_lt_of_le (hmade i hi) hkeeps.size
  cases hinit with
  | none => exact hdefine (.pure h (.primitive .undefined))
  | @some _ e e' he =>
    by_cases hfunction : ∃ params body home, e = .function params body home
    · obtain ⟨params, body, place, rfl⟩ := hfunction
      cases he with
      | function hbody => exact hdefine (h.follows_makeClosure hplaced (some name) hbody)
    · have hne : ∀ params body home, e ≠ .function params body home :=
        fun params body place heq => hfunction ⟨params, body, place, heq⟩
      rw [Run.declare_expression hne, Run.declare_expression (he.ne_function hne)]
      exact hdefine (he.follows hcalls hplaced (Expression.initObeys_expression hne hobeys) h)

theorem LoopStart.Captured.follows {W : Twins} {s s' : Store ν} {start start' : LoopStart ν}
    (hcaptured : LoopStart.Captured m.toOrigin home l start start')
    (hcalls : m.CallsFollow call call' check) (hplaced : m.Placed home l env env')
    (howns : m.Owns start.declaredNames env) (hmade : ∀ i ∈ env.head?, i < s.frames.size)
    (hobeys : start.Obeys m.discipline call check env s) (h : m.Agrees W s s') :
    m.Follows (fun _ copied copied' t => copied' = copied ∧
        ∀ name ∈ copied, name ∈ start.declaredNames ∧ m.Carries t env name) W
      (start.run call env) (start'.run call' env') s s' := by
  cases hcaptured with
  | absent => exact .pure h ⟨rfl, nofun⟩
  | @declaration _ kind name _ _ hinit =>
    refine .bind (h.follows_declare hcalls hplaced howns hinit hobeys) ?_
    intro W' _ _ t t' _ _ _ h' hcarries
    refine .pure h' ⟨rfl, fun other hother => ?_⟩
    cases kind with
    | mutable =>
      cases hother
      exact ⟨List.mem_singleton_self _, hcarries hmade⟩
    | constant => cases hother
  | expression he =>
    refine .bind (he.follows hcalls hplaced hobeys h) ?_
    intro W' _ _ t t' _ _ _ h' _
    exact .pure h' ⟨rfl, nofun⟩

theorem Expression.CapturedOption.follows_holds {W : Twins} {s s' : Store ν}
    {test test' : Option (Expression ν)}
    (hcaptured : Expression.CapturedOption m.toOrigin home l test test')
    (hcalls : m.CallsFollow call call' check) (hplaced : m.Placed home l env env')
    (hobeys : Expression.optionObeys m.discipline call check env test s) (h : m.Agrees W s s') :
    m.Follows (fun _ b b' _ => b' = b) W (Run.holds call env test) (Run.holds call' env' test')
      s s' := by
  cases hcaptured with
  | none => exact .pure h rfl
  | some he =>
    refine .bind (he.follows hcalls hplaced hobeys h) ?_
    intro W' v v' t t' _ _ _ h' hv
    exact .pure h' hv.isTruthy

theorem Expression.CapturedOption.follows_proceed {W : Twins} {s s' : Store ν}
    {update update' : Option (Expression ν)}
    (hcaptured : Expression.CapturedOption m.toOrigin home l update update')
    (hcalls : m.CallsFollow call call' check) (hplaced : m.Placed home l env env')
    (hobeys : Expression.optionObeys m.discipline call check env update s)
    (h : m.Agrees W s s') :
    m.Follows Anything W (Run.proceed call env update) (Run.proceed call' env' update') s s' := by
  cases hcaptured with
  | none => exact .pure h trivial
  | some he =>
    refine .bind (he.follows hcalls hplaced hobeys h) ?_
    intro W' _ _ t t' _ _ _ h' _
    exact .pure h' trivial

/-- Both runs do a round, each with its own copy of the name that the loop starts with. -/
theorem Mirror.Agrees.follows_round {W : Twins} {s s' : Store ν} (h : m.Agrees W s s')
    (hcalls : m.CallsFollow call call' check) {scope scope' : Environment}
    (hscope : m.Placed home l scope scope') {copied : Option String}
    (hcopied : ∀ name ∈ copied, l name ∧ m.Carries s scope name)
    {update update' : Option (Expression ν)}
    (hupdate : Expression.CapturedOption m.toOrigin home l update update')
    {inside : Environment → Store ν → Prop} {run run' : Environment → Run ν (Completion ν)}
    (hrun : ∀ {W iteration iteration' s s'}, m.Placed home l iteration iteration' →
      inside iteration s → m.Agrees W s s' →
        m.Follows m.Completions W (run iteration) (run' iteration') s s')
    (hobeys : m.discipline.frame s.frames.size copied.toList ∧
      (Run.extend scope).After s fun iteration s =>
        (Run.copyIn scope iteration copied).After s fun _ s =>
          inside iteration s ∧ (run iteration).After s fun c s =>
            c = .normal → (Run.copyOut iteration scope copied).After s fun _ s =>
              Expression.optionObeys m.discipline call check scope update s) :
    m.Follows m.Completions W (Run.round call scope copied update run)
      (Run.round call' scope' copied update' run') s s' := by
  obtain ⟨hframe, hafter⟩ := hobeys
  obtain ⟨hiteration, howns⟩ := hscope.opened h hframe
  have hl : l.extend copied.toList = l :=
    Locals.extend_of_subset fun name hname => (hcopied name (Option.mem_toList.1 hname)).1
  rw [hl] at hiteration
  rw [Run.round, Run.round]
  refine .step (Run.outcome_extend scope s) (Run.outcome_extend scope' s') (s.keeps_extend scope) ?_
  have hextended := h.extend scope scope'
  have hcarries : ∀ name ∈ copied, l name ∧ m.Carries (s.extend scope).2 scope name :=
    fun name hname => ⟨(hcopied name hname).1, (hcopied name hname).2.keep (s.keeps_extend scope)⟩
  have hmade : ∀ i ∈ (s.frames.size :: scope).head?, i < (s.extend scope).2.frames.size := by
    intro i hi
    cases hi
    rw [Store.size_extend]
    exact Nat.lt_succ_self _
  refine .bind (hextended.follows_copyIn hscope hiteration hmade howns hcarries) ?_
  intro W₁ _ _ t t' ht _ hkeeps₁ h₁ hiterationCarries
  obtain ⟨hinside, hrest⟩ := hafter _ _ (Run.outcome_extend scope s) _ t ht
  refine .bind (hrun hiteration hinside h₁) ?_
  intro W₂ c c' u u' hu _ hkeeps₂ h₂ hc
  cases hc with
  | returned hv => exact .pure h₂ (.returned hv)
  | normal =>
    have hkept : ∀ name ∈ copied, l name ∧ m.Carries u scope name ∧
        m.Carries u (s.frames.size :: scope) name := fun name hname =>
      ⟨(hcopied name hname).1, (hcarries name hname).2.keep (hkeeps₁.trans hkeeps₂),
        (hiterationCarries name hname).keep hkeeps₂⟩
    refine .bind (h₂.follows_copyOut hscope hiteration hkept) ?_
    intro W₃ _ _ v v' hv _ _ h₃ _
    refine .bind (hupdate.follows_proceed hcalls hscope (hrest _ u hu rfl _ v hv) h₃) ?_
    intro W₄ _ _ w w' _ _ _ h₄ _
    exact .pure h₄ .normal

theorem Mirror.Agrees.follows_alone {W : Twins} {s s' : Store ν} (h : m.Agrees W s s')
    (hplaced : m.Placed home l env env') {st st' : Statement ν} (halone : st.standsAlone = true)
    (hst : Statement.Captured m.toOrigin home l st st') {patience : Nat}
    (hrun : ∀ {W env env' s s'}, m.Placed home l env env' →
      m.Owns (Statement.declaredNames [st]) env →
        st.Obeys m.discipline call check patience env s → m.Agrees W s s' →
          m.Follows m.Completions W (st.execute patience call env)
            (st'.execute patience call' env') s s')
    (henters : m.discipline.Enters env [st] s fun inner s =>
      st.Obeys m.discipline call check patience inner s) :
    m.Follows m.Completions W (do let inner ← Run.enter env [st]; st.execute patience call inner)
      (do let inner ← Run.enter env' [st']; st'.execute patience call' inner) s s' := by
  obtain ⟨hframe, -, hobeys⟩ := henters
  have hl : l.extend (Statement.declaredNames [st]) = l := by
    rw [Statement.declaredNames_of_standsAlone halone, Locals.extend_nil]
  have hbody : Statement.CapturedAll m.toOrigin home (l.extend (Statement.declaredNames [st]))
      [st] [st'] := by
    rw [hl]
    exact .cons hst .nil
  refine .bind (h.follows_enter hplaced hframe hbody) ?_
  rintro W' inner inner' t t' ht _ _ h' ⟨hinner, howns⟩
  rw [hl] at hinner
  exact hrun hinner howns (hobeys inner t ht) h'

variable {patience : Nat}

mutual

theorem Statement.Captured.follows (hcalls : m.CallsFollow call call' check) :
    {st st' : Statement ν} → {l : Locals} → {env env' : Environment} → {W : Twins} →
    {s s' : Store ν} → Statement.Captured m.toOrigin home l st st' →
      m.Placed home l env env' → m.Owns (Statement.declaredNames [st]) env →
        st.Obeys m.discipline call check patience env s → m.Agrees W s s' →
          m.Follows m.Completions W (st.execute patience call env)
            (st'.execute patience call' env') s s'
  | .block body, _, _, _, _, _, _, _, hcaptured, hplaced, _, hobeys, h => by
    cases hcaptured with
    | block hbody =>
      rw [Statement.Obeys] at hobeys
      obtain ⟨hframe, -, hinside⟩ := hobeys
      rw [Statement.execute, Statement.execute]
      refine .bind (h.follows_enter hplaced hframe hbody) ?_
      rintro W' inner inner' t t' ht _ _ h' ⟨hinner, howns⟩
      exact hbody.follows hcalls hinner howns (hinside inner t ht) h'
  | .expression e, _, _, _, _, _, _, _, hcaptured, hplaced, _, hobeys, h => by
    cases hcaptured with
    | expression he =>
      rw [Statement.Obeys] at hobeys
      rw [Statement.execute, Statement.execute]
      refine .bind (he.follows hcalls hplaced hobeys h) ?_
      intro W' _ _ t t' _ _ _ h' _
      exact .pure h' .normal
  | .result none, _, _, _, _, _, _, _, hcaptured, _, _, _, h => by
    cases hcaptured with
    | result hvalue =>
      cases hvalue
      exact .pure h (.returned (.primitive .undefined))
  | .result (some e), _, _, _, _, _, _, _, hcaptured, hplaced, _, hobeys, h => by
    cases hcaptured with
    | result hvalue =>
      cases hvalue with
      | some he =>
        rw [Statement.Obeys] at hobeys
        rw [Statement.execute, Statement.execute]
        refine .bind (he.follows hcalls hplaced hobeys.1 h) ?_
        intro W' v v' t t' _ _ _ h' hv
        exact .pure h' (.returned hv)
  | .branch test consequent alternate, _, _, _, _, _, _, _, hcaptured, hplaced, _, hobeys, h => by
    cases hcaptured with
    | branch htest halone hconsequent halternate =>
      rw [Statement.Obeys] at hobeys
      obtain ⟨-, -, hobeysTest, hafter⟩ := hobeys
      unfold Statement.execute
      refine .bind (htest.follows hcalls hplaced hobeysTest h) ?_
      intro W' v v' t t' ht _ _ h' hv
      obtain ⟨-, htrue, hfalse⟩ := hafter v t ht
      rw [hv.isTruthy]
      split
      · next htruthy =>
        exact h'.follows_alone hplaced halone hconsequent (hconsequent.follows hcalls)
          (htrue htruthy)
      · next htruthy =>
        cases halternate with
        | none => exact .pure h' .normal
        | some halone hside =>
          exact h'.follows_alone hplaced halone hside (hside.follows hcalls)
            (hfalse (Bool.eq_false_iff.2 htruthy))
  | .loop start test update body, _, l, env, env', W, s, s', hcaptured, hplaced, _, hobeys, h => by
    cases hcaptured with
    | loop hstart htest hupdate halone hbody =>
      rw [Statement.Obeys] at hobeys
      obtain ⟨-, -, hframe, hafter⟩ := hobeys
      obtain ⟨hscope, howns⟩ := hplaced.opened h hframe
      obtain ⟨hobeysStart, hrounds⟩ := hafter _ _ (Run.outcome_extend env s)
      have hmade : ∀ i ∈ (s.frames.size :: env).head?, i < (s.extend env).2.frames.size := by
        intro i hi
        cases hi
        rw [Store.size_extend]
        exact Nat.lt_succ_self _
      rw [Statement.execute, Statement.execute]
      refine .step (Run.outcome_extend env s) (Run.outcome_extend env' s') (s.keeps_extend env) ?_
      refine .bind (hstart.follows hcalls hscope howns hmade hobeysStart (h.extend env env')) ?_
      rintro W' _ copied t t' ht _ _ h' ⟨rfl, hcopied⟩
      refine Mirror.follows_rounds (P := fun u => ∀ name ∈ copied,
        name ∈ start.declaredNames ∧ m.Carries u (s.frames.size :: env) name)
        ?_ ?_ ?_ patience h' hcopied (hrounds copied t ht)
      · intro u v hkeeps hu name hname
        exact ⟨(hu name hname).1, (hu name hname).2.keep hkeeps⟩
      · intro U u u' hagrees _ hobeysTest
        exact htest.follows_holds hcalls hscope hobeysTest hagrees
      · intro U u u' hagrees hu hobeysRound
        refine hagrees.follows_round hcalls hscope (fun name hname => ?_) hupdate ?_ hobeysRound
        · exact ⟨.inr (hu name hname).1, (hu name hname).2⟩
        · intro V iteration iteration' v v' hiteration hinside hagrees
          exact hagrees.follows_alone hiteration halone hbody (hbody.follows hcalls) hinside
  | .declaration kind name init, _, _, _, _, _, _, _, hcaptured, hplaced, howns, hobeys, h => by
    cases hcaptured with
    | declaration hinit =>
      rw [Statement.Obeys] at hobeys
      rw [Statement.execute, Statement.execute]
      refine .bind (h.follows_declare hcalls hplaced howns hinit hobeys) ?_
      intro W' _ _ t t' _ _ _ h' _
      exact .pure h' .normal
  | .function name params body, _, _, _, _, _, _, _, hcaptured, _, _, _, h => by
    cases hcaptured
    exact .pure h .normal

theorem Statement.CapturedAll.follows (hcalls : m.CallsFollow call call' check) :
    {ss ss' : List (Statement ν)} → {l : Locals} → {env env' : Environment} → {W : Twins} →
    {s s' : Store ν} → Statement.CapturedAll m.toOrigin home l ss ss' →
      m.Placed home l env env' → m.Owns (Statement.declaredNames ss) env →
        Statement.allObey m.discipline call check patience env ss s → m.Agrees W s s' →
          m.Follows m.Completions W (Statement.executeAll patience call env ss)
            (Statement.executeAll patience call' env' ss') s s'
  | [], _, _, _, _, _, _, _, hcaptured, _, _, _, h => by
    cases hcaptured
    exact .pure h .normal
  | st :: rest, _, _, _, _, _, _, _, hcaptured, hplaced, howns, hobeys, h => by
    cases hcaptured with
    | cons hst hrest =>
      rw [Statement.declaredNames_cons] at howns
      rw [Statement.allObey] at hobeys
      rw [Statement.executeAll, Statement.executeAll]
      refine .bind (hst.follows hcalls hplaced
        (howns.mono (List.subset_append_left _ _)) hobeys.1 h) ?_
      intro W' c c' t t' ht _ _ h' hc
      cases hc with
      | returned hv => exact .pure h' (.returned hv)
      | normal =>
        exact hrest.follows hcalls hplaced (howns.mono (List.subset_append_right _ _))
          (hobeys.2 _ t ht rfl) h'

end

end

end Waveform
