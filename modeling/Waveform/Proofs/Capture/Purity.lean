import Waveform.Proofs.Capture.Uniform
import Waveform.Proofs.Capture.Writes
import Waveform.Proofs.Number.Exact
import Waveform.Proofs.Scopes.Lookups

/-!
# Purity of captures

A capture lets a closure write its own variables and nothing else. The invariant relates the frames
of a capture to the names of the tree: a name can be written from a frame exactly if its nearest
binding is a variable. `Capturing.Enforces` carries it along a capture together with the writes that
are met: if the capture succeeds, all of them are to variables, and if it fails for the sake of
purity, one of them is not.
-/

namespace Waveform

variable {ν : Type}

/-! ## Frames that names can be written from -/

namespace Scopes

def Writable (σ : Scopes ν) (scope : Nat) (name : String) : Prop :=
  ∃ i v, σ.findForWriteIn? name (σ.chain scope) = .ok (some (i, .mutable v))

theorem writable_define_self {σ : Scopes ν} {scope : Nat} (h : scope < σ.size) (name : String)
    (b : Scope.Binding ν) :
    (σ.define scope name b).Writable scope name ↔ ∃ v, b = .mutable v := by
  have hfind : ((σ.define scope name b).frame scope).bindings.find? name = some b := by
    rw [frame_define_self h, Bindings.find?_insert, if_pos rfl]
  simp [Writable, chain, findForWriteIn?, hfind, pure, Except.pure]

theorem writable_define_of_ne (σ : Scopes ν) (scope : Nat) {name other : String}
    (h : other ≠ name) (b : Scope.Binding ν) :
    (σ.define scope name b).Writable scope other ↔ σ.Writable scope other := by
  have hlookup : (σ.define scope name b).findForWriteIn? other
      ((σ.define scope name b).chain scope) = σ.findForWriteIn? other (σ.chain scope) :=
    (lookups_define_of_ne σ scope scope b h).2
  rw [Writable, Writable, hlookup]

/-- The frames of the first state, except for the given one, are in the second as they were. -/
def Leaves (scope : Nat) (σ σ' : Scopes ν) : Prop :=
  ∀ floor, Kept floor (· = scope) σ σ'

variable {scope : Nat} {σ τ υ : Scopes ν}

theorem Leaves.refl (scope : Nat) (σ : Scopes ν) : Leaves scope σ σ :=
  fun _ => .refl σ

theorem Leaves.trans (h : Leaves scope σ τ) (h' : Leaves scope τ υ) : Leaves scope σ υ :=
  fun floor => (h floor).trans (h' floor)

theorem Leaves.extend (h : Leaves scope σ τ) : σ.Extends τ :=
  (h 0).extend

theorem Leaves.frame (h : Leaves scope σ τ) {j : Nat} (hj : j < σ.size) (hne : j ≠ scope) :
    τ.frame j = σ.frame j :=
  (h (j + 1)).frame j hj (Nat.lt_succ_self j) hne

theorem leaves_define (σ : Scopes ν) (scope : Nat) (name : String) (b : Scope.Binding ν) :
    Leaves scope σ (σ.define scope name b) :=
  fun _ => ⟨extends_define σ scope name b, fun _ _ _ hne => frame_define_of_ne hne name b⟩

theorem Leaves.of_child {kind : Scope.Kind} (h : Leaves σ.size (σ.child scope kind).2 τ) :
    σ.Extends τ ∧ ∀ j < σ.size, τ.frame j = σ.frame j := by
  refine ⟨(extends_child σ scope kind).trans h.extend, fun j hj => ?_⟩
  have hchild : j < (σ.child scope kind).2.size := by
    rw [size_child]
    omega
  rw [h.frame hchild (by omega), frame_child_of_lt σ scope j kind hj]

/-- The frames tell the names that are variables where a tree stands. -/
structure Sees (n : Names) (scope : Nat) (σ : Scopes ν) : Prop where
  bound {j : Nat} : j ∈ σ.chain scope → j < σ.size
  writable {name : String} : (n name).isStarting = false →
    (σ.Writable scope name ↔ n name = .mutable)

variable {n : Names}

theorem Sees.lt (h : Sees n scope σ) : scope < σ.size :=
  h.bound (List.mem_cons_self ..)

/-- The frames still tell the names when the frames around the tree are as they were. -/
theorem Sees.of_frames (h : Sees n scope σ) (hextend : σ.Extends τ)
    (hframes : ∀ j < σ.size, τ.frame j = σ.frame j) : Sees n scope τ := by
  have hchain : τ.chain scope = σ.chain scope := hextend.chain h.lt
  refine ⟨fun {j} hj => ?_, fun {name} hname => ?_⟩
  · rw [hchain] at hj
    exact Nat.lt_of_lt_of_le (h.bound hj) hextend.size_le
  · have hsame : τ.findForWriteIn? name (σ.chain scope) =
        σ.findForWriteIn? name (σ.chain scope) :=
      findForWriteIn?_congr fun j hj => by simp only [hframes j (h.bound hj), and_self]
    rw [Writable, hchain, hsame]
    exact h.writable hname

theorem Sees.define (h : Sees n scope σ) (name : String) {b : Nearest}
    {binding : Scope.Binding ν} (hbinding : (∃ v, binding = .mutable v) ↔ b = .mutable) :
    Sees (n.bind name b) scope (σ.define scope name binding) := by
  have hextend := extends_define σ scope name binding
  refine ⟨fun {j} hj => ?_, fun {other} hother => ?_⟩
  · rw [hextend.chain h.lt] at hj
    exact Nat.lt_of_lt_of_le (h.bound hj) hextend.size_le
  · by_cases hname : other = name
    · subst hname
      rw [writable_define_self h.lt, hbinding, Names.bind, if_pos rfl]
    · rw [writable_define_of_ne σ scope hname, Names.bind, if_neg hname]
      rw [Names.bind, if_neg hname] at hother
      exact h.writable hother

theorem Sees.defineParameters (h : Sees n scope σ) (params : List String) :
    Sees (n.bindAll params) scope (σ.defineParameters scope params) ∧
      Leaves scope σ (σ.defineParameters scope params) := by
  induction params generalizing n σ with
  | nil => exact ⟨h, .refl scope σ⟩
  | cons p ps ih =>
    have hfirst : Sees (n.bind p .fixed) scope (σ.define scope p .parameter) :=
      h.define p (by simp)
    obtain ⟨hsees, hleaves⟩ := ih hfirst
    exact ⟨hsees, (leaves_define σ scope p .parameter).trans hleaves⟩

theorem Sees.child (h : Sees n scope σ) {kind : Scope.Kind} (hkind : kind ≠ .closure) :
    Sees n σ.size (σ.child scope kind).2 := by
  have hnew : ((σ.child scope kind).2.frame σ.size).bindings = .empty ∧
      ((σ.child scope kind).2.frame σ.size).kind = kind := by
    simp [Scopes.child, frame, size]
  have hold {j : Nat} (hj : j ∈ σ.chain scope) :
      (σ.child scope kind).2.frame j = σ.frame j :=
    frame_child_of_lt σ scope j kind (h.bound hj)
  refine ⟨fun {j} hj => ?_, fun {name} hname => ?_⟩
  · rw [chain_child] at hj
    rw [size_child]
    rcases List.mem_cons.1 hj with rfl | hj
    · omega
    · have := h.bound hj
      omega
  · have hsame : (σ.child scope kind).2.findForWriteIn? name (σ.chain scope) =
        σ.findForWriteIn? name (σ.chain scope) :=
      findForWriteIn?_congr fun j hj => by simp only [hold hj, and_self]
    have hfind : ((σ.child scope kind).2.frame σ.size).bindings.find? name = none := by
      rw [hnew.1]
      rfl
    rw [← h.writable hname]
    simp [Writable, chain_child, findForWriteIn?, hfind, hnew.2, hkind, hsame]

theorem sees_root (hardcoded : List Builtin) (path : String) :
    Sees (ν := ν) Names.none 0 ((Scopes.empty hardcoded).root .closure path).2 := by
  refine ⟨fun {j} hj => ?_, fun {name} _ => ?_⟩
  · obtain rfl := List.mem_singleton.1 hj
    exact Nat.zero_lt_one
  · refine ⟨?_, nofun⟩
    rintro ⟨i, v, hfound⟩
    cases hfound

end Scopes

/-! ## Captures that enforce purity -/

namespace Capturing

variable {α β : Type} {n n' n'' : Names} {scope : Nat} {ws ws' : List Nearest}

def Enforced (n : Names) (scope : Nat) (ws : List Nearest) (σ : CaptureState ν) :
    Except (SpecializationError ν) α × CaptureState ν → Prop
  | (.ok _, σ') =>
    (∀ w ∈ ws, w = .mutable) ∧ σ'.scopes.Sees n scope ∧ Scopes.Leaves scope σ.scopes σ'.scopes
  | (.error e, _) => (∃ w ∈ ws, w ≠ .mutable) ∨ e.kind ≠ .purityViolation

/-- The capture meets the writes, and sees to it that they are to variables. The names are those
before and after it. -/
def Enforces (n n' : Names) (scope : Nat) (ws : List Nearest) (x : Capturing ν α) : Prop :=
  (∀ w ∈ ws, w.isStarting = false) → ∀ σ, σ.scopes.Sees n scope →
    Enforced n' scope ws σ (StateT.run (ExceptT.run x) σ)

theorem enforces_pure (n : Names) (scope : Nat) (a : α) :
    Enforces n n scope [] (pure a : Capturing ν α) :=
  fun _ σ hσ => ⟨List.forall_mem_nil _, hσ, .refl scope σ.scopes⟩

theorem enforces_throw {e : SpecializationError ν} (he : e.kind ≠ .purityViolation) :
    Enforces n n' scope [] (throw e : Capturing ν α) :=
  fun _ _ _ => .inr he

theorem enforces_get {f : CaptureState ν → Capturing ν α}
    (hf : (∀ w ∈ ws, w.isStarting = false) → ∀ σ, σ.scopes.Sees n scope →
      Enforced n' scope ws σ (StateT.run (ExceptT.run (f σ)) σ)) :
    Enforces n n' scope ws (get >>= f) :=
  fun hws σ hσ => hf hws σ hσ

theorem Enforces.bind {x : Capturing ν α} {f : α → Capturing ν β}
    (hx : Enforces n n' scope ws x) (hf : ∀ a, Enforces n' n'' scope ws' (f a)) :
    Enforces n n'' scope (ws ++ ws') (x >>= f) := by
  intro hws σ hσ
  have hfirst := hx (fun w hw => hws w (List.mem_append_left _ hw)) σ hσ
  rw [ExceptT.run_bind, StateT.run_bind]
  rcases hrun : StateT.run (ExceptT.run x) σ with ⟨e | a, τ⟩ <;> rw [hrun] at hfirst
  · rcases hfirst with ⟨w, hw, hne⟩ | hkind
    · exact .inl ⟨w, List.mem_append_left _ hw, hne⟩
    · exact .inr hkind
  · obtain ⟨hmutable, hτ, hleaves⟩ := hfirst
    have hsecond := hf a (fun w hw => hws w (List.mem_append_right _ hw)) τ hτ
    change Enforced n'' scope (ws ++ ws') σ (StateT.run (ExceptT.run (f a)) τ)
    rcases hrest : StateT.run (ExceptT.run (f a)) τ with ⟨e | b, υ⟩ <;> rw [hrest] at hsecond
    · rcases hsecond with ⟨w, hw, hne⟩ | hkind
      · exact .inl ⟨w, List.mem_append_right _ hw, hne⟩
      · exact .inr hkind
    · obtain ⟨hmutable', hυ, hleaves'⟩ := hsecond
      exact ⟨List.forall_mem_append.2 ⟨hmutable, hmutable'⟩, hυ, hleaves.trans hleaves'⟩

theorem Enforces.then {x : Capturing ν α} {f : α → Capturing ν β}
    (hx : Enforces n n' scope ws x) (hf : ∀ a, Enforces n' n'' scope [] (f a)) :
    Enforces n n'' scope ws (x >>= f) := by
  have h := hx.bind hf
  rwa [List.append_nil] at h

theorem Enforces.map {x : Capturing ν α} (hx : Enforces n n' scope ws x) (f : α → β) :
    Enforces n n' scope ws (x >>= fun a => pure (f a)) :=
  hx.then fun a => enforces_pure n' scope (f a)

theorem Enforces.of_starting {x : Capturing ν α} {name : String} {kind : DeclarationKind}
    (hx : Enforces (n.bind name (.starting kind)) n' scope ws x) : Enforces n n' scope ws x := by
  refine fun hws σ hσ => hx hws σ ⟨hσ.bound, fun {other} hother => ?_⟩
  by_cases hname : other = name
  · rw [Names.bind, if_pos hname] at hother
    cases hother
  · rw [Names.bind, if_neg hname] at hother ⊢
    exact hσ.writable hother

theorem enforces_child (kind : Scope.Kind) (hkind : kind ≠ .closure)
    {f : Nat → Capturing ν β} (hf : ∀ inner, Enforces n n' inner ws (f inner)) :
    Enforces n n scope ws (child scope kind >>= f) := by
  intro hws σ hσ
  have hinner := hf σ.scopes.size hws { σ with scopes := (σ.scopes.child scope kind).2 }
    (hσ.child hkind)
  change Enforced n scope ws σ (StateT.run (ExceptT.run (f σ.scopes.size))
    { σ with scopes := (σ.scopes.child scope kind).2 })
  rcases hrun : StateT.run (ExceptT.run (f σ.scopes.size))
    { σ with scopes := (σ.scopes.child scope kind).2 } with ⟨e | b, τ⟩ <;> rw [hrun] at hinner
  · exact hinner
  · obtain ⟨hmutable, -, hleaves⟩ := hinner
    obtain ⟨hextend, hframes⟩ := hleaves.of_child
    exact ⟨hmutable, hσ.of_frames hextend hframes, fun _ => ⟨hextend, fun j hj _ _ => hframes j hj⟩⟩

theorem enforces_define (name : String) {b : Nearest} {binding : Scope.Binding ν}
    (hbinding : (∃ v, binding = .mutable v) ↔ b = .mutable) :
    Enforces n (n.bind name b) scope [] (define scope name binding) :=
  fun _ σ hσ => ⟨List.forall_mem_nil _, hσ.define name hbinding,
    Scopes.leaves_define σ.scopes scope name binding⟩

theorem enforces_declared (n : Names) (scope : Nat) (kind : DeclarationKind) (name : String) :
    Enforces (ν := ν) n (n.bind name (.ofKind kind)) scope []
      (define scope name (declared kind)) := by
  refine enforces_define name ?_
  cases kind <;> simp [declared, Nearest.ofKind]

theorem enforces_predeclare (n : Names) (scope : Nat) (body : List (Statement ν)) :
    Enforces n (n.within body) scope [] (predeclare scope body) := by
  induction body generalizing n with
  | nil => exact enforces_pure n scope ()
  | cons st rest ih =>
    cases st with
    | function name params body =>
      have hname : Enforces (ν := ν) n (n.bind name .fixed) scope []
          (define scope name .parameter) := enforces_define name (by simp)
      exact hname.bind fun _ => ih _
    | declaration kind name init =>
      exact (enforces_declared n scope kind name).bind fun _ => ih _
    | _ => exact ih n

/-- The body of a function is captured in a frame of its own inside that of the parameters. -/
theorem enforces_enter (params : List String) (body : List (Statement ν))
    {f : Nat → Capturing ν β}
    (hf : ∀ block, Enforces ((n.bindAll params).within body) n' block ws (f block)) :
    Enforces n (n.bindAll params) scope ws (enter scope params body >>= f) := by
  have hparams : Enforces (ν := ν) n (n.bindAll params) scope [] (modify fun s =>
      { s with scopes := s.scopes.defineParameters scope params } : Capturing ν Unit) :=
    fun _ σ hσ => ⟨List.forall_mem_nil _, hσ.defineParameters params⟩
  simp only [enter, bind_assoc, pure_bind]
  have hblock (block : Nat) := (enforces_predeclare (n.bindAll params) block body).bind
    fun _ => hf block
  exact hparams.bind fun _ => enforces_child .block (by decide) hblock

theorem enforces_ensureWritable (n : Names) (scope : Nat) (name : String) :
    Enforces (ν := ν) n n scope [n name] (ensureWritable scope name) := by
  refine enforces_get fun hws σ hσ => ?_
  have hwritable := hσ.writable (hws (n name) (List.mem_singleton_self _))
  have hrefused (h : ¬ σ.scopes.Writable scope name) : ∃ w ∈ [n name], w ≠ .mutable :=
    ⟨n name, List.mem_singleton_self _, fun hmutable => h (hwritable.2 hmutable)⟩
  cases hlookup : σ.scopes.lookupForWrite? scope name with
  | error e =>
    refine .inl (hrefused ?_)
    rintro ⟨i, v, hfound⟩
    cases hlookup.symm.trans hfound
  | ok found =>
    by_cases hmutable : ∃ i v, found = some (i, .mutable v)
    · obtain ⟨i, v, rfl⟩ := hmutable
      have hvariable := hwritable.1 ⟨i, v, hlookup⟩
      exact ⟨List.forall_mem_singleton.2 hvariable, hσ, .refl scope σ.scopes⟩
    · have hthrow : Enforced n scope [n name] σ
          (StateT.run (ExceptT.run (throw (.impure name) : Capturing ν Unit)) σ) := by
        refine .inl (hrefused ?_)
        rintro ⟨i, v, hfound⟩
        exact hmutable ⟨i, v, Except.ok.inj (hlookup.symm.trans hfound)⟩
      rcases found with _ | ⟨i, _ | v | v | v⟩
      case some.mutable => exact absurd ⟨i, v, rfl⟩ hmutable
      all_goals exact hthrow

theorem enforces_closure (n : Names) (scope : Nat) (hint : String) (c : Closure ν) :
    Enforces n n scope [] (closure scope hint c) :=
  fun _ σ hσ => ⟨List.forall_mem_nil _, hσ, .refl scope σ.scopes⟩

theorem enforces_value (n : Names) (scope : Nat) (hint : String) (v : Value ν) :
    Enforces n n scope [] (value scope hint v) := by
  induction v generalizing hint with
  | primitive l => exact enforces_pure n scope _
  | builtin b => exact enforces_pure n scope _
  | pair i head tail ihead itail => exact (ihead _).bind fun _ => (itail _).map _
  | closure c => exact enforces_closure n scope hint c

theorem enforces_identifier (store : Store ν) (env : Environment) (n : Names) (scope : Nat)
    (name : String) : Enforces n n scope [] (identifier store env scope name) := by
  refine enforces_get fun hws σ hσ => ?_
  rcases σ.scopes.lookup? scope name with _ | ⟨i, _ | _ | _ | _⟩
  case none =>
    cases hvalue : store.lookup? name env with
    | some v => simpa only [hvalue] using enforces_value n scope name v hws σ hσ
    | none => simpa only [hvalue] using enforces_throw (by simp [SpecializationError.kind]) hws σ hσ
  all_goals exact enforces_pure n scope _ hws σ hσ

end Capturing

/-! ## Captured trees -/

open Capturing

section

variable (store : Store ν) (env : Environment)

mutual

theorem Expression.capture_enforces (n : Names) (scope : Nat) : (e : Expression ν) →
    e.isPlaced = true → Enforces n n scope (e.writes n) (e.capture store env scope)
  | .literal l => by
    intro _
    simpa only [Expression.writes, Expression.capture] using enforces_pure n scope _
  | .builtin b => by
    intro _
    simpa only [Expression.writes, Expression.capture] using enforces_pure n scope _
  | .identifier name => by
    intro _
    simpa only [Expression.writes, Expression.capture] using
      enforces_identifier store env n scope name
  | .array items => by
    intro h
    simp only [Expression.isPlaced] at h
    simp only [Expression.writes, Expression.capture]
    exact (Expression.captureAll_enforces n scope items h).map _
  | .member object property => by
    intro h
    simp only [Expression.isPlaced, Bool.and_eq_true] at h
    simp only [Expression.writes, Expression.capture]
    have hproperty := property.capture_enforces n scope h.2
    exact (object.capture_enforces n scope h.1).bind fun _ => hproperty.map _
  | .unary op argument => by
    intro h
    simp only [Expression.isPlaced] at h
    simp only [Expression.writes, Expression.capture]
    exact (argument.capture_enforces n scope h).map _
  | .binary op left right => by
    intro h
    simp only [Expression.isPlaced, Bool.and_eq_true] at h
    simp only [Expression.writes, Expression.capture]
    have hright := right.capture_enforces n scope h.2
    exact (left.capture_enforces n scope h.1).bind fun _ => hright.map _
  | .logical op left right => by
    intro h
    simp only [Expression.isPlaced, Bool.and_eq_true] at h
    simp only [Expression.writes, Expression.capture]
    have hright := right.capture_enforces n scope h.2
    exact (left.capture_enforces n scope h.1).bind fun _ => hright.map _
  | .conditional test consequent alternate => by
    intro h
    simp only [Expression.isPlaced, Bool.and_eq_true] at h
    simp only [Expression.writes, Expression.capture]
    have hconsequent := consequent.capture_enforces n scope h.2.1
    have halternate := alternate.capture_enforces n scope h.2.2
    exact (test.capture_enforces n scope h.1).bind fun _ =>
      hconsequent.bind fun _ => halternate.map _
  | .call callee arguments => by
    intro h
    simp only [Expression.isPlaced, Bool.and_eq_true] at h
    simp only [Expression.writes, Expression.capture]
    have harguments := Expression.captureAll_enforces n scope arguments h.2
    exact (callee.capture_enforces n scope h.1).bind fun _ => harguments.map _
  | .function params body home => by
    intro h
    simp only [Expression.isPlaced] at h
    simp only [Expression.writes, Expression.capture]
    have hbody block := Statement.captureAll_enforces ((n.bindAll params).within body) block body h
    exact enforces_child .function (by decide) fun inner =>
      enforces_enter params body fun block => (hbody block).map _
  | .assignment op target value => by
    intro h
    simp only [Expression.isPlaced] at h
    simp only [Expression.writes, Expression.capture]
    have hvalue := value.capture_enforces n scope h
    exact (enforces_ensureWritable n scope target).bind fun _ => hvalue.map _
  | .update op isBefore target => by
    intro _
    simp only [Expression.writes, Expression.capture]
    exact (enforces_ensureWritable n scope target).map _

theorem Expression.captureAll_enforces (n : Names) (scope : Nat) : (es : List (Expression ν)) →
    Expression.allPlaced es = true →
      Enforces n n scope (Expression.allWrites n es) (Expression.captureAll store env scope es)
  | [] => by
    intro _
    simpa only [Expression.allWrites, Expression.captureAll] using enforces_pure n scope _
  | e :: es => by
    intro h
    simp only [Expression.allPlaced, Bool.and_eq_true] at h
    simp only [Expression.allWrites, Expression.captureAll]
    have hrest := Expression.captureAll_enforces n scope es h.2
    exact (e.capture_enforces n scope h.1).bind fun _ => hrest.map _

theorem Expression.captureOption_enforces (n : Names) (scope : Nat) :
    (e : Option (Expression ν)) → Expression.optionPlaced e = true →
      Enforces n n scope (Expression.optionWrites n e)
        (Expression.captureOption store env scope e)
  | none => by
    intro _
    simpa only [Expression.optionWrites, Expression.captureOption] using enforces_pure n scope _
  | some e => by
    intro h
    simp only [Expression.optionPlaced] at h
    simp only [Expression.optionWrites, Expression.captureOption]
    exact (e.capture_enforces n scope h).map _

theorem Statement.capture_enforces (n : Names) (scope : Nat) : (st : Statement ν) →
    st.isPlaced = true → Enforces n (n.after st) scope (st.writes n) (st.capture store env scope)
  | .block body => by
    intro h
    simp only [Statement.isPlaced] at h
    simp only [Statement.writes, Statement.capture]
    have hbody block := Statement.captureAll_enforces (n.within body) block body h
    exact enforces_child .block (by decide) fun block =>
      (enforces_predeclare n block body).bind fun _ => (hbody block).map _
  | .expression e => by
    intro h
    simp only [Statement.isPlaced] at h
    simp only [Statement.writes, Statement.capture]
    exact (e.capture_enforces n scope h).map _
  | .result value => by
    intro h
    simp only [Statement.isPlaced] at h
    simp only [Statement.writes, Statement.capture]
    exact (Expression.captureOption_enforces n scope value h).map _
  | .branch test consequent alternate => by
    intro h
    simp only [Statement.isPlaced, Bool.and_eq_true] at h
    obtain ⟨htest, ⟨halone, hconsequent⟩, halternate⟩ := h
    have htaken := consequent.capture_enforces n scope hconsequent
    rw [n.after_of_standsAlone halone] at htaken
    simp only [Statement.writes, Statement.capture]
    refine (test.capture_enforces n scope htest).bind fun _ => htaken.bind fun _ => ?_
    cases alternate with
    | none =>
      simp only [Statement.optionWrites]
      exact enforces_pure n scope _
    | some st =>
      simp only [Statement.optionPlaced, Bool.and_eq_true] at halternate
      have hother := st.capture_enforces n scope halternate.2
      rw [n.after_of_standsAlone halternate.1] at hother
      simp only [Statement.optionWrites]
      exact hother.map _
  | .loop start test update body => by
    intro h
    simp only [Statement.isPlaced, Bool.and_eq_true] at h
    obtain ⟨hstart, htest, hupdate, halone, hbody⟩ := h
    have hround inner := body.capture_enforces (start.names n) inner hbody
    simp only [Names.after_of_standsAlone _ halone] at hround
    simp only [Statement.writes, Statement.capture]
    refine enforces_child .loop (by decide) (?_ : ∀ inner, Enforces n (start.names n) inner _ _)
    intro inner
    refine (start.capture_enforces n inner hstart).bind fun _ => ?_
    refine (Expression.captureOption_enforces _ inner test htest).bind fun _ => ?_
    refine (Expression.captureOption_enforces _ inner update hupdate).bind fun _ => ?_
    exact (hround inner).map _
  | .declaration kind name init => by
    intro h
    simp only [Statement.isPlaced] at h
    simp only [Statement.writes, Statement.capture]
    exact (Expression.captureOption_enforces n scope init h).then fun _ =>
      (enforces_declared n scope kind name).map _
  | .function name params body => by
    intro h
    simp only [Statement.isPlaced] at h
    simp only [Statement.writes, Statement.capture]
    have hbody block := Statement.captureAll_enforces ((n.bindAll params).within body) block body h
    exact enforces_child .function (by decide) fun inner =>
      enforces_enter params body fun block => (hbody block).map _

theorem Statement.captureAll_enforces (n : Names) (scope : Nat) : (body : List (Statement ν)) →
    Statement.allPlaced body = true →
      Enforces n (body.foldl Names.after n) scope (Statement.allWrites n body)
        (Statement.captureAll store env scope body)
  | [] => by
    intro _
    simp only [Statement.allWrites, Statement.captureAll]
    exact enforces_pure n scope _
  | st :: rest => by
    intro h
    simp only [Statement.allPlaced, Bool.and_eq_true] at h
    simp only [Statement.allWrites, Statement.captureAll]
    have hrest := Statement.captureAll_enforces (n.after st) scope rest h.2
    exact (st.capture_enforces n scope h.1).bind fun _ => hrest.map _

theorem LoopStart.capture_enforces (n : Names) (scope : Nat) : (start : LoopStart ν) →
    start.isPlaced = true →
      Enforces n (start.names n) scope (start.writes n) (start.capture store env scope)
  | .absent => by
    intro _
    simp only [LoopStart.writes, LoopStart.capture]
    exact enforces_pure n scope _
  | .declaration kind name init => by
    intro h
    simp only [LoopStart.isPlaced] at h
    simp only [LoopStart.writes, LoopStart.capture, LoopStart.names]
    have hinit := Expression.captureOption_enforces (n.bind name (.starting kind)) scope init h
    have hname := enforces_declared (ν := ν) (n.bind name (.starting kind)) scope kind name
    rw [Names.bind_bind] at hname
    exact (hinit.then fun _ => hname.map _).of_starting
  | .expression e => by
    intro h
    simp only [LoopStart.isPlaced] at h
    simp only [LoopStart.writes, LoopStart.capture, LoopStart.names]
    exact (e.capture_enforces n scope h).map _

end

end

/-- A closure that writes anything but its own variables is not captured, and one that writes
nothing else is not refused for the sake of purity. Only what the start value of a loop writes to
the name of that loop is left out. -/
theorem ClosureTask.capture_purity (store : Store ν) (task : ClosureTask ν) (path : String)
    (hardcoded : List Builtin) (names : ClosureNames)
    (hplaced : Statement.allPlaced task.closure.function.body = true)
    (hstarting : ∀ w ∈ task.closure.function.writes, w.isStarting = false) :
    ((∃ w ∈ task.closure.function.writes, w.isMutable = false) →
      ∃ e, (task.capture store path hardcoded names).1 = .error e) ∧
    ((∀ w ∈ task.closure.function.writes, w.isMutable = true) →
      ∀ e, (task.capture store path hardcoded names).1 = .error e →
        e.kind ≠ .purityViolation) := by
  have hbody (block : Nat) := Statement.captureAll_enforces store task.closure.environment
    ((Names.none.bindAll task.closure.function.params).within task.closure.function.body) block
    task.closure.function.body hplaced
  have hcapture := enforces_enter task.closure.function.params task.closure.function.body hbody
    hstarting ⟨_, names, []⟩ (Scopes.sees_root hardcoded path)
  have hmutable {w : Nearest} (hw : w ∈ task.closure.function.writes) :
      w.isMutable = true ↔ w = .mutable := by
    have hother := hstarting w hw
    cases w <;> simp_all [Nearest.isMutable, Nearest.isStarting]
  unfold ClosureTask.capture
  dsimp only
  split
  next result σ hrun =>
  replace hcapture : Enforced (Names.none.bindAll task.closure.function.params) 0
      task.closure.function.writes ⟨((Scopes.empty hardcoded).root .closure path).2, names, []⟩
      (result, σ) := by
    rw [← hrun]
    exact hcapture
  cases result with
  | ok body =>
    constructor
    · rintro ⟨w, hw, hfixed⟩
      have hall := (hmutable hw).2 (hcapture.1 w hw)
      rw [hfixed] at hall
      cases hall
    · rintro - e ⟨⟩
  | error e =>
    refine ⟨fun _ => ⟨e, rfl⟩, fun hall e' he' => ?_⟩
    obtain rfl : e = e' := Except.error.inj he'
    rcases hcapture with ⟨w, hw, hfixed⟩ | hkind
    · exact absurd ((hmutable hw).1 (hall w hw)) hfixed
    · exact hkind

/-! ## Variables and parameters

A closure that counts in a variable of its own, and one that counts in its parameter. -/

namespace Counting

/-- `t => { let n = 0; const add = () => { n = n + t; }; add(); return n; }` -/
def own : Closure (Exact .zero) :=
  ⟨0, some "wave", ⟨["t"], [
    .declaration .mutable "n" (some (.number (.of 0))),
    .declaration .constant "add" (some (.function [] [.expression
      (.assignment .assign "n" (.binary .add (.identifier "n") (.identifier "t")))] none)),
    .expression (.call (.identifier "add") []),
    .result (some (.identifier "n"))]⟩, .global⟩

/-- `t => { t++; return t; }` -/
def shared : Closure (Exact .zero) :=
  ⟨0, some "wave", ⟨["t"], [.expression (.update .increment false "t"),
    .result (some (.identifier "t"))]⟩, .global⟩

theorem capture_own_not_shared :
    (∀ e, ((⟨"wave", own⟩ : ClosureTask _).capture .initial "c0" [.length] .empty).1 = .error e →
      e.kind ≠ .purityViolation) ∧
    ∃ e, ((⟨"wave", shared⟩ : ClosureTask _).capture .initial "c0" [.length] .empty).1 =
      .error e := by
  have hown : own.function.writes = [.mutable] := rfl
  have hshared : shared.function.writes = [.fixed] := rfl
  constructor
  · refine (ClosureTask.capture_purity .initial ⟨"wave", own⟩ "c0" [.length] .empty rfl ?_).2 ?_
    · rw [hown]
      decide
    · rw [hown]
      decide
  · refine (ClosureTask.capture_purity .initial ⟨"wave", shared⟩ "c0" [.length] .empty rfl ?_).1 ?_
    · rw [hshared]
      decide
    · rw [hshared]
      decide

end Counting

/-! ### Start values of loops

The start value of a loop is captured before the name of the loop is bound, so what it writes is
looked for around the loop. -/

namespace Starting

/-- `t => { outer g = 0; for (inner g = () => { g = 1; return 1; }; t < 0; t) {} return t; }` -/
def wave (outer inner : DeclarationKind) : Closure (Exact .zero) :=
  ⟨0, some "wave", ⟨["t"], [
    .declaration outer "g" (some (.number (.of 0))),
    .loop (.declaration inner "g" (some (.function []
        [.expression (.assignment .assign "g" (.number (.of 1))),
          .result (some (.number (.of 1)))] none)))
      (some (.binary .lessThan (.identifier "t") (.number (.of 0)))) (some (.identifier "t"))
      (.block []),
    .result (some (.identifier "t"))]⟩, .global⟩

/-- The name that is assigned to where no variable of the closure stands. -/
def impureTarget? {α : Type} : Except (SpecializationError (Exact .zero)) α → Option String
  | .error (.impure target) => some target
  | _ => none

theorem eq_impure {α : Type} {r : Except (SpecializationError (Exact .zero)) α} {target : String}
    (h : impureTarget? r = some target) : r = .error (.impure target) := by
  unfold impureTarget? at h
  split at h
  · cases h
    rfl
  · cases h

/-- The variable of a loop may not be written in its start value if a constant is around it, and a
constant may be if a variable is around it. -/
theorem capture_looks_around_loop :
    ((wave .constant .mutable).function.writes = [.starting .mutable] ∧
      Nearest.isMutable (.starting .mutable) = true ∧
      ((⟨"wave", wave .constant .mutable⟩ : ClosureTask _).capture .initial "c0" [.length]
        .empty).1 = .error (.impure "g")) ∧
    ((wave .mutable .constant).function.writes = [.starting .constant] ∧
      Nearest.isMutable (.starting .constant) = false ∧
      ∃ captured, ((⟨"wave", wave .mutable .constant⟩ : ClosureTask _).capture .initial "c0"
        [.length] .empty).1 = .ok captured) := by
  refine ⟨⟨rfl, rfl, eq_impure ?_⟩, rfl, rfl, exists_ok_of_isOk ?_⟩
  · decide +kernel
  · decide +kernel

end Starting

end Waveform
