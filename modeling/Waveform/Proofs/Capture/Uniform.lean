import Waveform.Proofs.Capture.Capturing
import Waveform.Proofs.Capture.Closing
import Waveform.Proofs.Capture.Requests

/-!
# Captures under all tables of names

Which closures a capture asks for does not depend on the names that they get. So all captures of
one tree, whatever the table of names that they start with, come to the same: they fail with one
error, or they make the same requests and give the tree with values for its free names, with the
names that closures go by in the end.
-/

namespace Waveform

variable {ν : Type}

namespace Capturing

variable {α β : Type}

def Fails (x : Capturing ν α) (σ : CaptureState ν) (e : SpecializationError ν) : Prop :=
  (StateT.run (ExceptT.run x) σ).1 = .error e

theorem fails_throw (e : SpecializationError ν) (σ : CaptureState ν) :
    Fails (throw e : Capturing ν α) σ e := rfl

theorem Fails.bind {x : Capturing ν α} {σ : CaptureState ν} {e : SpecializationError ν}
    (h : Fails x σ e) (f : α → Capturing ν β) : Fails (x >>= f) σ e := by
  unfold Fails at h ⊢
  rw [ExceptT.run_bind, StateT.run_bind]
  rcases hrun : StateT.run (ExceptT.run x) σ with ⟨result, τ⟩
  rw [hrun] at h
  obtain rfl : result = .error e := h
  rfl

theorem Gives.fails_bind {x : Capturing ν α} {f : α → Capturing ν β} {σ τ : CaptureState ν} {a : α}
    {e : SpecializationError ν} (h : Gives x σ a τ) (hf : Fails (f a) τ e) :
    Fails (x >>= f) σ e := by
  unfold Fails at hf ⊢
  unfold Gives at h
  rw [ExceptT.run_bind, StateT.run_bind, h]
  exact hf

/-! ## Uniform captures -/

section

variable (store : Store ν) (env : Environment) (hardcoded : List Builtin)

/-- Why a capture fails: a name that is read stands for nothing, or something is written that is no
variable of the closure itself. -/
def Blames (free : List Occurrence) (e : SpecializationError ν) : Prop :=
  (∃ name, e = .unbound name ∧ .read name ∈ free ∧ store.captured? hardcoded env name = none) ∨
    ∃ name, e = .impure name

def Readable (free : List Occurrence) : Prop :=
  ∀ o ∈ free, ∃ name v, o = .read name ∧ store.captured? hardcoded env name = some v

/-- Captures in a frame, with the names that are bound there before and after and the names that
are free in what is captured. They all fail, or all make the same requests, and what they give
depends on the names in the end alone. -/
def Uniform {ι : Type} (scope : Nat) (bound bound' : List String) (free : List Occurrence)
    (F : ι → ClosureNames → α) (x : ι → Capturing ν α) : Prop :=
  ∀ σ, Scopes.Stands hardcoded scope (Locals.none.extend bound) σ →
    (∃ e, Blames store env hardcoded free e ∧
      ∀ i names found, Fails (x i) ⟨σ, names, found⟩ e) ∨
    ∃ σ' requests, Scopes.Stands hardcoded scope (Locals.none.extend bound') σ' ∧
      Scopes.Aside scope σ σ' ∧ Readable store env hardcoded free ∧
      requests.map (·.closure) = store.referents hardcoded env free ∧
      (∀ request ∈ requests, ClosureNames.IsMarked request.name) ∧
      ∀ i names found final, (names.after requests).Grows final →
        Gives (x i) ⟨σ, names, found⟩ (F i final)
          ⟨σ', names.after requests, (names.discovered requests).reverse ++ found⟩

end

variable {store : Store ν} {env : Environment} {hardcoded : List Builtin}

theorem Blames.mono {free free' : List Occurrence} {e : SpecializationError ν}
    (h : Blames store env hardcoded free e) (hsub : free ⊆ free') :
    Blames store env hardcoded free' e := by
  rcases h with ⟨name, rfl, hmem, hnone⟩ | himpure
  · exact .inl ⟨name, rfl, hsub hmem, hnone⟩
  · exact .inr himpure

theorem readable_nil : Readable store env hardcoded [] :=
  List.forall_mem_nil _

theorem Readable.append {free free' : List Occurrence} (h : Readable store env hardcoded free)
    (h' : Readable store env hardcoded free') : Readable store env hardcoded (free ++ free') := by
  intro o ho
  rcases List.mem_append.1 ho with ho | ho
  · exact h o ho
  · exact h' o ho

namespace Uniform

variable {ι κ : Type} {scope : Nat} {bound bound' bound'' : List String}
  {free free' : List Occurrence} {F : ι → ClosureNames → α}

theorem pure (a : ι → α) :
    Uniform store env hardcoded scope bound bound [] (fun i _ => a i)
      fun i => Pure.pure (a i) := by
  intro σ hσ
  exact .inr ⟨σ, [], hσ, .refl scope σ, readable_nil, rfl, List.forall_mem_nil _,
    fun _ _ _ _ _ => gives_pure.2 ⟨rfl, rfl⟩⟩

theorem of_eq {G : ι → ClosureNames → α} {x : ι → Capturing ν α}
    (h : Uniform store env hardcoded scope bound bound' free F x) (hfree : free' = free)
    (hG : ∀ i final, G i final = F i final) :
    Uniform store env hardcoded scope bound bound' free' G x := by
  obtain rfl : G = F := funext fun i => funext (hG i)
  rwa [hfree]

theorem bind {G : ι × α → ClosureNames → β} {x : ι → Capturing ν α} {f : ι → α → Capturing ν β}
    (hx : Uniform store env hardcoded scope bound bound' free F x)
    (hf : Uniform store env hardcoded scope bound' bound'' free' G fun p => f p.1 p.2) :
    Uniform store env hardcoded scope bound bound'' (free ++ free')
      (fun i final => G (i, F i final) final) fun i => x i >>= f i := by
  intro σ hσ
  rcases hx σ hσ with
    ⟨e, hblames, hfails⟩ | ⟨τ, requests, hτ, haside, hread, hasked, hmarked, hgives⟩
  · exact .inl ⟨e, hblames.mono (List.subset_append_left ..), fun i names found =>
      (hfails i names found).bind (f i)⟩
  rcases hf τ hτ with
    ⟨e, hblames, hfails⟩ | ⟨υ, requests', hυ, haside', hread', hasked', hmarked', hgives'⟩
  · refine .inl ⟨e, hblames.mono (List.subset_append_right ..), fun i names found => ?_⟩
    have hfirst := hgives i names found _ (.refl _)
    exact hfirst.fails_bind (hfails (i, _) _ _)
  · refine .inr ⟨υ, requests ++ requests', hυ, haside.trans haside', hread.append hread', ?_, ?_,
      ?_⟩
    · rw [List.map_append, hasked, hasked', Store.referents_append]
    · intro request hrequest
      rcases List.mem_append.1 hrequest with hmem | hmem
      · exact hmarked request hmem
      · exact hmarked' request hmem
    · intro i names found final hfinal
      rw [ClosureNames.after_append] at hfinal
      have hafter := (ClosureNames.after_grows _ requests').trans hfinal
      have hfirst := hgives i names found final hafter
      have hsecond := hgives' (i, F i final) _ ((names.discovered requests).reverse ++ found) final
        hfinal
      rw [ClosureNames.after_append, ClosureNames.discovered_append, List.reverse_append,
        List.append_assoc]
      exact gives_bind.2 ⟨_, _, hfirst, hsecond⟩

theorem map {g : ι → α → β} {x : ι → Capturing ν α}
    (hx : Uniform store env hardcoded scope bound bound' free F x) :
    Uniform store env hardcoded scope bound bound' free (fun i final => g i (F i final))
      fun i => x i >>= fun a => Pure.pure (g i a) := by
  have hpure : Uniform store env hardcoded scope bound' bound' [] (fun p _ => g p.1 p.2)
      fun p : ι × α => Pure.pure (g p.1 p.2) := .pure _
  exact .of_eq (hx.bind hpure) (List.append_nil free).symm fun _ _ => rfl

theorem child {kind : Scope.Kind} {f : ι → Nat → Capturing ν α}
    (h : ∀ inner, Uniform store env hardcoded inner bound bound' free F fun i => f i inner) :
    Uniform store env hardcoded scope bound bound free F
      fun i => Capturing.child scope kind >>= f i := by
  intro σ hσ
  have hchild (names : ClosureNames) (found : List (ClosureTask ν)) :
      Gives (Capturing.child scope kind) ⟨σ, names, found⟩ σ.size
        ⟨(σ.child scope kind).2, names, found⟩ :=
    gives_child.2 ⟨rfl, rfl⟩
  rcases h σ.size _ (hσ.child kind) with
    ⟨e, hblames, hfails⟩ | ⟨τ, requests, hτ, haside, hread, hasked, hmarked, hgives⟩
  · exact .inl ⟨e, hblames, fun i names found =>
      (hchild names found).fails_bind (hfails i names found)⟩
  · obtain ⟨hleave, haside'⟩ := hσ.leave hτ haside
    refine .inr ⟨τ, requests, hleave, haside', hread, hasked, hmarked, ?_⟩
    intro i names found final hfinal
    exact gives_bind.2 ⟨_, _, hchild names found, hgives i names found final hfinal⟩

theorem define {name : String} {b : Scope.Binding ν} (hb : b.isOwn = true) :
    Uniform store env hardcoded scope bound (bound ++ [name]) [] (fun _ _ => ())
      fun _ : ι => Capturing.define scope name b := by
  intro σ hσ
  have hdefine : Scopes.Stands hardcoded scope ((Locals.none.extend bound).extend [name])
      (σ.define scope name b) := hσ.define hb
  rw [Locals.extend_append] at hdefine
  exact .inr ⟨_, [], hdefine, Scopes.aside_define hσ.bound name b, readable_nil, rfl,
    List.forall_mem_nil _, fun _ _ _ _ _ => gives_modify.2 rfl⟩

theorem predeclare (body : List (Statement ν)) :
    Uniform store env hardcoded scope bound (bound ++ Statement.declaredNames body) []
      (fun _ _ => ()) fun _ : ι => Capturing.predeclare scope body := by
  induction body generalizing bound ι with
  | nil =>
    rw [Statement.declaredNames, List.append_nil]
    exact .pure _
  | cons st rest ih =>
    cases st with
    | function name params body =>
      rw [Statement.declaredNames, List.append_cons]
      exact .of_eq ((Uniform.define rfl).bind ih) rfl fun _ _ => rfl
    | declaration kind name init =>
      rw [Statement.declaredNames, List.append_cons]
      exact .of_eq ((Uniform.define (isOwn_declared kind)).bind ih) rfl fun _ _ => rfl
    | _ => exact ih

theorem enter {params : List String} {body : List (Statement ν)} {f : ι → Nat → Capturing ν α}
    (h : ∀ block, Uniform store env hardcoded block
      (bound ++ (params ++ Statement.declaredNames body)) bound' free
      (fun p : (ι × Unit) × Unit => F p.1.1) fun p => f p.1.1 block) :
    Uniform store env hardcoded scope bound (bound ++ params) free F
      fun i => Capturing.enter scope params body >>= f i := by
  have hparams : Uniform store env hardcoded scope bound (bound ++ params) [] (fun _ _ => ())
      fun _ : ι => (modify fun s : CaptureState ν =>
        { s with scopes := s.scopes.defineParameters scope params } : Capturing ν Unit) := by
    intro σ hσ
    obtain ⟨hdefine, haside⟩ := hσ.defineParameters params
    rw [Locals.extend_append] at hdefine
    exact .inr ⟨_, [], hdefine, haside, readable_nil, rfl, List.forall_mem_nil _,
      fun _ _ _ _ _ => gives_modify.2 rfl⟩
  simp only [Capturing.enter, bind_assoc, pure_bind]
  rw [← List.append_assoc] at h
  have hinner (block : Nat) : Uniform store env hardcoded block (bound ++ params) bound' free
      (fun p : ι × Unit => F p.1)
      fun p => Capturing.predeclare block body >>= fun _ => f p.1 block :=
    .of_eq ((Uniform.predeclare body).bind (h block)) rfl fun _ _ => rfl
  exact .of_eq (hparams.bind (.child hinner)) rfl fun _ _ => rfl

end Uniform

/-! ## Names and values -/

theorem gives_value (scope : Nat) (hint : String) (v : Value ν) (σ : Scopes ν) :
    ∃ requests : List (ClosureTask ν), requests.map (·.closure) = v.closures ∧
      (∀ request ∈ requests, ClosureNames.IsMarked request.name) ∧
      ∀ names found final, (names.after requests).Grows final →
        Gives (value scope hint v) ⟨σ, names, found⟩ (final.quote v)
          ⟨σ, names.after requests, (names.discovered requests).reverse ++ found⟩ := by
  induction v generalizing hint with
  | primitive l => exact ⟨[], rfl, List.forall_mem_nil _, fun _ _ _ _ => gives_pure.2 ⟨rfl, rfl⟩⟩
  | builtin b => exact ⟨[], rfl, List.forall_mem_nil _, fun _ _ _ _ => gives_pure.2 ⟨rfl, rfl⟩⟩
  | pair i head tail ihead itail =>
    obtain ⟨requests, hasked, hmarked, hgives⟩ := ihead (hint ++ "_0")
    obtain ⟨requests', hasked', hmarked', hgives'⟩ := itail (hint ++ "_1")
    refine ⟨requests ++ requests', ?_, ?_, fun names found final hfinal => ?_⟩
    · rw [List.map_append, hasked, hasked', Value.closures]
    · intro request hrequest
      rcases List.mem_append.1 hrequest with hmem | hmem
      · exact hmarked request hmem
      · exact hmarked' request hmem
    · rw [ClosureNames.after_append] at hfinal
      have hhead := hgives names found final ((ClosureNames.after_grows _ requests').trans hfinal)
      have htail := hgives' _ ((names.discovered requests).reverse ++ found) final hfinal
      rw [ClosureNames.after_append, ClosureNames.discovered_append, List.reverse_append,
        List.append_assoc]
      exact gives_bind.2 ⟨_, _, hhead, gives_bind.2 ⟨_, _, htail, gives_pure.2 ⟨rfl, rfl⟩⟩⟩
  | closure c =>
    refine ⟨[⟨σ.freshName scope hint, c⟩], rfl, fun request hrequest => ?_,
      fun names found final hfinal => gives_closure.2 ⟨?_, ?_⟩⟩
    · obtain rfl := List.mem_singleton.1 hrequest
      exact isMarked_freshName σ scope hint
    · have hname := hfinal.name? (names.name?_resolve c.identity (σ.freshName scope hint))
      rw [ClosureNames.quote, hname, Option.getD_some]
    · simp only [ClosureNames.after, ClosureNames.discovered]
      split <;> rfl

variable {ι : Type} {scope : Nat} {bound : List String}

theorem uniform_identifier (name : String) :
    Uniform store env hardcoded scope bound bound ((Expression.identifier name).free (ν := ν) bound)
      (fun _ final =>
        (Expression.identifier name).close (store.capturedAs hardcoded final env) bound)
      fun _ : ι => identifier store env scope name := by
  intro σ hσ
  have hget (names : ClosureNames) (found : List (ClosureTask ν)) :
      Gives (get : Capturing ν (CaptureState ν)) ⟨σ, names, found⟩ ⟨σ, names, found⟩
        ⟨σ, names, found⟩ := gives_get.2 ⟨rfl, rfl⟩
  simp only [Expression.free, Expression.close, identifier]
  rcases hσ.findIn? name with ⟨i, b, hfind, hown, hl⟩ | ⟨hfind, hl⟩
  · have hmem : name ∈ bound := hl.resolve_left id
    rw [Scopes.chain] at hfind
    simp only [if_pos hmem]
    refine .inr ⟨σ, [], hσ, .refl scope σ, readable_nil, rfl, List.forall_mem_nil _,
      fun _ names found _ _ => ?_⟩
    refine gives_bind.2 ⟨_, _, hget names found, ?_⟩
    simp only [Scopes.lookup?, hfind]
    cases b with
    | parameter | mutable _ => exact gives_pure.2 ⟨rfl, rfl⟩
    | constant _ | hardcoded _ => cases hown
  · have hmem : name ∉ bound := fun hmem => hl (.inr hmem)
    rw [Scopes.chain] at hfind
    simp only [if_neg hmem, Store.capturedAs]
    cases hb : hardcoded.find? (·.globalName == name) with
    | some b =>
      have hvalue : store.captured? hardcoded env name = some (.builtin b) := by
        simp [Store.captured?, hb]
      refine .inr ⟨σ, [], hσ, .refl scope σ, ?_, ?_, List.forall_mem_nil _,
        fun _ names found _ _ => ?_⟩
      · intro o ho
        exact ⟨name, _, List.mem_singleton.1 ho, hvalue⟩
      · rw [store.referents_read hardcoded hvalue]
        rfl
      · refine gives_bind.2 ⟨_, _, hget names found, ?_⟩
        simp only [Scopes.lookup?, hfind, hσ.hardcoded, hb, Option.map_some]
        rw [hvalue]
        exact gives_pure.2 ⟨rfl, rfl⟩
    | none =>
      have hvalue : store.captured? hardcoded env name = store.lookup? name env := by
        simp [Store.captured?, hb]
      cases hv : store.lookup? name env with
      | none =>
        rw [hv] at hvalue
        refine .inl ⟨.unbound name, .inl ⟨name, rfl, List.mem_singleton_self _, hvalue⟩,
          fun _ names found => (hget names found).fails_bind ?_⟩
        simp only [Scopes.lookup?, hfind, hσ.hardcoded, hb, Option.map_none]
        exact fails_throw _ _
      | some v =>
        rw [hv] at hvalue
        obtain ⟨requests, hasked, hmarked, hgives⟩ := gives_value scope name v σ
        refine .inr ⟨σ, requests, hσ, .refl scope σ, ?_, ?_, hmarked,
          fun _ names found final hfinal => ?_⟩
        · intro o ho
          exact ⟨name, v, List.mem_singleton.1 ho, hvalue⟩
        · rw [store.referents_read hardcoded hvalue, hasked]
        · refine gives_bind.2 ⟨_, _, hget names found, ?_⟩
          simp only [Scopes.lookup?, hfind, hσ.hardcoded, hb, Option.map_none]
          rw [hvalue]
          exact hgives names found final hfinal

theorem eq_impure_of_findForWriteIn? {σ : Scopes ν} {name : String} {js : List Nat}
    {e : SpecializationError ν} (h : σ.findForWriteIn? name js = .error e) : e = .impure name := by
  induction js with
  | nil => cases h
  | cons j js ih =>
    rw [Scopes.findForWriteIn?] at h
    split at h
    · cases h
    · split at h
      · cases h
        rfl
      · exact ih h

theorem uniform_ensureWritable (name : String) :
    Uniform store env hardcoded scope bound bound (if name ∈ bound then [] else [.write name])
      (fun _ _ => ()) fun _ : ι => ensureWritable scope name := by
  intro σ hσ
  have hget (names : ClosureNames) (found : List (ClosureTask ν)) :
      Gives (get : Capturing ν (CaptureState ν)) ⟨σ, names, found⟩ ⟨σ, names, found⟩
        ⟨σ, names, found⟩ := gives_get.2 ⟨rfl, rfl⟩
  have hfails (h : ∀ i v, σ.lookupForWrite? scope name ≠ .ok (some (i, .mutable v)))
      (names : ClosureNames) (found : List (ClosureTask ν)) :
      Fails (ensureWritable scope name) ⟨σ, names, found⟩ (.impure name) := by
    refine (hget names found).fails_bind ?_
    dsimp only
    split
    · next i v hfound => exact absurd hfound (h i v)
    · exact fails_throw _ _
    · next e herror =>
      rw [eq_impure_of_findForWriteIn? herror]
      exact fails_throw _ _
  by_cases hfound : ∃ i v, σ.lookupForWrite? scope name = .ok (some (i, .mutable v))
  · obtain ⟨i, v, hfound⟩ := hfound
    have hfind := Scopes.findIn?_of_findForWriteIn? hfound
    have hmem : name ∈ bound := by
      rcases hσ.findIn? name with ⟨_, _, _, _, hl⟩ | ⟨hnone, -⟩
      · exact hl.resolve_left id
      · rw [Scopes.chain, hfind] at hnone
        cases hnone
    rw [if_pos hmem]
    refine .inr ⟨σ, [], hσ, .refl scope σ, readable_nil, rfl, List.forall_mem_nil _,
      fun _ names found _ _ => ?_⟩
    refine gives_bind.2 ⟨_, _, hget names found, ?_⟩
    simp only [hfound]
    exact gives_pure.2 ⟨rfl, rfl⟩
  · refine .inl ⟨.impure name, .inr ⟨name, rfl⟩, fun _ names found => hfails ?_ names found⟩
    exact fun i v h => hfound ⟨i, v, h⟩

end Capturing

end Waveform
