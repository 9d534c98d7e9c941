import Waveform.Proofs.Capture.Uniform

/-!
# What a closure is captured as

A capture that succeeds gives the closure's function with values in place of its free names, and
asks for the names of the closures in these values, in the order in which they stand there.
-/

namespace Waveform

variable {ν : Type} {store : Store ν} {env : Environment} {hardcoded : List Builtin}

open Capturing

/-- A function is captured in a frame for its parameters, and its body in one inside. -/
theorem Capturing.uniform_function {ι α : Type} {scope : Nat} {bound bound' : List String}
    {params : List String} {body : List (Statement ν)} {f : ι → List (Statement ν) → α}
    (hbody : ∀ block, Uniform store env hardcoded block
      (bound ++ (params ++ Statement.declaredNames body)) bound'
      (Statement.allFree (bound ++ (params ++ Statement.declaredNames body)) body)
      (fun _ final => Statement.closeAll (store.capturedAs hardcoded final env)
        (bound ++ (params ++ Statement.declaredNames body)) body)
      fun _ : (ι × Unit) × Unit => Statement.captureAll store env block body) :
    Uniform store env hardcoded scope bound bound
      (Statement.allFree (bound ++ (params ++ Statement.declaredNames body)) body)
      (fun i final => f i (Statement.closeAll (store.capturedAs hardcoded final env)
        (bound ++ (params ++ Statement.declaredNames body)) body))
      fun i => do
        let inner ← Capturing.child scope .function
        let block ← Capturing.enter inner params body
        return f i (← Statement.captureAll store env block body) := by
  have hblock (block : Nat) := (hbody block).map (g := fun p => f p.1.1)
  exact .child fun inner => .enter hblock

mutual

theorem Expression.capture_uniform {ι : Type} {scope : Nat} {bound : List String} :
    (e : Expression ν) →
    Uniform store env hardcoded scope bound bound (e.free bound)
      (fun _ final => e.close (store.capturedAs hardcoded final env) bound)
      fun _ : ι => e.capture store env scope
  | .literal m => by
    simp only [Expression.capture]
    exact .pure _
  | .builtin b => by
    simp only [Expression.capture]
    exact .pure _
  | .identifier name => by
    simp only [Expression.capture]
    exact uniform_identifier name
  | .array items => by
    simp only [Expression.capture]
    refine .of_eq (Expression.captureAll_uniform items).map rfl fun _ _ => ?_
    rfl
  | .member object property => by
    simp only [Expression.capture]
    refine .of_eq (object.capture_uniform.bind property.capture_uniform.map) rfl fun _ _ => ?_
    rfl
  | .unary op argument => by
    simp only [Expression.capture]
    refine .of_eq argument.capture_uniform.map rfl fun _ _ => ?_
    rfl
  | .binary op left right => by
    simp only [Expression.capture]
    refine .of_eq (left.capture_uniform.bind right.capture_uniform.map) rfl fun _ _ => ?_
    rfl
  | .logical op left right => by
    simp only [Expression.capture]
    refine .of_eq (left.capture_uniform.bind right.capture_uniform.map) rfl fun _ _ => ?_
    rfl
  | .conditional test consequent alternate => by
    simp only [Expression.capture]
    refine .of_eq (test.capture_uniform.bind
      (consequent.capture_uniform.bind alternate.capture_uniform.map)) rfl fun _ _ => ?_
    rfl
  | .call callee arguments => by
    simp only [Expression.capture]
    refine .of_eq (callee.capture_uniform.bind (Expression.captureAll_uniform arguments).map) rfl
      fun _ _ => ?_
    rfl
  | .function params body home => by
    simp only [Expression.capture]
    refine .of_eq (uniform_function fun _ => Statement.captureAll_uniform body) rfl fun _ _ => ?_
    rfl
  | .assignment op assigned value => by
    simp only [Expression.capture]
    refine .of_eq ((uniform_ensureWritable assigned).bind value.capture_uniform.map) rfl
      fun _ _ => ?_
    rfl
  | .update op isBefore assigned => by
    simp only [Expression.capture]
    refine .of_eq (uniform_ensureWritable assigned).map rfl fun _ _ => ?_
    rfl

theorem Expression.captureAll_uniform {ι : Type} {scope : Nat} {bound : List String} :
    (es : List (Expression ν)) →
      Uniform store env hardcoded scope bound bound (Expression.allFree bound es)
        (fun _ final => Expression.closeAll (store.capturedAs hardcoded final env) bound es)
        fun _ : ι => Expression.captureAll store env scope es
  | [] => by
    simp only [Expression.captureAll]
    exact .pure _
  | e :: es => by
    simp only [Expression.captureAll]
    refine .of_eq (e.capture_uniform.bind (Expression.captureAll_uniform es).map) rfl
      fun _ _ => ?_
    rfl

theorem Expression.captureOption_uniform {ι : Type} {scope : Nat} {bound : List String} :
    (e : Option (Expression ν)) →
      Uniform store env hardcoded scope bound bound (Expression.optionFree bound e)
        (fun _ final => Expression.closeOption (store.capturedAs hardcoded final env) bound e)
        fun _ : ι => Expression.captureOption store env scope e
  | none => by
    simp only [Expression.captureOption]
    exact .pure _
  | some e => by
    simp only [Expression.captureOption]
    refine .of_eq e.capture_uniform.map rfl fun _ _ => ?_
    rfl

theorem Statement.capture_uniform {ι : Type} {scope : Nat} {bound : List String} :
    (st : Statement ν) →
    Uniform store env hardcoded scope bound (bound ++ st.boundNames) (st.free bound)
      (fun _ final => st.close (store.capturedAs hardcoded final env) bound)
      fun _ : ι => st.capture store env scope
  | .block body => by
    simp only [Statement.capture, Statement.boundNames, List.append_nil]
    refine .of_eq (.child fun block => (Uniform.predeclare body).bind
      (Statement.captureAll_uniform body).map) rfl fun _ _ => ?_
    rfl
  | .expression e => by
    simp only [Statement.capture, Statement.boundNames, List.append_nil]
    refine .of_eq e.capture_uniform.map rfl fun _ _ => ?_
    rfl
  | .result value => by
    simp only [Statement.capture, Statement.boundNames, List.append_nil]
    refine .of_eq (Expression.captureOption_uniform value).map rfl fun _ _ => ?_
    rfl
  | .branch test consequent none => by
    simp only [Statement.capture, Statement.boundNames]
    refine .of_eq (test.capture_uniform.bind consequent.capture_uniform.map) rfl fun _ _ => ?_
    rfl
  | .branch test consequent (some alternate) => by
    simp only [Statement.capture, Statement.boundNames, ← List.append_assoc]
    refine .of_eq (test.capture_uniform.bind
      (consequent.capture_uniform.bind alternate.capture_uniform.map)) rfl fun _ _ => ?_
    rfl
  | .loop start test update body => by
    simp only [Statement.capture, Statement.boundNames, List.append_nil]
    refine .of_eq (.child fun inner => start.capture_uniform.bind
      ((Expression.captureOption_uniform test).bind
        ((Expression.captureOption_uniform update).bind body.capture_uniform.map))) rfl
      fun _ _ => ?_
    rfl
  | .declaration kind name init => by
    simp only [Statement.capture, Statement.boundNames]
    refine .of_eq ((Expression.captureOption_uniform init).bind
      (Uniform.define (isOwn_declared kind)).map) ?_ fun _ _ => ?_
    · exact (List.append_nil _).symm
    · rfl
  | .function name params body => by
    simp only [Statement.capture, Statement.boundNames, List.append_nil]
    refine .of_eq (uniform_function fun _ => Statement.captureAll_uniform body) rfl fun _ _ => ?_
    rfl

theorem Statement.captureAll_uniform {ι : Type} {scope : Nat} {bound : List String} :
    (ss : List (Statement ν)) →
      Uniform store env hardcoded scope bound (bound ++ ss.flatMap Statement.boundNames)
        (Statement.allFree bound ss)
        (fun _ final => Statement.closeAll (store.capturedAs hardcoded final env) bound ss)
        fun _ : ι => Statement.captureAll store env scope ss
  | [] => by
    simp only [Statement.captureAll, List.flatMap_nil, List.append_nil]
    exact .pure _
  | s :: ss => by
    simp only [Statement.captureAll, List.flatMap_cons, ← List.append_assoc]
    refine .of_eq (s.capture_uniform.bind (Statement.captureAll_uniform ss).map) rfl
      fun _ _ => ?_
    rfl

theorem LoopStart.capture_uniform {ι : Type} {scope : Nat} {bound : List String} :
    (start : LoopStart ν) →
    Uniform store env hardcoded scope bound (bound ++ start.declaredNames) (start.free bound)
      (fun _ final => start.close (store.capturedAs hardcoded final env) bound)
      fun _ : ι => start.capture store env scope
  | .absent => by
    simp only [LoopStart.capture, LoopStart.declaredNames, List.append_nil]
    exact .pure _
  | .declaration kind name init => by
    simp only [LoopStart.capture, LoopStart.declaredNames]
    refine .of_eq ((Expression.captureOption_uniform init).bind
      (Uniform.define (isOwn_declared kind)).map) ?_ fun _ _ => ?_
    · exact (List.append_nil _).symm
    · rfl
  | .expression e => by
    simp only [LoopStart.capture, LoopStart.declaredNames, List.append_nil]
    refine .of_eq e.capture_uniform.map rfl fun _ _ => ?_
    rfl

end

/-- A closure is captured as its function with values for its free names, whatever it is called and
whatever names others go by: all captures on one path fail, or all make the same requests. -/
theorem Closure.capture_outcome (c : Closure ν) (store : Store ν) (hardcoded : List Builtin)
    (path : String) :
    (∃ e, Blames store c.environment hardcoded c.function.free e ∧ ∀ name names,
      ((⟨name, c⟩ : ClosureTask ν).capture store path hardcoded names).1 = .error e) ∨
    ∃ requests : List (ClosureTask ν), Readable store c.environment hardcoded c.function.free ∧
      requests.map (·.closure) = c.referents store hardcoded ∧
      (∀ request ∈ requests, ClosureNames.IsMarked request.name) ∧
      ∀ name names final, (names.after requests).Grows final →
        (⟨name, c⟩ : ClosureTask ν).capture store path hardcoded names =
          (.ok (⟨name, c.function.close (store.capturedAs hardcoded final c.environment)⟩,
            names.discovered requests), names.after requests) := by
  let f := c.function
  have hbody : Uniform store c.environment hardcoded 0 [] ([] ++ f.params) f.free
      (fun _ final => Statement.closeAll (store.capturedAs hardcoded final c.environment)
        (f.params ++ Statement.declaredNames f.body) f.body)
      fun _ : Unit => Capturing.enter 0 f.params f.body >>= fun block =>
        Statement.captureAll store c.environment block f.body :=
    .enter fun block => Statement.captureAll_uniform f.body
  have hroot : Scopes.Stands (ν := ν) hardcoded 0 (Locals.none.extend [])
      ((Scopes.empty hardcoded).root .closure path).2 := by
    rw [Locals.extend_nil]
    exact Scopes.stands_root hardcoded .closure path
  rcases hbody _ hroot with
    ⟨e, hblames, hfails⟩ | ⟨σ', requests, -, -, hread, hasked, hmarked, hgives⟩
  · refine .inl ⟨e, hblames, fun name names => ?_⟩
    have hrun := hfails () names []
    unfold ClosureTask.capture
    unfold Fails at hrun
    dsimp only
    split
    next result state heq =>
    obtain rfl : result = .error e := (congrArg Prod.fst heq).symm.trans hrun
    rfl
  · refine .inr ⟨requests, hread, hasked, hmarked, fun name names final hfinal => ?_⟩
    have hrun := hgives () names [] final hfinal
    unfold ClosureTask.capture
    dsimp only
    split
    next result state heq =>
    obtain ⟨rfl, rfl⟩ := Prod.mk.inj (heq.symm.trans hrun)
    rw [List.append_nil, List.reverse_reverse]
    rfl

section

variable {task : ClosureTask ν} {path : String} {names names' : ClosureNames}
  {unit : FunctionDeclaration ν} {tasks : List (ClosureTask ν)}

/-- A capture that succeeds makes requests for the closures that the closure refers to. -/
theorem ClosureTask.exists_requests
    (h : task.capture store path hardcoded names = (.ok (unit, tasks), names')) :
    ∃ requests : List (ClosureTask ν),
      Readable store task.closure.environment hardcoded task.closure.function.free ∧
      requests.map (·.closure) = task.closure.referents store hardcoded ∧
      (∀ request ∈ requests, ClosureNames.IsMarked request.name) ∧
      names' = names.after requests ∧ tasks = names.discovered requests ∧
      unit.name = task.name ∧ ∀ final, names'.Grows final → unit.function =
        task.closure.function.close
          (store.capturedAs hardcoded final task.closure.environment) := by
  rcases task.closure.capture_outcome store hardcoded path with
    ⟨e, -, hfails⟩ | ⟨requests, hread, hasked, hmarked, hgives⟩
  · have hfail := hfails task.name names
    rw [h] at hfail
    cases hfail
  · have hgive (final : ClosureNames) (hfinal : (names.after requests).Grows final) :=
      Prod.mk.inj (h.symm.trans (hgives task.name names final hfinal))
    have hresult (final : ClosureNames) (hfinal : (names.after requests).Grows final) :=
      Prod.mk.inj (Except.ok.inj (hgive final hfinal).1)
    obtain ⟨hunit, htasks⟩ := hresult _ (.refl _)
    obtain rfl := (hgive _ (.refl _)).2
    refine ⟨requests, hread, hasked, hmarked, rfl, htasks, ?_, fun final hfinal => ?_⟩
    · rw [hunit]
    · rw [(hresult final hfinal).1]

/-- A closure that is captured is named, if a name that it reads and does not bind leads to it. -/
theorem ClosureNames.exists_name_of_referent {requests : List (ClosureTask ν)} {c d : Closure ν}
    (hasked : requests.map (·.closure) = c.referents store hardcoded)
    (hd : d ∈ c.referents store hardcoded) (names : ClosureNames) :
    ∃ name, (names.after requests).name? d.identity = some name := by
  rw [← hasked] at hd
  obtain ⟨request, hrequest, rfl⟩ := List.mem_map.1 hd
  exact Option.isSome_iff_exists.1 (isSome_name?_after.2 (.inr ⟨request, hrequest, rfl⟩))

theorem ClosureNames.quotes_quote {store : Store ν} {hardcoded : List Builtin}
    {names : ClosureNames} {v : Value ν} (h : ∀ c, v.Holds c → ∃ name,
      names.name? c.identity = some name ∧ names.isReferenced name = true) :
    Origin.Quotes ⟨store, hardcoded, names⟩ v (names.quote v) := by
  induction v with
  | primitive l => exact .primitive l
  | builtin b => exact .builtin b
  | pair i head tail ihead itail =>
    have hhead := ihead fun c hc => h c (.inl hc)
    have htail := itail fun c hc => h c (.inr hc)
    exact .pair hhead htail
  | closure c =>
    obtain ⟨name, hname, hreferenced⟩ := h c rfl
    rw [quote, hname]
    exact .closure hname hreferenced

/-- The expression for a name that is read makes the value of the name again, also when more
closures have names. -/
theorem ClosureNames.quotes_of_read {requests : List (ClosureTask ν)} {c : Closure ν}
    {names final : ClosureNames} {name : String} {v : Value ν}
    (hasked : requests.map (·.closure) = c.referents store hardcoded)
    (hfinal : (names.after requests).Grows final) (hread : .read name ∈ c.function.free)
    (hv : store.captured? hardcoded c.environment name = some v) :
    Origin.Quotes ⟨store, hardcoded, final⟩ v (final.quote v) := by
  refine quotes_quote fun d hd => ?_
  have hreferent : d ∈ c.referents store hardcoded :=
    (store.mem_referents hardcoded).2 ⟨name, hread, v, hv, hd⟩
  obtain ⟨other, hother⟩ := exists_name_of_referent hasked hreferent names
  rw [← hasked] at hreferent
  obtain ⟨request, hrequest, rfl⟩ := List.mem_map.1 hreferent
  have hreferenced := isReferenced_after.2 (.inr ⟨request, hrequest, hother⟩)
  exact ⟨other, hfinal.name? hother, hfinal.isReferenced hreferenced⟩

end

end Waveform
