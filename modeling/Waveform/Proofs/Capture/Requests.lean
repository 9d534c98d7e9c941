import Waveform.Proofs.Capture.Naming
import Waveform.Specialize.CapturedUnit

/-!
# Requests for names

A capture asks for the names of the closures that it comes to, one after the other. What it asks
for does not depend on the table that answers: a request is a closure with a candidate for its
name, and a table gives the candidate, with a number where it is taken, or the name that the
closure has already. The closures that are discovered by a list of requests are the ones that had no
name before it, each once.
-/

namespace Waveform

variable {ν : Type}

namespace ClosureNames

def after (names : ClosureNames) : List (ClosureTask ν) → ClosureNames
  | [] => names
  | request :: rest => (names.resolve request.closure.identity request.name).2.after rest

/-- The closures that get a name by the requests, in the order in which they are asked for. -/
def discovered (names : ClosureNames) : List (ClosureTask ν) → List (ClosureTask ν)
  | [] => []
  | request :: rest =>
    let ((name, isNew), names') := names.resolve request.closure.identity request.name
    if isNew then ⟨name, request.closure⟩ :: names'.discovered rest else names'.discovered rest

variable {names : ClosureNames} {requests : List (ClosureTask ν)}

@[simp] theorem after_nil (names : ClosureNames) :
    names.after ([] : List (ClosureTask ν)) = names := rfl

theorem after_cons (names : ClosureNames) (request : ClosureTask ν)
    (rest : List (ClosureTask ν)) :
    names.after (request :: rest) =
      (names.resolve request.closure.identity request.name).2.after rest := rfl

@[simp] theorem discovered_nil (names : ClosureNames) :
    names.discovered ([] : List (ClosureTask ν)) = [] := rfl

theorem after_append (names : ClosureNames) (requests requests' : List (ClosureTask ν)) :
    names.after (requests ++ requests') = (names.after requests).after requests' := by
  induction requests generalizing names with
  | nil => rfl
  | cons request rest ih => exact ih _

theorem discovered_append (names : ClosureNames) (requests requests' : List (ClosureTask ν)) :
    names.discovered (requests ++ requests') =
      names.discovered requests ++ (names.after requests).discovered requests' := by
  induction requests generalizing names with
  | nil => rfl
  | cons request rest ih =>
    simp only [List.cons_append, discovered, after_cons, ih]
    split <;> rfl

/-! ## One request -/

theorem isNew_resolve (names : ClosureNames) (closure : Nat) (candidate : String) :
    (names.resolve closure candidate).1.2 = (names.name? closure).isNone := by
  cases h : names.name? closure with
  | none => simp [resolve, h]
  | some known => simp [resolve, h]

theorem discovered_cons_of_some {request : ClosureTask ν} {known : String}
    (h : names.name? request.closure.identity = some known) (rest : List (ClosureTask ν)) :
    names.discovered (request :: rest) =
      (names.resolve request.closure.identity request.name).2.discovered rest := by
  have hnew := names.isNew_resolve request.closure.identity request.name
  rw [h, Option.isNone_some] at hnew
  simp [discovered, hnew]

theorem discovered_cons_of_none {request : ClosureTask ν}
    (h : names.name? request.closure.identity = none) (rest : List (ClosureTask ν)) :
    names.discovered (request :: rest) =
      ⟨names.freeName request.name, request.closure⟩ ::
        (names.resolve request.closure.identity request.name).2.discovered rest := by
  have hnew := (resolve_of_none request.name h).1
  simp [discovered, hnew]

/-! ## All requests -/

theorem after_grows (names : ClosureNames) (requests : List (ClosureTask ν)) :
    names.Grows (names.after requests) := by
  induction requests generalizing names with
  | nil => exact .refl names
  | cons request rest ih =>
    have hfirst := names.resolve_grows request.closure.identity request.name
    exact hfirst.trans (ih _)

theorem WellNamed.after {target : String} (h : names.WellNamed target)
    (hmarked : ∀ request ∈ requests, IsMarked request.name) :
    (names.after requests).WellNamed target := by
  induction requests generalizing names with
  | nil => exact h
  | cons request rest ih =>
    have hfirst : (names.resolve request.closure.identity request.name).2.WellNamed target :=
      h.resolve (hmarked request (List.mem_cons_self ..))
    exact ih hfirst fun other hother => hmarked other (List.mem_cons_of_mem _ hother)

theorem isSome_name?_after {i : Nat} :
    ((names.after requests).name? i).isSome = true ↔
      (names.name? i).isSome = true ∨ ∃ request ∈ requests, request.closure.identity = i := by
  induction requests generalizing names with
  | nil => simp
  | cons request rest ih =>
    rw [after_cons, ih, List.exists_mem_cons_iff, ← or_assoc]
    refine or_congr_left ?_
    cases h : names.name? request.closure.identity with
    | some known =>
      rw [name?_resolve_of_some _ h]
      constructor
      · exact .inl
      · rintro (hi | rfl)
        · exact hi
        · simp [h]
    | none =>
      rw [(resolve_of_none _ h).2]
      by_cases hi : i = request.closure.identity
      · simp [hi]
      · rw [if_neg hi, or_iff_left fun heq => hi heq.symm]

theorem isReferenced_after {name : String} :
    (names.after requests).isReferenced name = true ↔
      names.isReferenced name = true ∨
        ∃ request ∈ requests,
          (names.after requests).name? request.closure.identity = some name := by
  induction requests generalizing names with
  | nil => simp
  | cons request rest ih =>
    have hname := (after_grows (names.resolve request.closure.identity request.name).2 rest).name?
      (names.name?_resolve request.closure.identity request.name)
    rw [after_cons, ih, List.exists_mem_cons_iff, ← or_assoc]
    refine or_congr_left ?_
    have hreferenced : (names.resolve request.closure.identity request.name).2.isReferenced name =
        (name == (names.resolve request.closure.identity request.name).1.1 ||
          names.isReferenced name) := by
      unfold resolve
      split <;> exact isReferenced_refer _ _ _
    rw [hreferenced, hname, Bool.or_eq_true, beq_iff_eq, Option.some.injEq, or_comm,
      @eq_comm _ name]

/-! ## What is discovered -/

theorem mem_discovered {task : ClosureTask ν} (h : task ∈ names.discovered requests) :
    (∃ request ∈ requests, request.closure = task.closure) ∧
      names.name? task.closure.identity = none ∧
      (names.after requests).name? task.closure.identity = some task.name := by
  induction requests generalizing names with
  | nil => cases h
  | cons request rest ih =>
    rw [after_cons]
    cases hname : names.name? request.closure.identity with
    | some known =>
      rw [discovered_cons_of_some hname] at h
      obtain ⟨⟨other, hother, heq⟩, hnone, hsome⟩ := ih h
      rw [name?_resolve_of_some _ hname] at hnone
      exact ⟨⟨other, List.mem_cons_of_mem _ hother, heq⟩, hnone, hsome⟩
    | none =>
      obtain ⟨-, hnames⟩ := resolve_of_none request.name hname
      rw [discovered_cons_of_none hname] at h
      rcases List.mem_cons.1 h with rfl | h
      · refine ⟨⟨request, List.mem_cons_self .., rfl⟩, hname, ?_⟩
        refine (after_grows _ rest).name? ?_
        rw [hnames, if_pos rfl]
      · obtain ⟨⟨other, hother, heq⟩, hnone, hsome⟩ := ih h
        refine ⟨⟨other, List.mem_cons_of_mem _ hother, heq⟩, ?_, hsome⟩
        rw [hnames] at hnone
        split at hnone
        · cases hnone
        · exact hnone

theorem exists_discovered {i : Nat} {name : String} (hnone : names.name? i = none)
    (hsome : (names.after requests).name? i = some name) :
    ∃ task ∈ names.discovered requests, task.closure.identity = i ∧ task.name = name := by
  induction requests generalizing names with
  | nil =>
    rw [after_nil, hnone] at hsome
    cases hsome
  | cons request rest ih =>
    rw [after_cons] at hsome
    cases hname : names.name? request.closure.identity with
    | some known =>
      rw [discovered_cons_of_some hname]
      refine ih ?_ hsome
      rw [name?_resolve_of_some _ hname, hnone]
    | none =>
      obtain ⟨-, hnames⟩ := resolve_of_none request.name hname
      rw [discovered_cons_of_none hname]
      by_cases hi : i = request.closure.identity
      · have hfirst : (names.resolve request.closure.identity request.name).2.name? i =
            some (names.freeName request.name) := by
          rw [hnames, if_pos hi]
        rw [(after_grows _ rest).name? hfirst] at hsome
        exact ⟨_, List.mem_cons_self .., hi.symm, Option.some.inj hsome⟩
      · have hrest : (names.resolve request.closure.identity request.name).2.name? i = none := by
          rw [hnames, if_neg hi, hnone]
        obtain ⟨task, htask, heq⟩ := ih hrest hsome
        exact ⟨task, List.mem_cons_of_mem _ htask, heq⟩

theorem nodup_discovered (names : ClosureNames) (requests : List (ClosureTask ν)) :
    ((names.discovered requests).map (·.closure.identity)).Nodup := by
  induction requests generalizing names with
  | nil => exact List.nodup_nil
  | cons request rest ih =>
    cases hname : names.name? request.closure.identity with
    | some known =>
      rw [discovered_cons_of_some hname]
      exact ih _
    | none =>
      rw [discovered_cons_of_none hname, List.map_cons, List.nodup_cons]
      refine ⟨fun hmem => ?_, ih _⟩
      obtain ⟨task, htask, heq⟩ := List.mem_map.1 hmem
      obtain ⟨-, hnone, -⟩ := mem_discovered htask
      rw [heq, (resolve_of_none request.name hname).2, if_pos rfl] at hnone
      cases hnone

/-! ## Closures that are found -/

/-- Names were given to the closures of the tasks, which are reached, and to no others. -/
structure Assigns (reached : Closure ν → Prop) (target : String)
    (names names' : ClosureNames) (new : List (ClosureTask ν)) : Prop where
  grows : names.Grows names'
  wellNamed : names.WellNamed target → names'.WellNamed target
  tasks {task} : task ∈ new → reached task.closure ∧
    names'.name? task.closure.identity = some task.name
  given {i name} : names'.name? i = some name → names.name? i = some name ∨
    ∃ task ∈ new, task.closure.identity = i ∧ task.name = name

theorem assigns_after {reached : Closure ν → Prop} (target : String) (names : ClosureNames)
    (hreached : ∀ request ∈ requests, reached request.closure)
    (hmarked : ∀ request ∈ requests, IsMarked request.name) :
    names.Assigns reached target (names.after requests) (names.discovered requests) where
  grows := names.after_grows requests
  wellNamed h := h.after hmarked
  tasks htask := by
    obtain ⟨⟨request, hrequest, heq⟩, -, hname⟩ := mem_discovered htask
    exact ⟨heq ▸ hreached request hrequest, hname⟩
  given {i name} hname := by
    cases hbefore : names.name? i with
    | none => exact .inr (exists_discovered hbefore hname)
    | some known => exact .inl ((names.after_grows requests).name? hbefore ▸ hname)

end ClosureNames

end Waveform
