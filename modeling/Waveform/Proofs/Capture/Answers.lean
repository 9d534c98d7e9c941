import Waveform.Proofs.Capture.Requests

/-!
# What a table of names answers

A table starts with the name of one closure and is then asked for names, for any closures and with
any candidates. It never gives a name twice, whatever the candidates look like, and it never takes
a name back. A closure is new when it is asked for the first time.
-/

namespace Waveform

variable {ν : Type}

namespace ClosureNames

/-! ## The search for a free name -/

theorem exists_firstFree (taken : List String) (candidate : String) (tries number : Nat) :
    ∃ k, firstFree taken candidate tries number = numbered candidate k ∧
      ∀ j, number ≤ j → j < k → numbered candidate j ∈ taken := by
  induction tries generalizing number with
  | zero => exact ⟨number, rfl, fun j hj hlt => absurd hlt (Nat.not_lt.2 hj)⟩
  | succ tries ih =>
    rw [firstFree]
    by_cases htaken : taken.contains (numbered candidate number) = true
    · rw [if_pos htaken]
      obtain ⟨k, hk, hall⟩ := ih (number + 1)
      refine ⟨k, hk, fun j hj hlt => ?_⟩
      rcases Nat.eq_or_lt_of_le hj with rfl | hj
      · exact List.contains_iff_mem.1 htaken
      · exact hall j hj hlt
    · rw [if_neg htaken]
      exact ⟨number, rfl, fun j hj hlt => absurd hlt (Nat.not_lt.2 hj)⟩

theorem exists_freeName (names : ClosureNames) (candidate : String) :
    ∃ number, names.freeName candidate = numbered candidate number ∧
      numbered candidate number ∉ names.taken ∧
        ∀ k < number, numbered candidate k ∈ names.taken := by
  obtain ⟨number, hnumber, hall⟩ := exists_firstFree names.taken candidate names.taken.length 0
  refine ⟨number, hnumber, ?_, fun k hk => hall k (Nat.zero_le k) hk⟩
  exact hnumber ▸ names.freeName_not_mem candidate

/-! ## Answers -/

/-- What a table says when it is asked for the name of a closure. -/
structure Answer where
  closure : Nat
  name : String
  isNew : Bool

def answers (names : ClosureNames) : List (ClosureTask ν) → List Answer
  | [] => []
  | request :: rest =>
    let ((name, isNew), names') := names.resolve request.closure.identity request.name
    ⟨request.closure.identity, name, isNew⟩ :: names'.answers rest

theorem answers_cons (names : ClosureNames) (request : ClosureTask ν)
    (rest : List (ClosureTask ν)) :
    names.answers (request :: rest) =
      ⟨request.closure.identity, (names.resolve request.closure.identity request.name).1.1,
        (names.resolve request.closure.identity request.name).1.2⟩ ::
          (names.resolve request.closure.identity request.name).2.answers rest := rfl

variable {names : ClosureNames} {requests : List (ClosureTask ν)}

theorem new_answers (names : ClosureNames) (requests : List (ClosureTask ν)) :
    ((names.answers requests).filter (·.isNew)).map (·.closure) =
      (names.discovered requests).map (·.closure.identity) := by
  induction requests generalizing names with
  | nil => rfl
  | cons request rest ih =>
    have hnew := names.isNew_resolve request.closure.identity request.name
    cases hname : names.name? request.closure.identity with
    | some known =>
      rw [hname, Option.isNone_some] at hnew
      simp only [answers_cons, List.filter_cons, hnew, Bool.false_eq_true, if_false, ih,
        discovered_cons_of_some hname]
    | none =>
      rw [hname, Option.isNone_none] at hnew
      simp only [answers_cons, List.filter_cons, hnew, if_true, List.map_cons, ih,
        discovered_cons_of_none hname]

theorem name?_of_mem_answers {answer : Answer} (h : answer ∈ names.answers requests) :
    (names.after requests).name? answer.closure = some answer.name := by
  induction requests generalizing names with
  | nil => cases h
  | cons request rest ih =>
    rw [after_cons]
    rcases List.mem_cons.1 h with rfl | h
    · exact (after_grows _ rest).name? (names.name?_resolve _ _)
    · exact ih h

theorem closure_answers (names : ClosureNames) (requests : List (ClosureTask ν)) :
    (names.answers requests).map (·.closure) = requests.map (·.closure.identity) := by
  induction requests generalizing names with
  | nil => rfl
  | cons request rest ih => exact congrArg (request.closure.identity :: ·) (ih _)

theorem isReferenced_iff_answers (hnone : ∀ name, names.isReferenced name = false)
    {name : String} :
    (names.after requests).isReferenced name = true ↔
      ∃ answer ∈ names.answers requests, answer.name = name := by
  have hnot : ¬ names.isReferenced name = true := Bool.eq_false_iff.1 (hnone name)
  rw [isReferenced_after, or_iff_right hnot]
  constructor
  · rintro ⟨request, hrequest, hname⟩
    have hmem := List.mem_map_of_mem (f := (·.closure.identity)) hrequest
    rw [← closure_answers names requests] at hmem
    obtain ⟨answer, hanswer, hclosure⟩ := List.mem_map.1 hmem
    rw [← hclosure, name?_of_mem_answers hanswer] at hname
    exact ⟨answer, hanswer, Option.some.inj hname⟩
  · rintro ⟨answer, hanswer, rfl⟩
    have hmem := List.mem_map_of_mem (f := (·.closure)) hanswer
    rw [closure_answers names requests] at hmem
    obtain ⟨request, hrequest, hclosure⟩ := List.mem_map.1 hmem
    exact ⟨request, hrequest, hclosure ▸ name?_of_mem_answers hanswer⟩

theorem Distinct.after (h : names.Distinct) (requests : List (ClosureTask ν)) :
    (names.after requests).Distinct := by
  induction requests generalizing names with
  | nil => exact h
  | cons request rest ih => exact ih (h.resolve _ _)

/-- A table that starts with the name of one closure gives every closure that it is asked for a
name of its own and for good. It says that a closure is new at most once and never of the first
one, what is referred to are the names that it has answered with, and its search for a free name
comes to an end. -/
theorem given_once_for_good (target : Nat) (name : String) (requests later : List (ClosureTask ν)) :
    let start := empty.register target name
    let names := start.after requests
    let fresh := ((start.answers requests).filter (·.isNew)).map (·.closure)
    (∀ i j given, names.name? i = some given → names.name? j = some given → i = j) ∧
      names.name? target = some name ∧
      (∀ answer ∈ start.answers requests, names.name? answer.closure = some answer.name) ∧
      (∀ i given, names.name? i = some given →
        (start.after (requests ++ later)).name? i = some given) ∧
      fresh.Nodup ∧ target ∉ fresh ∧
      (∀ other, names.isReferenced other = true ↔
        ∃ answer ∈ start.answers requests, answer.name = other) ∧
      ∀ candidate, ∃ number, names.freeName candidate = numbered candidate number ∧
        numbered candidate number ∉ names.taken ∧
          ∀ k < number, numbered candidate k ∈ names.taken := by
  intro start names fresh
  have hdistinct : names.Distinct := (wellNamed_register name target).distinct.after requests
  have htarget : start.name? target = some name := by
    rw [name?_register, if_pos rfl]
  have hfresh : fresh = (start.discovered requests).map (·.closure.identity) :=
    start.new_answers requests
  refine ⟨fun _ _ _ => hdistinct.injective, (start.after_grows requests).name? htarget,
    fun _ => name?_of_mem_answers, fun i given hgiven => ?_, ?_, fun hmem => ?_,
    fun _ => isReferenced_iff_answers fun _ => rfl, names.exists_freeName⟩
  · rw [after_append]
    exact (names.after_grows later).name? hgiven
  · rw [hfresh]
    exact start.nodup_discovered requests
  · rw [hfresh] at hmem
    obtain ⟨task, htask, heq⟩ := List.mem_map.1 hmem
    obtain ⟨-, hnone, -⟩ := mem_discovered htask
    rw [heq, htarget] at hnone
    cases hnone

end ClosureNames

end Waveform
