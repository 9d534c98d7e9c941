import Mathlib.Tactic.Choose
import Waveform.Proofs.Prelude.Functions
import Waveform.Proofs.Prelude.Text

/-!
# Loading the prelude

A program that starts with the text of the prelude binds each function that the text declares in
its global frame (`Statement.hoist_binds`). A store like that is `Loaded`, and what the functions
of the prelude do can be told from it (`Loaded.ready`).
-/

namespace Waveform

namespace Source

variable {ν : Type} [Numeric ν]

theorem mem_of_lowerClauses {cs : List Clause} {c : Clause} {s : Statement ν}
    {body : List (Statement ν)} (hbody : lowerClauses cs = .ok body) (hc : c ∈ cs)
    (hs : c.lower = .ok [s]) : s ∈ body := by
  induction cs generalizing body with
  | nil => cases hc
  | cons first cs ih =>
    simp only [lowerClauses, lowered_bind] at hbody
    obtain ⟨before, hfirst, after, hafter, hbody⟩ := hbody
    cases hbody
    rcases List.mem_cons.1 hc with rfl | hc
    · cases hfirst.symm.trans hs
      exact List.mem_append_left _ (List.mem_singleton_self s)
    · exact List.mem_append_right _ (ih hafter hc)

end Source

/-- What a text is read as and what it is parsed as are the same program. -/
theorem Program.lowerClauses_of_ofText {ν : Type} [Numeric ν] {text : String} {path : Option String}
    {p : Program ν} {clauses : List Source.Clause} (hp : Program.ofText text path = .ok p)
    (hparse : Source.parse? (Source.withoutEncodingMark text.toList) = some clauses) :
    Source.lowerClauses clauses = .ok p.body := by
  simp only [Program.ofText, hparse] at hp
  split at hp
  · next body hbody =>
    cases hp
    exact hbody
  · cases hp

theorem Program.ofText_of_parse? {ν : Type} [Numeric ν] {text : String} {path : Option String}
    {clauses : List Source.Clause} {body : List (Statement ν)}
    (hparse : Source.parse? (Source.withoutEncodingMark text.toList) = some clauses)
    (hbody : Source.lowerClauses clauses = .ok body) :
    Program.ofText text path = .ok ⟨body⟩ := by
  simp only [Program.ofText, hparse, hbody]
  rfl

namespace Statement

variable {ν : Type}

theorem hoist_binds {k : Nat} (env : Environment) {body : List (Statement ν)} {s : Store ν}
    (hk : k < s.frames.size) (hnames : (functionNames body).Nodup) :
    ∃ t, (hoist (k :: env) body).outcome s = (.ok (), t) ∧
      (∀ name params inner, .function name params inner ∈ body → ∃ i,
        (t.frame k).find? name = some (.closure ⟨i, some name, ⟨params, inner⟩, k :: env⟩)) ∧
      ∀ name, name ∉ functionNames body → (t.frame k).find? name = (s.frame k).find? name := by
  induction body generalizing s with
  | nil => exact ⟨s, rfl, nofun, fun _ _ => rfl⟩
  | cons first rest ih =>
    cases first with
    | function name params inner =>
      obtain ⟨hname, hrest⟩ := List.nodup_cons.1 hnames
      have hsize : k < (s.bindFunction k name ⟨params, inner⟩ (k :: env)).frames.size := by
        rwa [Store.size_bindFunction]
      obtain ⟨t, hrun, hbound, hkept⟩ := ih hsize hrest
      refine ⟨t, ?_, fun name' params' inner' hmem => ?_, fun name' hname' => ?_⟩
      · rw [hoist, Run.outcome_bind_of_ok (Run.outcome_makeClosure ..)]
        exact hrun
      · rcases List.mem_cons.1 hmem with heq | hmem
        · cases heq
          refine ⟨s.made, ?_⟩
          rw [hkept name hname, Store.find?_bindFunction _ _ _ hk, if_pos ⟨rfl, rfl⟩]
        · exact hbound name' params' inner' hmem
      · obtain ⟨hne, hnot⟩ := not_or.1 (mt List.mem_cons.2 hname')
        rw [hkept name' hnot, Store.find?_bindFunction _ _ _ hk, if_neg fun h => hne h.2]
    | _ =>
      obtain ⟨t, hrun, hbound, hkept⟩ := ih hk hnames
      refine ⟨t, hrun, fun name params inner hmem => ?_, hkept⟩
      rcases List.mem_cons.1 hmem with heq | hmem
      · cases heq
      · exact hbound name params inner hmem

end Statement

namespace Prelude

variable {M : Mathematics} {s : Store (Exact M)}

/-- The library has been loaded: the global frame of the store binds each function that its text
declares, and still the builtin that gives the length of a list. -/
structure Loaded (s : Store (Exact M)) : Prop where
  functions : ∃ p : Program (Exact M), Program.ofText text none = .ok p ∧
    ∀ name params body, .function name params body ∈ p.body → ∃ i,
      (s.frame 0).find? name = some (.closure ⟨i, some name, ⟨params, body⟩, .global⟩)
  length : (s.frame 0).find? "length" = some (.builtin .length)

theorem declares_functions {p : Program (Exact M)} (hp : Program.ofText text none = .ok p)
    {name : String} {params : List String} {body : List (Statement (Exact M))}
    (h : (name, ⟨params, body⟩) ∈ functions (Numeric.ofNat : Nat → Exact M)) :
    .function name params body ∈ p.body := by
  obtain ⟨clauses, hparse, hfits⟩ := parse?_text
  have hmap : functions (Numeric.ofNat : Nat → Exact M) = (functions id).map fun entry =>
      (entry.1, ⟨entry.2.params, Statement.mapAll Numeric.ofNat entry.2.body⟩) := rfl
  have hbody := Program.lowerClauses_of_ofText hp hparse
  rw [hmap] at h
  obtain ⟨⟨name, f⟩, hf, heq⟩ := List.mem_map.1 h
  cases heq
  have hname : name ∈ declaredNames :=
    (by decide : (functions (id : Nat → Nat)).map Prod.fst ⊆ declaredNames)
      (List.mem_map_of_mem hf)
  obtain ⟨c, hc, hspells⟩ := exists_spelled hfits hf hname
  exact Source.mem_of_lowerClauses hbody hc (Source.Clause.lower_of_spells hspells)

theorem Loaded.ready (h : Loaded s) : ∃ identity, Ready identity s := by
  obtain ⟨p, hp, hbound⟩ := h.functions
  -- a name has one value, so it has one identity
  have hidentity (name : String) : ∃ i, ∀ f, (name, f) ∈ Prelude.functions Numeric.ofNat →
      (s.frame 0).find? name = some (.closure ⟨i, some name, f, .global⟩) := by
    by_cases hname : ∃ f, (name, f) ∈ Prelude.functions (Numeric.ofNat : Nat → Exact M)
    · obtain ⟨⟨params, body⟩, hf⟩ := hname
      obtain ⟨i, hi⟩ := hbound _ _ _ (declares_functions hp hf)
      refine ⟨i, fun ⟨params', body'⟩ hf' => ?_⟩
      obtain ⟨i', hi'⟩ := hbound _ _ _ (declares_functions hp hf')
      cases hi.symm.trans hi'
      exact hi
    · exact ⟨0, fun f hf => absurd ⟨f, hf⟩ hname⟩
  choose identity hidentity using hidentity
  have hmade : 0 < s.frames.size := by
    by_contra hnone
    have hlength := h.length
    rw [Store.frame, Array.getD_eq_getD_getElem?,
      Array.getElem?_eq_none (Nat.le_of_not_lt hnone)] at hlength
    cases hlength
  refine ⟨identity, fun i hi => ?_, fun name v hv => ?_⟩
  · rwa [List.mem_singleton.1 hi]
  · have hfind : (s.frame 0).find? name = some v := by
      obtain ⟨before, after, hknown, -⟩ := List.lookup_eq_some_iff.1 hv
      have hmem : (name, v) ∈ known identity :=
        hknown ▸ List.mem_append_right _ (List.mem_cons_self ..)
      rcases List.mem_cons.1 hmem with heq | hmem
      · cases heq
        exact h.length
      · obtain ⟨⟨name', f⟩, hf, heq⟩ := List.mem_map.1 hmem
        cases heq
        exact hidentity name f hf
    rw [Environment.global, Store.lookup?, hfind]

/-- The library is loaded by the store that its statements start with. -/
theorem exists_loaded : ∃ s : Store (Exact .zero), Loaded s := by
  obtain ⟨clauses, hparse, hfits⟩ := parse?_text
  obtain ⟨body, hbody, hnames⟩ := exists_body hfits (Exact .zero)
  have hapart : (Statement.functionNames body).Nodup := hnames ▸ by decide
  have hlength : "length" ∉ Statement.functionNames body := hnames ▸ by decide
  have hglobal : 0 < (Store.initial : Store (Exact .zero)).frames.size := Nat.one_pos
  obtain ⟨t, -, hbound, hkept⟩ := Statement.hoist_binds [] hglobal hapart
  refine ⟨t, ⟨⟨body⟩, ?_, hbound⟩, (hkept _ hlength).trans rfl⟩
  exact Program.ofText_of_parse? hparse hbody

end Prelude

end Waveform
