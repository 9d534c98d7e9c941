/-!
# Bindings

What the names of one frame are bound to. A name is bound at most once; binding it again replaces
what it was bound to. `find?_insert` says what an insertion does to every name.
-/

namespace Waveform

/-- Names with what they are bound to, in no particular order. -/
structure Bindings (α : Type) where
  entries : List (String × α)

namespace Bindings

variable {α : Type}

def empty : Bindings α := ⟨[]⟩

instance : Inhabited (Bindings α) := ⟨empty⟩

def find? (b : Bindings α) (name : String) : Option α :=
  b.entries.lookup name

def contains (b : Bindings α) (name : String) : Bool :=
  (b.find? name).isSome

def replaceIn (name : String) (value : α) : List (String × α) → List (String × α)
  | [] => []
  | (n, v) :: rest => if name == n then (n, value) :: rest else (n, v) :: replaceIn name value rest

def insert (b : Bindings α) (name : String) (value : α) : Bindings α :=
  if b.contains name then ⟨replaceIn name value b.entries⟩ else ⟨(name, value) :: b.entries⟩

def names (b : Bindings α) : List String :=
  b.entries.map Prod.fst

@[simp] theorem find?_empty (name : String) : (empty : Bindings α).find? name = none := rfl

theorem lookup_replaceIn (name : String) (value : α) (other : String)
    (entries : List (String × α)) :
    (replaceIn name value entries).lookup other =
      if other == name then (entries.lookup other).map fun _ => value
      else entries.lookup other := by
  induction entries with
  | nil => simp [replaceIn]
  | cons entry rest ih =>
    obtain ⟨n, v⟩ := entry
    by_cases hn : name = n
    · subst hn
      by_cases ho : (other == name) = true
      · simp [replaceIn, List.lookup_cons, ho]
      · simp [replaceIn, List.lookup_cons, Bool.eq_false_iff.2 ho]
    · have hne : (name == n) = false := beq_eq_false_iff_ne.2 hn
      by_cases ho : other = n
      · subst ho
        have : (other == name) = false := beq_eq_false_iff_ne.2 fun h => hn h.symm
        simp [replaceIn, hne, this]
      · have : (other == n) = false := beq_eq_false_iff_ne.2 ho
        simp [replaceIn, List.lookup_cons, hne, this, ih]

theorem find?_insert (b : Bindings α) (name : String) (value : α) (other : String) :
    (b.insert name value).find? other = if other = name then some value else b.find? other := by
  by_cases hc : b.contains name = true
  · simp only [insert, hc, if_true, find?, lookup_replaceIn, beq_iff_eq]
    by_cases ho : other = name
    · subst ho
      obtain ⟨v, hv⟩ := Option.isSome_iff_exists.1 hc
      rw [find?] at hv
      simp [hv]
    · simp [ho]
  · simp only [insert, hc, find?]
    by_cases ho : other = name
    · simp [ho]
    · simp [ho, List.lookup_cons, beq_eq_false_iff_ne.2 ho]

end Bindings

end Waveform
