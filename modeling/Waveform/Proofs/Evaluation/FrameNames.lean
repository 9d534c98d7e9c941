import Mathlib.Logic.Relation
import Waveform.Proofs.Evaluation.Guarding
import Waveform.Proofs.Evaluation.Parametric
import Waveform.Proofs.Number.Exact

/-!
# Names of frames

Code binds names in the frames that it opens itself, and otherwise only assigns to names that are
bound. `Store.Change` says what one step of a run does to the frames that were there before, and
no run does anything else to them (`Expression.within`, `Statement.within`, `Run.call_within`). So a
program leaves behind in the global frame the names that it started with and the ones that its own
statements declare, whatever blocks, branches, loops and calls are in it.
-/

namespace Waveform

variable {ν : Type}

namespace Bindings

variable {α : Type} {b : Bindings α} {name : String}

theorem names_replaceIn (name : String) (a : α) (entries : List (String × α)) :
    (replaceIn name a entries).map Prod.fst = entries.map Prod.fst := by
  induction entries with
  | nil => rfl
  | cons entry rest ih =>
    obtain ⟨n, v⟩ := entry
    rw [replaceIn]
    split
    · rfl
    · rw [List.map_cons, List.map_cons, ih]

theorem contains_iff_mem_names : b.contains name = true ↔ name ∈ b.names := by
  rw [contains, find?, List.lookup_isSome_iff, names, List.mem_map]
  constructor
  · rintro ⟨entry, hentry, hname⟩
    exact ⟨entry, hentry, (beq_iff_eq.1 hname).symm⟩
  · rintro ⟨entry, hentry, rfl⟩
    exact ⟨entry, hentry, beq_self_eq_true _⟩

theorem names_insert_of_contains (h : b.contains name = true) (a : α) :
    (b.insert name a).names = b.names := by
  rw [insert, if_pos h]
  exact names_replaceIn name a b.entries

theorem names_insert_of_notMem (h : name ∉ b.names) (a : α) :
    (b.insert name a).names = name :: b.names := by
  rw [insert, if_neg fun hc => h (contains_iff_mem_names.1 hc)]
  rfl

theorem mem_names_insert {a : α} {other : String} :
    other ∈ (b.insert name a).names ↔ other ∈ b.names ∨ other = name := by
  by_cases h : name ∈ b.names
  · rw [names_insert_of_contains (contains_iff_mem_names.2 h), or_iff_left_of_imp]
    rintro rfl
    exact h
  · rw [names_insert_of_notMem h, List.mem_cons, or_comm]

theorem nodup_names_insert (h : b.names.Nodup) (name : String) (a : α) :
    (b.insert name a).names.Nodup := by
  by_cases hname : name ∈ b.names
  · rwa [names_insert_of_contains (contains_iff_mem_names.2 hname)]
  · rw [names_insert_of_notMem hname]
    exact List.nodup_cons.2 ⟨hname, h⟩

end Bindings

namespace Store

/-- What a step of a run does to a store whose first `n` frames are there before the run. -/
inductive Change (n : Nat) (s : Store ν) : Store ν → Prop
  | count (made draws : Nat) : Change n s { s with made := made, draws := draws }
  | extend (env : Environment) : Change n s (s.extend env).2
  | define {env : Environment} (h : ∀ i ∈ env.head?, n ≤ i) (name : String) (v : Value ν) :
    Change n s (s.define env name v)
  | assign {env : Environment} {i : Nat} {name : String} (h : s.owner? name env = some i)
    (v : Value ν) : Change n s (s.bind i name v)

abbrev Changes (n : Nat) : Store ν → Store ν → Prop :=
  Relation.ReflTransGen (Change n)

variable {n : Nat} {s t : Store ν}

theorem names_bind (s : Store ν) {i j : Nat} {name : String} {v : Value ν}
    (h : i = j → (s.frame i).contains name = true) :
    ((s.bind i name v).frame j).names = (s.frame j).names := by
  by_cases hi : i < s.frames.size
  · rw [frame_bind s i j name v hi]
    split
    · next hj => rw [Bindings.names_insert_of_contains (h hj.symm), hj]
    · rfl
  · rw [bind_of_le (Nat.le_of_not_lt hi)]

theorem Change.size_le (h : Change n s t) : s.frames.size ≤ t.frames.size := by
  cases h with
  | count made draws => exact Nat.le_refl _
  | extend env => exact (s.keeps_extend env).size
  | define _ name v => exact (s.keeps_define _ name v).size
  | assign _ v => exact (s.keeps_bind _ _ v).size

/-- A step binds no name in the frames that are there before. -/
theorem Change.names (h : Change n s t) {i : Nat} (hi : i < n) :
    (t.frame i).names = (s.frame i).names := by
  cases h with
  | count made draws => rfl
  | extend env => rw [frame_extend]
  | @define env henv name v =>
    cases env with
    | nil => rfl
    | cons j outer =>
      refine s.names_bind fun hj => ?_
      exact absurd (hj ▸ henv j rfl) (Nat.not_le.2 hi)
  | assign howner v => exact s.names_bind fun _ => (owner?_eq_some_iff howner).2.2

theorem Change.nodup (h : Change n s t) (hs : ∀ i, (s.frame i).names.Nodup) (i : Nat) :
    (t.frame i).names.Nodup := by
  have hbind (j : Nat) (name : String) (v : Value ν) :
      ((s.bind j name v).frame i).names.Nodup := by
    by_cases hj : j < s.frames.size
    · rw [frame_bind s j i name v hj]
      split
      · exact Bindings.nodup_names_insert (hs j) name v
      · exact hs i
    · rw [bind_of_le (Nat.le_of_not_lt hj)]
      exact hs i
  cases h with
  | count made draws => exact hs i
  | extend env =>
    rw [frame_extend]
    exact hs i
  | @define env _ name v =>
    cases env with
    | nil => exact hs i
    | cons j outer => exact hbind j name v
  | assign _ v => exact hbind _ _ v

theorem Changes.size_le (h : Changes n s t) : s.frames.size ≤ t.frames.size := by
  induction h with
  | refl => exact Nat.le_refl _
  | tail _ hstep ih => exact Nat.le_trans ih hstep.size_le

theorem Changes.names (h : Changes n s t) {i : Nat} (hi : i < n) :
    (t.frame i).names = (s.frame i).names := by
  induction h with
  | refl => rfl
  | tail _ hstep ih => rw [hstep.names hi, ih]

theorem Changes.nodup (h : Changes n s t) (hs : ∀ i, (s.frame i).names.Nodup) :
    ∀ i, (t.frame i).names.Nodup := by
  induction h with
  | refl => exact hs
  | tail _ hstep ih => exact hstep.nodup ih

end Store

/-! ## What runs do to the frames -/

namespace Run

variable {α : Type} {n : Nat}

/-- Whatever the run starts from, it takes only steps that leave the names of the first `n` frames
alone. -/
def Within (n : Nat) (x : Run ν α) : Prop :=
  ∀ s : Store ν, n ≤ s.frames.size → s.Changes n (x.outcome s).2

def Inner (n : Nat) (env : Environment) : Prop :=
  ∀ i ∈ env.head?, n ≤ i

def changing (n : Nat) (s : Store ν) : Guard ν where
  holds t := n ≤ t.frames.size ∧ s.Changes n t
  allows _ env := Inner n env

theorem changing_lawful (n : Nat) (s : Store ν) : (changing n s).Lawful := by
  have hnext {t u : Store ν} (ht : (changing n s).holds t) (h : t.Change n u) :
      (changing n s).holds u :=
    ⟨Nat.le_trans ht.1 h.size_le, ht.2.tail h⟩
  refine ⟨fun ht => hnext ht (.extend _), fun ht => hnext ht (.count _ _),
    fun ht => hnext ht (.count _ _), fun ht henv => hnext ht (.define henv _ _),
    fun ht _ howner => hnext ht (.assign howner _), fun ht _ i hi => ?_, fun _ henv _ _ => henv⟩
  cases hi
  exact ht.1

theorem Guarded.within {x : Run ν α} {P : α → Store ν → Prop}
    (h : ∀ s, (changing n s).holds s → x.Guarded (changing n s) s P) : x.Within n := by
  intro s hs
  obtain ⟨-, ⟨-, hchanges⟩, -⟩ := h s ⟨hs, .refl⟩ _ _ rfl
  exact hchanges

theorem within_assign (env : Environment) (name : String) (v : Value ν) :
    (assign env name v).Within n := by
  intro s _
  rw [outcome_assign]
  cases howner : s.owner? name env with
  | some i => exact .single (.assign howner v)
  | none => exact .refl

theorem IsStep.within [Numeric ν] {x : Run ν α} (h : x.IsStep (Inner n)) : x.Within n := by
  cases h with
  | throw e => exact fun s _ => .refl
  | read env name => exact Guarded.within fun s hs => guarded_read hs name
  | assign env name v => exact within_assign env name v
  | makePair head tail =>
    exact Guarded.within fun s hs => guarded_makePair (changing_lawful n s) hs head tail
  | makeClosure name f env =>
    exact Guarded.within fun s hs => guarded_makeClosure (changing_lawful n s) hs name f
  | member object property => exact Guarded.within fun s hs => guarded_member hs object property
  | applyBuiltin b args =>
    exact Guarded.within fun s hs => guarded_applyBuiltin (changing_lawful n s) hs b args
  | copyOut source target copied =>
    cases copied with
    | none => exact fun s _ => .refl
    | some name =>
      intro s hs
      rw [outcome_copyOut]
      exact within_assign target name _ s hs
  | copyIn henv source copied =>
    exact Guarded.within fun s hs => guarded_copyIn (changing_lawful n s) hs source henv copied
  | define henv name v =>
    exact Guarded.within fun s hs => guarded_define (changing_lawful n s) hs henv name v
  | defineParams henv params args =>
    exact Guarded.within fun s hs => guarded_defineParams (changing_lawful n s) hs henv params args
  | hoist henv body =>
    exact Guarded.within fun s hs => guarded_hoist (changing_lawful n s) hs henv body

theorem within_bind {β : Type} {x : Run ν α} {f : α → Run ν β} (hx : x.Within n)
    (hf : ∀ a, (f a).Within n) : (x >>= f).Within n := by
  intro s hs
  have hfirst := hx s hs
  rw [outcome_bind]
  rcases hout : x.outcome s with ⟨e | a, t⟩
  · rw [hout] at hfirst
    exact hfirst
  · rw [hout] at hfirst
    exact hfirst.trans (hf a t (Nat.le_trans hs hfirst.size_le))

def Kept (n : Nat) (x _ : Run ν α) : Prop :=
  x.Within n

theorem relates_kept [Numeric ν] (n : Nat) :
    Relates (Inner n) (fun x => x) (fun {_} (x y : Run ν _) => Kept n x y) where
  pure _ _ _ := .refl
  bind := within_bind
  ofStep h := h.within
  extend {_ env _ _} h := by
    intro s hs
    rw [outcome_bind, outcome_extend]
    have hinner : Inner n (s.frames.size :: env) := by
      intro i hi
      cases hi
      exact hs
    have hextend : s.Change n (s.extend env).2 := .extend env
    exact .head hextend (h _ hinner _ (Nat.le_trans hs hextend.size_le))

end Run

section

variable [Numeric ν] {n : Nat} {call : Caller ν} (hcall : ∀ f args, (call f args).Within n)

include hcall

theorem Expression.within (env : Environment) (e : Expression ν) :
    (e.evaluate call env).Within n :=
  have hkept : ∀ f args, Run.Kept n (call f args) (call f args) := hcall
  e.related (Run.relates_kept n) hkept env

theorem Statement.within (patience : Nat) {env : Environment} (st : Statement ν)
    (h : st.isDeclaration = true → Run.Inner n env) : (st.execute patience call env).Within n :=
  have hkept : ∀ f args, Run.Kept n (call f args) (call f args) := hcall
  st.related (Run.relates_kept n) hkept patience h

theorem Run.block_within (patience : Nat) {env : Environment} (h : Run.Inner n env)
    (body : List (Statement ν)) : (Run.block patience call env body).Within n :=
  have hkept : ∀ f args, Run.Kept n (call f args) (call f args) := hcall
  Run.related_block (Run.relates_kept n) hkept patience h body

theorem Run.body_within (patience : Nat) (c : Closure ν) (args : List (Value ν)) :
    (Run.body patience call c args).Within n := by
  have hblock (env : Environment) (henv : Run.Inner n env) :
      Run.Kept n (Run.block patience call env c.function.body)
        (Run.blockIn (fun x => x) call patience env c.function.body) :=
    Run.block_within hcall patience henv c.function.body
  exact Run.related_body (Run.relates_kept n) call (fun x => x) hblock args

end

/-- A call binds no name in a frame that is there before, at any depth. -/
theorem Run.call_within [Numeric ν] (limit : Option Nat) (n patience depth : Nat) (f : Value ν)
    (args : List (Value ν)) : (Run.call limit patience depth f args).Within n := by
  induction patience generalizing depth f args with
  | zero => exact fun s _ => .refl
  | succ patience ih =>
    cases f with
    | closure c =>
      rw [Run.call]
      split
      · exact fun s _ => .refl
      · exact Run.body_within (ih (depth + 1)) patience c args
    | builtin b => exact Run.IsStep.within (.applyBuiltin b args)
    | _ => exact fun s _ => .refl

/-! ## What statements declare -/

namespace Statement

theorem mem_declaredNames {body : List (Statement ν)} {name : String} :
    name ∈ declaredNames body ↔
      (∃ params inner, .function name params inner ∈ body) ∨
        ∃ kind init, .declaration kind name init ∈ body := by
  induction body with
  | nil => simp [declaredNames]
  | cons st rest ih =>
    cases st with
    | declaration kind other init => simp [declaredNames, ih, exists_or, or_left_comm]
    | function other params inner => simp [declaredNames, ih, exists_or, or_assoc]
    | _ => simp [declaredNames, ih]

/-- The functions of a block are the names that are bound before its first statement. -/
theorem mem_names_hoist {k : Nat} {s : Store ν} (hk : k < s.frames.size) (outer : Environment)
    (body : List (Statement ν)) (name : String) :
    name ∈ (((hoist (k :: outer) body).outcome s).2.frame k).names ↔
      name ∈ (s.frame k).names ∨ ∃ params inner, .function name params inner ∈ body := by
  induction body generalizing s with
  | nil => simp [hoist]
  | cons st rest ih =>
    cases st with
    | function other params inner =>
      have hsize (v : Value ν) :
          k < (Store.bind { s with made := s.made + 1 } k other v).frames.size := by
        rwa [Store.size_bind]
      simp only [hoist, Run.outcome_bind, Run.outcome_makeClosure, Run.outcome_define,
        Store.define]
      rw [ih (hsize _), Store.frame_bind _ _ _ _ _ (by exact hk), if_pos rfl,
        Bindings.mem_names_insert, Store.frame_made]
      simp [exists_or, or_assoc]
    | _ => simp [hoist, ih hk]

variable [Numeric ν] {call : Caller ν} (hcall : ∀ n f args, (call f args).Within n)

include hcall

theorem exists_declared (env : Environment) (name : String) (init : Option (Expression ν)) :
    ∃ x : Run ν (Value ν), (∀ n, x.Within n) ∧
      Run.declare call env name init = (do let v ← x; Run.define env name v) := by
  cases init with
  | none => exact ⟨pure .undefined, fun _ _ _ => .refl, rfl⟩
  | some e =>
    cases e with
    | function params body home =>
      exact ⟨Run.makeClosure (some name) ⟨params, body⟩ env,
        fun _ => Run.IsStep.within (.makeClosure ..), rfl⟩
    | _ => exact ⟨_, fun n => Expression.within (hcall n) env _, rfl⟩

variable {patience k : Nat} {outer : Environment} {s t : Store ν} {name : String}
  (hk : k < s.frames.size)

include hk

theorem mem_names_execute {st : Statement ν}
    (h : (st.execute patience call (k :: outer)).outcome s = (.ok .normal, t)) :
    k < t.frames.size ∧ (name ∈ (t.frame k).names ↔
      name ∈ (s.frame k).names ∨ ∃ kind init, .declaration kind name init = st) := by
  cases hst : st.isDeclaration with
  | false =>
    have hwithin : (st.execute patience call (k :: outer)).Within s.frames.size :=
      st.within (hcall _) patience fun hdeclares =>
        absurd (hst.symm.trans hdeclares) Bool.false_ne_true
    have hchanges := hwithin s (Nat.le_refl _)
    rw [h] at hchanges
    refine ⟨Nat.lt_of_lt_of_le hk hchanges.size_le, ?_⟩
    rw [hchanges.names hk, or_iff_left]
    rintro ⟨kind, init, rfl⟩
    cases hst
  | true =>
    cases st with
    | declaration kind other init =>
      obtain ⟨_, u, hdeclare, hu⟩ := Run.bind_ok.1 h
      cases hu
      obtain ⟨x, hx, hrun⟩ := exists_declared hcall (k :: outer) other init
      rw [hrun] at hdeclare
      obtain ⟨v, u, hv, hdefine⟩ := Run.bind_ok.1 hdeclare
      -- what comes before the binding leaves the names of the frame alone
      have hchanges := hx s.frames.size s (Nat.le_refl _)
      rw [hv] at hchanges
      have hu : k < u.frames.size := Nat.lt_of_lt_of_le hk hchanges.size_le
      cases hdefine
      refine ⟨(Store.size_define ..).symm ▸ hu, ?_⟩
      change name ∈ ((u.bind k other v).frame k).names ↔ _
      rw [Store.frame_bind u k k other v hu, if_pos rfl, Bindings.mem_names_insert,
        hchanges.names hk]
      simp [eq_comm]
    | _ => cases hst

theorem mem_names_executeAll {body : List (Statement ν)}
    (h : (executeAll patience call (k :: outer) body).outcome s = (.ok .normal, t)) :
    name ∈ (t.frame k).names ↔
      name ∈ (s.frame k).names ∨ ∃ kind init, .declaration kind name init ∈ body := by
  induction body generalizing s with
  | nil =>
    cases h
    simp
  | cons st rest ih =>
    obtain ⟨c, u, hfirst, hrest⟩ := Run.bind_ok.1 h
    cases c with
    | returned v => cases hrest
    | normal =>
      obtain ⟨hu, hnames⟩ := mem_names_execute hcall hk hfirst
      rw [ih hu hrest, hnames, or_assoc]
      simp only [List.mem_cons, exists_or]

end Statement

/-! ## The names that a program leaves behind -/

/-- What is done to the frames of a store changes values of names that the frames bind. -/
structure Store.KeepsNames (s t : Store ν) : Prop where
  changes : s.Changes s.frames.size t
  names {i : Nat} : i < s.frames.size → (t.frame i).names = (s.frame i).names

theorem Run.keepsNames_of_within {α : Type} {x : Run ν α} (h : ∀ n, x.Within n) (s : Store ν) :
    s.KeepsNames (x.outcome s).2 :=
  have hchanges := h s.frames.size s (Nat.le_refl _)
  ⟨hchanges, hchanges.names⟩

section

variable [Numeric ν]

theorem nodup_globals : ((globals : List (String × Value ν)).map Prod.fst).Nodup := by
  have hnames : (globals : List (String × Value ν)).map Prod.fst =
      Builtin.all.map Builtin.globalName ++ Constant.all.map Constant.globalName ++
        ["NaN", "Infinity"] := by
    simp [globals, Function.comp_def]
  rw [hnames]
  decide +kernel

theorem Store.nodup_initial (i : Nat) : ((Store.initial : Store ν).frame i).names.Nodup := by
  cases i with
  | zero => exact nodup_globals
  | succ i => exact List.nodup_nil

omit [Numeric ν] in
theorem Store.mem_names_global (s : Store ν) (name : String) :
    name ∈ s.names .global ↔ name ∈ (s.frame 0).names :=
  List.mem_mergeSort

theorem Program.block_of_run {options : RunOptions} {p : Program ν} {s : Store ν}
    (h : p.run options = .ok s) :
    (Run.block patience (Run.call options.callLimit patience 0) .global p.body).outcome .initial =
      (.ok .normal, s) := by
  rw [Program.run] at h
  split at h
  · next u t hrun =>
    cases h
    obtain ⟨c, t, hblock, hrest⟩ := Run.bind_ok.1 hrun
    cases c with
    | returned v => cases hrest
    | normal =>
      cases hrest
      exact hblock
  · cases h

/-- A program leaves the names behind in the global frame that it starts with and that its own
statements declare. No statement but a declaration, no expression and no call binds a name in a
frame that was there before, however it ends. -/
theorem Program.binds_declared_names :
    (∀ (options : RunOptions) (p : Program ν) (s : Store ν), p.run options = .ok s →
      (s.names .global).Nodup ∧ ∀ name, name ∈ s.names .global ↔
        name ∈ (globals : List (String × Value ν)).map Prod.fst ∨
          name ∈ Statement.declaredNames p.body) ∧
    ∀ (limit : Option Nat) (patience depth : Nat) (s : Store ν),
      (∀ rounds env (st : Statement ν), st.isDeclaration = false →
        s.KeepsNames ((st.execute rounds (Run.call limit patience depth) env).outcome s).2) ∧
      (∀ env (e : Expression ν),
        s.KeepsNames ((e.evaluate (Run.call limit patience depth) env).outcome s).2) ∧
      ∀ f args, s.KeepsNames ((Run.call limit patience depth f args).outcome s).2 := by
  refine ⟨fun options p s hrun => ?_, fun limit patience depth s => ⟨fun rounds env st hst => ?_,
    fun env e => ?_, fun f args => ?_⟩⟩
  · have hblock := Program.block_of_run hrun
    have hcall (n : Nat) (f : Value ν) := Run.call_within options.callLimit n patience 0 f
    have hinner : Run.Inner 0 .global := fun i _ => Nat.zero_le i
    refine ⟨?_, fun name => ?_⟩
    · have hchanges := Run.block_within (hcall 0) patience hinner p.body .initial (Nat.zero_le _)
      rw [hblock] at hchanges
      exact (List.mergeSort_perm _ _).nodup_iff.2 (hchanges.nodup Store.nodup_initial 0)
    · obtain ⟨u, t, hhoist, hall⟩ := Run.bind_ok.1 hblock
      have hglobal : 0 < (Store.initial : Store ν).frames.size := Nat.one_pos
      have hchanges := (Run.IsStep.hoist hinner p.body).within .initial (Nat.zero_le _)
      have hhoisted := Statement.mem_names_hoist hglobal [] p.body name
      rw [← Environment.global, hhoist] at hhoisted
      rw [hhoist] at hchanges
      rw [s.mem_names_global, Statement.mem_names_executeAll hcall
        (Nat.lt_of_lt_of_le hglobal hchanges.size_le) hall, hhoisted, or_assoc,
        Statement.mem_declaredNames]
      rfl
  · refine Run.keepsNames_of_within (fun n => ?_) s
    exact st.within (Run.call_within limit n patience depth) rounds fun hdeclares =>
      absurd (hst.symm.trans hdeclares) Bool.false_ne_true
  · exact Run.keepsNames_of_within
      (fun n => e.within (Run.call_within limit n patience depth) env) s
  · exact Run.keepsNames_of_within (fun n => Run.call_within limit n patience depth f args) s

end

/-- A program with a name `y` in a block: `let x; { let y = f(null); x = y; }`. -/
def innerName : Program (Exact .zero) where
  body := [
    .declaration .mutable "x" none,
    .function "f" ["t"] [.declaration .constant "u" (some (.identifier "t")),
      .result (some (.identifier "u"))],
    .block [.declaration .mutable "y" (some (.call (.identifier "f") [.null])),
      .expression (.assignment .assign "x" (.identifier "y"))]]

theorem innerName_stays : ∃ s, innerName.run .standard = .ok s ∧
    "x" ∈ s.names .global ∧ "y" ∉ s.names .global ∧ "u" ∉ s.names .global := by
  obtain ⟨s, hrun⟩ : ∃ s, innerName.run .standard = .ok s := ⟨_, rfl⟩
  obtain ⟨-, hnames⟩ := Program.binds_declared_names.1 .standard innerName s hrun
  refine ⟨s, hrun, (hnames "x").2 (by decide), fun hy => ?_, fun hu => ?_⟩
  · exact absurd ((hnames "y").1 hy) (by decide)
  · exact absurd ((hnames "u").1 hu) (by decide)

end Waveform
