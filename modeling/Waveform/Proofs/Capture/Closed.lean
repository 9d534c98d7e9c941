import Waveform.Proofs.Capture.Meaning

/-!
# Captured units are closed

A tree is closed, up to names that are allowed, when each other name that it uses is bound around
the place where it uses it: by a block, a function or a loop. The unit of a closure is closed up to
the names of the closures that it refers to, if the declarations of the closure stand in blocks, and
it has the shape of the closure's function. A declaration that stands alone as a side of a branch
binds its name during the capture for all that follows, but in no tree.
-/

namespace Waveform

variable {ν : Type}

/-! ## Declarations in blocks -/

mutual

/-- Whether no declaration in the expression stands alone as a side of a branch or as the body of a
loop. -/
def Expression.declaresInBlocks : Expression ν → Bool
  | .literal _ | .builtin _ | .identifier _ | .update _ _ _ => true
  | .array items => Expression.allDeclareInBlocks items
  | .member object property => object.declaresInBlocks && property.declaresInBlocks
  | .unary _ argument => argument.declaresInBlocks
  | .binary _ left right | .logical _ left right => left.declaresInBlocks && right.declaresInBlocks
  | .conditional test consequent alternate =>
    test.declaresInBlocks && (consequent.declaresInBlocks && alternate.declaresInBlocks)
  | .call callee arguments => callee.declaresInBlocks && Expression.allDeclareInBlocks arguments
  | .function _ body _ => Statement.allDeclareInBlocks body
  | .assignment _ _ value => value.declaresInBlocks

def Expression.allDeclareInBlocks : List (Expression ν) → Bool
  | [] => true
  | e :: es => e.declaresInBlocks && Expression.allDeclareInBlocks es

def Expression.optionDeclaresInBlocks : Option (Expression ν) → Bool
  | none => true
  | some e => e.declaresInBlocks

def Statement.declaresInBlocks : Statement ν → Bool
  | .block body => Statement.allDeclareInBlocks body
  | .expression e => e.declaresInBlocks
  | .result value => Expression.optionDeclaresInBlocks value
  | .branch test consequent none =>
    test.declaresInBlocks && (! consequent.isDeclaration && consequent.declaresInBlocks)
  | .branch test consequent (some alternate) =>
    test.declaresInBlocks && (! consequent.isDeclaration && consequent.declaresInBlocks) &&
      (! alternate.isDeclaration && alternate.declaresInBlocks)
  | .loop start test update body =>
    start.declaresInBlocks && (Expression.optionDeclaresInBlocks test &&
      (Expression.optionDeclaresInBlocks update &&
        (! body.isDeclaration && body.declaresInBlocks)))
  | .declaration _ _ init => Expression.optionDeclaresInBlocks init
  | .function _ _ body => Statement.allDeclareInBlocks body

def Statement.allDeclareInBlocks : List (Statement ν) → Bool
  | [] => true
  | s :: ss => s.declaresInBlocks && Statement.allDeclareInBlocks ss

def LoopStart.declaresInBlocks : LoopStart ν → Bool
  | .absent => true
  | .declaration _ _ init => Expression.optionDeclaresInBlocks init
  | .expression e => e.declaresInBlocks

end

theorem Statement.boundNames_eq_nil : {s : Statement ν} → s.declaresInBlocks = true →
    s.isDeclaration = false → s.boundNames = []
  | .branch test consequent none, hblocks, _ => by
    simp only [declaresInBlocks, Bool.and_eq_true, Bool.not_eq_true'] at hblocks
    rw [boundNames, boundNames_eq_nil hblocks.2.2 hblocks.2.1]
  | .branch test consequent (some alternate), hblocks, _ => by
    simp only [declaresInBlocks, Bool.and_eq_true, Bool.not_eq_true'] at hblocks
    rw [boundNames, boundNames_eq_nil hblocks.1.2.2 hblocks.1.2.1,
      boundNames_eq_nil hblocks.2.2 hblocks.2.1, List.append_nil]
  | .block _, _, _ | .expression _, _, _ | .result _, _, _ | .loop _ _ _ _, _, _
  | .function _ _ _, _, _ => by rw [boundNames]; all_goals nofun
  | .declaration _ _ _, _, h => by cases h

theorem Statement.boundNames_subset {s : Statement ν} (h : s.declaresInBlocks = true)
    (rest : List (Statement ν)) : s.boundNames ⊆ Statement.declaredNames (s :: rest) := by
  by_cases hdeclaration : s.isDeclaration = true
  · cases s with
    | declaration kind name init =>
      rw [boundNames, declaredNames]
      exact List.cons_subset_cons _ (List.nil_subset _)
    | _ => cases hdeclaration
  · rw [boundNames_eq_nil h (Bool.eq_false_iff.2 hdeclaration)]
    exact List.nil_subset _

/-! ## Closed trees -/

section

variable (allowed : String → Prop)

mutual

/-- Whether each name that the expression uses is bound around it or in it, or is read and
allowed. -/
def Expression.IsClosed (bound : List String) : Expression ν → Prop
  | .literal _ | .builtin _ => True
  | .identifier name => name ∈ bound ∨ allowed name
  | .array items => Expression.AllClosed bound items
  | .member object property => object.IsClosed bound ∧ property.IsClosed bound
  | .unary _ argument => argument.IsClosed bound
  | .binary _ left right | .logical _ left right => left.IsClosed bound ∧ right.IsClosed bound
  | .conditional test consequent alternate =>
    test.IsClosed bound ∧ consequent.IsClosed bound ∧ alternate.IsClosed bound
  | .call callee arguments => callee.IsClosed bound ∧ Expression.AllClosed bound arguments
  | .function params body _ =>
    Statement.AllClosed (bound ++ (params ++ Statement.declaredNames body)) body
  | .assignment _ target value => target ∈ bound ∧ value.IsClosed bound
  | .update _ _ target => target ∈ bound

def Expression.AllClosed (bound : List String) : List (Expression ν) → Prop
  | [] => True
  | e :: es => e.IsClosed bound ∧ Expression.AllClosed bound es

def Expression.OptionClosed (bound : List String) : Option (Expression ν) → Prop
  | none => True
  | some e => e.IsClosed bound

/-- A block binds what its statements declare, a function also its parameters, and a loop the name
that it starts with. -/
def Statement.IsClosed (bound : List String) : Statement ν → Prop
  | .block body => Statement.AllClosed (bound ++ Statement.declaredNames body) body
  | .expression e => e.IsClosed bound
  | .result value => Expression.OptionClosed bound value
  | .branch test consequent none => test.IsClosed bound ∧ consequent.IsClosed bound
  | .branch test consequent (some alternate) =>
    test.IsClosed bound ∧ consequent.IsClosed bound ∧ alternate.IsClosed bound
  | .loop start test update body =>
    start.IsClosed bound ∧ Expression.OptionClosed (bound ++ start.declaredNames) test ∧
      Expression.OptionClosed (bound ++ start.declaredNames) update ∧
        body.IsClosed (bound ++ start.declaredNames)
  | .declaration _ _ init => Expression.OptionClosed bound init
  | .function _ params body =>
    Statement.AllClosed (bound ++ (params ++ Statement.declaredNames body)) body

def Statement.AllClosed (bound : List String) : List (Statement ν) → Prop
  | [] => True
  | s :: ss => s.IsClosed bound ∧ Statement.AllClosed bound ss

def LoopStart.IsClosed (bound : List String) : LoopStart ν → Prop
  | .absent => True
  | .declaration _ _ init => Expression.OptionClosed bound init
  | .expression e => e.IsClosed bound

end

def Function.IsClosed (f : Function ν) : Prop :=
  Statement.AllClosed allowed (f.params ++ Statement.declaredNames f.body) f.body

end

/-! ## Trees of one shape -/

mutual

/-- Whether the second expression is the first one with others in place of some of its names. -/
def Expression.IsFilled : Expression ν → Expression ν → Prop
  | .identifier _, _ => True
  | .literal a, .literal b => b = a
  | .builtin a, .builtin b => b = a
  | .array a, .array b => Expression.AllFilled a b
  | .member a b, .member c d => a.IsFilled c ∧ b.IsFilled d
  | .unary op a, .unary op' b => op' = op ∧ a.IsFilled b
  | .binary op a b, .binary op' c d => op' = op ∧ a.IsFilled c ∧ b.IsFilled d
  | .logical op a b, .logical op' c d => op' = op ∧ a.IsFilled c ∧ b.IsFilled d
  | .conditional a b c, .conditional d e f => a.IsFilled d ∧ b.IsFilled e ∧ c.IsFilled f
  | .call a b, .call c d => a.IsFilled c ∧ Expression.AllFilled b d
  | .function params body _, .function params' body' _ =>
    params' = params ∧ Statement.AllFilled body body'
  | .assignment op target a, .assignment op' target' b =>
    op' = op ∧ target' = target ∧ a.IsFilled b
  | .update op isBefore target, .update op' isBefore' target' =>
    op' = op ∧ isBefore' = isBefore ∧ target' = target
  | _, _ => False
termination_by structural x => x

def Expression.AllFilled : List (Expression ν) → List (Expression ν) → Prop
  | [], [] => True
  | a :: as, b :: bs => a.IsFilled b ∧ Expression.AllFilled as bs
  | _, _ => False
termination_by structural x => x

def Expression.OptionFilled : Option (Expression ν) → Option (Expression ν) → Prop
  | none, none => True
  | some a, some b => a.IsFilled b
  | _, _ => False
termination_by structural x => x

/-- Whether the second statement is the first one with other expressions in place of some of its
names. Both declare the same names and have the same parameters and statements inside. -/
def Statement.IsFilled : Statement ν → Statement ν → Prop
  | .block a, .block b => Statement.AllFilled a b
  | .expression a, .expression b => a.IsFilled b
  | .result a, .result b => Expression.OptionFilled a b
  | .branch a b none, .branch d e none => a.IsFilled d ∧ b.IsFilled e
  | .branch a b (some c), .branch d e (some f) => a.IsFilled d ∧ b.IsFilled e ∧ c.IsFilled f
  | .loop a b c d, .loop e f g h =>
    a.IsFilled e ∧ Expression.OptionFilled b f ∧ Expression.OptionFilled c g ∧ d.IsFilled h
  | .declaration kind name a, .declaration kind' name' b =>
    kind' = kind ∧ name' = name ∧ Expression.OptionFilled a b
  | .function name params body, .function name' params' body' =>
    name' = name ∧ params' = params ∧ Statement.AllFilled body body'
  | _, _ => False
termination_by structural x => x

def Statement.AllFilled : List (Statement ν) → List (Statement ν) → Prop
  | [], [] => True
  | a :: as, b :: bs => a.IsFilled b ∧ Statement.AllFilled as bs
  | _, _ => False
termination_by structural x => x

def LoopStart.IsFilled : LoopStart ν → LoopStart ν → Prop
  | .absent, .absent => True
  | .declaration kind name a, .declaration kind' name' b =>
    kind' = kind ∧ name' = name ∧ Expression.OptionFilled a b
  | .expression a, .expression b => a.IsFilled b
  | _, _ => False
termination_by structural x => x

end

def Function.IsFilled (f g : Function ν) : Prop :=
  g.params = f.params ∧ Statement.AllFilled f.body g.body

/-! ## Closing a tree -/

theorem Statement.declaredNames_closeAll (q : String → Expression ν) (bound : List String)
    (ss : List (Statement ν)) :
    Statement.declaredNames (Statement.closeAll q bound ss) = Statement.declaredNames ss := by
  induction ss generalizing bound with
  | nil => rfl
  | cons s rest ih =>
    rw [Statement.closeAll, Statement.declaredNames_cons, Statement.declaredNames_cons s, ih]
    congr 1
    cases s with
    | branch test consequent alternate => cases alternate <;> rfl
    | _ => rfl

theorem LoopStart.declaredNames_close (q : String → Expression ν) (bound : List String)
    (start : LoopStart ν) : (start.close q bound).declaredNames = start.declaredNames := by
  cases start <;> rfl

/-- The name is read, and what stands in its place is closed wherever it stands. -/
def Occurrence.IsClosedBy (q : String → Expression ν) (allowed : String → Prop) : Occurrence → Prop
  | .read name => ∀ bound, (q name).IsClosed allowed bound
  | .write _ => False

theorem append_subset_append {bound bound' : List String} (h : bound ⊆ bound')
    (names : List String) : bound ++ names ⊆ bound' ++ names :=
  List.append_subset.2 ⟨List.Subset.trans h (List.subset_append_left _ _),
    List.subset_append_right _ _⟩

section

variable {q : String → Expression ν} {allowed : String → Prop}

mutual

/-- A tree is closed where its free names are closed, also among more names that are bound. -/
theorem Expression.isClosed_close {bound bound' : List String} : (e : Expression ν) →
    e.declaresInBlocks = true →
    (∀ o ∈ e.free bound, o.IsClosedBy q allowed) → bound ⊆ bound' →
      (e.close q bound).IsClosed allowed bound'
  | .literal _, _, _, _ | .builtin _, _, _, _ => trivial
  | .identifier name, _, hfree, hsub => by
    simp only [Expression.free] at hfree
    simp only [Expression.close]
    by_cases hname : name ∈ bound
    · rw [if_pos hname]
      exact .inl (hsub hname)
    · rw [if_neg hname] at hfree ⊢
      exact hfree (.read name) (List.mem_singleton_self _) bound'
  | .array items, hblocks, hfree, hsub => Expression.allClosed_closeAll items hblocks hfree hsub
  | .member object property, hblocks, hfree, hsub => by
    simp only [Expression.declaresInBlocks, Bool.and_eq_true] at hblocks
    simp only [Expression.free, List.forall_mem_append] at hfree
    exact ⟨object.isClosed_close hblocks.1 hfree.1 hsub,
      property.isClosed_close hblocks.2 hfree.2 hsub⟩
  | .unary _ argument, hblocks, hfree, hsub => argument.isClosed_close hblocks hfree hsub
  | .binary _ left right, hblocks, hfree, hsub | .logical _ left right, hblocks, hfree, hsub => by
    simp only [Expression.declaresInBlocks, Bool.and_eq_true] at hblocks
    simp only [Expression.free, List.forall_mem_append] at hfree
    exact ⟨left.isClosed_close hblocks.1 hfree.1 hsub, right.isClosed_close hblocks.2 hfree.2 hsub⟩
  | .conditional test consequent alternate, hblocks, hfree, hsub => by
    simp only [Expression.declaresInBlocks, Bool.and_eq_true] at hblocks
    simp only [Expression.free, List.forall_mem_append] at hfree
    exact ⟨test.isClosed_close hblocks.1 hfree.1 hsub,
      consequent.isClosed_close hblocks.2.1 hfree.2.1 hsub,
      alternate.isClosed_close hblocks.2.2 hfree.2.2 hsub⟩
  | .call callee arguments, hblocks, hfree, hsub => by
    simp only [Expression.declaresInBlocks, Bool.and_eq_true] at hblocks
    simp only [Expression.free, List.forall_mem_append] at hfree
    exact ⟨callee.isClosed_close hblocks.1 hfree.1 hsub,
      Expression.allClosed_closeAll arguments hblocks.2 hfree.2 hsub⟩
  | .function params body _, hblocks, hfree, hsub => by
    simp only [Expression.close, Expression.IsClosed, Statement.declaredNames_closeAll]
    refine Statement.allClosed_closeAll body hblocks hfree ?_ ?_
    · exact append_subset_append hsub _
    · exact fun name hname => List.mem_append_right _ (List.mem_append_right _ hname)
  | .assignment _ target value, hblocks, hfree, hsub => by
    simp only [Expression.free, List.forall_mem_append] at hfree
    have htarget : target ∈ bound := by
      by_contra hnot
      rw [if_neg hnot] at hfree
      exact hfree.1 _ (List.mem_singleton_self _)
    exact ⟨hsub htarget, value.isClosed_close hblocks hfree.2 hsub⟩
  | .update _ _ target, _, hfree, hsub => by
    simp only [Expression.free] at hfree
    have htarget : target ∈ bound := by
      by_contra hnot
      rw [if_neg hnot] at hfree
      exact hfree _ (List.mem_singleton_self _)
    exact hsub htarget

theorem Expression.allClosed_closeAll {bound bound' : List String} : (es : List (Expression ν)) →
    Expression.allDeclareInBlocks es = true →
      (∀ o ∈ Expression.allFree bound es, o.IsClosedBy q allowed) → bound ⊆ bound' →
        Expression.AllClosed allowed bound' (Expression.closeAll q bound es)
  | [], _, _, _ => trivial
  | e :: es, hblocks, hfree, hsub => by
    simp only [Expression.allDeclareInBlocks, Bool.and_eq_true] at hblocks
    simp only [Expression.allFree, List.forall_mem_append] at hfree
    exact ⟨e.isClosed_close hblocks.1 hfree.1 hsub,
      Expression.allClosed_closeAll es hblocks.2 hfree.2 hsub⟩

theorem Expression.optionClosed_closeOption {bound bound' : List String} :
    (e : Option (Expression ν)) →
    Expression.optionDeclaresInBlocks e = true →
      (∀ o ∈ Expression.optionFree bound e, o.IsClosedBy q allowed) → bound ⊆ bound' →
        Expression.OptionClosed allowed bound' (Expression.closeOption q bound e)
  | none, _, _, _ => trivial
  | some e, hblocks, hfree, hsub => e.isClosed_close hblocks hfree hsub

theorem Statement.isClosed_close {bound bound' : List String} : (s : Statement ν) →
    s.declaresInBlocks = true →
    (∀ o ∈ s.free bound, o.IsClosedBy q allowed) → bound ⊆ bound' →
      (s.close q bound).IsClosed allowed bound'
  | .block body, hblocks, hfree, hsub => by
    simp only [Statement.close, Statement.IsClosed, Statement.declaredNames_closeAll]
    refine Statement.allClosed_closeAll body hblocks hfree ?_ ?_
    · exact append_subset_append hsub _
    · exact List.subset_append_right _ _
  | .expression e, hblocks, hfree, hsub => e.isClosed_close hblocks hfree hsub
  | .result value, hblocks, hfree, hsub =>
    Expression.optionClosed_closeOption value hblocks hfree hsub
  | .branch test consequent none, hblocks, hfree, hsub => by
    simp only [Statement.declaresInBlocks, Bool.and_eq_true] at hblocks
    simp only [Statement.free, List.forall_mem_append] at hfree
    exact ⟨test.isClosed_close hblocks.1 hfree.1 hsub,
      consequent.isClosed_close hblocks.2.2 hfree.2 hsub⟩
  | .branch test consequent (some alternate), hblocks, hfree, hsub => by
    simp only [Statement.declaresInBlocks, Bool.and_eq_true, Bool.not_eq_true'] at hblocks
    obtain ⟨⟨htest, hplain, hconsequent⟩, -, halternate⟩ := hblocks
    simp only [Statement.free, List.forall_mem_append,
      Statement.boundNames_eq_nil hconsequent hplain, List.append_nil] at hfree
    simp only [Statement.close, Statement.boundNames_eq_nil hconsequent hplain, List.append_nil]
    exact ⟨test.isClosed_close htest hfree.1 hsub,
      consequent.isClosed_close hconsequent hfree.2.1 hsub,
      alternate.isClosed_close halternate hfree.2.2 hsub⟩
  | .loop start test update body, hblocks, hfree, hsub => by
    simp only [Statement.declaresInBlocks, Bool.and_eq_true] at hblocks
    simp only [Statement.free, List.forall_mem_append] at hfree
    simp only [Statement.close, Statement.IsClosed, LoopStart.declaredNames_close]
    have hinner : bound ++ start.declaredNames ⊆ bound' ++ start.declaredNames :=
      append_subset_append hsub _
    exact ⟨start.isClosed_close hblocks.1 hfree.1 hsub,
      Expression.optionClosed_closeOption test hblocks.2.1 hfree.2.1 hinner,
      Expression.optionClosed_closeOption update hblocks.2.2.1 hfree.2.2.1 hinner,
      body.isClosed_close hblocks.2.2.2.2 hfree.2.2.2 hinner⟩
  | .declaration _ _ init, hblocks, hfree, hsub =>
    Expression.optionClosed_closeOption init hblocks hfree hsub
  | .function _ params body, hblocks, hfree, hsub => by
    simp only [Statement.close, Statement.IsClosed, Statement.declaredNames_closeAll]
    refine Statement.allClosed_closeAll body hblocks hfree ?_ ?_
    · exact append_subset_append hsub _
    · exact fun name hname => List.mem_append_right _ (List.mem_append_right _ hname)

theorem Statement.allClosed_closeAll {bound bound' : List String} : (ss : List (Statement ν)) →
    Statement.allDeclareInBlocks ss = true →
      (∀ o ∈ Statement.allFree bound ss, o.IsClosedBy q allowed) → bound ⊆ bound' →
        Statement.declaredNames ss ⊆ bound' →
          Statement.AllClosed allowed bound' (Statement.closeAll q bound ss)
  | [], _, _, _, _ => trivial
  | s :: rest, hblocks, hfree, hsub, hdeclared => by
    simp only [Statement.allDeclareInBlocks, Bool.and_eq_true] at hblocks
    simp only [Statement.allFree, List.forall_mem_append] at hfree
    have hnames := List.Subset.trans (Statement.boundNames_subset hblocks.1 rest) hdeclared
    have hrest : Statement.declaredNames rest ⊆ bound' := by
      rw [Statement.declaredNames_cons] at hdeclared
      exact List.Subset.trans (List.subset_append_right _ _) hdeclared
    exact ⟨s.isClosed_close hblocks.1 hfree.1 hsub, Statement.allClosed_closeAll rest hblocks.2
      hfree.2 (List.append_subset.2 ⟨hsub, hnames⟩) hrest⟩

theorem LoopStart.isClosed_close {bound bound' : List String} : (start : LoopStart ν) →
    start.declaresInBlocks = true →
    (∀ o ∈ start.free bound, o.IsClosedBy q allowed) → bound ⊆ bound' →
      (start.close q bound).IsClosed allowed bound'
  | .absent, _, _, _ => trivial
  | .declaration _ _ init, hblocks, hfree, hsub =>
    Expression.optionClosed_closeOption init hblocks hfree hsub
  | .expression e, hblocks, hfree, hsub => e.isClosed_close hblocks hfree hsub

end

end

theorem Function.isClosed_close {f : Function ν} {q : String → Expression ν}
    {allowed : String → Prop} (hblocks : Statement.allDeclareInBlocks f.body = true)
    (hfree : ∀ o ∈ f.free, o.IsClosedBy q allowed) : (f.close q).IsClosed allowed := by
  rw [Function.IsClosed, Function.close, Statement.declaredNames_closeAll]
  exact Statement.allClosed_closeAll f.body hblocks hfree (List.Subset.refl _)
    (List.subset_append_right _ _)

section

variable (q : String → Expression ν)

mutual

theorem Expression.isFilled_close (bound : List String) : (e : Expression ν) →
    e.IsFilled (e.close q bound)
  | .identifier _ => trivial
  | .literal _ | .builtin _ => rfl
  | .array items => Expression.allFilled_closeAll bound items
  | .member object property => ⟨object.isFilled_close bound, property.isFilled_close bound⟩
  | .unary _ argument => ⟨rfl, argument.isFilled_close bound⟩
  | .binary _ left right | .logical _ left right =>
    ⟨rfl, left.isFilled_close bound, right.isFilled_close bound⟩
  | .conditional test consequent alternate =>
    ⟨test.isFilled_close bound, consequent.isFilled_close bound, alternate.isFilled_close bound⟩
  | .call callee arguments =>
    ⟨callee.isFilled_close bound, Expression.allFilled_closeAll bound arguments⟩
  | .function _ body _ => ⟨rfl, Statement.allFilled_closeAll _ body⟩
  | .assignment _ _ value => ⟨rfl, rfl, value.isFilled_close bound⟩
  | .update _ _ _ => ⟨rfl, rfl, rfl⟩

theorem Expression.allFilled_closeAll (bound : List String) : (es : List (Expression ν)) →
    Expression.AllFilled es (Expression.closeAll q bound es)
  | [] => trivial
  | e :: es => ⟨e.isFilled_close bound, Expression.allFilled_closeAll bound es⟩

theorem Expression.optionFilled_closeOption (bound : List String) :
    (e : Option (Expression ν)) → Expression.OptionFilled e (Expression.closeOption q bound e)
  | none => trivial
  | some e => e.isFilled_close bound

theorem Statement.isFilled_close (bound : List String) : (s : Statement ν) →
    s.IsFilled (s.close q bound)
  | .block body => Statement.allFilled_closeAll _ body
  | .expression e => e.isFilled_close bound
  | .result value => Expression.optionFilled_closeOption bound value
  | .branch test consequent none => ⟨test.isFilled_close bound, consequent.isFilled_close bound⟩
  | .branch test consequent (some alternate) =>
    ⟨test.isFilled_close bound, consequent.isFilled_close bound, alternate.isFilled_close _⟩
  | .loop start test update body =>
    ⟨start.isFilled_close bound, Expression.optionFilled_closeOption _ test,
      Expression.optionFilled_closeOption _ update, body.isFilled_close _⟩
  | .declaration _ _ init => ⟨rfl, rfl, Expression.optionFilled_closeOption bound init⟩
  | .function _ _ body => ⟨rfl, rfl, Statement.allFilled_closeAll _ body⟩

theorem Statement.allFilled_closeAll (bound : List String) : (ss : List (Statement ν)) →
    Statement.AllFilled ss (Statement.closeAll q bound ss)
  | [] => trivial
  | s :: rest => ⟨s.isFilled_close bound, Statement.allFilled_closeAll _ rest⟩

theorem LoopStart.isFilled_close (bound : List String) : (start : LoopStart ν) →
    start.IsFilled (start.close q bound)
  | .absent => trivial
  | .declaration _ _ init => ⟨rfl, rfl, Expression.optionFilled_closeOption bound init⟩
  | .expression e => e.isFilled_close bound

end

end

theorem Function.isFilled_close (f : Function ν) (q : String → Expression ν) :
    f.IsFilled (f.close q) :=
  ⟨rfl, Statement.allFilled_closeAll q _ f.body⟩

/-! ## Closed units -/

theorem ClosureNames.isClosed_quote {names : ClosureNames} {allowed : String → Prop}
    {v : Value ν} (h : ∀ c, v.Holds c → ∃ name, names.name? c.identity = some name ∧ allowed name)
    (bound : List String) : (names.quote v).IsClosed allowed bound := by
  induction v with
  | primitive l => trivial
  | builtin b => trivial
  | pair i head tail ihead itail =>
    have hhead := ihead fun c hc => h c (.inl hc)
    have htail := itail fun c hc => h c (.inr hc)
    exact ⟨hhead, htail, trivial⟩
  | closure c =>
    obtain ⟨name, hname, hallowed⟩ := h c rfl
    rw [quote, hname]
    exact .inr hallowed

section

variable {store : Store ν} {hardcoded : List Builtin} {task : ClosureTask ν} {path : String}
  {names names' : ClosureNames} {unit : FunctionDeclaration ν} {tasks : List (ClosureTask ν)}

/-- The unit of a closure whose declarations stand in blocks uses no names but those that it binds
itself and those that the closures go by which the closure refers to. It has the shape of the
closure's function, and the closures that are found are the ones that get a name, each once. -/
theorem ClosureTask.capture_isClosed
    (hblocks : Statement.allDeclareInBlocks task.closure.function.body = true)
    (h : task.capture store path hardcoded names = (.ok (unit, tasks), names')) :
    unit.function.IsClosed (fun name => ∃ c ∈ task.closure.referents store hardcoded,
      names'.name? c.identity = some name) ∧
    unit.name = task.name ∧ task.closure.function.IsFilled unit.function ∧
    (tasks.map (·.closure.identity)).Nodup ∧
    (∀ i name, names.name? i = some name → names'.name? i = some name) ∧
    ∀ i name, (∃ found ∈ tasks, found.closure.identity = i ∧ found.name = name) ↔
      names.name? i = none ∧ names'.name? i = some name := by
  obtain ⟨requests, hread, hasked, -, rfl, rfl, hname, hunit⟩ := exists_requests h
  have hfunction := hunit _ (.refl _)
  rw [hfunction]
  refine ⟨Function.isClosed_close hblocks fun o ho => ?_, hname, Function.isFilled_close _ _,
    names.nodup_discovered requests, fun i name => (names.after_grows requests).name?,
    fun i name => ⟨?_, ?_⟩⟩
  · obtain ⟨name, v, rfl, hv⟩ := hread o ho
    intro bound
    rw [Store.capturedAs, hv]
    refine ClosureNames.isClosed_quote (fun c hc => ?_) bound
    have hreferent : c ∈ task.closure.referents store hardcoded :=
      (store.mem_referents hardcoded).2 ⟨name, ho, v, hv, hc⟩
    obtain ⟨other, hother⟩ := ClosureNames.exists_name_of_referent hasked hreferent names
    exact ⟨other, hother, c, hreferent, hother⟩
  · rintro ⟨found, hfound, rfl, rfl⟩
    exact (ClosureNames.mem_discovered hfound).2
  · rintro ⟨hnone, hsome⟩
    exact ClosureNames.exists_discovered hnone hsome

end

theorem Tools.wave_capture_isClosed : ∃ unit tasks names,
    (⟨"wave", waveClosure⟩ : ClosureTask _).capture store "c0" [.length]
      (.register .empty 4 "wave") = (.ok (unit, tasks), names) ∧
    Statement.allDeclareInBlocks wave.body = true ∧
    unit.function.IsClosed (fun name => ∃ c ∈ waveClosure.referents store [.length],
      names.name? c.identity = some name) ∧
    wave.IsFilled unit.function ∧ tasks.map (·.closure.identity) = [0, 1] := by
  have hblocks : Statement.allDeclareInBlocks wave.body = true := rfl
  obtain ⟨unit, tasks, names, hcapture, htasks⟩ := wave_capture
  obtain ⟨hclosed, -, hfilled, -⟩ := ClosureTask.capture_isClosed hblocks hcapture
  exact ⟨unit, tasks, names, hcapture, hblocks, hclosed, hfilled, htasks⟩

end Waveform
