import Mathlib.Data.List.Forall2
import Waveform.Proofs.Source.Reading

/-!
# Reading operands
-/

namespace Waveform

namespace Source

variable {ctx : Context} {strict : Bool} {K L N : Nat} {l m : Lexeme} {n : Node}
  {P : Lexeme → Prop} {Q : Node → Lexeme → Prop}

/-! ## Where a goal stops -/

theorem Lexeme.Follows.isMark_eq_false {marks : List String} (h : m.Follows marks) {text : String}
    (htext : ∀ t ∈ marks, (t == text) = false) : m.token.isMark text = false :=
  Token.eq_of_isAmong h.token (·.isMark text) false ⟨rfl, htext⟩

theorem ends_atOptionalLink {B : Bool → Lexeme → Prop} : Ends atOptionalLink m B ↔
    B (m.token.isMark "?" && (lexeme? m.rest m.stop false).any (·.token.isMark ".")) m := by
  cases h : m.token.isMark "?" <;> simp [atOptionalLink, h]

theorem Lexeme.Follows.no_link {marks : List String} (h : m.Follows marks) :
    (m.token.isMark "?" && (lexeme? m.rest m.stop false).any (·.token.isMark ".")) = false := by
  cases htoken : m.token with
  | mark t =>
    by_cases ht : t = "?"
    · rw [ht] at htoken
      simp [h.noChain htoken]
    · simp [Token.isMark, ht]
  | _ => rfl

theorem suffixes_stop (hm : m.Follows (operandEnds ++ ["++", "--"])) (hK : 0 < K) (hQ : Q n m) :
    Ends (grammar K (.suffixes ctx true n)) m Q := by
  obtain ⟨K, rfl⟩ : ∃ k, K = k + 1 := ⟨K - 1, by omega⟩
  have hpoint : m.token.isMark "." = false := hm.isMark_eq_false (by decide)
  have hbracket : m.token.isMark "[" = false := hm.isMark_eq_false (by decide)
  have hquote : m.token.isMark "\x60" = false := hm.isMark_eq_false (by decide)
  have hparen : m.token.isMark "(" = false := hm.isMark_eq_false (by decide)
  have hlink := hm.no_link
  change Ends (suffixes (grammar K) ctx true n) m Q
  unfold suffixes
  simp only [ends_ite, ends_bind, ends_pure, ends_acceptMark, ends_atMark, ends_atOptionalLink,
    hpoint, hbracket, hquote, hparen, hlink, Bool.false_eq_true, if_false, Bool.and_false]
  split <;> exact hQ

theorem operandsAfter_stop (hm : m.Follows operandEnds) (hL : m.token.tightness < L) (hK : 0 < K)
    (hQ : Q n m) : Ends (grammar K (.operandsAfter ctx L n)) m Q := by
  obtain ⟨K, rfl⟩ : ∃ k, K = k + 1 := ⟨K - 1, by omega⟩
  have hconnective := connective?_of_isAmong hm.token ctx
  change Ends (operandsAfter (grammar K) ctx L n) m Q
  unfold operandsAfter
  simp only [ends_ite, ends_pure, ends_bind, ends_current, hconnective]
  split
  · exact hQ
  · unfold Token.tightness at hL
    cases hop : connective? {} m.token with
    | none => simpa using hQ
    | some op =>
      rw [hop] at hL
      have htight : op.2 < L := hL
      simp [htight, hQ]

/-! ## From tighter to looser goals -/

variable {ts : List Token} {shows : Node → Prop}

theorem Starts.length_pos {first : Token → Bool} (h : Starts first ts) : 0 < ts.length := by
  obtain ⟨t, us, rfl, -⟩ := h
  exact Nat.succ_pos us.length

theorem Starts.token {first : Token → Bool} (h : Starts first ts) (hl : Spells ts P l) :
    first l.token = true := by
  obtain ⟨t, us, rfl, ht, -⟩ := h
  rw [hl.1]
  exact ht

theorem Token.isDisguised_of_startsValue {t : Token} (h : t.startsValue = true) (ctx : Context) :
    isDisguised ctx t = false := by
  cases t with
  | word w escaped =>
    simp only [startsValue, Bool.and_eq_true, Bool.not_eq_true'] at h
    simp [isDisguised, h.1.1]
  | _ => rfl

theorem Token.isMark_of_kind {kind : Token → Bool} {t : Token} (h : kind t = true) {text : String}
    (htext : kind (.mark text) = false) : t.isMark text = false := by
  cases t with
  | mark m =>
    cases hm : m == text with
    | false => exact hm
    | true =>
      rw [eq_of_beq hm] at h
      exact absurd (htext.symm.trans h) Bool.false_ne_true
  | _ => rfl

theorem Token.isWord_of_kind {kind : Token → Bool} {t : Token} (h : kind t = true) {name : String}
    (hname : ∀ escaped, kind (.word name escaped) = false) : t.isWord name = false := by
  cases t with
  | word w escaped =>
    cases hw : w == name with
    | false => exact hw
    | true =>
      rw [eq_of_beq hw] at h
      exact absurd ((hname escaped).symm.trans h) Bool.false_ne_true
  | _ => rfl

theorem AsOperand.asUnary (h : AsOperand strict ts shows) (hts : Starts Token.startsOperand ts) :
    AsUnary strict ts shows := by
  refine ⟨fun {ctx} {N} {l} {P} hctx hN hl hP => ?_⟩
  have hpos := hts.length_pos
  obtain ⟨N, rfl⟩ : ∃ k, N = k + 1 := ⟨N - 1, by omega⟩
  have hstart := hts.token hl
  simp only [Token.startsOperand, Bool.and_eq_true, Option.isNone_iff_eq_none] at hstart
  obtain ⟨⟨hvalue, hunary⟩, hupdate⟩ := hstart
  have hdisguised := Token.isDisguised_of_startsValue hvalue ctx
  have hawait : l.token.isWord "await" = false := Token.isWord_of_kind hvalue (by decide)
  change Ends (unary (grammar N) ctx) l _
  unfold unary
  simp only [ends_bind, ends_current, ends_guardThat, hdisguised, hunary, hupdate, hawait]
  refine ⟨rfl, ?_⟩
  unfold Grammar.updated
  simp only [Bool.false_eq_true, if_false, ends_bind, ends_current]
  refine h.reads hctx (by omega) hl (fun m hm => (hP m hm).mono (by decide)) ?_ ?_
  · intro _ m hm
    exact (hP m hm).isMark_eq_false (by decide)
  · intro K n m hK hn hm
    have hafter : updateOperator? m.token = none :=
      Token.eq_of_isAmong (hP m hm).token updateOperator? none (by decide)
    refine suffixes_stop ((hP m hm).mono (by decide)) (by omega) ?_
    simp only [hafter, ends_pure]
    exact ⟨hn, hm⟩

theorem AsUnary.asOperands (h : AsUnary strict ts shows) (hts : ts ≠ []) (precedence : Nat) :
    AsOperands strict ts precedence shows := by
  refine ⟨fun {ctx} {L} {N} {l} {P} {Q} hctx hL hN hl hP hQ => ?_⟩
  have hpos := List.length_pos_iff.2 hts
  obtain ⟨N, rfl⟩ : ∃ k, N = k + 1 := ⟨N - 1, by omega⟩
  change Ends (operands (grammar N) ctx L) l Q
  unfold operands
  rw [ends_bind]
  refine (h.reads hctx (by omega) hl fun m hm => (hP m hm).1).imp fun n m hm => ?_
  exact hQ N n m (by omega) hm.1 hm.2

theorem Lexeme.Follows.tightness_eq_zero (h : m.Follows valueEnds) : m.token.tightness = 0 :=
  Token.eq_of_isAmong h.token Token.tightness 0 (by decide)

theorem AsOperands.asValue {precedence : Nat} (h : AsOperands strict ts precedence shows)
    (hts : ts ≠ []) (hprecedence : 5 < precedence) : AsValue strict ts shows := by
  refine ⟨fun {ctx} {N} {l} {P} hctx hN hl hP => ?_⟩
  have hpos := List.length_pos_iff.2 hts
  obtain ⟨N, rfl⟩ : ∃ k, N = k + 1 := ⟨N - 1, by omega⟩
  change Ends (assignment (grammar N) ctx) l _
  unfold assignment
  simp only [hctx.generator, Bool.false_and, Bool.false_eq_true, if_false, ends_bind, ends_atWord]
  unfold Grammar.choice
  rw [ends_bind]
  have hlevel : 1 ≤ level precedence ∧ 0 < rightLevel precedence := by
    simp only [level, rightLevel]
    split <;> split <;> omega
  refine h.reads hctx hlevel.1 (by omega) hl (fun m hm => ⟨(hP m hm).mono (by decide), ?_⟩) ?_
  · rw [(hP m hm).tightness_eq_zero]
    exact hlevel.2
  · intro K n m hK hn hm
    have hassignment : assignmentOperator? m.token = none :=
      Token.eq_of_isAmong (hP m hm).token assignmentOperator? none (by decide)
    have hquestion : m.token.isMark "?" = false := (hP m hm).isMark_eq_false (by decide)
    refine operandsAfter_stop ((hP m hm).mono (by decide)) ?_ (by omega) ?_
    · rw [(hP m hm).tightness_eq_zero]
      exact Nat.one_pos
    · simp only [ends_ite, ends_pure, ends_bind, ends_acceptMark, ends_current, hquestion,
        hassignment, Bool.false_eq_true, if_false]
      split <;> exact ⟨hn, hm⟩

/-! ## Lists between brackets -/

theorem Spells.split {us : List Token} (h : Spells (ts ++ us) P l) (hts : ts ≠ []) :
    Spells ts (fun m => m.afterLineEnd = false ∧ Spells us P m) l := by
  induction ts generalizing l with
  | nil => exact absurd rfl hts
  | cons t ts ih =>
    obtain ⟨ht, hnext⟩ := h
    refine ⟨ht, hnext.imp fun m hm => ⟨hm.1, ?_⟩⟩
    cases ts with
    | nil => exact hm
    | cons t' ts => exact ih hm.2 (List.cons_ne_nil t' ts)

theorem Spells.head {t : Token} {us : List Token} (h : Spells (t :: us) P l) :
    Spells [t] (fun m => m.afterLineEnd = false ∧ Spells us P m) l :=
  ⟨h.1, h.2.imp fun _ hm => ⟨hm.1, hm⟩⟩

theorem Lexeme.follows_mark {marks : List String} {us : List Token} {text : String}
    (hm : m.afterLineEnd = false)
    (hspells : Spells (.mark text :: us) P m) (htext : marks.contains text = true)
    (hquestion : text ≠ "?") : m.Follows marks where
  sameLine := hm
  token := by
    rw [hspells.1]
    exact htext
  noChain h := by
    rw [hspells.1] at h
    cases h
    exact absurd rfl hquestion

theorem ends_elements {α : Type} {shows : α → Node → Prop} {closing : String} {holes : Bool}
    (hclosing : closing = ")" ∨ closing = "]") {rows : List (List Token)} {as : List α}
    (hrows : List.Forall₂ (fun ts a => Starts Token.startsValue ts ∧ AsValue strict ts (shows a))
      rows as)
    (hctx : ctx.Fits strict) (hN : 12 * (separated rows ++ [Token.mark closing]).length ≤ N)
    (hl : Spells (separated rows ++ [Token.mark closing]) P l) :
    Ends (grammar N (.elements ctx closing holes)) l fun r m =>
      (∃ ns, r.1 = ns.map Element.item ∧ List.Forall₂ shows as ns) ∧
        m.afterLineEnd = false ∧ P m := by
  induction hrows generalizing N l with
  | nil =>
    obtain ⟨N, rfl⟩ : ∃ k, N = k + 1 := ⟨N - 1, by simp [separated] at hN; omega⟩
    change Ends (elements (grammar N) ctx closing holes) l _
    obtain ⟨htoken, hnext⟩ := hl
    have hat : l.token.isMark closing = true := by simp [htoken, Token.isMark]
    unfold elements
    simp only [ends_bind, ends_acceptMark, hat, if_true, ends_pure]
    exact hnext.imp fun m hm => ⟨⟨[], rfl, .nil⟩, hm⟩
  | @cons ts a rows as hfirst hrest ih =>
    obtain ⟨hstarts, hvalue⟩ := hfirst
    have hts : ts ≠ [] := List.length_pos_iff.1 hstarts.length_pos
    -- what follows the value: the closing mark, or a comma and the values behind it
    obtain ⟨us, hus, hafter⟩ : ∃ us, separated (ts :: rows) ++ [Token.mark closing] = ts ++ us ∧
        (rows = [] ∧ us = [Token.mark closing] ∨
          rows ≠ [] ∧ us = .mark "," :: (separated rows ++ [Token.mark closing])) := by
      cases rows with
      | nil => exact ⟨_, rfl, .inl ⟨rfl, rfl⟩⟩
      | cons ts' rows =>
        exact ⟨_, by simp [separated], .inr ⟨List.cons_ne_nil ts' rows, rfl⟩⟩
    rw [hus] at hN hl
    have husLength : 1 ≤ us.length := by rcases hafter with ⟨-, rfl⟩ | ⟨-, rfl⟩ <;> simp
    rw [List.length_append] at hN
    obtain ⟨N, rfl⟩ : ∃ k, N = k + 1 := ⟨N - 1, by omega⟩
    change Ends (elements (grammar N) ctx closing holes) l _
    have hstart := hstarts.token (Spells.split hl hts)
    have hclose : l.token.isMark closing = false := by
      rcases hclosing with rfl | rfl <;> exact Token.isMark_of_kind hstart (by decide)
    have hcomma : l.token.isMark "," = false := Token.isMark_of_kind hstart (by decide)
    have hspread : l.token.isMark "..." = false := Token.isMark_of_kind hstart (by decide)
    unfold elements Grammar.value
    simp only [ends_bind, ends_acceptMark, ends_atMark, hclose, hcomma, hspread, ends_pure,
      Bool.false_eq_true, if_false]
    have hfollows : ∀ m, m.afterLineEnd = false ∧ Spells us P m → m.Follows valueEnds := by
      rintro m ⟨hm, hspells⟩
      rcases hafter with ⟨-, rfl⟩ | ⟨-, rfl⟩
      · rcases hclosing with rfl | rfl <;>
          exact Lexeme.follows_mark hm hspells (by decide) (by decide)
      · exact Lexeme.follows_mark hm hspells (by decide) (by decide)
    refine (hvalue.reads hctx.withIn (by omega) (Spells.split hl hts) hfollows).imp ?_
    rintro n m ⟨hn, hm, hspells⟩
    rcases hafter with ⟨rfl, rfl⟩ | ⟨hrows, rfl⟩
    · obtain ⟨hclosed, hnext⟩ := hspells
      have hcomma : m.token.isMark "," = false := by
        rcases hclosing with rfl | rfl <;> simp [hclosed, Token.isMark]
      have hclose : m.token.isMark closing = true := by simp [hclosed, Token.isMark]
      cases hrest
      simp only [ends_ite, ends_bind, ends_expectMark, ends_pure, hcomma, hclose,
        Bool.false_eq_true, if_false, true_and]
      exact hnext.imp fun k hk => ⟨⟨[n], rfl, .cons hn .nil⟩, hk⟩
    · obtain ⟨hcomma, hnext⟩ := hspells
      have hcomma : m.token.isMark "," = true := by simp [hcomma, Token.isMark]
      rw [List.length_cons] at hN
      simp only [ends_bind, ends_pure, hcomma, if_true]
      refine hnext.imp fun k hk => (ih (by omega) hk.2).imp ?_
      rintro ⟨elements, trailing⟩ k ⟨⟨ns, rfl, hns⟩, hk⟩
      exact ⟨⟨n :: ns, rfl, .cons hn hns⟩, hk⟩

theorem ends_arguments {α : Type} {shows : α → Node → Prop} {rows : List (List Token)} {as : List α}
    (hrows : List.Forall₂ (fun ts a => Starts Token.startsValue ts ∧ AsValue strict ts (shows a))
      rows as)
    (hctx : ctx.Fits strict) (hN : 12 * (separated rows ++ [Token.mark ")"]).length ≤ N)
    (hl : Spells (.mark "(" :: (separated rows ++ [.mark ")"])) P l) :
    Ends ((grammar N).arguments ctx) l fun r m =>
      (∃ ns, r = ns.map Element.item ∧ List.Forall₂ shows as ns) ∧ m.afterLineEnd = false ∧
        P m := by
  obtain ⟨hopen, hnext⟩ := hl
  have hopen : l.token.isMark "(" = true := by simp [hopen, Token.isMark]
  unfold Grammar.arguments
  simp only [ends_bind, ends_expectMark, hopen, true_and]
  refine hnext.imp fun m hm => (ends_elements (.inl rfl) hrows hctx hN hm.2).imp ?_
  rintro ⟨elements, trailing⟩ k hk
  exact ends_pure.2 hk

/-! ## Operands -/

theorem ends_atArrow {B : Bool → Lexeme → Prop} (hl : l.token.isMark "=>" = false) :
    Ends atArrow l B ↔ B false l := by
  simp [atArrow, hl]

theorem AsValue.group (h : AsValue strict ts shows) (hts : Starts Token.startsValue ts) :
    AsOperand strict (.mark "(" :: ts ++ [.mark ")"])
      fun n => ∃ s inner, n = .group s inner ∧ shows inner := by
  refine ⟨fun {ctx} {N} {l} {P} {Q} hctx hN hl hP _ hQ => ?_⟩
  simp only [List.length_append, List.length_cons] at hN
  obtain ⟨N, rfl⟩ : ∃ k, N = k + 1 := ⟨N - 1, by simp at hN; omega⟩
  have hopen : l.token = .mark "(" := hl.1
  change Ends (operand (grammar N) ctx) l Q
  unfold operand Grammar.primary
  simp only [ends_bind, ends_current, hopen]
  unfold Grammar.marked Grammar.groupOrArrow
  simp only [ends_bind, ends_current]
  have hrows : List.Forall₂
      (fun ts (_ : Unit) => Starts Token.startsValue ts ∧ AsValue strict ts shows)
      [ts] [()] := .cons ⟨hts, h⟩ .nil
  refine (ends_arguments hrows hctx (by simp [separated]; omega) hl).imp ?_
  rintro _ m ⟨⟨ns, rfl, hns⟩, hm, hPm⟩
  obtain ⟨n, rfl⟩ : ∃ n, ns = [n] := by
    cases hns with
    | cons hn hrest =>
      cases hrest
      exact ⟨_, rfl⟩
  cases hns with | cons hn _ =>
  have harrow : m.token.isMark "=>" = false := (hP m hPm).isMark_eq_false (by decide)
  simp only [ends_atArrow harrow, Bool.false_eq_true, if_false, ends_bind, ends_liftM]
  refine ⟨[n], rfl, ends_pure.2 (hQ N _ m ?_ ⟨_, n, rfl, hn⟩ hPm)⟩
  simp only [List.length_append, List.length_cons]
  omega

theorem ends_nameOrArrow {g : Grammar} {name : String} (hctx : ctx.Fits strict)
    (hname : isVariable strict name = true) (hl : l.token = .word name false)
    (hnext : l.Next P) (harrow : ∀ m, P m → m.token.isMark "=>" = false) :
    Ends (g.nameOrArrow ctx) l fun n m => (∃ s, n = .identifier s name) ∧ P m := by
  have hreference := referenceOf?_of_isVariable hctx hname
  unfold Grammar.nameOrArrow
  simp only [ends_bind, ends_current, hl, hreference, ends_advance]
  refine hnext.imp fun m hm => ?_
  rw [ends_atArrow (harrow m hm)]
  exact ends_pure.2 ⟨⟨_, rfl⟩, hm⟩

theorem optionalBindingOf?_of_isAmong {marks : List String} {t : Token}
    (h : t.isAmong marks = true) (ctx : Context) : optionalBindingOf? ctx t = none := by
  cases t with
  | mark m => rfl
  | finish => rfl
  | _ => cases h

/-- A variable is an operand. The word `async` before a parenthesis is read as a call at once. -/
theorem asOperand_name {name : String} (hname : isVariable strict name = true) :
    AsOperand strict [.word name false] fun n => ∃ s, n = .identifier s name := by
  refine ⟨fun {ctx} {N} {l} {P} {Q} hctx hN hl hP hasync hQ => ?_⟩
  simp only [List.length_singleton] at hN hQ
  obtain ⟨N, rfl⟩ : ∃ k, N = k + 1 := ⟨N - 1, by omega⟩
  obtain ⟨htoken, hnext⟩ := hl
  have hfollows : ∀ m, (m.afterLineEnd = false ∧ P m) → m.token.isMark "=>" = false :=
    fun m hm => (hP m hm.2).isMark_eq_false (by decide)
  have hread := ends_nameOrArrow (g := grammar N) hctx hname htoken hnext hfollows
  have hsuffixes : ∀ {p : Parse Node},
      (Ends p l fun n m => (∃ s, n = .identifier s name) ∧ m.afterLineEnd = false ∧ P m) →
      Ends p l fun n m => Ends (grammar N (.suffixes ctx true n)) m Q :=
    fun h => h.imp fun n m hn => hQ N n m (by omega) hn.1 hn.2.2
  change Ends (operand (grammar N) ctx) l Q
  unfold operand Grammar.primary
  simp only [ends_bind, ends_current, htoken]
  refine hsuffixes ?_
  unfold Grammar.keyword
  split
  case h_10 =>
    obtain ⟨m, hm, hmP⟩ := hnext
    have hfollow := hP m hmP.2
    have hword : m.token.isWord "function" = false :=
      Token.eq_of_isAmong hfollow.token (·.isWord "function") false (by decide)
    have hparen := hasync rfl m hmP.2
    have hbinding := optionalBindingOf?_of_isAmong hfollow.token ctx
    unfold Grammar.async
    simp only [ends_bind, ends_current, ends_next?, hm, hfollow.sameLine, hword, hparen, hbinding]
    exact hread
  case h_11 => exact hread
  all_goals exact absurd hname (by simp [isVariable, keywords])

theorem asOperand_token {t : Token}
    (h : ∀ {g : Grammar} {ctx : Context} {l : Lexeme} {P : Lexeme → Prop}, ctx.Fits strict →
      l.token = t → l.Next P → Ends (g.primary ctx) l fun n m => shows n ∧ P m) :
    AsOperand strict [t] shows := by
  refine ⟨fun {ctx} {N} {l} {P} {Q} hctx hN hl _ _ hQ => ?_⟩
  simp only [List.length_singleton] at hN hQ
  obtain ⟨N, rfl⟩ : ∃ k, N = k + 1 := ⟨N - 1, by omega⟩
  change Ends (operand (grammar N) ctx) l Q
  unfold operand
  rw [ends_bind]
  exact (h hctx hl.1 hl.2).imp fun n m hn => hQ N n m (by omega) hn.1 hn.2.2

theorem AsOperand.imp {shows' : Node → Prop} (h : AsOperand strict ts shows)
    (hshows : ∀ n, shows n → shows' n) : AsOperand strict ts shows' :=
  ⟨fun hctx hN hl hP hasync hQ => h.reads hctx hN hl hP hasync
    fun K n m hK hn hm => hQ K n m hK (hshows n hn) hm⟩

section

variable {ν : Type} [Numeric ν]

theorem asOperand_number {x : ν} (hx : Numeric.ReadsBack x) :
    AsOperand strict [(Literal.number x).token] fun n => n.lower = .ok (.literal (.number x)) := by
  have htoken : ∀ t count, token? (Numeric.text x).toList = some ⟨t, [], count⟩ →
      (Literal.number x).token = t := by
    intro t count h
    simp [Literal.token, h]
  obtain ⟨-, ⟨d, count, hread, hvalue⟩ | ⟨htext, hvalue⟩ | ⟨htext, hvalue⟩⟩ := hx
  · rw [htoken _ _ hread, ← hvalue]
    refine asOperand_token fun _ hl hnext => ?_
    unfold Grammar.primary
    simp only [ends_bind, ends_current, hl, Bool.false_and, Bool.not_false, ends_guardThat,
      ends_advance, ends_pure, true_and]
    exact hnext.imp fun m hm => ⟨rfl, hm⟩
  · rw [htoken (.word "NaN" false) 3 (by rw [htext]; rfl), ← hvalue]
    refine (asOperand_name (by cases strict <;> decide)).imp ?_
    rintro _ ⟨s, rfl⟩
    rfl
  · rw [htoken (.word "Infinity" false) 8 (by rw [htext]; rfl), ← hvalue]
    refine (asOperand_name (by cases strict <;> decide)).imp ?_
    rintro _ ⟨s, rfl⟩
    rfl

theorem asOperand_literal : ∀ {x : Literal ν}, x.IsWritten →
    AsOperand strict [x.token] fun n => n.lower = .ok (Expression.literal x)
  | .number x, h => asOperand_number h
  | .undefined, _ => by
    refine (asOperand_name (by cases strict <;> decide)).imp ?_
    rintro _ ⟨s, rfl⟩
    rfl
  | .null, _ | .boolean true, _ | .boolean false, _ | .string s, _ => by
    refine asOperand_token fun _ hl hnext => ?_
    unfold Grammar.primary
    simp only [ends_bind, ends_current, hl, Literal.token, Grammar.keyword, Bool.false_and,
      Bool.not_false, ends_guardThat, ends_advance, ends_pure, true_and]
    exact hnext.imp fun m hm => ⟨rfl, hm⟩

theorem mathMember?_name {b : Builtin} (h : b.isMath = true) :
    mathMember? b.name = some (.builtin b : Expression ν) := by
  have hb : Builtin.ofMathName? b.name = some b := by cases b <;> first | rfl | cases h
  simp [mathMember?, hb]

theorem asOperand_builtin {b : Builtin} (h : b.isMath = true) :
    AsOperand strict [.word "Math" false, .mark ".", .word b.name false] fun n =>
      n.lower = .ok (Expression.builtin b : Expression ν) := by
  refine ⟨fun {ctx N l P Q} hctx hN hl hP _ hQ => ?_⟩
  simp only [List.length_cons, List.length_nil] at hN hQ
  obtain ⟨N, rfl⟩ : ∃ k, N = k + 2 := ⟨N - 2, by omega⟩
  obtain ⟨htoken, hnext⟩ := hl
  have hmath : isVariable strict "Math" = true := by cases strict <;> decide
  have harrow : ∀ m, (m.afterLineEnd = false ∧ Spells [.mark ".", .word b.name false] P m) →
      m.token.isMark "=>" = false := by
    rintro m ⟨-, hpoint, -⟩
    simp [hpoint, Token.isMark]
  have hread := ends_nameOrArrow (g := grammar (N + 1)) hctx hmath htoken hnext harrow
  change Ends (operand (grammar (N + 1)) ctx) l Q
  unfold operand Grammar.primary
  simp only [ends_bind, ends_current, htoken, Grammar.keyword]
  refine hread.imp ?_
  rintro _ m ⟨⟨s, rfl⟩, hm, hpoint, hnext⟩
  have hpoint : m.token.isMark "." = true := by simp [hpoint, Token.isMark]
  change Ends (suffixes (grammar N) ctx true (.identifier s "Math")) m Q
  unfold suffixes fieldName
  simp only [ends_ite, ends_bind, ends_acceptMark, hpoint, if_true, Node.isArrow,
    Bool.false_eq_true, if_false]
  refine hnext.imp ?_
  rintro k ⟨hk, hname, hnext⟩
  simp only [ends_bind, ends_atMark, ends_current, hname, Token.isMark, wordOf?_word, ends_advance,
    ends_pure]
  refine hnext.imp fun k' hk' => hQ N _ k' (by omega) ?_ hk'.2
  simp only [Node.isOptionalChain, Bool.false_eq_true, if_false, Node.lower, namedMember,
    mathMember?_name h]
  rfl

/-! ## Suffixes -/

theorem AsValue.expression (h : AsValue strict ts shows) (hts : 0 < ts.length)
    (hctx : ctx.Fits strict) (hN : 12 * ts.length ≤ N) (hl : Spells ts P l)
    (hP : ∀ m, P m → m.Follows valueEnds ∧ m.token.isMark "," = false) :
    Ends (grammar N (.expression ctx)) l fun n m => shows n ∧ P m := by
  obtain ⟨N, rfl⟩ : ∃ k, N = k + 1 := ⟨N - 1, by omega⟩
  change Ends (expression (grammar N) ctx) l _
  unfold expression
  rw [ends_bind]
  refine (h.reads hctx (by omega) hl fun m hm => (hP m hm).1).imp fun n m hn => ?_
  simp only [ends_bind, ends_acceptMark, (hP m hn.2).2, Bool.false_eq_true, if_false, ends_pure]
  exact hn

theorem AsValue.before_mark (h : AsValue strict ts shows) (hts : 0 < ts.length)
    (hctx : ctx.Fits strict) (hN : 12 * ts.length ≤ N) {us : List Token} {text : String}
    (htext : text ∈ [")", "]", ";"]) (hl : Spells (ts ++ .mark text :: us) P l) :
    Ends ((grammar N).wholeExpression ctx) l fun n m => shows n ∧
      m.token.isMark text = true ∧ m.Next fun k => k.afterLineEnd = false ∧ Spells us P k := by
  refine (h.expression hts hctx.withIn hN (Spells.split hl (List.length_pos_iff.1 hts)) ?_).imp ?_
  · rintro m ⟨hm, hspells⟩
    have hall : ∀ t ∈ [")", "]", ";"], valueEnds.contains t = true ∧ t ≠ "?" ∧
        (Token.mark t).isMark "," = false := by decide
    obtain ⟨hvalue, hquestion, hcomma⟩ := hall text htext
    exact ⟨Lexeme.follows_mark hm hspells hvalue hquestion, by rw [hspells.1]; exact hcomma⟩
  · rintro n m ⟨hn, hm, htoken, hnext⟩
    exact ⟨hn, by simp [htoken, Token.isMark], hnext⟩

variable {object callee property : Expression ν} {p : Nat} {us : List Token}

theorem AsOperand.member (h : AsOperand strict us (·.Shows object p)) (hp : 18 < p)
    (hus : 0 < us.length) (hproperty : AsValue strict ts (·.lower = .ok property))
    (hts : Starts Token.startsValue ts) :
    AsOperand strict (us ++ .mark "[" :: ts ++ [.mark "]"])
      (·.lower = .ok (.member object property)) := by
  refine ⟨fun {ctx N l P Q} hctx hN hl hP _ hQ => ?_⟩
  simp only [List.length_append, List.length_cons, List.length_nil] at hN hQ
  rw [List.append_assoc] at hl
  refine h.reads hctx (by omega) (Spells.split hl (List.length_pos_iff.1 hus)) ?_ ?_ ?_
  · rintro m ⟨hm, hspells⟩
    exact Lexeme.follows_mark hm hspells (by decide) (by decide)
  · rintro - m ⟨-, hbracket, -⟩
    simp [hbracket, Token.isMark]
  · rintro K n m hK hn ⟨hm, hbracket, hnext⟩
    obtain ⟨K, rfl⟩ : ∃ k, K = k + 1 := ⟨K - 1, by omega⟩
    have hpoint : m.token.isMark "." = false := by simp [hbracket, Token.isMark]
    have hbracket : m.token.isMark "[" = true := by simp [hbracket, Token.isMark]
    have harrow := hn.arrow (by omega)
    have hchain := Node.isOptionalChain_of_lower hn.lower
    change Ends (suffixes (grammar K) ctx true n) m Q
    unfold suffixes
    simp only [ends_ite, ends_bind, ends_acceptMark, ends_expectMark, hpoint, hbracket, harrow,
      if_true, Bool.false_eq_true, if_false]
    refine hnext.imp fun k hk => ?_
    refine (hproperty.before_mark hts.length_pos hctx (by omega) (by decide) hk.2).imp ?_
    rintro q k ⟨hq, hclose, hnext⟩
    refine ⟨hclose, hnext.imp fun k' hk' => hQ K _ k' (by omega) ?_ hk'.2⟩
    simp only [hchain, Bool.false_eq_true, if_false, Node.lower, lowered_bind]
    exact ⟨object, hn.lower, property, hq, rfl⟩

theorem lowerElements_items {reason : Reason} {start : Nat} {es : List (Expression ν)}
    {ns : List Node}
    (h : List.Forall₂ (fun e n => n.lower = .ok e) es ns) :
    lowerElements reason start (ns.map .item) = .ok es := by
  induction h with
  | nil => rfl
  | cons hfirst _ ih =>
    simp only [List.map_cons, lowerElements, lowered_bind]
    exact ⟨_, hfirst, _, ih, rfl⟩

theorem asOperand_array {rows : List (List Token)} {items : List (Expression ν)}
    (hrows : List.Forall₂ (fun ts e => Starts Token.startsValue ts ∧
      AsValue strict ts (·.lower = .ok e)) rows items) :
    AsOperand strict (.mark "[" :: separated rows ++ [.mark "]"])
      (·.lower = .ok (.array items)) := by
  refine ⟨fun {ctx N l P Q} hctx hN hl _ _ hQ => ?_⟩
  simp only [List.length_append, List.length_cons, List.length_nil] at hN hQ
  obtain ⟨N, rfl⟩ : ∃ k, N = k + 1 := ⟨N - 1, by omega⟩
  obtain ⟨hopen, hnext⟩ := hl
  change Ends (operand (grammar N) ctx) l Q
  unfold operand Grammar.primary
  simp only [ends_bind, ends_current, hopen, Grammar.marked, ends_advance]
  refine hnext.imp fun m hm => ?_
  refine (ends_elements (.inr rfl) hrows hctx ?_ hm.2).imp ?_
  · simp only [List.length_append, List.length_cons, List.length_nil]
    omega
  · rintro ⟨_, trailing⟩ k ⟨⟨ns, rfl, hns⟩, hk⟩
    refine ends_pure.2 (hQ N _ k (by omega) ?_ hk.2)
    simp only [Node.lower, lowered_bind]
    exact ⟨items, lowerElements_items hns, rfl⟩

theorem AsOperand.call {rows : List (List Token)} {arguments : List (Expression ν)}
    (h : AsOperand strict us (·.Shows callee p)) (hp : 18 < p) (hus : 0 < us.length)
    (hasync : us ≠ [.word "async" false])
    (hrows : List.Forall₂ (fun ts e => Starts Token.startsValue ts ∧
      AsValue strict ts (·.lower = .ok e)) rows arguments) :
    AsOperand strict (us ++ .mark "(" :: separated rows ++ [.mark ")"])
      (·.lower = .ok (.call callee arguments)) := by
  refine ⟨fun {ctx N l P Q} hctx hN hl hP _ hQ => ?_⟩
  simp only [List.length_append, List.length_cons, List.length_nil] at hN hQ
  rw [List.append_assoc] at hl
  refine h.reads hctx (by omega) (Spells.split hl (List.length_pos_iff.1 hus)) ?_ ?_ ?_
  · rintro m ⟨hm, hspells⟩
    exact Lexeme.follows_mark hm hspells (by decide) (by decide)
  · exact fun h => absurd h hasync
  · rintro K n m hK hn ⟨hm, hspells⟩
    obtain ⟨K, rfl⟩ : ∃ k, K = k + 1 := ⟨K - 1, by omega⟩
    have hopen : m.token = .mark "(" := hspells.1
    have hpoint : m.token.isMark "." = false := by simp [hopen, Token.isMark]
    have hbracket : m.token.isMark "[" = false := by simp [hopen, Token.isMark]
    have hquote : m.token.isMark "`" = false := by simp [hopen, Token.isMark]
    have hquestion : m.token.isMark "?" = false := by simp [hopen, Token.isMark]
    have hopen : m.token.isMark "(" = true := by simp [hopen, Token.isMark]
    have harrow := hn.arrow (by omega)
    have hchain := Node.isOptionalChain_of_lower hn.lower
    change Ends (suffixes (grammar K) ctx true n) m Q
    unfold suffixes
    simp only [ends_ite, ends_bind, ends_acceptMark, ends_atMark, ends_atOptionalLink, hpoint,
      hbracket, hquote, hquestion, hopen, harrow, Bool.false_and, Bool.true_and, if_true,
      Bool.false_eq_true, if_false]
    refine (ends_arguments hrows hctx ?_ hspells).imp ?_
    · simp only [List.length_append, List.length_cons, List.length_nil]
      omega
    · rintro _ k ⟨⟨ns, rfl, hns⟩, hk⟩
      refine hQ K _ k (by omega) ?_ hk.2
      simp only [hchain, Bool.false_eq_true, if_false, Node.lower, lowered_bind]
      exact ⟨callee, hn.lower, arguments, lowerElements_items hns, rfl⟩

theorem asOperand_call_async {rows : List (List Token)} {arguments : List (Expression ν)}
    (hrows : List.Forall₂ (fun ts e => Starts Token.startsValue ts ∧
      AsValue strict ts (·.lower = .ok e)) rows arguments) :
    AsOperand strict (.word "async" false :: .mark "(" :: separated rows ++ [.mark ")"])
      (·.lower = .ok (.call (.identifier "async") arguments)) := by
  refine ⟨fun {ctx N l P Q} hctx hN hl hP _ hQ => ?_⟩
  simp only [List.length_append, List.length_cons, List.length_nil] at hN hQ
  obtain ⟨N, rfl⟩ : ∃ k, N = k + 1 := ⟨N - 1, by omega⟩
  obtain ⟨hasync, m, hm, hline, hspells⟩ := hl
  have hopen : m.token = .mark "(" := hspells.1
  have hword : m.token.isWord "function" = false := by simp [hopen, Token.isWord]
  have hopen : m.token.isMark "(" = true := by simp [hopen, Token.isMark]
  change Ends (operand (grammar N) ctx) l Q
  unfold operand Grammar.primary
  simp only [ends_bind, ends_current, hasync, Grammar.keyword, Grammar.async, ends_next?, hm]
  simp only [ends_ite, hline, hword, hopen, Bool.false_eq_true, if_false, if_true, ends_bind,
    ends_advance]
  refine ⟨m, hm, (ends_arguments hrows hctx ?_ hspells).imp ?_⟩
  · simp only [List.length_append, List.length_cons, List.length_nil]
    omega
  · rintro _ k ⟨⟨ns, rfl, hns⟩, hk⟩
    have harrow : k.token.isMark "=>" = false := (hP k hk.2).isMark_eq_false (by decide)
    rw [ends_atArrow harrow]
    refine ends_pure.2 (hQ N _ k (by omega) ?_ hk.2)
    simp only [Node.lower, lowered_bind]
    exact ⟨_, rfl, arguments, lowerElements_items hns, rfl⟩

end

end Source

end Waveform
