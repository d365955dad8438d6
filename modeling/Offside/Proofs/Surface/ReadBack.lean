/-
  Offside/Proofs/Surface/ReadBack.lean
  ====================================
  **Reading what has been written.**  The pieces of an expression are a phrase for it, so
  that they are read back whatever follows.  The lines of a statement are read back up to
  the lines behind them, which must not be those of an `elif` or `else` at the same level
  (`Follows`); every block ends in the closing that the next line or the end of the text
  brings.

  A conditional is written with the word that leads it, and is read by the same reader
  whichever word this is; so one statement about it serves for `if` and for `elif`.
-/
import Offside.Proofs.Surface.Print

namespace Offside.Surface

open Token Number

/-! ### Expressions -/

@[simp] theorem spellingsOf_spaced (ps qs : List Piece) :
    spellingsOf (spaced ps qs) = spellingsOf ps ++ spellingsOf qs := by
  rw [spaced, spellingsOf_append]
  rfl

@[simp] theorem spellingsOf_applied (ps qs : List Piece) :
    spellingsOf (applied ps qs) =
      spellingsOf ps ++ ⟨.openParen, "("⟩ :: (spellingsOf qs ++ [⟨.closeParen, ")"⟩]) := by
  rw [applied, spellingsOf_append]
  show _ ++ (⟨.openParen, "("⟩ : Spelling) :: spellingsOf (qs ++ [.fixed .closeParen]) = _
  rw [spellingsOf_append]
  rfl

theorem Phrase.parens {ps : List Piece} {e : Expr} (n : Nat)
    (h : Phrase Strength.lowest.rank (spellingsOf ps) e) :
    Phrase n (spellingsOf (applied [] ps)) e := by
  rw [spellingsOf_applied]
  exact .group n _ _ h

/-- An operator of the given rank between its operands, for the floor `n`. -/
theorem Phrase.grouped {rank n : Nat} {ps : List Piece} {e : Expr}
    (hrank : Strength.lowest.rank < rank) (h : ∀ m, m < rank → Phrase m (spellingsOf ps) e) :
    Phrase n (spellingsOf (grouped (rank ≤ n) ps)) e := by
  rw [Surface.grouped]
  split
  · exact (h _ hrank).parens n
  next hlt => exact h n (by simpa using hlt)

theorem phrase_number (value : Int32) (span : Span) {n : Nat} (hn : n < Strength.call.rank) :
    Phrase n (spellingsOf ((Expr.number value span).pieces n)) (.number value .nowhere) := by
  have hmin : Int32.minValue.toInt ≤ value.toInt := value.minValue_le_toInt
  have hmax : value.toInt ≤ Int32.maxValue.toInt := value.toInt_le
  rw [Expr.pieces]
  split
  next hneg =>
    have hmagnitude : ((value.toInt.natAbs : Nat) : Int) ≤ -Int32.minValue.toInt := by omega
    have hvalue : negated (value.toInt.natAbs : Int) = value := by
      rw [negated, show -(value.toInt.natAbs : Int) = value.toInt by omega, Int32.ofInt_toInt]
    have hread : negatedMagnitude .nowhere
        ⟨.integer, String.ofList (Nat.toDigits 10 value.toInt.natAbs), .nowhere⟩ =
        .ok (value.toInt.natAbs : Int) := by
      rw [negatedMagnitude, String.toList_ofList,
        afterHexMark?_of_isDigit fun _ => isDigit_of_mem_toDigits, magnitude?_toDigits hmagnitude]
      rfl
    have hphrase := Phrase.negative (n := n) "-" hn hread
    rwa [hvalue] at hphrase
  next hpos =>
    have habs : ((value.toInt.natAbs : Nat) : Int) = value.toInt := by omega
    have hnumber := integer?_toDigits (n := value.toInt.natAbs) (by omega)
    rw [habs, Int32.ofInt_toInt] at hnumber
    exact .number n hnumber

theorem phrase_float {value : Binary64} (hfinite : value.isFinite = true) (span : Span) {n : Nat}
    (hn : n < Strength.call.rank) :
    Phrase n (spellingsOf ((Expr.float value span).pieces n)) (.float value .nowhere) := by
  rw [Expr.pieces]
  split
  next hneg =>
    have hread := Binary64.ofText?_exactText (Binary64.bits_neg_lt hfinite hneg)
    have hphrase := Phrase.minus (n := n) "-" hn (by simp) (.float Strength.unary.rank hread)
    rwa [negation, Binary64.neg_neg] at hphrase
  next hpos =>
    exact .float n (Binary64.ofText?_exactText
      (Binary64.bits_lt hfinite (Bool.not_eq_true _ ▸ hpos)))

theorem phrase_char (value : Char) (span : Span) {n : Nat} (hn : n < Strength.call.rank) :
    Phrase n (spellingsOf ((Expr.char value span).pieces n)) (.char value .nowhere) := by
  have hphrase := Phrase.ord (n := n) (String.ofList [value]) "(" ")" hn (.name ordName)
  rw [String.toList_ofList] at hphrase
  rw [Expr.pieces, spellingsOf_applied]
  exact hphrase

/-- The spellings of an operator between its operands. -/
theorem spellingsOf_operator (left right : List Piece) (kind : Kind) :
    spellingsOf (spaced left (spaced [.fixed kind] right)) =
      spellingsOf left ++ ⟨kind, String.ofList (fixedText kind)⟩ :: spellingsOf right := by
  rw [spellingsOf_spaced, spellingsOf_spaced]
  rfl

theorem Expr.pieces_of_isNamed {e : Expr} (h : e.isNamed = true) (n m : Nat) :
    e.pieces n = e.pieces m := by
  cases e with
  | symbol | call => rw [Expr.pieces, Expr.pieces]
  | number | float | char | binary | compare | logic | negate => cases h

theorem Expr.nextKind_of_isNamed {e : Expr} (h : e.isNamed = true) (n : Nat) :
    nextKind (spellingsOf (e.pieces n)) = .identifier := by
  cases e with
  | symbol | call =>
    rw [Expr.pieces]
    rfl
  | number | float | char | binary | compare | logic | negate => cases h

/-- A minus sign before an operand that is neither an integer nor a float. -/
theorem phrase_negate {operand : Expr} (hfloat : operand.isFloat = false) {n : Nat}
    (hn : n < Strength.call.rank)
    (h : ∀ m, m < Strength.call.rank → Phrase m (spellingsOf (operand.pieces m)) operand.bare) :
    Phrase n (spellingsOf (.fixed .dash ::
      grouped (!operand.isNamed) (operand.pieces Strength.lowest.rank)))
      (.negate operand.bare .nowhere) := by
  have hnegate : Expr.negate operand.bare .nowhere = negation operand.bare .nowhere := by
    cases operand <;> first | rfl | cases hfloat
  rw [hnegate]
  cases hnamed : operand.isNamed with
  | true =>
    -- a name or a call is written alike for every floor
    have hoperand := h Strength.unary.rank (by decide)
    rw [operand.pieces_of_isNamed hnamed _ Strength.lowest.rank] at hoperand
    have hfirst : nextKind (spellingsOf (operand.pieces Strength.lowest.rank)) ≠ .integer := by
      rw [operand.nextKind_of_isNamed hnamed]
      decide
    exact .minus _ hn hfirst hoperand
  | false =>
    have hoperand := (h Strength.lowest.rank (by decide)).parens Strength.unary.rank
    exact .minus _ hn Kind.noConfusion hoperand

mutual

theorem Expr.phrase (e : Expr) (h : e.isPrintable = true) {n : Nat}
    (hn : n < Strength.call.rank) : Phrase n (spellingsOf (e.pieces n)) e.bare := by
  cases e with
  | number value span => exact phrase_number value span hn
  | float value span =>
    rw [Expr.isPrintable] at h
    exact phrase_float h span hn
  | char value span => exact phrase_char value span hn
  | symbol name _ => exact .symbol n name
  | binary op left right _ =>
    rw [Expr.isPrintable, Bool.and_eq_true] at h
    have hleft := left.phrase h.1 (n := op.strength.rank - 1) (by cases op <;> decide)
    have hright := right.phrase h.2 (n := op.strength.rank) (by cases op <;> decide)
    rw [Expr.pieces, Expr.bare]
    apply Phrase.grouped (by cases op <;> decide)
    intro m hm
    rw [spellingsOf_operator]
    exact .binary op _ hm hleft hright
  | compare op left right _ =>
    rw [Expr.isPrintable, Bool.and_eq_true] at h
    have hleft := left.phrase h.1 (n := Strength.relational.rank) (by decide)
    have hright := right.phrase h.2 (n := Strength.relational.rank) (by decide)
    rw [Expr.pieces, Expr.bare]
    apply Phrase.grouped (by decide)
    intro m hm
    rw [spellingsOf_operator]
    exact .compare op _ hm hleft hright
  | logic op left right _ =>
    rw [Expr.isPrintable, Bool.and_eq_true] at h
    have hleft := left.phrase h.1 (n := op.strength.rank - 1) (by cases op <;> decide)
    have hright := right.phrase h.2 (n := op.strength.rank) (by cases op <;> decide)
    rw [Expr.pieces, Expr.bare]
    apply Phrase.grouped (by cases op <;> decide)
    intro m hm
    rw [spellingsOf_operator]
    exact .logic op _ hm hleft hright
  | negate operand _ =>
    rw [Expr.isPrintable, Bool.and_eq_true, Bool.not_eq_true'] at h
    rw [Expr.pieces, Expr.bare]
    exact phrase_negate h.1 hn fun m hm => operand.phrase h.2 hm
  | call callee arguments _ =>
    rw [Expr.isPrintable, Bool.and_eq_true] at h
    rw [Expr.pieces, Expr.bare, spellingsOf_applied]
    exact .call _ _ hn (.name callee) (arguments_phrases arguments h.2)

theorem arguments_phrases (es : List Expr) (h : printableExprs es = true) :
    Phrases (spellingsOf (listed (argumentPieces es))) (bareExprs es) := by
  match es with
  | [] => exact .nil
  | [e] =>
    rw [printableExprs, Bool.and_eq_true] at h
    exact .last (e.phrase h.1 (by decide))
  | e :: e' :: es =>
    rw [printableExprs, Bool.and_eq_true] at h
    have hrest := arguments_phrases (e' :: es) h.2
    rw [argumentPieces, argumentPieces, listed, spellingsOf_spaced, spellingsOf_append,
      List.append_assoc, bareExprs]
    exact .cons _ (e.phrase h.1 (by decide)) hrest

end

/-! ### Lines and what follows them -/

/-- Holds for the lines that may follow a statement at the given level: they do not go
    further in, and they do not go on with a conditional. -/
structure Follows (level : Nat) (more : List Line) : Prop where
  within : ∀ l ∈ more.head?, l.level ≤ level
  apart : nextKind (layout level more) ≠ .elifWord ∧ nextKind (layout level more) ≠ .elseWord

/-- The first token of a statement, which is `lead` if it is a conditional. -/
def Stmt.firstKind : Stmt → (lead : Kind) → Kind
  | .assign _ _ _, _ | .perform _ _, _ => .identifier
  | .ifThen _ _ _, lead | .ifElse _ _ _ _, lead => lead
  | .whileDo _ _ _, _ => .whileWord
  | .ret _ _, _ => .returnWord
  | .pass _, _ => .passWord
  | .brk _, _ => .breakWord
  | .cont _, _ => .continueWord

/-- Holds if the lines of a statement are read back before all lines that may follow. -/
structure Stmt.ReadsBack (chained : Bool) (s : Stmt) : Prop where
  starts : ∀ lead level, ∃ ps ls, s.lines chained lead level = ⟨level, ps⟩ :: ls ∧
    ∃ v w, spellingsOf ps = ⟨s.firstKind lead, v⟩ :: w
  alone : ∀ ⦃level : Nat⦄ ⦃more : List Line⦄ ⦃c : Cursor⦄, Follows level more →
    c.spellings = layout level (s.lines chained .ifWord level ++ more) →
    (stmt .standard c).Gives (·.bare = s.bare) (layout level more)
  led : s.isConditional = true → ∀ ⦃lead : Kind⦄ ⦃level : Nat⦄ ⦃more : List Line⦄ ⦃c : Cursor⦄,
    Follows level more → c.spellings = layout level (s.lines chained lead level ++ more) →
    (ifStmt .standard c).Gives (·.bare = s.bare) (layout level more)

section

variable {chained : Bool} {level : Nat} {more : List Line} {c : Cursor}

theorem follows_of_lt (h : ∀ l ∈ more.head?, l.level ≤ level) : Follows (level + 1) more := by
  constructor
  · intro l hl
    exact Nat.le_succ_of_le (h l hl)
  · rw [layout_dedent h]
    exact ⟨Kind.noConfusion, Kind.noConfusion⟩

/-- The first line of a statement is at its level. -/
theorem Stmt.ReadsBack.nextKind_eq {s : Stmt} (h : s.ReadsBack chained) (lead : Kind) :
    nextKind (layout level (s.lines chained lead level ++ more)) = s.firstKind lead := by
  obtain ⟨ps, ls, hlines, v, w, hps⟩ := h.starts lead level
  rw [hlines, List.cons_append, layout_level, hps]
  rfl

theorem Stmt.ReadsBack.head_level {s : Stmt} (h : s.ReadsBack chained) {lead : Kind} {l : Line}
    (hl : l ∈ (s.lines chained lead level ++ more).head?) : l.level = level := by
  obtain ⟨ps, ls, hlines, -⟩ := h.starts lead level
  rw [hlines] at hl
  cases hl
  rfl

theorem Stmt.firstKind_notMem (s : Stmt) :
    s.firstKind .ifWord ∉ [.elifWord, .elseWord, .dedent, .eof] := by
  cases s <;> exact of_decide_eq_true rfl

theorem follows_stmtLines {ss : List Stmt} (h : ∀ s ∈ ss, s.ReadsBack chained)
    (hmore : Follows level more) : Follows level (stmtLines chained ss .ifWord level ++ more) := by
  cases ss with
  | nil => exact hmore
  | cons s ss =>
    have hs := h s List.mem_cons_self
    have hfirst := s.firstKind_notMem
    rw [stmtLines, List.append_assoc]
    constructor
    · intro l hl
      exact Nat.le_of_eq (hs.head_level hl)
    · rw [hs.nextKind_eq]
      exact ⟨fun heq => hfirst (by simp [heq]), fun heq => hfirst (by simp [heq])⟩

/-! ### Blocks -/

theorem stmts_gives {ss : List Stmt} (h : ∀ s ∈ ss, s.ReadsBack chained)
    (hmore : ∀ l ∈ more.head?, l.level ≤ level)
    (hc : c.spellings = layout (level + 1) (stmtLines chained ss .ifWord (level + 1) ++ more)) :
    (stmts .standard c).Gives (bareStmts · = bareStmts ss) (layout (level + 1) more) := by
  induction ss generalizing c with
  | nil =>
    -- the next line is further out, or there is none: the closing of the block comes first
    have hdedent : c.kind = .dedent := by
      rw [stmtLines, List.nil_append, layout_dedent hmore] at hc
      exact Cursor.kind_of hc
    rw [stmts, dif_pos (.inl hdedent)]
    exact Reading.gives_pure rfl hc
  | cons s ss ih =>
    have hs := h s List.mem_cons_self
    have hss : ∀ s' ∈ ss, s'.ReadsBack chained := fun s' hs' => h s' (List.mem_cons_of_mem s hs')
    have hfirst := s.firstKind_notMem
    rw [stmtLines, List.append_assoc] at hc
    have hkind : ¬ (c.kind = .dedent ∨ c.kind = .eof) := by
      rw [Cursor.kind_eq, hc, hs.nextKind_eq]
      rintro (heq | heq)
      · exact hfirst (by simp [heq])
      · exact hfirst (by simp [heq])
    rw [stmts, dif_neg hkind]
    refine ((hs.alone (follows_stmtLines hss (follows_of_lt hmore)) hc).andThen ?_).weaken _
    intro s' c₁ _ hs' hc₁
    refine (ih hss hc₁).andThen ?_
    intro ss' c₂ _ hss' hc₂
    apply Reading.gives_pure _ hc₂
    rw [bareStmts, bareStmts, hs', hss']

/-- A block is read back from its colon on. -/
theorem block_gives {b : Block Stmt} (hne : b.body ≠ []) (h : ∀ s ∈ b.body, s.ReadsBack chained)
    (hmore : ∀ l ∈ more.head?, l.level ≤ level) {v v' : String}
    (hc : c.spellings = ⟨.colon, v⟩ :: ⟨.newline, v'⟩ ::
      layout level (b.lines chained (level + 1) ++ more)) :
    (block .standard c).Gives (·.bare = b.bare) (layout level more) := by
  obtain ⟨body, span⟩ := b
  have hindent : layout level (stmtLines chained body .ifWord (level + 1) ++ more) =
      ⟨.indent, ""⟩ :: layout (level + 1) (stmtLines chained body .ifWord (level + 1) ++ more) := by
    obtain ⟨s, ss, rfl⟩ := List.exists_cons_of_ne_nil hne
    obtain ⟨ps, ls, hlines, -⟩ := (h s List.mem_cons_self).starts .ifWord (level + 1)
    rw [stmtLines, hlines]
    exact layout_indent rfl
  rw [Block.lines, hindent] at hc
  rw [block]
  refine (Cursor.expect_gives hc).andThen ?_
  intro _ c₁ _ _ hc₁
  rw [if_pos (Cursor.kind_of hc₁)]
  refine ((Cursor.expectAs_gives (Cursor.advance_of hc₁) _).andThen ?_).weaken _
  intro _ c₂ _ _ hc₂
  refine (stmts_gives h hmore hc₂).andThen ?_
  intro body' c₃ _ hbody hc₃
  rw [layout_dedent hmore] at hc₃
  refine (Cursor.expect_gives hc₃).andThen ?_
  intro _ c₄ _ _ hc₄
  apply Reading.gives_pure _ hc₄
  rw [Block.bare, Block.bare, hbody]

/-! ### Statements -/

section

variable {first : Spelling} {w r : List Spelling} {Q : Stmt → Prop}

theorem stmt_of_lead {lead : Lead} (hc : c.spellings = first :: w)
    (hlead : Grammar.standard.lead first.kind = some lead)
    (h : (ledStmt .standard lead c).Gives Q r) : (stmt .standard c).Gives Q r := by
  rw [stmt, Cursor.kind_of hc, hlead]
  exact h

theorem stmt_of_no_lead (hc : c.spellings = first :: w)
    (hlead : Grammar.standard.lead first.kind = none)
    (h : (assignmentOrCall .standard c).Gives Q r) : (stmt .standard c).Gives Q r := by
  rw [stmt, Cursor.kind_of hc, hlead]
  exact h.weaken _

end

theorem layout_condition (lead : Kind) (condition : Expr) (level : Nat) (ls : List Line) :
    layout level (conditionLine lead condition level :: ls) =
      ⟨lead, String.ofList (fixedText lead)⟩ ::
        (spellingsOf (condition.pieces Strength.lowest.rank) ++
          ⟨.colon, ":"⟩ :: ⟨.newline, "\\n"⟩ :: layout level ls) := by
  rw [conditionLine, layout_level, spellingsOf_spaced, spellingsOf_append, List.append_assoc,
    List.append_assoc]
  rfl

/-- A printable expression is read back before what does not continue one. -/
theorem Expr.gives {e : Expr} (h : e.isPrintable = true) {r : List Spelling}
    (hc : c.spellings = spellingsOf (e.pieces Strength.lowest.rank) ++ r)
    (hr : Grammar.standard.tail (nextKind r) = none) :
    (expr .standard .lowest c).Gives (·.bare = e.bare) r :=
  (e.phrase h (by decide)).reads.gives hc hr

theorem condition_gives {condition : Expr} (h : condition.isPrintable = true) {lead : Kind}
    {ls : List Line} (hc : c.spellings = layout level (conditionLine lead condition level :: ls)) :
    (expr .standard .lowest c.advance).Gives (·.bare = condition.bare)
      (⟨.colon, ":"⟩ :: ⟨.newline, "\\n"⟩ :: layout level ls) := by
  rw [layout_condition] at hc
  exact Expr.gives h (Cursor.advance_of hc) rfl

theorem exists_of_isLoneConditional {ss : List Stmt} (h : isLoneConditional ss = true) :
    ∃ s, ss = [s] ∧ s.isConditional = true := by
  match ss with
  | [] => cases h
  | [s] => exact ⟨s, rfl, h⟩
  | _ :: _ :: _ => cases h

theorem Stmt.firstKind_of_isConditional {s : Stmt} (h : s.isConditional = true) (lead : Kind) :
    s.firstKind lead = lead := by
  cases s with
  | ifThen | ifElse => rfl
  | assign | perform | whileDo | ret | pass | brk | cont => cases h

theorem Block.head_otherwise {b : Block Stmt} (h : ∀ s ∈ b.body, s.ReadsBack chained) {l : Line}
    (hl : l ∈ (b.otherwiseLines chained level ++ more).head?) : l.level ≤ level := by
  obtain ⟨body, span⟩ := b
  rw [Block.otherwiseLines] at hl
  split at hl
  next hchained =>
    rw [Bool.and_eq_true] at hchained
    obtain ⟨s, rfl, -⟩ := exists_of_isLoneConditional hchained.2
    rw [stmtLines, List.append_assoc] at hl
    exact Nat.le_of_eq ((h s List.mem_cons_self).head_level hl)
  next =>
    cases hl
    exact Nat.le_refl _

/-- The other branch of a conditional is read back, chained or nested. -/
theorem otherwise_gives {b : Block Stmt} (hne : b.body ≠ [])
    (h : ∀ s ∈ b.body, s.ReadsBack chained) (hmore : Follows level more)
    (hc : c.spellings = layout level (b.otherwiseLines chained level ++ more)) (start : Position)
    (condition : Expr) (body : Block Stmt) :
    (otherwise .standard start condition body c).Gives
      (·.bare = .ifElse condition.bare body.bare b.bare .nowhere) (layout level more) := by
  obtain ⟨ss, span⟩ := b
  rw [Block.otherwiseLines] at hc
  split at hc
  next hchained =>
    rw [Bool.and_eq_true] at hchained
    obtain ⟨s, rfl, hconditional⟩ := exists_of_isLoneConditional hchained.2
    have hs := h s List.mem_cons_self
    rw [stmtLines, List.append_assoc] at hc
    have hkind : c.kind = .elifWord := by
      rw [Cursor.kind_eq, hc, hs.nextKind_eq, s.firstKind_of_isConditional hconditional]
    rw [otherwise, if_pos hkind]
    refine ((hs.led hconditional hmore hc).andThen ?_).weaken _
    intro s' c₁ _ hs' hc₁
    apply Reading.gives_pure _ hc₁
    simp only [Stmt.bare, Block.bare, bareStmts, hs']
  next =>
    rw [List.cons_append, layout_level] at hc
    have hkind : c.kind = .elseWord := Cursor.kind_of hc
    rw [otherwise, if_neg (by rw [hkind]; decide), if_pos hkind]
    refine ((block_gives hne h hmore.within (Cursor.advance_of hc)).andThen ?_).weaken _
    intro b' c₁ _ hb' hc₁
    apply Reading.gives_pure _ hc₁
    rw [Stmt.bare, hb']

/-- A conditional that is read back whatever leads it is read back as a statement. -/
theorem Stmt.ReadsBack.of_led {s : Stmt} (hconditional : s.isConditional = true)
    (hstarts : ∀ lead level, ∃ ps ls, s.lines chained lead level = ⟨level, ps⟩ :: ls ∧
      ∃ v w, spellingsOf ps = ⟨s.firstKind lead, v⟩ :: w)
    (hled : ∀ ⦃lead : Kind⦄ ⦃level : Nat⦄ ⦃more : List Line⦄ ⦃c : Cursor⦄, Follows level more →
      c.spellings = layout level (s.lines chained lead level ++ more) →
      (ifStmt .standard c).Gives (·.bare = s.bare) (layout level more)) :
    s.ReadsBack chained := by
  refine ⟨hstarts, ?_, fun _ => hled⟩
  intro level more c hmore hc
  obtain ⟨ps, ls, hlines, v, w, hps⟩ := hstarts .ifWord level
  have hfirst := hc
  rw [hlines, List.cons_append, layout_level, hps, s.firstKind_of_isConditional hconditional]
    at hfirst
  apply stmt_of_lead hfirst rfl
  rw [ledStmt]
  exact hled hmore hc

theorem ifThen_readsBack {condition : Expr} {body : Block Stmt} (span : Span)
    (hcondition : condition.isPrintable = true) (hne : body.body ≠ [])
    (hbody : ∀ s ∈ body.body, s.ReadsBack chained) :
    (Stmt.ifThen condition body span).ReadsBack chained := by
  apply Stmt.ReadsBack.of_led rfl
  · intro lead level
    rw [Stmt.lines]
    exact ⟨_, _, rfl, _, _, rfl⟩
  · intro lead level more c hmore hc
    rw [Stmt.lines] at hc
    rw [ifStmt]
    refine ((condition_gives hcondition hc).andThen ?_).weaken _
    intro condition' c₁ _ hcondition' hc₁
    refine (block_gives hne hbody hmore.within hc₁).andThen ?_
    intro body' c₂ _ hbody' hc₂
    -- nothing that follows can be taken for another branch
    have helif : c₂.kind ≠ .elifWord := by
      rw [Cursor.kind_eq, hc₂]
      exact hmore.apart.1
    have helse : c₂.kind ≠ .elseWord := by
      rw [Cursor.kind_eq, hc₂]
      exact hmore.apart.2
    rw [otherwise, if_neg helif, if_neg helse]
    apply Reading.gives_pure _ hc₂
    rw [Stmt.bare, Stmt.bare, hcondition', hbody']

theorem ifElse_readsBack {condition : Expr} {body orElse : Block Stmt} (span : Span)
    (hcondition : condition.isPrintable = true) (hne : body.body ≠ [])
    (hbody : ∀ s ∈ body.body, s.ReadsBack chained) (hne' : orElse.body ≠ [])
    (helse : ∀ s ∈ orElse.body, s.ReadsBack chained) :
    (Stmt.ifElse condition body orElse span).ReadsBack chained := by
  apply Stmt.ReadsBack.of_led rfl
  · intro lead level
    rw [Stmt.lines]
    exact ⟨_, _, rfl, _, _, rfl⟩
  · intro lead level more c hmore hc
    rw [Stmt.lines, List.cons_append, List.append_assoc] at hc
    rw [ifStmt]
    refine ((condition_gives hcondition hc).andThen ?_).weaken _
    intro condition' c₁ _ hcondition' hc₁
    refine (block_gives hne hbody (fun l => Block.head_otherwise helse) hc₁).andThen ?_
    intro body' c₂ _ hbody' hc₂
    rw [Stmt.bare, ← hcondition', ← hbody']
    exact otherwise_gives hne' helse hmore hc₂ _ condition' body'

/-- A statement that is not a conditional and has one first word. -/
theorem Stmt.ReadsBack.of_alone {s : Stmt} (hconditional : s.isConditional = false)
    (hstarts : ∀ lead level, ∃ ps ls, s.lines chained lead level = ⟨level, ps⟩ :: ls ∧
      ∃ v w, spellingsOf ps = ⟨s.firstKind lead, v⟩ :: w)
    (halone : ∀ ⦃level : Nat⦄ ⦃more : List Line⦄ ⦃c : Cursor⦄, Follows level more →
      c.spellings = layout level (s.lines chained .ifWord level ++ more) →
      (stmt .standard c).Gives (·.bare = s.bare) (layout level more)) :
    s.ReadsBack chained := by
  refine ⟨hstarts, halone, fun h => ?_⟩
  rw [hconditional] at h
  cases h

theorem whileDo_readsBack {condition : Expr} {body : Block Stmt} (span : Span)
    (hcondition : condition.isPrintable = true) (hne : body.body ≠ [])
    (hbody : ∀ s ∈ body.body, s.ReadsBack chained) :
    (Stmt.whileDo condition body span).ReadsBack chained := by
  apply Stmt.ReadsBack.of_alone rfl
  · intro lead level
    rw [Stmt.lines]
    exact ⟨_, _, rfl, _, _, rfl⟩
  · intro level more c hmore hc
    rw [Stmt.lines] at hc
    apply stmt_of_lead (hc.trans (layout_condition _ _ _ _)) rfl
    rw [ledStmt, whileStmt]
    refine ((condition_gives hcondition hc).andThen ?_).weaken _
    intro condition' c₁ _ hcondition' hc₁
    refine (block_gives hne hbody hmore.within hc₁).andThen ?_
    intro body' c₂ _ hbody' hc₂
    apply Reading.gives_pure _ hc₂
    rw [Stmt.bare, Stmt.bare, hcondition', hbody']

theorem assign_readsBack {target : String} {value : Expr} (span : Span)
    (hvalue : value.isPrintable = true) : (Stmt.assign target value span).ReadsBack chained := by
  apply Stmt.ReadsBack.of_alone rfl
  · intro lead level
    rw [Stmt.lines]
    exact ⟨_, _, rfl, _, _, rfl⟩
  · intro level more c hmore hc
    rw [Stmt.lines, List.singleton_append, layout_level, spellingsOf_operator,
      List.append_assoc] at hc
    have htarget : (expr .standard .lowest c).Gives (·.bare = .symbol target .nowhere) _ :=
      (Phrase.symbol _ target).reads.gives hc rfl
    apply stmt_of_no_lead hc rfl
    rw [assignmentOrCall]
    refine htarget.andThen ?_
    intro e c₁ _ he hc₁
    obtain ⟨span', rfl⟩ := exists_symbol_of_bare he
    rw [afterExpression, if_pos (Cursor.kind_of hc₁)]
    refine ((Expr.gives hvalue (Cursor.advance_of hc₁) rfl).andThen ?_).weaken _
    intro value' c₂ _ hvalue' hc₂
    refine (Cursor.endOfLine_gives hc₂).andThen ?_
    intro _ c₃ _ _ hc₃
    apply Reading.gives_pure _ hc₃
    rw [Stmt.bare, Stmt.bare, hvalue']

theorem exists_call_of_bare {e : Expr} {callee : String} {arguments : List Expr} {span : Span}
    (h : e.bare = (Expr.call callee arguments span).bare) :
    ∃ callee' arguments' span', e = .call callee' arguments' span' := by
  cases e with
  | call callee' arguments' span' => exact ⟨callee', arguments', span', rfl⟩
  | number | float | char | symbol | binary | compare | logic | negate =>
    rw [Expr.bare, Expr.bare] at h
    cases h

theorem perform_readsBack {call : Expr} (span : Span) (hcall : call.isCall = true)
    (hprint : call.isPrintable = true) : (Stmt.perform call span).ReadsBack chained := by
  obtain ⟨callee, arguments, span', rfl⟩ : ∃ callee arguments span',
      call = .call callee arguments span' := by
    cases call with
    | call callee arguments span' => exact ⟨callee, arguments, span', rfl⟩
    | number | float | char | symbol | binary | compare | logic | negate => cases hcall
  apply Stmt.ReadsBack.of_alone rfl
  · intro lead level
    rw [Stmt.lines, Expr.pieces]
    exact ⟨_, _, rfl, _, _, rfl⟩
  · intro level more c hmore hc
    rw [Stmt.lines, List.singleton_append, layout_level] at hc
    have hfirst := hc
    rw [Expr.pieces] at hfirst
    apply stmt_of_no_lead hfirst rfl
    rw [assignmentOrCall]
    refine (Expr.gives hprint hc rfl).andThen ?_
    intro e c₁ _ he hc₁
    obtain ⟨callee', arguments', span₁, rfl⟩ := exists_call_of_bare he
    rw [afterExpression, if_neg (by rw [Cursor.kind_of hc₁]; decide)]
    refine (Cursor.endOfLine_gives hc₁).andThen ?_
    intro _ c₂ _ _ hc₂
    apply Reading.gives_pure _ hc₂
    rw [Stmt.bare, Stmt.bare, he]

theorem ret_readsBack {value : Option Expr} (span : Span)
    (hvalue : ∀ e ∈ value, e.isPrintable = true) : (Stmt.ret value span).ReadsBack chained := by
  apply Stmt.ReadsBack.of_alone rfl
  · intro lead level
    cases value with
    | none | some =>
      rw [Stmt.lines]
      exact ⟨_, _, rfl, _, _, rfl⟩
  · intro level more c hmore hc
    cases value with
    | none =>
      rw [Stmt.lines, List.singleton_append, layout_level] at hc
      have hend := Cursor.advance_of hc
      apply stmt_of_lead hc rfl
      rw [ledStmt, returnStmt, if_pos (.inl (Cursor.kind_of hend))]
      refine ((Cursor.endOfLine_gives hend).andThen ?_).weaken _
      intro _ c₁ _ _ hc₁
      exact Reading.gives_pure rfl hc₁
    | some e =>
      have he := hvalue e rfl
      rw [Stmt.lines, List.singleton_append, layout_level, spellingsOf_spaced,
        List.append_assoc] at hc
      have hexpr := Cursor.advance_of hc
      have hkind : ¬ (c.advance.kind = .newline ∨ c.advance.kind = .eof ∨
          c.advance.kind = .dedent) := by
        rw [Cursor.kind_eq, hexpr]
        have hphrase := e.phrase he (n := Strength.lowest.rank) (by decide)
        rintro (heq | heq | heq)
        · exact hphrase.nextKind_ne rfl _ heq
        · exact hphrase.nextKind_ne rfl _ heq
        · exact hphrase.nextKind_ne rfl _ heq
      apply stmt_of_lead hc rfl
      rw [ledStmt, returnStmt, if_neg hkind]
      refine ((Expr.gives he hexpr rfl).andThen ?_).weaken _
      intro e' c₁ _ he' hc₁
      refine (Cursor.endOfLine_gives hc₁).andThen ?_
      intro _ c₂ _ _ hc₂
      apply Reading.gives_pure _ hc₂
      rw [Stmt.bare, Stmt.bare, Option.map_some, Option.map_some, he']

/-- A word alone on its line. -/
theorem oneWord_gives {kind : Kind} {make : Span → Stmt}
    (hbare : ∀ span, (make span).bare = make .nowhere)
    (hc : c.spellings = layout level (⟨level, [.fixed kind]⟩ :: more)) :
    (oneWord make c).Gives (·.bare = make .nowhere) (layout level more) := by
  rw [layout_level] at hc
  rw [oneWord]
  refine ((Cursor.endOfLine_gives (Cursor.advance_of hc)).andThen ?_).weaken _
  intro _ c₁ _ _ hc₁
  exact Reading.gives_pure (hbare _) hc₁

/-- The lines of a printable statement are read back. -/
theorem Stmt.readsBack {s : Stmt} (h : s.isPrintable = true) : s.ReadsBack chained := by
  revert h
  apply Stmt.printable_induction (P := Stmt.ReadsBack chained)
  case assign => exact fun _ _ span _ hvalue => assign_readsBack span hvalue
  case perform => exact fun _ span => perform_readsBack span
  case ifThen => exact fun _ _ span => ifThen_readsBack span
  case ifElse => exact fun _ _ _ span => ifElse_readsBack span
  case whileDo => exact fun _ _ span => whileDo_readsBack span
  case ret => exact fun _ span => ret_readsBack span
  case pass | brk | cont =>
    intro span
    apply Stmt.ReadsBack.of_alone rfl
    · intro lead level
      rw [Stmt.lines]
      exact ⟨_, _, rfl, _, _, rfl⟩
    · intro level more c hmore hc
      rw [Stmt.lines, List.singleton_append] at hc
      apply stmt_of_lead (hc.trans layout_level) rfl
      rw [ledStmt, Stmt.bare]
      exact oneWord_gives (fun _ => by rw [Stmt.bare]) hc

end

end Offside.Surface
