/-
  Offside/Proofs/Surface/Recognise.lean
  =====================================
  **Reading finds exactly the programs of the grammar.**  What a reader takes derives from the
  nonterminal it reads (`…_takes`), by recursion along the reader.  Every derivation is read,
  with the tree it derives (`….gives`), by recursion along the derivation.

  The readers never go back, so the second part must show that no derivation goes another way
  than they do.  Where a part may be left out, the tokens that can follow are never those it
  begins with.  The one place where this takes an argument is a conditional without `else`: it
  is not the last thing before an `elif` or `else`, since a block on the line of its colon is
  a simple statement and any other block ends in its own closing.
-/
import Offside.Proofs.Surface.RoundTrip
import Offside.Proofs.Surface.Sentence

namespace Offside.Surface

open Sentence

/-! ### Tokens and lines -/

theorem Cursor.spellings_of_kind {c : Cursor} {k : Kind} (h : c.kind = k) (hk : k ≠ .eof) :
    c.spellings = ⟨k, c.current.value⟩ :: c.advance.spellings :=
  (Cursor.past_of_kind h hk).spellings

/-- A token of the given kind is taken, or the reader is stuck. -/
theorem token_takes {n : Nat} (c : Cursor) {k : Kind} (hk : k ≠ .eof)
    (shorter : c.advance.left < n) (why : Diagnostic) :
    (if c.kind = k then .done c.current c.advance shorter else .stuck why c :
      Reading Token n).Takes c fun _ t c' => c.spellings = ⟨k, t.value⟩ :: c'.spellings := by
  by_cases h : c.kind = k
  · rw [if_pos h]
    exact Reading.takes_done (Cursor.past_of_kind h hk) (Cursor.spellings_of_kind h hk)
  · rw [if_neg h]
    exact Reading.takes_stuck

theorem expectAs_takes (c : Cursor) {k : Kind} (hk : k ≠ .eof) (expected : Expected) :
    (c.expectAs k expected).Takes c fun _ t c' =>
      c.spellings = ⟨k, t.value⟩ :: c'.spellings := token_takes c hk _ _

theorem expectFirst_takes (c : Cursor) {k : Kind} (hk : k ≠ .eof) :
    (c.expectFirst k).Takes c fun _ t c' => c.spellings = ⟨k, t.value⟩ :: c'.spellings :=
  token_takes c hk _ _

theorem endOfLine_takes (c : Cursor) :
    c.endOfLine.Takes c fun _ _ c' => LineEnd c.spellings c'.spellings := by
  rw [Cursor.endOfLine]
  by_cases hnewline : c.kind = .newline
  · rw [if_pos hnewline]
    refine Reading.takes_done (Cursor.past_of_kind hnewline (by decide)) ?_
    rw [Cursor.spellings_of_kind hnewline (by decide)]
    exact .newline _ _
  rw [if_neg hnewline]
  by_cases hclose : c.kind = .eof ∨ c.kind = .dedent
  · rw [if_pos hclose]
    apply Reading.takes_pure
    rw [Cursor.kind_eq] at hclose
    exact .before hclose
  · rw [if_neg hclose]
    exact Reading.takes_stuck

theorem expression_takes (c : Cursor) : (expr .standard .lowest c).Takes c fun _ e c' =>
    Expression c.spellings c'.spellings e.bare := by
  intro e c' shorter hdone
  obtain ⟨w, hpast, hphrase, hloose⟩ := expr_takes .lowest (by decide) c e c' shorter hdone
  rw [Cursor.kind_eq] at hloose
  exact ⟨w, hpast, expression_iff.mpr ⟨w, hpast.spellings, hphrase, hloose⟩⟩

/-! ### What is read as a statement -/

theorem afterExpression_takes {u : List Spelling} {e : Expr} (c : Cursor)
    (he : Expression u c.spellings e.bare) :
    (afterExpression .standard e c).Takes c fun _ s c' => Statement u c'.spellings s.bare := by
  unfold afterExpression
  by_cases hassign : c.kind = .assignment
  · rw [if_pos hassign]
    cases e with
    | symbol target span =>
      rw [Cursor.spellings_of_kind hassign (by decide)] at he
      refine (Reading.Takes.behind (Cursor.past_of_kind hassign (by decide)) ?_).weaken _
      refine (expression_takes c.advance).andThen ?_
      intro _ value c₁ _ _ hvalue
      refine (endOfLine_takes c₁).andThen ?_
      intro _ _ c₂ _ _ hend
      exact Reading.takes_pure (.assign _ he hvalue hend)
    | _ => exact Reading.takes_stuck
  · rw [if_neg hassign]
    cases e with
    | call callee args span =>
      refine (endOfLine_takes c).andThen ?_
      intro _ _ c₁ _ _ hend
      exact Reading.takes_pure (.perform he hend)
    | _ => exact Reading.takes_stuck

theorem assignmentOrCall_takes (c : Cursor) :
    (assignmentOrCall .standard c).Takes c fun _ s c' =>
      Statement c.spellings c'.spellings s.bare := by
  refine (expression_takes c).andThen ?_
  intro _ e c₁ _ _ he
  exact afterExpression_takes c₁ he

theorem oneWord_takes {make : Span → Stmt} {c : Cursor} {k : Kind} (hkind : c.kind = k)
    (hk : k ≠ .eof)
    (hmake : ∀ {u r : List Spelling} (v : String), LineEnd u r →
      Statement (⟨k, v⟩ :: u) r (make c.current.span).bare) :
    (oneWord make c).Takes c fun _ s c' => Statement c.spellings c'.spellings s.bare := by
  rw [oneWord, Cursor.spellings_of_kind hkind hk]
  refine (Reading.Takes.behind (Cursor.past_of_kind hkind hk) ?_).weaken _
  refine (endOfLine_takes c.advance).andThen ?_
  intro _ _ c₁ _ _ hend
  exact Reading.takes_pure (hmake _ hend)

theorem returnStmt_takes {c : Cursor} (hkind : c.kind = .returnWord) :
    (returnStmt .standard c).Takes c fun _ s c' =>
      Statement c.spellings c'.spellings s.bare := by
  have hpast := Cursor.past_of_kind hkind (by decide)
  rw [returnStmt, Cursor.spellings_of_kind hkind (by decide)]
  split
  · refine (Reading.Takes.behind hpast ?_).weaken _
    refine (endOfLine_takes c.advance).andThen ?_
    intro _ _ c₁ _ _ hend
    exact Reading.takes_pure (.ret _ hend)
  · refine (Reading.Takes.behind hpast ?_).weaken _
    refine (expression_takes c.advance).andThen ?_
    intro _ value c₁ _ _ hvalue
    refine (endOfLine_takes c₁).andThen ?_
    intro _ _ c₂ _ _ hend
    exact Reading.takes_pure (.retValue _ hvalue hend)

/-- The token that leads a statement. -/
def Lead.kind : Lead → Kind
  | ifLead => .ifWord
  | whileLead => .whileWord
  | returnLead => .returnWord
  | passLead => .passWord
  | breakLead => .breakWord
  | continueLead => .continueWord

theorem kind_of_lead {k : Kind} {lead : Lead} (h : Grammar.standard.lead k = some lead) :
    k = lead.kind := by
  cases k <;> cases h <;> rfl

theorem head_lead (lead : Lead) : Grammar.standard.head lead.kind = none := by
  cases lead <;> rfl

mutual

theorem stmt_takes (c : Cursor) : (stmt .standard c).Takes c fun _ s c' =>
    Statement c.spellings c'.spellings s.bare := by
  rw [stmt]
  cases hlead : Grammar.standard.lead c.kind with
  | none => exact (assignmentOrCall_takes c).weaken _
  | some lead => exact ledStmt_takes lead c hlead
termination_by 8 * c.left + 2

theorem ledStmt_takes (lead : Lead) (c : Cursor)
    (hlead : Grammar.standard.lead c.kind = some lead) :
    (ledStmt .standard lead c).Takes c fun _ s c' =>
      Statement c.spellings c'.spellings s.bare := by
  have hkind := kind_of_lead hlead
  rw [ledStmt.eq_def]
  cases lead with
  | ifLead =>
    rw [Cursor.spellings_of_kind hkind (by decide)]
    exact (ifStmt_takes c (by rw [hkind]; decide)).imp fun _ _ _ h => .conditional _ h
  | whileLead => exact whileStmt_takes c hkind
  | returnLead => exact returnStmt_takes hkind
  | passLead => exact oneWord_takes hkind (by decide) .pass
  | breakLead => exact oneWord_takes hkind (by decide) .brk
  | continueLead => exact oneWord_takes hkind (by decide) .cont
termination_by 8 * c.left + 1

theorem ifStmt_takes (c : Cursor) (hc : c.kind ≠ .eof) :
    (ifStmt .standard c).Takes c fun _ s c' =>
      Conditional c.advance.spellings c'.spellings s.bare := by
  rw [ifStmt]
  refine (Reading.Takes.behind (Cursor.past_of_kind rfl hc) ?_).weaken _
  refine (expression_takes c.advance).andThen ?_
  intro _ condition c₁ _ _ he
  refine (block_takes c₁).andThen ?_
  intro _ body c₂ _ _ hb
  refine (otherwise_takes c.position condition body c₂).imp ?_
  intro _ s c₃ ho
  exact .branch he hb ho
termination_by 8 * c.left
decreasing_by all_goals simp only [Cursor.advance_left] at *; omega

theorem otherwise_takes (start : Position) (condition : Expr) (body : Block Stmt) (c : Cursor) :
    (otherwise .standard start condition body c).Takes c fun _ s c' =>
      Otherwise condition.bare body.bare c.spellings c'.spellings s.bare := by
  rw [otherwise]
  by_cases helif : c.kind = .elifWord
  · rw [if_pos helif, Cursor.spellings_of_kind helif (by decide)]
    refine ((ifStmt_takes c (by rw [helif]; decide)).andThen ?_).weaken _
    intro _ nested c₁ _ _ h
    exact Reading.takes_pure (.elif _ _ _ h)
  rw [if_neg helif]
  by_cases helse : c.kind = .elseWord
  · rw [if_pos helse, Cursor.spellings_of_kind helse (by decide)]
    refine (Reading.Takes.behind (Cursor.past_of_kind helse (by decide)) ?_).weaken _
    refine (block_takes c.advance).andThen ?_
    intro _ orElse c₁ _ _ h
    exact Reading.takes_pure (.orElse _ _ _ h)
  · rw [if_neg helse]
    exact Reading.takes_pure (.none _ _ _)
termination_by 8 * c.left + 5

theorem whileStmt_takes (c : Cursor) (hkind : c.kind = .whileWord) :
    (whileStmt .standard c).Takes c fun _ s c' =>
      Statement c.spellings c'.spellings s.bare := by
  rw [whileStmt, Cursor.spellings_of_kind hkind (by decide)]
  refine (Reading.Takes.behind (Cursor.past_of_kind hkind (by decide)) ?_).weaken _
  refine (expression_takes c.advance).andThen ?_
  intro _ condition c₁ _ _ he
  refine (block_takes c₁).andThen ?_
  intro _ body c₂ _ _ hb
  exact Reading.takes_pure (.whileDo _ he hb)
termination_by 8 * c.left
decreasing_by all_goals simp only [Cursor.advance_left] at *; omega

theorem block_takes (c : Cursor) : (block .standard c).Takes c fun _ b c' =>
    Suite c.spellings c'.spellings b.bare := by
  rw [block]
  refine (expectAs_takes c (by decide) _).andThen ?_
  intro _ colon c₁ _ _ hc
  rw [hc]
  by_cases hnewline : c₁.kind = .newline
  · rw [if_pos hnewline, Cursor.spellings_of_kind hnewline (by decide)]
    refine (Reading.Takes.behind (Cursor.past_of_kind hnewline (by decide)) ?_).weaken _
    refine (expectAs_takes c₁.advance (by decide) _).andThen ?_
    intro _ indent c₂ _ _ hc₁
    refine (stmts_takes c₂).andThen ?_
    intro _ body c₃ _ _ hbody
    refine (expectAs_takes c₃ (by decide) _).andThen ?_
    intro _ dedent c₄ _ _ hc₃
    apply Reading.takes_pure
    rw [hc₁]
    rw [hc₃] at hbody
    exact .indented _ _ _ _ hbody
  rw [if_neg hnewline]
  by_cases hcompound : isCompound c₁.kind = true
  · rw [if_pos hcompound]
    exact Reading.takes_stuck
  · rw [if_neg hcompound]
    refine ((stmt_takes c₁).andThen ?_).weaken _
    intro _ s c₂ _ _ hs
    apply Reading.takes_pure
    refine .line _ ?_ hs
    rw [← Cursor.kind_eq]
    simp_all [isCompound]
termination_by 8 * c.left + 4
decreasing_by
  all_goals try simp only [Cursor.advance_left] at *
  all_goals omega

theorem stmts_takes (c : Cursor) : (stmts .standard c).Takes c fun _ ss c' =>
    Statements c.spellings c'.spellings (bareStmts ss) := by
  rw [stmts]
  by_cases hclose : c.kind = .dedent ∨ c.kind = .eof
  · rw [dif_pos hclose]
    exact Reading.takes_pure (.nil _)
  · rw [dif_neg hclose]
    have hleft := Cursor.left_pos fun hc => hclose (.inr hc)
    refine ((stmt_takes c).andThen ?_).weaken _
    intro _ s c₁ _ _ hs
    refine (stmts_takes c₁).andThen ?_
    intro _ ss c₂ _ _ hss
    exact Reading.takes_pure (.cons hs hss)
termination_by 8 * c.left + 3
decreasing_by
  all_goals
    try simp only [Cursor.room] at *
    omega

end

/-! ### Statements are read -/

namespace Sentence

theorem LineEnd.gives {u r : List Spelling} (h : LineEnd u r) {c : Cursor}
    (hc : c.spellings = u) : c.endOfLine.Gives (fun _ => True) r := by
  cases h with
  | newline v => exact Cursor.endOfLine_gives hc
  | before h =>
    have hclose : c.kind = .eof ∨ c.kind = .dedent := by rwa [Cursor.kind_eq, hc]
    have hnewline : c.kind ≠ .newline := by
      rcases hclose with heq | heq <;> (rw [heq]; decide)
    rw [Cursor.endOfLine, if_neg hnewline, if_pos hclose]
    exact Reading.gives_pure trivial hc

theorem LineEnd.nextKind_mem {u r : List Spelling} (h : LineEnd u r) :
    nextKind u ∈ [.newline, .eof, .dedent] := by
  cases h with
  | newline v => exact List.mem_cons_self
  | before h => exact List.mem_cons_of_mem _ (by simpa using h)

theorem LineEnd.nextKind_ne {u r : List Spelling} (h : LineEnd u r) {k : Kind}
    (hk : k ∉ [.newline, .eof, .dedent]) : nextKind u ≠ k := by
  rintro rfl
  exact hk h.nextKind_mem

/-- A statement begins with a token that leads one or begins an expression. -/
theorem Statement.nextKind_ne {u r : List Spelling} {s : Stmt} (h : Statement u r s) {k : Kind}
    (hlead : Grammar.standard.lead k = none) (hhead : Grammar.standard.head k = none) :
    nextKind u ≠ k := by
  rintro rfl
  cases h with
  | assign _ htarget => exact htarget.head_ne_none hhead
  | perform he => exact he.head_ne_none hhead
  | _ => cases hlead

theorem Suite.nextKind_eq {u r : List Spelling} {b : Block Stmt} (h : Suite u r b) :
    nextKind u = .colon := by
  cases h with
  | line | indented => rfl

/-- What is left does not go on with a conditional. -/
def Apart (r : List Spelling) : Prop := nextKind r ≠ .elifWord ∧ nextKind r ≠ .elseWord

theorem Statements.apart {u r : List Spelling} {ss : List Stmt} (h : Statements u r ss)
    (hr : Apart r) : Apart u := by
  cases h with
  | nil => exact hr
  | cons h => exact ⟨h.nextKind_ne rfl rfl, h.nextKind_ne rfl rfl⟩

theorem Expression.lead_eq_none {u r : List Spelling} {e : Expr} (h : Expression u r e) :
    Grammar.standard.lead (nextKind u) = none := by
  cases hlead : Grammar.standard.lead (nextKind u) with
  | none => rfl
  | some lead =>
    refine absurd ?_ h.head_ne_none
    rw [kind_of_lead hlead, head_lead]

theorem LineEnd.oneWord_gives {u r : List Spelling} (h : LineEnd u r) {c : Cursor}
    (hc : c.advance.spellings = u) {make : Span → Stmt}
    (hbare : ∀ span, (make span).bare = make .nowhere) :
    (oneWord make c).Gives (·.bare = make .nowhere) r := by
  rw [oneWord]
  refine ((h.gives hc).andThen ?_).weaken _
  intro _ c₁ _ _ hc₁
  exact Reading.gives_pure (hbare _) hc₁

theorem LineEnd.returnStmt_gives {u r : List Spelling} (h : LineEnd u r) {c : Cursor}
    (hc : c.advance.spellings = u) :
    (returnStmt .standard c).Gives (·.bare = .ret none .nowhere) r := by
  have hkind : c.advance.kind = .newline ∨ c.advance.kind = .eof ∨ c.advance.kind = .dedent := by
    have hmem := h.nextKind_mem
    rwa [← hc, ← Cursor.kind_eq, List.mem_cons, List.mem_cons, List.mem_singleton] at hmem
  rw [returnStmt, if_pos hkind]
  refine ((h.gives hc).andThen ?_).weaken _
  intro _ c₁ _ _ hc₁
  exact Reading.gives_pure rfl hc₁

theorem Expression.returnStmt_gives {u u₁ r : List Spelling} {e : Expr} (he : Expression u u₁ e)
    (hend : LineEnd u₁ r) {c : Cursor} (hc : c.advance.spellings = u) :
    (returnStmt .standard c).Gives (·.bare = .ret (some e) .nowhere) r := by
  have hkind : ¬ (c.advance.kind = .newline ∨ c.advance.kind = .eof ∨
      c.advance.kind = .dedent) := by
    rw [Cursor.kind_eq, hc]
    rintro (heq | heq | heq)
    all_goals exact he.head_ne_none (by rw [heq]; rfl)
  rw [returnStmt, if_neg hkind]
  refine ((he c.advance hc).andThen ?_).weaken _
  intro value c₁ _ hvalue hc₁
  refine (hend.gives hc₁).andThen ?_
  intro _ c₂ _ _ hc₂
  apply Reading.gives_pure _ hc₂
  rw [Stmt.bare, Option.map_some, hvalue]

theorem Expression.assignment_gives {u u₁ u₂ r : List Spelling} {target v : String} {e : Expr}
    (htarget : Expression u (⟨.assignment, v⟩ :: u₁) (.symbol target .nowhere))
    (he : Expression u₁ u₂ e) (hend : LineEnd u₂ r) {c : Cursor} (hc : c.spellings = u) :
    (assignmentOrCall .standard c).Gives (·.bare = .assign target e .nowhere) r := by
  refine (htarget c hc).andThen ?_
  intro name c₁ _ hname hc₁
  obtain ⟨span, rfl⟩ := exists_symbol_of_bare hname
  rw [afterExpression, if_pos (Cursor.kind_of hc₁)]
  refine ((he c₁.advance (Cursor.advance_of hc₁)).andThen ?_).weaken _
  intro value c₂ _ hvalue hc₂
  refine (hend.gives hc₂).andThen ?_
  intro _ c₃ _ _ hc₃
  apply Reading.gives_pure _ hc₃
  rw [Stmt.bare, hvalue]

theorem Expression.perform_gives {u u₁ r : List Spelling} {callee : String} {args : List Expr}
    (he : Expression u u₁ (.call callee args .nowhere)) (hend : LineEnd u₁ r) {c : Cursor}
    (hc : c.spellings = u) :
    (assignmentOrCall .standard c).Gives
      (·.bare = .perform (.call callee args .nowhere) .nowhere) r := by
  refine (he c hc).andThen ?_
  intro call c₁ _ hcall hc₁
  have hkind : c₁.kind ≠ .assignment := by
    rw [Cursor.kind_eq, hc₁]
    exact hend.nextKind_ne (by decide)
  cases call with
  | call callee' args' span =>
    rw [afterExpression, if_neg hkind]
    refine (hend.gives hc₁).andThen ?_
    intro _ c₂ _ _ hc₂
    apply Reading.gives_pure _ hc₂
    rw [Stmt.bare, hcall]
  | _ => cases hcall

theorem stmt_of_expression {u r r' : List Spelling} {e : Expr} {s : Stmt}
    (he : Expression u r e) {c : Cursor} (hc : c.spellings = u)
    (h : (assignmentOrCall .standard c).Gives (·.bare = s) r') :
    (stmt .standard c).Gives (·.bare = s) r' := by
  rw [stmt, Cursor.kind_eq, hc, he.lead_eq_none]
  exact h.weaken _

mutual

/-- A statement is read.  If it is a conditional, what is left must not go on with it. -/
theorem Statement.gives : ∀ {u r : List Spelling} {s : Stmt}, Statement u r s →
    ∀ {c : Cursor}, c.spellings = u → (nextKind u = .ifWord → Apart r) →
    (stmt .standard c).Gives (·.bare = s) r
  | _, _, _, .conditional _ h, c, hc, hr => by
    refine stmt_of_lead hc rfl ?_
    rw [ledStmt]
    exact h.gives (Cursor.advance_of hc) (hr rfl)
  | _, _, _, .whileDo _ he hb, c, hc, _ => by
    refine stmt_of_lead hc rfl ?_
    rw [ledStmt, whileStmt]
    refine ((he c.advance (Cursor.advance_of hc)).andThen ?_).weaken _
    intro condition c₁ _ hcondition hc₁
    refine (hb.gives hc₁).andThen ?_
    intro body c₂ _ hbody hc₂
    apply Reading.gives_pure _ hc₂
    rw [Stmt.bare, hcondition, hbody]
  | _, _, _, .ret _ hend, c, hc, _ => by
    refine stmt_of_lead hc rfl ?_
    rw [ledStmt]
    exact hend.returnStmt_gives (Cursor.advance_of hc)
  | _, _, _, .retValue _ he hend, c, hc, _ => by
    refine stmt_of_lead hc rfl ?_
    rw [ledStmt]
    exact he.returnStmt_gives hend (Cursor.advance_of hc)
  | _, _, _, .pass _ hend, c, hc, _ => by
    refine stmt_of_lead hc rfl ?_
    rw [ledStmt]
    exact hend.oneWord_gives (Cursor.advance_of hc) fun _ => rfl
  | _, _, _, .brk _ hend, c, hc, _ => by
    refine stmt_of_lead hc rfl ?_
    rw [ledStmt]
    exact hend.oneWord_gives (Cursor.advance_of hc) fun _ => rfl
  | _, _, _, .cont _ hend, c, hc, _ => by
    refine stmt_of_lead hc rfl ?_
    rw [ledStmt]
    exact hend.oneWord_gives (Cursor.advance_of hc) fun _ => rfl
  | _, _, _, .assign _ htarget he hend, _, hc, _ =>
    stmt_of_expression htarget hc (htarget.assignment_gives he hend hc)
  | _, _, _, .perform he hend, _, hc, _ => stmt_of_expression he hc (he.perform_gives hend hc)

theorem Conditional.gives : ∀ {u r : List Spelling} {s : Stmt}, Conditional u r s →
    ∀ {c : Cursor}, c.advance.spellings = u → Apart r →
    (ifStmt .standard c).Gives (·.bare = s) r
  | _, _, _, .branch he hb ho, c, hc, hr => by
    rw [ifStmt]
    refine ((he c.advance hc).andThen ?_).weaken _
    intro condition c₁ _ hcondition hc₁
    refine (hb.gives hc₁).andThen ?_
    intro body c₂ _ hbody hc₂
    exact ho.gives hcondition hbody hc₂ hr

theorem Otherwise.gives : ∀ {e : Expr} {b : Block Stmt} {u r : List Spelling} {s : Stmt},
    Otherwise e b u r s → ∀ {start : Position} {condition : Expr} {body : Block Stmt}
      {c : Cursor}, condition.bare = e → body.bare = b → c.spellings = u → Apart r →
    (otherwise .standard start condition body c).Gives (·.bare = s) r
  | _, _, _, _, _, .none _ _ _, _, _, _, c, he, hb, hc, hr => by
    have helif : c.kind ≠ .elifWord := by rw [Cursor.kind_eq, hc]; exact hr.1
    have helse : c.kind ≠ .elseWord := by rw [Cursor.kind_eq, hc]; exact hr.2
    rw [otherwise, if_neg helif, if_neg helse]
    apply Reading.gives_pure _ hc
    rw [Stmt.bare, he, hb]
  | _, _, _, _, _, .elif _ _ _ h, _, _, _, c, he, hb, hc, hr => by
    rw [otherwise, if_pos (Cursor.kind_of hc)]
    refine ((h.gives (Cursor.advance_of hc) hr).andThen ?_).weaken _
    intro nested c₁ _ hnested hc₁
    apply Reading.gives_pure _ hc₁
    rw [Stmt.bare, he, hb, Block.bare, bareStmts, hnested, bareStmts]
  | _, _, _, _, _, .orElse _ _ _ h, _, _, _, c, he, hb, hc, _ => by
    have hkind : c.kind = .elseWord := Cursor.kind_of hc
    rw [otherwise, if_neg (by rw [hkind]; decide), if_pos hkind]
    refine ((h.gives (Cursor.advance_of hc)).andThen ?_).weaken _
    intro orElse c₁ _ horElse hc₁
    apply Reading.gives_pure _ hc₁
    rw [Stmt.bare, he, hb, horElse]

theorem Suite.gives : ∀ {u r : List Spelling} {b : Block Stmt}, Suite u r b →
    ∀ {c : Cursor}, c.spellings = u → (block .standard c).Gives (·.bare = b) r
  | _, _, _, .line _ hfirst h, c, hc => by
    rw [block]
    refine (Cursor.expect_gives hc).andThen ?_
    intro _ c₁ _ _ hc₁
    rw [← hc₁, ← Cursor.kind_eq] at hfirst
    have hcompound : ¬ isCompound c₁.kind = true := by
      simp_all [isCompound]
    rw [if_neg (by simp_all), if_neg hcompound]
    -- a statement on the line of the colon is no conditional, so it does not matter what is left
    refine ((h.gives hc₁ fun hif => ?_).andThen ?_).weaken _
    · rw [← hc₁, ← Cursor.kind_eq] at hif
      simp [hif] at hfirst
    · intro s c₂ _ hs hc₂
      apply Reading.gives_pure _ hc₂
      rw [Block.bare, bareStmts, bareStmts, hs]
  | _, _, _, .indented _ _ _ _ h, c, hc => by
    rw [block]
    refine (Cursor.expect_gives hc).andThen ?_
    intro _ c₁ _ _ hc₁
    rw [if_pos (Cursor.kind_of hc₁)]
    refine ((Cursor.expectAs_gives (Cursor.advance_of hc₁) _).andThen ?_).weaken _
    intro _ c₂ _ _ hc₂
    refine (h.gives rfl hc₂).andThen ?_
    intro body c₃ _ hbody hc₃
    refine (Cursor.expect_gives hc₃).andThen ?_
    intro _ c₄ _ _ hc₄
    apply Reading.gives_pure _ hc₄
    rw [Block.bare, hbody]

theorem Statements.gives : ∀ {u r : List Spelling} {ss : List Stmt}, Statements u r ss →
    nextKind r = .dedent → ∀ {c : Cursor}, c.spellings = u →
    (stmts .standard c).Gives (bareStmts · = ss) r
  | _, _, _, .nil _, hr, c, hc => by
    have hkind : c.kind = .dedent := by rwa [Cursor.kind_eq, hc]
    rw [stmts, dif_pos (.inl hkind)]
    exact Reading.gives_pure rfl hc
  | _, _, _, .cons h hs, hr, c, hc => by
    have hkind : ¬ (c.kind = .dedent ∨ c.kind = .eof) := by
      rw [Cursor.kind_eq, hc]
      rintro (heq | heq)
      · exact h.nextKind_ne rfl rfl heq
      · exact h.nextKind_ne rfl rfl heq
    have hapart : Apart _ := hs.apart (by rw [Apart, hr]; exact ⟨by decide, by decide⟩)
    rw [stmts, dif_neg hkind]
    refine ((h.gives hc fun _ => hapart).andThen ?_).weaken _
    intro s c₁ _ hs' hc₁
    refine (hs.gives hr hc₁).andThen ?_
    intro ss c₂ _ hss hc₂
    apply Reading.gives_pure _ hc₂
    rw [bareStmts, hs', hss]

end

end Sentence

end Offside.Surface
