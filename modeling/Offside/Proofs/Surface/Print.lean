/-
  Offside/Proofs/Surface/Print.lean
  =================================
  **Writing a program down.**  A program is written as lines of pieces: one statement to a
  line, the statements of a block one level further in.  An expression is written for a
  floor, the rank that its outermost operators must bind tighter than; where they do not,
  parentheses are put around it.  A negative number is a minus sign and a magnitude, and a
  character stands in the argument of `ord`.  Where a conditional has only another one in
  its other branch, the writer may chain the two with `elif` or nest the second in an
  `else`.

  Not every tree can be written: `Program.isPrintable` asks for names that are not
  reserved, blocks that are not empty, finite floats, calls as the only expressions that
  stand alone, and no minus sign over a float.  The lines of a printable program are well
  laid (`Program.wellLaid_lines`), which is what the scan of their text needs.
-/
import Offside.Proofs.Surface.Phrase
import Offside.Proofs.Token.Layout

namespace Offside.Surface

open Token Number

/-! ### Rows of pieces -/

def spaced (ps qs : List Piece) : List Piece := ps ++ .gap :: qs

/-- The pieces in parentheses, behind what they are applied to. -/
def applied (ps qs : List Piece) : List Piece :=
  ps ++ .fixed .openParen :: (qs ++ [.fixed .closeParen])

/-- The pieces in parentheses, where these are needed. -/
def grouped (needed : Bool) (ps : List Piece) : List Piece :=
  if needed then applied [] ps else ps

/-- Rows with commas between them. -/
def listed : List (List Piece) → List Piece
  | [] => []
  | [ps] => ps
  | ps :: qs :: rows => spaced (ps ++ [.fixed .comma]) (listed (qs :: rows))

/-! ### Expressions -/

/-- Holds for the operands that a minus sign takes without parentheses. -/
def Expr.isNamed : Expr → Bool
  | .symbol _ _ | .call _ _ _ => true
  | _ => false

def Expr.isFloat : Expr → Bool
  | .float _ _ => true
  | _ => false

def Expr.isCall : Expr → Bool
  | .call _ _ _ => true
  | _ => false

mutual

/-- An expression whose outermost operators are to bind tighter than `floor`. -/
def Expr.pieces : Expr → (floor : Nat) → List Piece
  | .number value _, _ =>
    if value.toInt < 0 then [.fixed .dash, .integer value.toInt.natAbs]
    else [.integer value.toInt.natAbs]
  | .float value _, _ =>
    if value.isNegative then [.fixed .dash, .float value.neg] else [.float value]
  | .char value _, _ => applied [.name ordName] [.char value]
  | .symbol name _, _ => [.name name]
  | .binary op left right _, floor =>
    grouped (op.strength.rank ≤ floor)
      (spaced (left.pieces (op.strength.rank - 1))
        (spaced [.fixed op.kind] (right.pieces op.strength.rank)))
  | .compare op left right _, floor =>
    grouped (Strength.relational.rank ≤ floor)
      (spaced (left.pieces Strength.relational.rank)
        (spaced [.fixed op.kind] (right.pieces Strength.relational.rank)))
  | .logic op left right _, floor =>
    grouped (op.strength.rank ≤ floor)
      (spaced (left.pieces (op.strength.rank - 1))
        (spaced [.fixed op.kind] (right.pieces op.strength.rank)))
  | .negate operand _, _ =>
    .fixed .dash :: grouped (!operand.isNamed) (operand.pieces Strength.lowest.rank)
  | .call callee arguments _, _ => applied [.name callee] (listed (argumentPieces arguments))

def argumentPieces : List Expr → List (List Piece)
  | [] => []
  | e :: es => e.pieces Strength.lowest.rank :: argumentPieces es

end

mutual

/-- Holds for the expressions that can be written. -/
def Expr.isPrintable : Expr → Bool
  | .number _ _ | .char _ _ => true
  | .float value _ => value.isFinite
  | .symbol name _ => isName name
  | .binary _ left right _ | .compare _ left right _ | .logic _ left right _ =>
    left.isPrintable && right.isPrintable
  | .negate operand _ => !operand.isFloat && operand.isPrintable
  | .call callee arguments _ => isName callee && printableExprs arguments

def printableExprs : List Expr → Bool
  | [] => true
  | e :: es => e.isPrintable && printableExprs es

end

/-! ### Statements -/

/-- The line of a statement that has a condition and a block. -/
def conditionLine (lead : Kind) (condition : Expr) (level : Nat) : Line :=
  ⟨level, spaced [.fixed lead] (condition.pieces Strength.lowest.rank ++ [.fixed .colon])⟩

def Stmt.isConditional : Stmt → Bool
  | .ifThen _ _ _ | .ifElse _ _ _ _ => true
  | _ => false

/-- Holds for a conditional alone. -/
def isLoneConditional : List Stmt → Bool
  | [s] => s.isConditional
  | _ => false

mutual

/-- The lines of a statement, which begins with `lead` if it is a conditional.  One that is
    alone in the other branch of another is written with `elif` if `chained` holds. -/
def Stmt.lines (chained : Bool) : Stmt → (lead : Kind) → (level : Nat) → List Line
  | .assign target value _, _, level =>
    [⟨level, spaced [.name target]
      (spaced [.fixed .assignment] (value.pieces Strength.lowest.rank))⟩]
  | .perform call _, _, level => [⟨level, call.pieces Strength.lowest.rank⟩]
  | .ifThen condition body _, lead, level =>
    conditionLine lead condition level :: body.lines chained (level + 1)
  | .ifElse condition body orElse _, lead, level =>
    conditionLine lead condition level ::
      (body.lines chained (level + 1) ++ orElse.otherwiseLines chained level)
  | .whileDo condition body _, _, level =>
    conditionLine .whileWord condition level :: body.lines chained (level + 1)
  | .ret (some value) _, _, level =>
    [⟨level, spaced [.fixed .returnWord] (value.pieces Strength.lowest.rank)⟩]
  | .ret none _, _, level => [⟨level, [.fixed .returnWord]⟩]
  | .pass _, _, level => [⟨level, [.fixed .passWord]⟩]
  | .brk _, _, level => [⟨level, [.fixed .breakWord]⟩]
  | .cont _, _, level => [⟨level, [.fixed .continueWord]⟩]

/-- The lines of a block, from the first of its statements. -/
def Block.lines (chained : Bool) : Block Stmt → (level : Nat) → List Line
  | ⟨body, _⟩, level => stmtLines chained body .ifWord level

/-- The lines of the other branch of a conditional. -/
def Block.otherwiseLines (chained : Bool) : Block Stmt → (level : Nat) → List Line
  | ⟨body, _⟩, level =>
    if chained && isLoneConditional body then stmtLines chained body .elifWord level
    else ⟨level, [.fixed .elseWord, .fixed .colon]⟩ ::
      stmtLines chained body .ifWord (level + 1)

def stmtLines (chained : Bool) : List Stmt → (lead : Kind) → (level : Nat) → List Line
  | [], _, _ => []
  | s :: ss, lead, level => s.lines chained lead level ++ stmtLines chained ss lead level

end

mutual

/-- Holds for the statements that can be written. -/
def Stmt.isPrintable : Stmt → Bool
  | .assign target value _ => isName target && value.isPrintable
  | .perform call _ => call.isCall && call.isPrintable
  | .ifThen condition body _ | .whileDo condition body _ =>
    condition.isPrintable && body.isPrintable
  | .ifElse condition body orElse _ =>
    condition.isPrintable && body.isPrintable && orElse.isPrintable
  | .ret (some value) _ => value.isPrintable
  | .ret none _ | .pass _ | .brk _ | .cont _ => true

def Block.isPrintable : Block Stmt → Bool
  | ⟨body, _⟩ => !body.isEmpty && printableStmts body

def printableStmts : List Stmt → Bool
  | [] => true
  | s :: ss => s.isPrintable && printableStmts ss

end

/-! ### Programs -/

def TypeExpr.pieces (t : TypeExpr) : List Piece := [.name t.name]

/-- A signature behind the name that has it. -/
def signaturePieces (name : List Piece) (params : List (List Piece)) :
    Option TypeExpr → List Piece
  | some t => spaced (applied name (listed params)) (spaced [.fixed .arrow] t.pieces)
  | none => applied name (listed params)

def Parameter.pieces (p : Parameter) : List Piece :=
  spaced [.name p.name, .fixed .colon] p.type.pieces

/-- An imported name and its signature, if it has one. -/
def Import.item (i : Import) : List Piece :=
  match i.signature with
  | some s => signaturePieces [.name i.name] (s.params.map TypeExpr.pieces) s.result
  | none => [.name i.name]

def Import.line (i : Import) : Line :=
  ⟨0, spaced [.fixed .fromWord] (spaced [.name i.module] (spaced [.fixed .importWord] i.item))⟩

def Function.lines (chained : Bool) (f : Function) : List Line :=
  ⟨0, spaced [.fixed .defWord]
    (signaturePieces [.name f.name] (f.params.map Parameter.pieces) f.result ++
      [.fixed .colon])⟩ :: f.body.lines chained 1

def Program.lines (chained : Bool) (p : Program) : List Line :=
  p.imports.map Import.line ++ p.functions.flatMap (Function.lines chained)

/-- The text of a program. -/
def Program.print (chained : Bool) (p : Program) : String :=
  String.ofList ((p.lines chained).flatMap Line.text)

def TypeExpr.isPrintable (t : TypeExpr) : Bool := isName t.name

def ImportSignature.isPrintable (s : ImportSignature) : Bool :=
  s.params.all TypeExpr.isPrintable && s.result.all TypeExpr.isPrintable

def Import.isPrintable (i : Import) : Bool :=
  isName i.module && isName i.name && i.signature.all ImportSignature.isPrintable

def Parameter.isPrintable (p : Parameter) : Bool := isName p.name && p.type.isPrintable

def Function.isPrintable (f : Function) : Bool :=
  isName f.name && f.params.all Parameter.isPrintable && f.result.all TypeExpr.isPrintable &&
    f.body.isPrintable

/-- Holds for the programs that can be written. -/
def Program.isPrintable (p : Program) : Bool :=
  p.imports.all Import.isPrintable && p.functions.all Function.isPrintable

/-! ### Rows that stand together -/

/-- Holds for the characters that no token goes on with. -/
def isBreak (c : Char) : Bool := !isWordPart c && c ≠ '.' && c ≠ '=' && c ≠ '>'

theorem endsBefore_of_isBreak {c : Char} (hc : isBreak c = true) {p : Piece} (hp : p ≠ .gap) :
    p.endsBefore c = true := by
  simp only [isBreak, Bool.and_eq_true, Bool.not_eq_true', decide_eq_true_eq] at hc
  obtain ⟨⟨⟨hword, hpoint⟩, hequals⟩, hgreater⟩ := hc
  cases p with
  | gap => exact absurd rfl hp
  | fixed kind => cases kind <;> simp [Piece.endsBefore, hword, hequals, hgreater]
  | name | integer | float => simp [Piece.endsBefore, hword, hpoint]
  | char => rfl

/-- Holds for the rows that may stand before a break and close the parentheses they open. -/
structure Steady (ps : List Piece) : Prop where
  flows : ∀ ⦃stop : Char⦄, isBreak stop = true → Flows stop ps
  closes : ∀ depth, depthOver depth (spellingsOf ps) = depth

/-- Holds for the steady rows that may also stand behind a gap. -/
structure Solid (ps : List Piece) : Prop extends Steady ps where
  starts : (textOf ps).head?.any (!isGap ·) = true

theorem headD_of_any {p : Char → Bool} {cs : List Char} (h : cs.head?.any p = true) (d : Char) :
    p (cs.headD d) = true := by
  cases cs with
  | nil => cases h
  | cons c cs => exact h

theorem head?_append_any {p : Char → Bool} {cs : List Char} (h : cs.head?.any p = true)
    (ds : List Char) : (cs ++ ds).head?.any p = true := by
  cases cs with
  | nil => cases h
  | cons c cs => exact h

theorem steady_nil : Steady [] := ⟨fun _ _ => trivial, fun _ => rfl⟩

section Rows

variable {ps qs : List Piece}

theorem Steady.append (hps : Steady ps) (hqs : Steady qs)
    (hbreak : (textOf qs).head?.any isBreak = true) : Steady (ps ++ qs) := by
  constructor
  · intro stop hstop
    rw [flows_append]
    exact ⟨hps.flows (headD_of_any hbreak stop), hqs.flows hstop⟩
  · intro depth
    rw [spellingsOf_append, depthOver_append, hps.closes, hqs.closes]

theorem Solid.append (hps : Solid ps) (hqs : Steady qs)
    (hbreak : (textOf qs).head?.any isBreak = true) : Solid (ps ++ qs) := by
  refine ⟨hps.toSteady.append hqs hbreak, ?_⟩
  rw [textOf_append]
  exact head?_append_any hps.starts (textOf qs)

theorem Solid.afterGap (h : Solid ps) : Steady (.gap :: ps) := by
  constructor
  · intro stop hstop
    exact ⟨rfl, headD_of_any h.starts stop, h.flows hstop⟩
  · exact h.closes

theorem Solid.spaced (hps : Solid ps) (hqs : Solid qs) : Solid (spaced ps qs) :=
  hps.append hqs.afterGap rfl

theorem Steady.parens (h : Steady ps) :
    Solid (.fixed .openParen :: (ps ++ [.fixed .closeParen])) := by
  refine ⟨⟨?_, ?_⟩, rfl⟩
  · intro stop hstop
    refine ⟨rfl, rfl, ?_⟩
    rw [flows_append]
    exact ⟨h.flows rfl, rfl, rfl, trivial⟩
  · intro depth
    change depthOver (depth + 1) (spellingsOf (ps ++ [.fixed .closeParen])) = depth
    rw [spellingsOf_append, depthOver_append, h.closes]
    rfl

theorem Solid.applied (hps : Solid ps) (hqs : Steady qs) : Solid (applied ps qs) :=
  hps.append hqs.parens.toSteady rfl

theorem Solid.grouped (h : Solid ps) (needed : Bool) : Solid (grouped needed ps) := by
  cases needed with
  | false => exact h
  | true => exact h.toSteady.parens

/-- A row of one piece. -/
theorem steady_piece {p : Piece} (hvalid : p.valid = true) (hgap : p ≠ .gap)
    (hcloses : ∀ depth, depthOver depth p.spelling?.toList = depth) : Steady [p] := by
  constructor
  · intro stop hstop
    exact ⟨hvalid, endsBefore_of_isBreak hstop hgap, trivial⟩
  · intro depth
    rw [spellingsOf_cons, depthOver_append, hcloses]
    rfl

theorem steady_fixed {kind : Kind} (hvalid : fixedText kind ≠ []) (hopen : kind ≠ .openParen)
    (hclose : kind ≠ .closeParen) : Steady [.fixed kind] := by
  apply steady_piece
  · exact decide_eq_true hvalid
  · simp
  intro depth
  change Scan.depthAfter depth kind = depth
  rw [Scan.depthAfter, if_neg hopen, if_neg hclose]

theorem Solid.mark (h : Solid ps) {kind : Kind} (hkind : kind = .colon ∨ kind = .comma) :
    Solid (ps ++ [.fixed kind]) := by
  rcases hkind with rfl | rfl
  · exact h.append (steady_fixed (by decide) (by decide) (by decide)) rfl
  · exact h.append (steady_fixed (by decide) (by decide) (by decide)) rfl

theorem solid_fixed {kind : Kind} (hvalid : fixedText kind ≠ []) (hopen : kind ≠ .openParen)
    (hclose : kind ≠ .closeParen) : Solid [.fixed kind] := by
  refine ⟨steady_fixed hvalid hopen hclose, ?_⟩
  cases kind with
  | eof | newline | indent | dedent | integer | float | char | identifier =>
    exact absurd rfl hvalid
  | _ => rfl

theorem solid_listed {ps : List Piece} {rows : List (List Piece)} (hps : Solid ps)
    (hrows : ∀ qs ∈ rows, Solid qs) : Solid (listed (ps :: rows)) := by
  induction rows generalizing ps with
  | nil => exact hps
  | cons qs rows ih =>
    have hrest : Solid (listed (qs :: rows)) :=
      ih (hrows qs List.mem_cons_self) fun qs' h => hrows qs' (List.mem_cons_of_mem qs h)
    exact (hps.mark (.inr rfl)).spaced hrest

theorem steady_listed {rows : List (List Piece)} (h : ∀ ps ∈ rows, Solid ps) :
    Steady (listed rows) := by
  cases rows with
  | nil => exact steady_nil
  | cons ps rows =>
    exact (solid_listed (h ps List.mem_cons_self)
      fun qs hqs => h qs (List.mem_cons_of_mem ps hqs)).toSteady

end Rows

/-! ### Names and numbers -/

theorem any_of_any {p q : Char → Bool} {o : Option Char} (h : o.any p = true)
    (hpq : ∀ c, p c = true → q c = true) : o.any q = true := by
  cases o with
  | none => cases h
  | some c => exact hpq c h

theorem name_head {text : String} (h : isName text = true) :
    text.toList.head?.any isWordStart = true := by
  rw [isName] at h
  split at h
  next => cases h
  next c cs htext =>
    simp only [Bool.and_eq_true] at h
    rw [htext]
    exact h.1.1

theorem digits_head (n : Nat) : (Nat.toDigits 10 n).head?.any isWordPart = true := by
  cases h : Nat.toDigits 10 n with
  | nil => exact absurd h Nat.toDigits_ne_nil
  | cons c cs => exact isWordPart_of_isDigit (isDigit_of_mem_toDigits (h ▸ List.mem_cons_self))

theorem exactText_head (x : Binary64) : x.exactText.head?.any isWordPart = true := by
  rw [Binary64.exactText]
  split
  · exact head?_append_any (digits_head _) _
  · exact head?_append_any (digits_head _) _

theorem solid_of_head {ps : List Piece} (h : Steady ps)
    (hhead : (textOf ps).head?.any isWordPart = true) : Solid ps := by
  refine ⟨h, any_of_any hhead ?_⟩
  intro c hc
  rw [isGap_of_isWordPart hc]
  rfl

theorem solid_name {text : String} (h : isName text = true) : Solid [.name text] := by
  apply solid_of_head
  · exact steady_piece h (by simp) fun _ => rfl
  · exact head?_append_any (any_of_any (name_head h) fun _ => Lexeme.isWordPart_of_isWordStart) []

theorem solid_char (value : Char) : Solid [.char value] :=
  ⟨steady_piece rfl (by simp) fun _ => rfl, rfl⟩

/-- A minus sign before what is not the rest of an arrow. -/
theorem Steady.dash {ps : List Piece} (h : Steady ps)
    (hhead : (textOf ps).head?.any (· ≠ '>') = true) : Solid (.fixed .dash :: ps) := by
  refine ⟨⟨?_, ?_⟩, rfl⟩
  · intro stop hstop
    exact ⟨rfl, headD_of_any hhead stop, h.flows hstop⟩
  · exact h.closes

theorem ne_greater_of_isWordPart {c : Char} (h : isWordPart c = true) :
    decide (c ≠ '>') = true := by
  apply decide_eq_true
  rintro rfl
  exact absurd h (by decide)

theorem Solid.dash_value {p : Piece} (h : Solid [p]) (hhead : p.text.head?.any isWordPart = true) :
    Solid [.fixed .dash, p] :=
  h.toSteady.dash (head?_append_any (any_of_any hhead fun _ => ne_greater_of_isWordPart) [])

theorem solid_integer (n : Nat) : Solid [.integer n] :=
  solid_of_head (steady_piece rfl (by simp) fun _ => rfl)
    (head?_append_any (digits_head n) [])

theorem solid_float {x : Binary64} (h : x.bits.toNat < 0x7FF0000000000000) :
    Solid [.float x] := by
  have hvalid : (Piece.float x).valid = true := by
    rw [Piece.valid, Binary64.isFinite, Binary64.isNegative, Bool.and_eq_true, Bool.not_eq_true']
    exact ⟨decide_eq_true (by omega), decide_eq_false (by omega)⟩
  exact solid_of_head (steady_piece hvalid (by simp) fun _ => rfl)
    (head?_append_any (exactText_head x) [])

theorem Expr.head_of_isNamed {e : Expr} (hnamed : e.isNamed = true) (h : e.isPrintable = true)
    (floor : Nat) : (textOf (e.pieces floor)).head?.any isWordStart = true := by
  cases e with
  | symbol name _ =>
    rw [Expr.isPrintable] at h
    exact head?_append_any (name_head h) []
  | call callee arguments _ =>
    rw [Expr.isPrintable, Bool.and_eq_true] at h
    rw [Expr.pieces]
    exact head?_append_any (name_head h.1) _
  | number | float | char | binary | compare | logic | negate => cases hnamed

/-! ### Expressions and lines -/

theorem solid_operator {kind : Kind} {left right : List Piece} (hkind : Solid [.fixed kind])
    (hleft : Solid left) (hright : Solid right) (needed : Bool) :
    Solid (grouped needed (spaced left (spaced [.fixed kind] right))) :=
  (hleft.spaced (hkind.spaced hright)).grouped needed

theorem solid_binary (op : BinaryOp) : Solid [.fixed op.kind] := by
  cases op <;> exact solid_fixed (by decide) (by decide) (by decide)

theorem solid_compare (op : CompareOp) : Solid [.fixed op.kind] := by
  cases op <;> exact solid_fixed (by decide) (by decide) (by decide)

theorem solid_logic (op : BoolOp) : Solid [.fixed op.kind] := by
  cases op <;> exact solid_fixed (by decide) (by decide) (by decide)

mutual

theorem Expr.solid (e : Expr) (h : e.isPrintable = true) (floor : Nat) :
    Solid (e.pieces floor) := by
  cases e with
  | number value _ =>
    rw [Expr.pieces]
    split
    · exact (solid_integer _).dash_value (digits_head _)
    · exact solid_integer _
  | float value _ =>
    rw [Expr.isPrintable] at h
    rw [Expr.pieces]
    split
    next hneg =>
      exact (solid_float (Binary64.bits_neg_lt h hneg)).dash_value (exactText_head value.neg)
    next hpos => exact solid_float (Binary64.bits_lt h (Bool.not_eq_true _ ▸ hpos))
  | char value _ =>
    rw [Expr.pieces]
    exact (solid_name rfl).applied (solid_char value).toSteady
  | symbol name _ =>
    rw [Expr.isPrintable] at h
    rw [Expr.pieces]
    exact solid_name h
  | binary op left right _ =>
    rw [Expr.isPrintable, Bool.and_eq_true] at h
    rw [Expr.pieces]
    exact solid_operator (solid_binary op) (left.solid h.1 _) (right.solid h.2 _) _
  | compare op left right _ =>
    rw [Expr.isPrintable, Bool.and_eq_true] at h
    rw [Expr.pieces]
    exact solid_operator (solid_compare op) (left.solid h.1 _) (right.solid h.2 _) _
  | logic op left right _ =>
    rw [Expr.isPrintable, Bool.and_eq_true] at h
    rw [Expr.pieces]
    exact solid_operator (solid_logic op) (left.solid h.1 _) (right.solid h.2 _) _
  | negate operand _ =>
    rw [Expr.isPrintable, Bool.and_eq_true] at h
    rw [Expr.pieces]
    apply ((operand.solid h.2 _).grouped _).toSteady.dash
    -- the operand begins with a letter or a parenthesis, so no arrow arises
    cases hnamed : operand.isNamed with
    | true =>
      exact any_of_any (Expr.head_of_isNamed hnamed h.2 _) fun c hc =>
        ne_greater_of_isWordPart (Lexeme.isWordPart_of_isWordStart hc)
    | false => rfl
  | call callee arguments _ =>
    rw [Expr.isPrintable, Bool.and_eq_true] at h
    rw [Expr.pieces]
    exact (solid_name h.1).applied (steady_listed (arguments_solid arguments h.2))

theorem arguments_solid (es : List Expr) (h : printableExprs es = true) :
    ∀ ps ∈ argumentPieces es, Solid ps := by
  cases es with
  | nil => exact fun ps hps => absurd hps List.not_mem_nil
  | cons e es =>
    rw [printableExprs, Bool.and_eq_true] at h
    intro ps hps
    rw [argumentPieces] at hps
    rcases List.mem_cons.mp hps with rfl | hps
    · exact e.solid h.1 _
    · exact arguments_solid es h.2 ps hps

end

theorem Solid.line {ps : List Piece} (h : Solid ps) (hword : ps.head?.any Piece.isWord = true)
    (level : Nat) : (Line.mk level ps).Valid := by
  constructor
  · exact h.flows rfl
  · exact hword
  · exact h.closes 0

theorem isWord_name {text : String} (h : isName text = true) : (Piece.name text).isWord = true :=
  name_head h

theorem solid_keyword {kind : Kind} (h : (Piece.fixed kind).isWord = true) :
    Solid [.fixed kind] := by
  apply solid_fixed
  · intro hnil
    simp [Piece.isWord, Piece.text, hnil] at h
  · rintro rfl
    cases h
  · rintro rfl
    cases h

theorem conditionLine_valid {lead : Kind} (hlead : (Piece.fixed lead).isWord = true)
    {condition : Expr} (h : condition.isPrintable = true) (level : Nat) :
    (conditionLine lead condition level).Valid :=
  ((solid_keyword hlead).spaced ((condition.solid h _).mark (.inl rfl))).line hlead level

/-- A word alone on its line. -/
theorem keyword_valid {kind : Kind} (h : (Piece.fixed kind).isWord = true) (level : Nat) :
    (Line.mk level [.fixed kind]).Valid := (solid_keyword h).line h level

theorem call_valid {call : Expr} (hcall : call.isCall = true) (h : call.isPrintable = true)
    (level : Nat) : (Line.mk level (call.pieces Strength.lowest.rank)).Valid := by
  refine (call.solid h _).line ?_ level
  cases call with
  | call callee arguments _ =>
    rw [Expr.isPrintable, Bool.and_eq_true] at h
    rw [Expr.pieces]
    exact isWord_name h.1
  | number | float | char | symbol | binary | compare | logic | negate => cases hcall

/-! ### Induction over what can be written -/

theorem printableStmts_iff {ss : List Stmt} :
    printableStmts ss = true ↔ ∀ s ∈ ss, s.isPrintable = true := by
  induction ss with
  | nil => simp [printableStmts]
  | cons s ss ih => simp [printableStmts, ih]

theorem Block.isPrintable_iff {b : Block Stmt} :
    b.isPrintable = true ↔ b.body ≠ [] ∧ ∀ s ∈ b.body, s.isPrintable = true := by
  obtain ⟨body, span⟩ := b
  simp [Block.isPrintable, printableStmts_iff]

/-- What holds of every printable statement, if it holds of one whenever it holds of those
    in its blocks. -/
theorem Stmt.printable_induction {P : Stmt → Prop}
    (assign : ∀ target value span, isName target = true → value.isPrintable = true →
      P (.assign target value span))
    (perform : ∀ call span, call.isCall = true → call.isPrintable = true → P (.perform call span))
    (ifThen : ∀ condition body span, condition.isPrintable = true → body.body ≠ [] →
      (∀ s ∈ body.body, P s) → P (.ifThen condition body span))
    (ifElse : ∀ condition body orElse span, condition.isPrintable = true → body.body ≠ [] →
      (∀ s ∈ body.body, P s) → orElse.body ≠ [] → (∀ s ∈ orElse.body, P s) →
      P (.ifElse condition body orElse span))
    (whileDo : ∀ condition body span, condition.isPrintable = true → body.body ≠ [] →
      (∀ s ∈ body.body, P s) → P (.whileDo condition body span))
    (ret : ∀ value span, (∀ e ∈ value, e.isPrintable = true) → P (.ret value span))
    (pass : ∀ span, P (.pass span)) (brk : ∀ span, P (.brk span)) (cont : ∀ span, P (.cont span))
    (s : Stmt) : s.isPrintable = true → P s := by
  apply @Stmt.rec (fun s => s.isPrintable = true → P s)
    (fun b => b.isPrintable = true → b.body ≠ [] ∧ ∀ s ∈ b.body, P s)
    (fun ss => printableStmts ss = true → ∀ s ∈ ss, P s)
  case assign =>
    intro target value span h
    rw [Stmt.isPrintable, Bool.and_eq_true] at h
    exact assign target value span h.1 h.2
  case perform =>
    intro call span h
    rw [Stmt.isPrintable, Bool.and_eq_true] at h
    exact perform call span h.1 h.2
  case ifThen =>
    intro condition body span ih h
    rw [Stmt.isPrintable, Bool.and_eq_true] at h
    exact ifThen condition body span h.1 (ih h.2).1 (ih h.2).2
  case ifElse =>
    intro condition body orElse span ih ih' h
    rw [Stmt.isPrintable, Bool.and_eq_true, Bool.and_eq_true] at h
    exact ifElse condition body orElse span h.1.1 (ih h.1.2).1 (ih h.1.2).2 (ih' h.2).1 (ih' h.2).2
  case whileDo =>
    intro condition body span ih h
    rw [Stmt.isPrintable, Bool.and_eq_true] at h
    exact whileDo condition body span h.1 (ih h.2).1 (ih h.2).2
  case ret =>
    intro value span h
    apply ret
    rintro e he
    rw [Option.mem_def] at he
    rwa [he, Stmt.isPrintable] at h
  case pass => exact fun span _ => pass span
  case brk => exact fun span _ => brk span
  case cont => exact fun span _ => cont span
  case mk =>
    intro body span ih h
    rw [Block.isPrintable, Bool.and_eq_true, Bool.not_eq_true'] at h
    exact ⟨by simpa using h.1, ih h.2⟩
  case nil => exact fun _ s hs => absurd hs List.not_mem_nil
  case cons =>
    intro s ss hs hss h
    rw [printableStmts, Bool.and_eq_true] at h
    exact List.forall_mem_cons.mpr ⟨hs h.1, hss h.2⟩

/-! ### Well-laid lines -/

/-- Holds for the lines that may follow those of a block at the given level. -/
def Stacked (level : Nat) (ls : List Line) : Prop := ∀ m, level ≤ m → WellLaid m ls

theorem Stacked.mono {level level' : Nat} {ls : List Line} (h : Stacked level ls)
    (hle : level ≤ level') : Stacked level' ls :=
  fun m hm => h m (hle.trans hm)

theorem stacked_nil (level : Nat) : Stacked level [] := fun _ _ => trivial

theorem stacked_cons {l : Line} {ls : List Line} (hl : l.Valid) (h : WellLaid l.level ls) :
    Stacked l.level (l :: ls) :=
  fun _ hm => ⟨hl, Nat.le_succ_of_le hm, h⟩

/-- Holds if the lines of a statement are well laid before all lines that may follow. -/
def Stmt.LaysOut (chained : Bool) (s : Stmt) : Prop :=
  ∀ ⦃lead : Kind⦄, (Piece.fixed lead).isWord = true → ∀ ⦃level n : Nat⦄ ⦃more : List Line⦄,
    level ≤ n + 1 → Stacked level more → WellLaid n (s.lines chained lead level ++ more)

section

variable {chained : Bool} {lead : Kind} {level n : Nat} {more : List Line} {ss : List Stmt}

theorem stacked_stmtLines (h : ∀ s ∈ ss, s.LaysOut chained)
    (hlead : (Piece.fixed lead).isWord = true) (hmore : Stacked level more) :
    Stacked level (stmtLines chained ss lead level ++ more) := by
  induction ss with
  | nil => exact hmore
  | cons s ss ih =>
    intro m hm
    have hss := ih fun s' hs' => h s' (List.mem_cons_of_mem s hs')
    rw [stmtLines, List.append_assoc]
    exact h s List.mem_cons_self hlead (Nat.le_succ_of_le hm) hss

theorem wellLaid_stmtLines (hne : ss ≠ []) (h : ∀ s ∈ ss, s.LaysOut chained)
    (hlead : (Piece.fixed lead).isWord = true) (hn : level ≤ n + 1) (hmore : Stacked level more) :
    WellLaid n (stmtLines chained ss lead level ++ more) := by
  obtain ⟨s, ss, rfl⟩ := List.exists_cons_of_ne_nil hne
  rw [stmtLines, List.append_assoc]
  apply h s List.mem_cons_self hlead hn
  exact stacked_stmtLines (fun s' hs' => h s' (List.mem_cons_of_mem s hs')) hlead hmore

/-- The lines of a block behind the line that opens it. -/
theorem wellLaid_block {b : Block Stmt} (hne : b.body ≠ []) (h : ∀ s ∈ b.body, s.LaysOut chained)
    (hmore : Stacked level more) : WellLaid level (b.lines chained (level + 1) ++ more) := by
  obtain ⟨body, span⟩ := b
  exact wellLaid_stmtLines hne h rfl (Nat.le_refl _) (hmore.mono (Nat.le_succ _))

theorem stacked_otherwise {b : Block Stmt} (hne : b.body ≠ [])
    (h : ∀ s ∈ b.body, s.LaysOut chained) (hmore : Stacked level more) :
    Stacked level (b.otherwiseLines chained level ++ more) := by
  obtain ⟨body, span⟩ := b
  rw [Block.otherwiseLines]
  split
  · exact stacked_stmtLines h rfl hmore
  · have helse : Solid [.fixed .elseWord, .fixed .colon] :=
      (solid_keyword rfl).mark (.inl rfl)
    exact stacked_cons (helse.line rfl level)
      (wellLaid_block (b := ⟨body, span⟩) hne h hmore)

theorem Stmt.laysOut {s : Stmt} (h : s.isPrintable = true) : s.LaysOut chained := by
  revert h
  apply Stmt.printable_induction (P := Stmt.LaysOut chained)
  case assign =>
    intro target value span htarget hvalue lead hlead level n more hn hmore
    rw [Stmt.lines]
    have hline : Solid (spaced [.name target] (spaced [.fixed .assignment] (value.pieces 0))) :=
      (solid_name htarget).spaced ((solid_fixed (by decide) (by decide) (by decide)).spaced
        (value.solid hvalue 0))
    exact ⟨hline.line (isWord_name htarget) level, hn, hmore level (Nat.le_refl _)⟩
  case perform =>
    intro call span hcall hprint lead hlead level n more hn hmore
    rw [Stmt.lines]
    exact ⟨call_valid hcall hprint level, hn, hmore level (Nat.le_refl _)⟩
  case ifThen =>
    intro condition body span hcondition hne hbody lead hlead level n more hn hmore
    rw [Stmt.lines]
    exact ⟨conditionLine_valid hlead hcondition level, hn, wellLaid_block hne hbody hmore⟩
  case ifElse =>
    intro condition body orElse span hcondition hne hbody hne' helse lead hlead level n more hn
      hmore
    rw [Stmt.lines, List.cons_append, List.append_assoc]
    exact ⟨conditionLine_valid hlead hcondition level, hn,
      wellLaid_block hne hbody (stacked_otherwise hne' helse hmore)⟩
  case whileDo =>
    intro condition body span hcondition hne hbody lead hlead level n more hn hmore
    rw [Stmt.lines]
    exact ⟨conditionLine_valid rfl hcondition level, hn, wellLaid_block hne hbody hmore⟩
  case ret =>
    intro value span hvalue lead hlead level n more hn hmore
    cases value with
    | none =>
      rw [Stmt.lines]
      exact ⟨keyword_valid rfl level, hn, hmore level (Nat.le_refl _)⟩
    | some e =>
      rw [Stmt.lines]
      have hline : Solid (spaced [.fixed .returnWord] (e.pieces 0)) :=
        (solid_keyword rfl).spaced (e.solid (hvalue e rfl) 0)
      exact ⟨hline.line rfl level, hn, hmore level (Nat.le_refl _)⟩
  case pass | brk | cont =>
    intro span lead hlead level n more hn hmore
    rw [Stmt.lines]
    exact ⟨keyword_valid rfl level, hn, hmore level (Nat.le_refl _)⟩

/-! ### Programs -/

theorem solid_signature {name : List Piece} {params : List (List Piece)}
    {result : Option TypeExpr} (hname : Solid name) (hparams : ∀ ps ∈ params, Solid ps)
    (hresult : result.all TypeExpr.isPrintable = true) :
    Solid (signaturePieces name params result) := by
  have happlied := hname.applied (steady_listed hparams)
  cases result with
  | none => exact happlied
  | some t =>
    exact happlied.spaced ((solid_fixed (by decide) (by decide) (by decide)).spaced
      (solid_name hresult))

theorem Import.line_valid {i : Import} (h : i.isPrintable = true) : i.line.Valid := by
  simp only [Import.isPrintable, Bool.and_eq_true] at h
  obtain ⟨⟨hmodule, hname⟩, hsignature⟩ := h
  have hitem : Solid i.item := by
    rw [Import.item]
    split
    next s hs =>
      simp only [hs, Option.all_some, ImportSignature.isPrintable, Bool.and_eq_true,
        List.all_eq_true] at hsignature
      apply solid_signature (solid_name hname) _ hsignature.2
      intro ps hps
      obtain ⟨t, ht, rfl⟩ := List.mem_map.mp hps
      exact solid_name (hsignature.1 t ht)
    next => exact solid_name hname
  exact ((solid_keyword rfl).spaced ((solid_name hmodule).spaced
    ((solid_keyword rfl).spaced hitem))).line rfl 0

theorem Function.stacked_lines {f : Function} (h : f.isPrintable = true)
    (hmore : Stacked 0 more) : Stacked 0 (f.lines chained ++ more) := by
  simp only [Function.isPrintable, Bool.and_eq_true, List.all_eq_true] at h
  obtain ⟨⟨⟨hname, hparams⟩, hresult⟩, hbody⟩ := h
  obtain ⟨hne, hstmts⟩ := Block.isPrintable_iff.mp hbody
  have hsignature : Solid (signaturePieces [.name f.name] (f.params.map Parameter.pieces)
      f.result) := by
    apply solid_signature (solid_name hname) _ hresult
    intro ps hps
    obtain ⟨p, hp, rfl⟩ := List.mem_map.mp hps
    have hparam := hparams p hp
    rw [Parameter.isPrintable, Bool.and_eq_true] at hparam
    exact ((solid_name hparam.1).mark (.inl rfl)).spaced (solid_name hparam.2)
  have hdef : Solid [.fixed .defWord] := solid_keyword rfl
  have hline := hdef.spaced (hsignature.mark (.inl rfl))
  exact stacked_cons (hline.line rfl 0)
    (wellLaid_block hne (fun s hs => Stmt.laysOut (hstmts s hs)) hmore)

theorem Program.wellLaid_lines {p : Program} (h : p.isPrintable = true) (chained : Bool) :
    WellLaid 0 (p.lines chained) := by
  simp only [Program.isPrintable, Bool.and_eq_true, List.all_eq_true] at h
  obtain ⟨himports, hfunctions⟩ := h
  have hdefinitions : Stacked 0 (p.functions.flatMap (Function.lines chained)) := by
    generalize p.functions = fs at hfunctions
    induction fs with
    | nil => exact stacked_nil 0
    | cons f fs ih =>
      exact Function.stacked_lines (hfunctions f List.mem_cons_self)
        (ih fun f' hf' => hfunctions f' (List.mem_cons_of_mem f hf'))
  have hall : Stacked 0 (p.lines chained) := by
    rw [Program.lines]
    generalize p.imports = is at himports
    induction is with
    | nil => exact hdefinitions
    | cons i is ih =>
      have hrest := ih fun i' hi' => himports i' (List.mem_cons_of_mem i hi')
      exact stacked_cons (l := i.line) (Import.line_valid (himports i List.mem_cons_self))
        (hrest 0 (Nat.le_refl _))
  exact hall 0 (Nat.le_refl _)

end

end Offside.Surface
