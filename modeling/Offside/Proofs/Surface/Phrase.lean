/-
  Offside/Proofs/Surface/Phrase.lean
  ==================================
  **The grammar of expressions.**  `Phrase n w e` says that the spellings `w` are a phrase
  for the expression `e`, all of whose operators outside parentheses and argument lists
  bind tighter than rank `n`.  Each operator has a rule of its own: on the left of an
  arithmetic operator or a connective may stand one of the same rank, on the right only a
  tighter one, and a comparison has tighter operands on both sides.

  Reading by precedence climbing finds the phrase (`Phrase.reads`).  The reader takes the
  first operand and lets the operators behind it take over, so that a phrase nested to the
  left is not read in the order of its rules.  What is proved by induction is therefore
  that reading the phrase comes to climbing on from its expression, whatever follows;
  what follows must not bind to the last operand of the phrase (`Stops`).
-/
import Offside.Proofs.Surface.Spelling

namespace Offside

/-! ### Operators as tokens -/

def BinaryOp.kind : BinaryOp → Kind
  | .add => .plus
  | .sub => .dash
  | .mul => .star
  | .div => .slash

def CompareOp.kind : CompareOp → Kind
  | .lt => .less
  | .le => .lessEquals
  | .gt => .greater
  | .ge => .greaterEquals
  | .eq => .equals
  | .ne => .notEquals

def BoolOp.kind : BoolOp → Kind
  | .and => .andWord
  | .or => .orWord

def BinaryOp.strength : BinaryOp → Surface.Strength
  | .add | .sub => .additive
  | .mul | .div => .multiplicative

def BoolOp.strength : BoolOp → Surface.Strength
  | .and => .and
  | .or => .or

namespace Surface

open Number

theorem arithmeticOf?_kind (op : BinaryOp) : arithmeticOf? op.kind = some op := by
  cases op <;> rfl

theorem comparisonOf?_kind (op : CompareOp) : comparisonOf? op.kind = some op := by
  cases op <;> rfl

theorem connectiveOf_kind (op : BoolOp) : connectiveOf op.kind = op := by cases op <;> rfl

theorem tail_binary (op : BinaryOp) :
    Grammar.standard.tail op.kind = some (op.strength, .arithmetic) := by cases op <;> rfl

theorem tail_compare (op : CompareOp) :
    Grammar.standard.tail op.kind = some (.relational, .comparison) := by cases op <;> rfl

theorem tail_logic (op : BoolOp) :
    Grammar.standard.tail op.kind = some (op.strength, .connective) := by cases op <;> rfl

/-! ### Phrases -/

/-- The phrases for the name of a callee, which may stand in parentheses. -/
inductive NamePhrase : List Spelling → String → Prop where
  | name (name : String) : NamePhrase [⟨.identifier, name⟩] name
  | group {w : List Spelling} {name : String} (v v' : String) (h : NamePhrase w name) :
      NamePhrase (⟨.openParen, v⟩ :: (w ++ [⟨.closeParen, v'⟩])) name

mutual

/-- The phrases for an expression.  Spans are left out of the expressions. -/
inductive Phrase : Nat → List Spelling → Expr → Prop where
  | number (n : Nat) {text : String} {value : Int32} (h : integer? text = some value) :
      Phrase n [⟨.integer, text⟩] (.number value .nowhere)
  | float (n : Nat) {text : String} {value : Binary64} (h : Binary64.ofText? text = some value) :
      Phrase n [⟨.float, text⟩] (.float value .nowhere)
  | symbol (n : Nat) (name : String) : Phrase n [⟨.identifier, name⟩] (.symbol name .nowhere)
  | group (n : Nat) {w : List Spelling} {e : Expr} (v v' : String)
      (h : Phrase Strength.lowest.rank w e) :
      Phrase n (⟨.openParen, v⟩ :: (w ++ [⟨.closeParen, v'⟩])) e
  | call {n : Nat} {w ws : List Spelling} {callee : String} {args : List Expr} (v v' : String)
      (hn : n < Strength.call.rank) (hname : NamePhrase w callee)
      (hargs : Phrases ws args) :
      Phrase n (w ++ ⟨.openParen, v⟩ :: (ws ++ [⟨.closeParen, v'⟩])) (.call callee args .nowhere)
  | ord {n : Nat} {w : List Spelling} (text v v' : String) (hn : n < Strength.call.rank)
      (hname : NamePhrase w ordName) :
      Phrase n (w ++ [⟨.openParen, v⟩, ⟨.char, text⟩, ⟨.closeParen, v'⟩])
        (.char (text.toList.headD '\x00') .nowhere)
  /-- A minus sign before an integer belongs to it. -/
  | negative {n : Nat} {text : String} {value : Int} (v : String) (hn : n < Strength.call.rank)
      (h : negatedMagnitude .nowhere ⟨.integer, text, .nowhere⟩ = .ok value) :
      Phrase n [⟨.dash, v⟩, ⟨.integer, text⟩] (.number (negated value) .nowhere)
  | minus {n : Nat} {w : List Spelling} {e : Expr} (v : String) (hn : n < Strength.call.rank)
      (hw : nextKind w ≠ .integer) (h : Phrase Strength.unary.rank w e) :
      Phrase n (⟨.dash, v⟩ :: w) (negation e .nowhere)
  | binary {n : Nat} {w w' : List Spelling} {l r : Expr} (op : BinaryOp) (v : String)
      (hn : n < op.strength.rank) (hl : Phrase (op.strength.rank - 1) w l)
      (hr : Phrase op.strength.rank w' r) :
      Phrase n (w ++ ⟨op.kind, v⟩ :: w') (.binary op l r .nowhere)
  | compare {n : Nat} {w w' : List Spelling} {l r : Expr} (op : CompareOp) (v : String)
      (hn : n < Strength.relational.rank) (hl : Phrase Strength.relational.rank w l)
      (hr : Phrase Strength.relational.rank w' r) :
      Phrase n (w ++ ⟨op.kind, v⟩ :: w') (.compare op l r .nowhere)
  | logic {n : Nat} {w w' : List Spelling} {l r : Expr} (op : BoolOp) (v : String)
      (hn : n < op.strength.rank) (hl : Phrase (op.strength.rank - 1) w l)
      (hr : Phrase op.strength.rank w' r) :
      Phrase n (w ++ ⟨op.kind, v⟩ :: w') (.logic op l r .nowhere)

/-- The phrases for arguments.  A comma may stand behind the last. -/
inductive Phrases : List Spelling → List Expr → Prop where
  | nil : Phrases [] []
  | last {w : List Spelling} {e : Expr} (h : Phrase Strength.lowest.rank w e) : Phrases w [e]
  | cons {w ws : List Spelling} {e : Expr} {es : List Expr} (v : String)
      (h : Phrase Strength.lowest.rank w e) (hs : Phrases ws es) :
      Phrases (w ++ ⟨.comma, v⟩ :: ws) (e :: es)

end

theorem Phrase.exists_cons {n : Nat} {w : List Spelling} {e : Expr} (h : Phrase n w e) :
    ∃ s w', w = s :: w' ∧ Grammar.standard.head s.kind ≠ none ∧ s.kind ≠ .char := by
  cases h with
  | number | float | symbol | group | negative | minus =>
    exact ⟨_, _, rfl, by simp [Grammar.standard, Grammar.withType, Grammar.withStandard,
      Grammar.standardHead], by simp⟩
  | call _ _ _ hname _ | ord _ _ _ _ hname =>
    cases hname with
    | name | group => exact ⟨_, _, rfl, by simp [Grammar.standard, Grammar.withType,
        Grammar.withStandard, Grammar.standardHead], by simp⟩
  | binary _ _ _ hl _ | compare _ _ _ hl _ | logic _ _ _ hl _ =>
    obtain ⟨s, w', rfl, hs⟩ := hl.exists_cons
    exact ⟨s, _, rfl, hs⟩

/-- A token of the kind `k` behind a phrase of rank `n` leaves the phrase as it is: it
    binds no tighter than the operators of the phrase, or equally and to the left. -/
def Stops (n : Nat) (k : Kind) : Prop :=
  ∀ s tail, Grammar.standard.tail k = some (s, tail) →
    s.rank ≤ n ∨ s.rank = n + 1 ∧ s ≠ .relational ∧ s ≠ .call

/-- A token of the kind `k` binds no tighter than rank `n`. -/
def Loose (n : Nat) (k : Kind) : Prop :=
  ∀ s tail, Grammar.standard.tail k = some (s, tail) → s.rank ≤ n

theorem Loose.stops {n : Nat} {k : Kind} (h : Loose n k) : Stops n k := by
  intro s tail hs
  exact .inl (h s tail hs)

theorem loose_of_none {n : Nat} {k : Kind} (h : Grammar.standard.tail k = none) : Loose n k := by
  intro s tail hs
  rw [h] at hs
  cases hs

theorem Stops.loose {n m : Nat} {k : Kind} (h : Stops n k) (hnm : n < m) : Loose m k := by
  intro s tail hs
  rcases h s tail hs with hle | ⟨heq, -⟩
  · omega
  · omega

theorem Stops.loose_unary {n : Nat} {k : Kind} (h : Stops n k) (hn : n < Strength.call.rank) :
    Loose Strength.unary.rank k := by
  intro s tail hs
  rcases h s tail hs with hle | ⟨heq, -, hcall⟩
  · exact Nat.le_trans hle (Nat.le_of_lt_succ hn)
  · cases s <;> simp_all [Strength.rank]

theorem Stops.ne_openParen {n : Nat} {k : Kind} (h : Stops n k) (hn : n < Strength.call.rank) :
    k ≠ .openParen := by
  rintro rfl
  rcases h .call .call rfl with hle | ⟨-, -, hcall⟩
  · omega
  · exact hcall rfl

theorem Stops.comparisonOf?_eq_none {n : Nat} {k : Kind} (h : Stops n k)
    (hn : n < Strength.relational.rank) : comparisonOf? k = none := by
  cases hop : comparisonOf? k with
  | none => rfl
  | some op =>
    have htail : Grammar.standard.tail k = some (.relational, .comparison) := by
      cases k <;> first | rfl | cases hop
    rcases h .relational .comparison htail with hle | ⟨-, hne, -⟩
    · omega
    · exact absurd rfl hne

theorem stops_tail {n : Nat} {k : Kind} {s : Strength} {tail : Tail}
    (htail : Grammar.standard.tail k = some (s, tail))
    (h : s.rank ≤ n ∨ s.rank = n + 1 ∧ s ≠ .relational ∧ s ≠ .call) : Stops n k := by
  intro s' tail' hs
  rw [htail] at hs
  obtain ⟨rfl, rfl⟩ := Prod.mk.inj (Option.some.inj hs)
  exact h

/-- On the left of an operator may stand one of its own rank. -/
theorem stops_binary (op : BinaryOp) : Stops (op.strength.rank - 1) op.kind :=
  stops_tail (tail_binary op) (by cases op <;> simp [BinaryOp.strength, Strength.rank])

theorem stops_logic (op : BoolOp) : Stops (op.strength.rank - 1) op.kind :=
  stops_tail (tail_logic op) (by cases op <;> simp [BoolOp.strength, Strength.rank])

theorem stops_compare (op : CompareOp) : Stops Strength.relational.rank op.kind :=
  stops_tail (tail_compare op) (.inl (Nat.le_refl _))

/-! ### Steps of climbing -/

section Steps

variable {floor : Strength} {left : Expr} {c : Cursor} {Q : Expr → Prop} {r : List Spelling}

theorem climb_stop (h : Loose floor.rank c.kind) :
    climb .standard floor left c = .pure left c := by
  rw [climb]
  cases htail : Grammar.standard.tail c.kind with
  | none => rfl
  | some found =>
    obtain ⟨strength, tail⟩ := found
    have hrank := h strength tail htail
    exact if_neg (by omega)

/-- A tail that binds tighter than the floor takes the expression read so far. -/
theorem climb_tail {s : Spelling} {w w' : List Spelling} {strength : Strength} {tail : Tail}
    {P : Expr → Prop} (hc : c.spellings = s :: w)
    (htail : Grammar.standard.tail s.kind = some (strength, tail))
    (hrank : floor.rank < strength.rank)
    (h : (tailed .standard tail strength left c).Gives P w')
    (next : ∀ e c', P e → c'.spellings = w' → (climb .standard floor e c').Gives Q r) :
    (climb .standard floor left c).Gives Q r := by
  rw [climb, Cursor.kind_of hc, htail]
  dsimp only
  rw [if_pos hrank]
  exact (h.andThen fun e c' _ => next e c').weaken _

theorem operand_gives {s : Spelling} {w : List Spelling} (hc : c.spellings = s :: w)
    (h : (expr .standard floor c.advance).Gives Q r) : (operand .standard floor c).Gives Q r := by
  rw [operand, dif_pos (Cursor.left_pos_of hc)]
  exact h.weaken _

/-- Reading from a head on. -/
theorem expr_headed {s : Spelling} {w w' : List Spelling} {head : Head} {P : Expr → Prop}
    (hc : c.spellings = s :: w) (hhead : Grammar.standard.head s.kind = some head)
    (h : (headed .standard head c).Gives P w')
    (next : ∀ e c', P e → c'.spellings = w' → (climb .standard floor e c').Gives Q r) :
    (expr .standard floor c).Gives Q r := by
  rw [expr, Cursor.kind_of hc, hhead]
  exact h.andThen fun e c' _ => next e c'

theorem climb_gives {e : Expr} (he : left.bare = e) (hc : c.spellings = r)
    (h : Loose floor.rank (nextKind r)) :
    (climb .standard floor left c).Gives (·.bare = e) r := by
  rw [climb_stop (by rwa [Cursor.kind_eq, hc])]
  exact Reading.gives_pure he hc

end Steps

theorem exists_symbol_of_bare {e : Expr} {name : String} (h : e.bare = .symbol name .nowhere) :
    ∃ span, e = .symbol name span := by
  cases e with
  | symbol name' span =>
    obtain rfl : name' = name := by
      rw [Expr.bare] at h
      exact (Expr.symbol.inj h).1
    exact ⟨span, rfl⟩
  | _ => simp [Expr.bare] at h

theorem bare_negation (e : Expr) (span : Span) :
    (negation e span).bare = negation e.bare .nowhere := by
  cases e <;> rfl

theorem negatedMagnitude_ok {minus minus' : Span} {t t' : Token} {value : Int}
    (ht : t.value = t'.value) (h : negatedMagnitude minus t = .ok value) :
    negatedMagnitude minus' t' = .ok value := by
  rw [negatedMagnitude] at h ⊢
  rw [← ht]
  by_cases hhex : (afterHexMark? t.value.toList).isSome = true
  · rw [if_pos hhex] at h ⊢
    cases hvalue : integer? t.value with
    | none => simp [hvalue] at h
    | some i => simpa [hvalue] using h
  · rw [if_neg hhex] at h ⊢
    cases hvalue : magnitude? t.value with
    | none => simp [hvalue] at h
    | some i => simpa [hvalue] using h

theorem Phrases.nextKind_ne_char {ws r : List Spelling} {es : List Expr} (h : Phrases ws es)
    (v : String) : nextKind (ws ++ ⟨.closeParen, v⟩ :: r) ≠ .char := by
  cases h with
  | nil => simp
  | last h =>
    obtain ⟨s, w', rfl, -, hs⟩ := h.exists_cons
    exact hs
  | cons _ h _ =>
    obtain ⟨s, w', rfl, -, hs⟩ := h.exists_cons
    exact hs

theorem Phrase.nextKind_ne {n : Nat} {w : List Spelling} {e : Expr} (h : Phrase n w e)
    {k : Kind} (hk : Grammar.standard.head k = none) (r : List Spelling) :
    nextKind (w ++ r) ≠ k := by
  obtain ⟨s, w', rfl, hs, -⟩ := h.exists_cons
  rintro rfl
  exact hs hk

/-! ### Reading phrases -/

/-- Reading `w` comes to climbing on from `e`, if what follows stops the phrase. -/
def ClimbsFrom (n : Nat) (w : List Spelling) (e : Expr) : Prop :=
  ∀ ⦃floor : Strength⦄ ⦃c : Cursor⦄ ⦃r r' : List Spelling⦄ ⦃Q : Expr → Prop⦄,
    floor.rank ≤ n → c.spellings = w ++ r → Stops n (nextKind r) →
    (∀ e' c', e'.bare = e → c'.spellings = r → (climb .standard floor e' c').Gives Q r') →
    (expr .standard floor c).Gives Q r'

/-- The operand of an operator ends before a token that binds no tighter. -/
theorem ClimbsFrom.operand {strength : Strength} {w r : List Spelling} {e : Expr}
    (h : ClimbsFrom strength.rank w e) {c : Cursor} {s : Spelling}
    (hc : c.spellings = s :: (w ++ r)) (hr : Loose strength.rank (nextKind r)) :
    (Surface.operand .standard strength c).Gives (·.bare = e) r := by
  apply operand_gives hc
  apply h (Nat.le_refl _) (Cursor.advance_of hc) hr.stops
  intro e' c' he' hc'
  exact climb_gives he' hc' hr

/-- The expression is read as a whole if nothing behind it continues one. -/
theorem ClimbsFrom.gives {w r : List Spelling} {e : Expr}
    (h : ClimbsFrom Strength.lowest.rank w e) {c : Cursor} (hc : c.spellings = w ++ r)
    (hr : Grammar.standard.tail (nextKind r) = none) :
    (expr .standard .lowest c).Gives (·.bare = e) r := by
  apply h (Nat.le_refl _) hc (loose_of_none hr).stops
  intro e' c' he' hc'
  exact climb_gives he' hc' (loose_of_none hr)

/-- What begins with a head is read from the head on. -/
theorem climbsFrom_head {n : Nat} {s : Spelling} {w : List Spelling} {e : Expr} {head : Head}
    (hhead : Grammar.standard.head s.kind = some head)
    (h : ∀ c r, c.spellings = s :: (w ++ r) → Stops n (nextKind r) →
      (headed .standard head c).Gives (·.bare = e) r) : ClimbsFrom n (s :: w) e := by
  intro floor c r r' Q _ hc hr next
  exact expr_headed hc hhead (h c r hc hr) next

theorem climbsFrom_number {text : String} {value : Int32} (h : integer? text = some value)
    (n : Nat) : ClimbsFrom n [⟨.integer, text⟩] (.number value .nowhere) := by
  apply climbsFrom_head rfl
  intro c r hc _
  rw [headed, literal, dif_pos (Cursor.kind_of hc), Cursor.value_of hc, h]
  exact Reading.gives_done rfl (Cursor.advance_of hc)

theorem climbsFrom_float {text : String} {value : Binary64}
    (h : Binary64.ofText? text = some value) (n : Nat) :
    ClimbsFrom n [⟨.float, text⟩] (.float value .nowhere) := by
  apply climbsFrom_head rfl
  intro c r hc _
  have hkind : c.kind = .float := Cursor.kind_of hc
  rw [headed, literal, dif_neg (by rw [hkind]; decide), dif_pos hkind, Cursor.value_of hc, h]
  exact Reading.gives_done rfl (Cursor.advance_of hc)

theorem climbsFrom_symbol (name : String) (n : Nat) :
    ClimbsFrom n [⟨.identifier, name⟩] (.symbol name .nowhere) := by
  apply climbsFrom_head rfl
  intro c r hc _
  have hkind : c.kind = .identifier := Cursor.kind_of hc
  rw [headed, literal, dif_neg (by rw [hkind]; decide), dif_neg (by rw [hkind]; decide),
    dif_pos hkind]
  apply Reading.gives_done _ (Cursor.advance_of hc)
  rw [Expr.bare, Cursor.value_of hc]

theorem ClimbsFrom.group {w : List Spelling} {e : Expr}
    (h : ClimbsFrom Strength.lowest.rank w e) (n : Nat) (v v' : String) :
    ClimbsFrom n (⟨.openParen, v⟩ :: (w ++ [⟨.closeParen, v'⟩])) e := by
  apply climbsFrom_head rfl
  intro c r hc _
  rw [List.append_assoc] at hc
  rw [headed]
  refine (operand_gives hc (h.gives (Cursor.advance_of hc) rfl)).andThen ?_
  intro e' c₁ _ he' hc₁
  refine (Cursor.expect_gives hc₁).andThen ?_
  intro _ c₂ _ _ hc₂
  exact Reading.gives_pure he' hc₂

theorem climbsFrom_negative {n : Nat} {text : String} {value : Int} (v : String)
    (hn : n < Strength.call.rank)
    (h : negatedMagnitude .nowhere ⟨.integer, text, .nowhere⟩ = .ok value) :
    ClimbsFrom n [⟨.dash, v⟩, ⟨.integer, text⟩] (.number (negated value) .nowhere) := by
  apply climbsFrom_head rfl
  intro c r hc hr
  have hinteger := Cursor.advance_of hc
  have hpeek : c.advance.peek ≠ .openParen := by
    rw [Cursor.peek_eq, hinteger]
    exact hr.ne_openParen hn
  rw [headed, dif_pos ⟨Cursor.kind_of hinteger, hpeek⟩]
  refine Reading.Gives.weaken ?_ _
  rw [negatedInteger, negatedMagnitude_ok (Cursor.value_of hinteger).symm h]
  exact Reading.gives_done rfl (Cursor.advance_of hinteger)

theorem ClimbsFrom.minus {n : Nat} {s : Spelling} {w : List Spelling} {e : Expr}
    (h : ClimbsFrom Strength.unary.rank (s :: w) e) (v : String) (hn : n < Strength.call.rank)
    (hs : s.kind ≠ .integer) : ClimbsFrom n (⟨.dash, v⟩ :: s :: w) (negation e .nowhere) := by
  apply climbsFrom_head rfl
  intro c r hc hr
  have hinteger : ¬ (c.advance.kind = .integer ∧ c.advance.peek ≠ .openParen) := by
    rintro ⟨hkind, -⟩
    rw [Cursor.kind_of (Cursor.advance_of hc)] at hkind
    exact hs hkind
  rw [headed, dif_neg hinteger]
  refine (h.operand hc (hr.loose_unary hn)).andThen ?_
  intro e' c' _ he' hc'
  apply Reading.gives_pure _ hc'
  rw [bare_negation, he']

/-- A name is read whatever follows it. -/
theorem NamePhrase.climbsFrom {w : List Spelling} {name : String} (h : NamePhrase w name)
    (n : Nat) : ClimbsFrom n w (.symbol name .nowhere) := by
  induction h generalizing n with
  | name name => exact climbsFrom_symbol name n
  | group v v' _ ih => exact (ih Strength.lowest.rank).group n v v'

theorem rank_le_primary (s : Strength) : s.rank ≤ Strength.primary.rank := by
  cases s <;> decide

theorem NamePhrase.call {n : Nat} {w ws : List Spelling} {name v : String} {e : Expr}
    (hname : NamePhrase w name) (hn : n < Strength.call.rank)
    (h : ∀ span c r, c.spellings = ⟨.openParen, v⟩ :: (ws ++ r) →
      (called .standard name span c).Gives (·.bare = e) r) :
    ClimbsFrom n (w ++ ⟨.openParen, v⟩ :: ws) e := by
  intro floor c r r' Q hfloor hc hr next
  rw [List.append_assoc, List.cons_append] at hc
  -- no token binds tighter than a name, so that nothing has to be known of what follows
  have hstops : ∀ k, Stops Strength.primary.rank k := fun k s _ _ => .inl (rank_le_primary s)
  apply hname.climbsFrom Strength.primary.rank (rank_le_primary floor) hc (hstops _)
  intro callee c₁ hcallee hc₁
  obtain ⟨span, rfl⟩ := exists_symbol_of_bare hcallee
  refine climb_tail hc₁ rfl (Nat.lt_of_le_of_lt hfloor hn) ?_ next
  rw [tailed]
  exact h span c₁ r hc₁

/-- Arguments are read up to the closing parenthesis. -/
def ReadsArguments (ws : List Spelling) (es : List Expr) : Prop :=
  ∀ ⦃c : Cursor⦄ ⦃v : String⦄ ⦃r : List Spelling⦄, c.spellings = ws ++ ⟨.closeParen, v⟩ :: r →
    (arguments .standard c).Gives (bareExprs · = es) (⟨.closeParen, v⟩ :: r)

theorem called_gives {ws r : List Spelling} {args : List Expr} {v v' : String} {c : Cursor}
    (h : ReadsArguments ws args) (hchar : nextKind (ws ++ ⟨.closeParen, v'⟩ :: r) ≠ .char)
    (hc : c.spellings = ⟨.openParen, v⟩ :: (ws ++ ⟨.closeParen, v'⟩ :: r)) (callee : String)
    (span : Span) :
    (called .standard callee span c).Gives (·.bare = .call callee args .nowhere) r := by
  have hargs := Cursor.advance_of hc
  have hord : ¬ (callee = ordName ∧ c.advance.kind = .char) := by
    rintro ⟨-, hkind⟩
    rw [Cursor.kind_eq, hargs] at hkind
    exact hchar hkind
  rw [called, dif_neg hord, dif_pos (Cursor.left_pos_of hc)]
  refine ((h hargs).andThen ?_).weaken _
  intro args' c₁ _ hargs' hc₁
  refine (Cursor.expect_gives hc₁).andThen ?_
  intro _ c₂ _ _ hc₂
  apply Reading.gives_pure _ hc₂
  rw [Expr.bare, hargs']

theorem called_ord {r : List Spelling} {text v v' : String} {c : Cursor}
    (hc : c.spellings = ⟨.openParen, v⟩ :: ⟨.char, text⟩ :: ⟨.closeParen, v'⟩ :: r) (span : Span) :
    (called .standard ordName span c).Gives
      (·.bare = .char (text.toList.headD '\x00') .nowhere) r := by
  have hchar := Cursor.advance_of hc
  rw [called, dif_pos ⟨rfl, Cursor.kind_of hchar⟩]
  refine ((Cursor.expect_gives (Cursor.advance_of hchar)).andThen ?_).weaken _
  intro _ c₁ _ _ hc₁
  apply Reading.gives_pure _ hc₁
  rw [Expr.bare, charOf, Cursor.value_of hchar]

/-- An operator takes what was read before it as its left operand. -/
theorem ClimbsFrom.operator {n m : Nat} {w w' : List Spelling} {left e : Expr} {s : Spelling}
    {strength : Strength} {tail : Tail} (hleft : ClimbsFrom m w left) (hm : n ≤ m)
    (hstops : Stops m s.kind) (htail : Grammar.standard.tail s.kind = some (strength, tail))
    (hn : n < strength.rank)
    (h : ∀ l c r, l.bare = left → c.spellings = s :: (w' ++ r) → Stops n (nextKind r) →
      (tailed .standard tail strength l c).Gives (·.bare = e) r) :
    ClimbsFrom n (w ++ s :: w') e := by
  intro floor c r r' Q hfloor hc hr next
  rw [List.append_assoc, List.cons_append] at hc
  apply hleft (Nat.le_trans hfloor hm) hc hstops
  intro l c₁ hl hc₁
  exact climb_tail hc₁ htail (Nat.lt_of_le_of_lt hfloor hn) (h l c₁ r hl hc₁ hr) next

theorem ClimbsFrom.binary {n : Nat} {w w' : List Spelling} {left right : Expr} {op : BinaryOp}
    (hleft : ClimbsFrom (op.strength.rank - 1) w left)
    (hright : ClimbsFrom op.strength.rank w' right) (v : String) (hn : n < op.strength.rank) :
    ClimbsFrom n (w ++ ⟨op.kind, v⟩ :: w') (.binary op left right .nowhere) := by
  apply hleft.operator (by omega) (stops_binary op) (tail_binary op) hn
  intro l c r hl hc hr
  rw [tailed, Cursor.kind_of hc, arithmeticOf?_kind]
  refine (hright.operand hc (hr.loose hn)).andThen ?_
  intro e' c₁ _ he' hc₁
  apply Reading.gives_pure _ hc₁
  rw [Expr.bare, hl, he']

theorem ClimbsFrom.compare {n : Nat} {w w' : List Spelling} {left right : Expr} {op : CompareOp}
    (hleft : ClimbsFrom Strength.relational.rank w left)
    (hright : ClimbsFrom Strength.relational.rank w' right) (v : String)
    (hn : n < Strength.relational.rank) :
    ClimbsFrom n (w ++ ⟨op.kind, v⟩ :: w') (.compare op left right .nowhere) := by
  apply hleft.operator (Nat.le_of_lt hn) (stops_compare op) (tail_compare op) hn
  intro l c r hl hc hr
  rw [tailed, Cursor.kind_of hc, comparisonOf?_kind]
  refine (hright.operand hc (hr.loose hn)).andThen ?_
  intro e' c₁ _ he' hc₁
  rw [Cursor.kind_eq, hc₁, hr.comparisonOf?_eq_none hn]
  apply Reading.gives_pure _ hc₁
  rw [Expr.bare, hl, he']

theorem ClimbsFrom.logic {n : Nat} {w w' : List Spelling} {left right : Expr} {op : BoolOp}
    (hleft : ClimbsFrom (op.strength.rank - 1) w left)
    (hright : ClimbsFrom op.strength.rank w' right) (v : String) (hn : n < op.strength.rank) :
    ClimbsFrom n (w ++ ⟨op.kind, v⟩ :: w') (.logic op left right .nowhere) := by
  apply hleft.operator (by omega) (stops_logic op) (tail_logic op) hn
  intro l c r hl hc hr
  rw [tailed]
  refine (hright.operand hc (hr.loose hn)).andThen ?_
  intro e' c₁ _ he' hc₁
  apply Reading.gives_pure _ hc₁
  rw [Expr.bare, hl, he', Cursor.kind_of hc, connectiveOf_kind]

theorem readsArguments_nil : ReadsArguments [] [] := by
  intro c v r hc
  rw [arguments, if_pos (Cursor.kind_of hc)]
  exact Reading.gives_pure rfl hc

/-- One more argument is read if what follows it ends an argument. -/
theorem ClimbsFrom.argument {w r r₁ r₂ : List Spelling} {e : Expr} {es : List Expr} {c : Cursor}
    (h : ClimbsFrom Strength.lowest.rank w e) (hclose : nextKind (w ++ r) ≠ .closeParen)
    (htail : Grammar.standard.tail (nextKind r) = none) (hc : c.spellings = w ++ r)
    (hend : ∀ c' : Cursor, c'.spellings = r →
      (c'.separator .argumentEnd).Gives (fun _ => True) r₁)
    (hrest : ∀ c' : Cursor, c'.spellings = r₁ →
      (arguments .standard c').Gives (bareExprs · = es) r₂) :
    (arguments .standard c).Gives (bareExprs · = e :: es) r₂ := by
  rw [arguments, if_neg (by rwa [Cursor.kind_eq, hc])]
  refine ((h.gives hc htail).andThen ?_).weaken _
  intro e' c₁ _ he' hc₁
  refine (hend c₁ hc₁).andThen ?_
  intro _ c₂ _ _ hc₂
  refine (hrest c₂ hc₂).andThen ?_
  intro es' c₃ _ hes' hc₃
  apply Reading.gives_pure _ hc₃
  rw [bareExprs, he', hes']

mutual

theorem Phrase.reads : ∀ {n : Nat} {w : List Spelling} {e : Expr}, Phrase n w e →
    ClimbsFrom n w e
  | _, _, _, .number n h => climbsFrom_number h n
  | _, _, _, .float n h => climbsFrom_float h n
  | _, _, _, .symbol n name => climbsFrom_symbol name n
  | _, _, _, .group n v v' h => h.reads.group n v v'
  | _, _, _, .call v v' hn hname hargs => by
    apply hname.call hn
    intro span c r hc
    rw [List.append_assoc] at hc
    exact called_gives hargs.reads (hargs.nextKind_ne_char v') hc _ span
  | _, _, _, .ord text v v' hn hname => hname.call hn fun span c r hc => called_ord hc span
  | _, _, _, .negative v hn h => climbsFrom_negative v hn h
  | _, _, _, .minus v hn hw h => by
    have hreads := h.reads
    obtain ⟨s, w', rfl, -⟩ := h.exists_cons
    exact hreads.minus v hn hw
  | _, _, _, .binary op v hn hl hr => hl.reads.binary hr.reads v hn
  | _, _, _, .compare op v hn hl hr => hl.reads.compare hr.reads v hn
  | _, _, _, .logic op v hn hl hr => hl.reads.logic hr.reads v hn

theorem Phrases.reads : ∀ {ws : List Spelling} {es : List Expr}, Phrases ws es →
    ReadsArguments ws es
  | _, _, .nil => readsArguments_nil
  | _, _, .last he => by
    intro c v r hc
    exact he.reads.argument (he.nextKind_ne rfl _) rfl hc
      (fun _ hc' => Cursor.separator_close hc' _) (fun _ hc' => readsArguments_nil hc')
  | _, _, .cons v' he hes => by
    intro c v r hc
    rw [List.append_assoc, List.cons_append] at hc
    exact he.reads.argument (he.nextKind_ne rfl _) rfl hc
      (fun _ hc' => Cursor.separator_comma hc' _) (fun _ hc' => hes.reads hc')

end

end Surface
end Offside
