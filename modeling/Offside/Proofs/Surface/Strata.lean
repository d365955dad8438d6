/-
  Offside/Proofs/Surface/Strata.lean
  ==================================
  **The grammar in strata.**  The grammar of expressions as a reference would print it: a
  disjunction is made of conjunctions, these of comparisons, these of sums, products, signed
  operands, calls and atoms, and each stratum takes in the next.  `Derives` has a rule for
  each production.  It says what numbers denote by the digits they are written with, and
  knows neither binding strengths nor readers.

  Reading finds exactly these derivations (`expr_done_iff`).  The proof goes through
  `Phrase`, whose rules are those of the strata with ranks in their place.
-/
import Offside.Proofs.Surface.Taken
import Offside.Proofs.Token.Numeral

namespace Offside

/-- A source text has a token that says the same. -/
def Token.Scannable (t : Token) : Prop :=
  ∃ source ts, Token.ofSource source = .ok ts ∧ ∃ t' ∈ ts, t'.spelling = t.spelling

namespace Surface

open Number

/-! ### The strata -/

/-- The strata of expressions, from the loosest operators to none. -/
inductive Stratum where
  | disjunction | conjunction | comparison | sum | product | unary | call | atom
deriving DecidableEq, Repr

mutual

/-- The derivations of an expression from spellings.  Spans are left out of the
    expressions. -/
inductive Derives : Stratum → List Spelling → Expr → Prop where
  | conjunction {w : List Spelling} {e : Expr} (h : Derives .conjunction w e) :
      Derives .disjunction w e
  | or {w w' : List Spelling} {l r : Expr} (v : String) (hl : Derives .disjunction w l)
      (hr : Derives .conjunction w' r) :
      Derives .disjunction (w ++ ⟨.orWord, v⟩ :: w') (.logic .or l r .nowhere)
  | comparison {w : List Spelling} {e : Expr} (h : Derives .comparison w e) :
      Derives .conjunction w e
  | and {w w' : List Spelling} {l r : Expr} (v : String) (hl : Derives .conjunction w l)
      (hr : Derives .comparison w' r) :
      Derives .conjunction (w ++ ⟨.andWord, v⟩ :: w') (.logic .and l r .nowhere)
  | sum {w : List Spelling} {e : Expr} (h : Derives .sum w e) : Derives .comparison w e
  /-- A comparison has no comparison for an operand. -/
  | compare {w w' : List Spelling} {l r : Expr} (op : CompareOp) (v : String)
      (hl : Derives .sum w l) (hr : Derives .sum w' r) :
      Derives .comparison (w ++ ⟨op.kind, v⟩ :: w') (.compare op l r .nowhere)
  | product {w : List Spelling} {e : Expr} (h : Derives .product w e) : Derives .sum w e
  | addSub {w w' : List Spelling} {l r : Expr} {op : BinaryOp} (hop : op = .add ∨ op = .sub)
      (v : String) (hl : Derives .sum w l) (hr : Derives .product w' r) :
      Derives .sum (w ++ ⟨op.kind, v⟩ :: w') (.binary op l r .nowhere)
  | unary {w : List Spelling} {e : Expr} (h : Derives .unary w e) : Derives .product w e
  | mulDiv {w w' : List Spelling} {l r : Expr} {op : BinaryOp} (hop : op = .mul ∨ op = .div)
      (v : String) (hl : Derives .product w l) (hr : Derives .unary w' r) :
      Derives .product (w ++ ⟨op.kind, v⟩ :: w') (.binary op l r .nowhere)
  | call {w : List Spelling} {e : Expr} (h : Derives .call w e) : Derives .unary w e
  /-- A minus sign before an integer belongs to it, so that the least one can be written. -/
  | minusDecimal {text : String} {n : Nat} (v : String) (h : decimal? text.toList = some n)
      (hn : 2 * n ≤ UInt32.size) :
      Derives .unary [⟨.dash, v⟩, ⟨.integer, text⟩] (.number (-Int32.ofInt n) .nowhere)
  | minusHexadecimal {text : String} {mark : Char} {digits : List Char} {n : Nat} (v : String)
      (htext : text.toList = '0' :: mark :: digits) (hmark : mark = 'x' ∨ mark = 'X')
      (h : hexadecimal? digits = some n) (hn : n < UInt32.size) :
      Derives .unary [⟨.dash, v⟩, ⟨.integer, text⟩] (.number (-Int32.ofInt n) .nowhere)
  | minusFloat {w : List Spelling} {value : Binary64} {span : Span} (v : String)
      (hw : nextKind w ≠ .integer) (h : Derives .unary w (.float value span)) :
      Derives .unary (⟨.dash, v⟩ :: w) (.float value.neg .nowhere)
  | minus {w : List Spelling} {e : Expr} (v : String) (hw : nextKind w ≠ .integer)
      (he : ∀ value span, e ≠ .float value span) (h : Derives .unary w e) :
      Derives .unary (⟨.dash, v⟩ :: w) (.negate e .nowhere)
  | atom {w : List Spelling} {e : Expr} (h : Derives .atom w e) : Derives .call w e
  | callOf {w ws : List Spelling} {callee : String} {args : List Expr} (v v' : String)
      (hname : NamePhrase w callee) (hargs : DerivesAll ws args) :
      Derives .call (w ++ ⟨.openParen, v⟩ :: (ws ++ [⟨.closeParen, v'⟩]))
        (.call callee args .nowhere)
  | ord {w : List Spelling} (text v v' : String) (hname : NamePhrase w ordName) :
      Derives .call (w ++ [⟨.openParen, v⟩, ⟨.char, text⟩, ⟨.closeParen, v'⟩])
        (.char (text.toList.headD '\x00') .nowhere)
  | decimal {text : String} {n : Nat} (h : decimal? text.toList = some n)
      (hn : 2 * n < UInt32.size) :
      Derives .atom [⟨.integer, text⟩] (.number (Int32.ofInt n) .nowhere)
  /-- Hexadecimal digits write the 32 bits themselves. -/
  | hexadecimal {text : String} {mark : Char} {digits : List Char} {n : Nat}
      (htext : text.toList = '0' :: mark :: digits) (hmark : mark = 'x' ∨ mark = 'X')
      (h : hexadecimal? digits = some n) (hn : n < UInt32.size) :
      Derives .atom [⟨.integer, text⟩] (.number (Int32.ofInt n) .nowhere)
  | float {text : String} {value : Binary64} (h : Binary64.ofText? text = some value) :
      Derives .atom [⟨.float, text⟩] (.float value .nowhere)
  | name (name : String) : Derives .atom [⟨.identifier, name⟩] (.symbol name .nowhere)
  | group {w : List Spelling} {e : Expr} (v v' : String) (h : Derives .disjunction w e) :
      Derives .atom (⟨.openParen, v⟩ :: (w ++ [⟨.closeParen, v'⟩])) e

/-- The derivations of arguments.  A comma may stand behind the last. -/
inductive DerivesAll : List Spelling → List Expr → Prop where
  | nil : DerivesAll [] []
  | last {w : List Spelling} {e : Expr} (h : Derives .disjunction w e) : DerivesAll w [e]
  | cons {w ws : List Spelling} {e : Expr} {es : List Expr} (v : String)
      (h : Derives .disjunction w e) (hs : DerivesAll ws es) :
      DerivesAll (w ++ ⟨.comma, v⟩ :: ws) (e :: es)

end

/-- The stratum of the expressions whose operators outside parentheses and argument lists
    bind tighter.  A minus sign may always stand first in an operand. -/
def Strength.stratum : Strength → Stratum
  | .lowest => .disjunction
  | .or => .conjunction
  | .and => .comparison
  | .relational => .sum
  | .additive => .product
  | .multiplicative | .unary => .unary
  | .call | .primary => .atom

/-! ### Derivations are phrases -/

theorem negated_toInt (x : Int32) : negated x.toInt = -x := by
  rw [negated, Int32.ofInt_neg, Int32.ofInt_toInt]

theorem negation_of_ne_float {e : Expr} (h : ∀ value span, e ≠ .float value span) (span : Span) :
    negation e span = .negate e span := by
  unfold negation
  split
  next value span' => exact absurd rfl (h value span')
  next => rfl

theorem negatedMagnitude_decimal {text : String} {n : Nat} (h : decimal? text.toList = some n)
    {value : Int} : negatedMagnitude .nowhere ⟨.integer, text, .nowhere⟩ = .ok value ↔
      2 * n ≤ UInt32.size ∧ value = n := by
  rw [negatedMagnitude, afterHexMark?_of_isDigit (isDigit_of_decimal? h), magnitude?_decimal h]
  by_cases hn : 2 * n ≤ UInt32.size
  · simp [hn, eq_comm]
  · simp [hn]

theorem negatedMagnitude_hexadecimal {text : String} {mark : Char} {digits : List Char} {n : Nat}
    (htext : text.toList = '0' :: mark :: digits) (hmark : mark = 'x' ∨ mark = 'X')
    (h : hexadecimal? digits = some n) {value : Int} :
    negatedMagnitude .nowhere ⟨.integer, text, .nowhere⟩ = .ok value ↔
      n < UInt32.size ∧ value = (Int32.ofInt n).toInt := by
  rw [negatedMagnitude, htext, afterHexMark?_of_mark hmark, integer?_hexadecimal htext hmark h]
  by_cases hn : n < UInt32.size
  · simp [hn, eq_comm]
  · simp [hn]

/-- The rank of the operators that a stratum leaves out. -/
def Stratum.rank : Stratum → Nat
  | .disjunction => Strength.lowest.rank
  | .conjunction => Strength.or.rank
  | .comparison => Strength.and.rank
  | .sum => Strength.relational.rank
  | .product => Strength.additive.rank
  | .unary | .call | .atom => Strength.unary.rank

mutual

theorem Derives.phrase : ∀ {s : Stratum} {w : List Spelling} {e : Expr}, Derives s w e →
    Phrase s.rank w e
  | _, _, _, .conjunction h => h.phrase.mono (by decide)
  | _, _, _, .or v hl hr => .logic .or v (by decide) hl.phrase hr.phrase
  | _, _, _, .comparison h => h.phrase.mono (by decide)
  | _, _, _, .and v hl hr => .logic .and v (by decide) hl.phrase hr.phrase
  | _, _, _, .sum h => h.phrase.mono (by decide)
  | _, _, _, .compare op v hl hr => .compare op v (by decide) hl.phrase hr.phrase
  | _, _, _, .product h => h.phrase.mono (by decide)
  | _, _, _, .addSub (.inl rfl) v hl hr => .binary .add v (by decide) hl.phrase hr.phrase
  | _, _, _, .addSub (.inr rfl) v hl hr => .binary .sub v (by decide) hl.phrase hr.phrase
  | _, _, _, .unary h => h.phrase.mono (by decide)
  | _, _, _, .mulDiv (.inl rfl) v hl hr =>
    .binary .mul v (by decide) hl.phrase (hr.phrase.mono (by decide))
  | _, _, _, .mulDiv (.inr rfl) v hl hr =>
    .binary .div v (by decide) hl.phrase (hr.phrase.mono (by decide))
  | _, _, _, .call h => h.phrase
  | _, _, _, .minusDecimal v h hn => by
    rw [← Int32.ofInt_neg]
    exact .negative v (by decide) ((negatedMagnitude_decimal h).mpr ⟨hn, rfl⟩)
  | _, _, _, .minusHexadecimal v htext hmark h hn => by
    rw [← negated_toInt]
    exact .negative v (by decide) ((negatedMagnitude_hexadecimal htext hmark h).mpr ⟨hn, rfl⟩)
  | _, _, _, .minusFloat v hw h => .minus v (by decide) hw h.phrase
  | _, _, _, .minus v hw he h => by
    rw [← negation_of_ne_float he]
    exact .minus v (by decide) hw h.phrase
  | _, _, _, .atom h => h.phrase
  | _, _, _, .callOf v v' hname hargs => .call v v' (by decide) hname hargs.phrases
  | _, _, _, .ord text v v' hname => .ord text v v' (by decide) hname
  | _, _, _, .decimal h hn => .number _ (by rw [integer?_decimal h, if_pos hn])
  | _, _, _, .hexadecimal htext hmark h hn =>
    .number _ (by rw [integer?_hexadecimal htext hmark h, if_pos hn])
  | _, _, _, .float h => .float _ h
  | _, _, _, .name name => .symbol _ name
  | _, _, _, .group v v' h => .group _ v v' h.phrase

theorem DerivesAll.phrases : ∀ {ws : List Spelling} {es : List Expr}, DerivesAll ws es →
    Phrases ws es
  | _, _, .nil => .nil
  | _, _, .last h => .last h.phrase
  | _, _, .cons v h hs => .cons v h.phrase hs.phrases

end

/-! ### Phrases are derivations -/

/-- Integer tokens among the spellings say what integer literals do. -/
def Numerals (w : List Spelling) : Prop :=
  ∀ s ∈ w, s.kind = .integer → Token.Numeral s.value.toList

namespace Numerals

variable {s : Spelling} {w w' : List Spelling}

theorem tail (h : Numerals (s :: w)) : Numerals w :=
  fun s' hs' => h s' (List.mem_cons_of_mem s hs')

theorem left (h : Numerals (w ++ w')) : Numerals w :=
  fun s hs => h s (List.mem_append_left w' hs)

theorem right (h : Numerals (w ++ w')) : Numerals w' :=
  fun s hs => h s (List.mem_append_right w hs)

end Numerals

/-- The stratum of the phrases of rank `n`. -/
def stratumAt : Nat → Stratum
  | 0 => .disjunction
  | 1 => .conjunction
  | 2 => .comparison
  | 3 => .sum
  | 4 => .product
  | _ => .unary

/-- Each stratum takes in the tighter ones. -/
theorem Derives.loosen {s : Stratum} {n m : Nat} {w : List Spelling} {e : Expr}
    (h : Derives s w e) (hnm : n ≤ m) (hs : stratumAt m = s) : Derives (stratumAt n) w e := by
  induction hnm generalizing s with
  | refl => rwa [hs]
  | @step m _ ih =>
    subst hs
    refine ih ?_ rfl
    match m with
    | 0 => exact .conjunction h
    | 1 => exact .comparison h
    | 2 => exact .sum h
    | 3 => exact .product h
    | 4 => exact .unary h
    | _ + 5 => exact h

theorem derives_integer {text : String} {value : Int32} (htext : Token.Numeral text.toList)
    (h : integer? text = some value) :
    Derives .atom [⟨.integer, text⟩] (.number value .nowhere) := by
  generalize hcs : text.toList = cs at htext
  cases htext with
  | decimal hne hdigits =>
    obtain ⟨n, hn⟩ := exists_decimal? hne hdigits
    rw [← hcs] at hn
    rw [integer?_decimal hn] at h
    split at h
    next hlt =>
      cases h
      exact .decimal hn hlt
    next => cases h
  | hexadecimal hmark hne hdigits =>
    obtain ⟨n, hn⟩ := exists_hexadecimal? hne hdigits
    rw [integer?_hexadecimal hcs hmark hn] at h
    split at h
    next hlt =>
      cases h
      exact .hexadecimal hcs hmark hn hlt
    next => cases h

theorem derives_negative {text v : String} {value : Int} (htext : Token.Numeral text.toList)
    (h : negatedMagnitude .nowhere ⟨.integer, text, .nowhere⟩ = .ok value) :
    Derives .unary [⟨.dash, v⟩, ⟨.integer, text⟩] (.number (negated value) .nowhere) := by
  generalize hcs : text.toList = cs at htext
  cases htext with
  | decimal hne hdigits =>
    obtain ⟨n, hn⟩ := exists_decimal? hne hdigits
    rw [← hcs] at hn
    obtain ⟨hle, rfl⟩ := (negatedMagnitude_decimal hn).mp h
    rw [negated, Int32.ofInt_neg]
    exact .minusDecimal v hn hle
  | hexadecimal hmark hne hdigits =>
    obtain ⟨n, hn⟩ := exists_hexadecimal? hne hdigits
    obtain ⟨hlt, rfl⟩ := (negatedMagnitude_hexadecimal hcs hmark hn).mp h
    rw [negated_toInt]
    exact .minusHexadecimal v hcs hmark hn hlt

theorem derives_negation {w : List Spelling} {e : Expr} (h : Derives .unary w e) (v : String)
    (hw : nextKind w ≠ .integer) :
    Derives .unary (⟨.dash, v⟩ :: w) (negation e .nowhere) := by
  cases e with
  | float value span => exact .minusFloat v hw h
  | _ => exact .minus v hw (by simp) h

/-- An operand without operators outside parentheses stands in every stratum. -/
theorem Derives.anywhere {w : List Spelling} {e : Expr} (h : Derives .unary w e) (n : Nat) :
    Derives (stratumAt n) w e :=
  h.loosen (Nat.le_add_right n 5) rfl

mutual

theorem Phrase.derives : ∀ {n : Nat} {w : List Spelling} {e : Expr}, Phrase n w e →
    Numerals w → Derives (stratumAt n) w e
  | _, _, _, .number n h, hw => by
    have htext := hw _ List.mem_cons_self rfl
    exact (Derives.call (.atom (derives_integer htext h))).anywhere n
  | _, _, _, .float n h, _ => (Derives.call (.atom (.float h))).anywhere n
  | _, _, _, .symbol n name, _ => (Derives.call (.atom (.name name))).anywhere n
  | _, _, _, .group n v v' h, hw => by
    have hinner := h.derives hw.tail.left
    exact (Derives.call (.atom (.group v v' hinner))).anywhere n
  | n, _, _, .call v v' hn hname hargs, hw => by
    have hargs' := hargs.derives hw.right.tail.left
    exact (Derives.call (.callOf v v' hname hargs')).anywhere n
  | n, _, _, .ord text v v' hn hname, _ => (Derives.call (.ord text v v' hname)).anywhere n
  | n, _, _, .negative v hn h, hw => by
    have htext := hw.tail _ List.mem_cons_self rfl
    exact (derives_negative htext h).anywhere n
  | n, _, _, .minus v hn hkind h, hw =>
    (derives_negation (h.derives hw.tail) v hkind).anywhere n
  | n, _, _, .binary op v hn hl hr, hw => by
    have hleft := hl.derives hw.left
    have hright := hr.derives hw.right.tail
    cases op with
    | add => exact (Derives.addSub (.inl rfl) v hleft hright).loosen (Nat.le_of_lt_succ hn) rfl
    | sub => exact (Derives.addSub (.inr rfl) v hleft hright).loosen (Nat.le_of_lt_succ hn) rfl
    | mul => exact (Derives.mulDiv (.inl rfl) v hleft hright).loosen (Nat.le_of_lt_succ hn) rfl
    | div => exact (Derives.mulDiv (.inr rfl) v hleft hright).loosen (Nat.le_of_lt_succ hn) rfl
  | n, _, _, .compare op v hn hl hr, hw => by
    have hleft := hl.derives hw.left
    have hright := hr.derives hw.right.tail
    exact (Derives.compare op v hleft hright).loosen (Nat.le_of_lt_succ hn) rfl
  | n, _, _, .logic op v hn hl hr, hw => by
    have hleft := hl.derives hw.left
    have hright := hr.derives hw.right.tail
    cases op with
    | and => exact (Derives.and v hleft hright).loosen (Nat.le_of_lt_succ hn) rfl
    | or => exact (Derives.or v hleft hright).loosen (Nat.le_of_lt_succ hn) rfl

theorem Phrases.derives : ∀ {ws : List Spelling} {es : List Expr}, Phrases ws es →
    Numerals ws → DerivesAll ws es
  | _, _, .nil, _ => .nil
  | _, _, .last h, hw => .last (h.derives hw)
  | _, _, .cons v h hs, hw =>
    .cons v (h.derives hw.left) (hs.derives hw.right.tail)

end

/-! ### Reading and deriving -/

theorem numerals_of_scannable {c : Cursor}
    (h : ∀ t ∈ c.ahead, t.kind = .integer → t.Scannable) : Numerals c.spellings := by
  intro s hs hkind
  obtain ⟨t, ht, rfl⟩ := List.mem_map.mp hs
  obtain ⟨source, ts, hsource, t', ht', heq⟩ := h t ht hkind
  rw [← heq] at hkind ⊢
  exact Token.ofSource_numeral hsource ht' hkind

theorem stratumAt_rank {floor : Strength} (h : floor.rank ≤ Strength.unary.rank) :
    stratumAt floor.rank = floor.stratum := by
  revert h
  cases floor <;> decide

theorem rank_le_stratum {floor : Strength} (h : floor.rank ≤ Strength.unary.rank) :
    floor.rank ≤ floor.stratum.rank := by
  revert h
  cases floor <;> decide

/-- A phrase is read up to the cursor behind it, if the token there binds no tighter. -/
theorem Phrase.done {floor : Strength} (hfloor : floor.rank < Strength.call.rank)
    {c c' : Cursor} {w : List Spelling} {e : Expr} (h : Phrase floor.rank w e)
    (hpast : c.Past w c') (hloose : Loose floor.rank c'.kind) :
    ∃ e' shorter, expr .standard floor c = .done e' c' shorter ∧ e'.bare = e := by
  rw [Cursor.kind_eq] at hloose
  obtain ⟨e', c₁, shorter, hdone, he', hc₁⟩ :=
    h.reads (Nat.le_refl _) hpast.spellings hloose.stops
      fun e' c₁ he' hc₁ => climb_gives he' hc₁ hloose
  -- the reader has left as many tokens as there are behind the phrase
  obtain ⟨w₁, hpast₁, -⟩ := expr_takes floor hfloor c e' c₁ shorter hdone
  have hw : w₁ = w := by
    have happend := hpast₁.spellings
    rw [hpast.spellings, hc₁] at happend
    exact (List.append_cancel_right happend).symm
  subst hw
  obtain rfl := hpast₁.unique hpast
  exact ⟨e', shorter, hdone, he'⟩

/-- Reading an expression finds exactly what the grammar derives: it succeeds with a tree
    and a cursor if the spellings up to there derive the tree from the stratum of the floor
    and the token there binds no tighter than the floor. -/
theorem expr_done_iff {floor : Strength} (hfloor : floor.rank ≤ Strength.unary.rank)
    {c : Cursor} (hscan : ∀ t ∈ c.ahead, t.kind = .integer → t.Scannable) (e : Expr)
    (c' : Cursor) :
    (∃ e' shorter, expr .standard floor c = .done e' c' shorter ∧ e'.bare = e) ↔
      ∃ w, c.Past w c' ∧ Derives floor.stratum w e ∧ Loose floor.rank c'.kind := by
  have hcall : floor.rank < Strength.call.rank := Nat.lt_succ_of_le hfloor
  constructor
  · rintro ⟨e', shorter, hdone, rfl⟩
    obtain ⟨w, hpast, hphrase, hloose⟩ := expr_takes floor hcall c e' c' shorter hdone
    have hnumerals := numerals_of_scannable hscan
    rw [hpast.spellings] at hnumerals
    have hderives := hphrase.derives hnumerals.left
    rw [stratumAt_rank hfloor] at hderives
    exact ⟨w, hpast, hderives, hloose⟩
  · rintro ⟨w, hpast, hderives, hloose⟩
    exact (hderives.phrase.mono (rank_le_stratum hfloor)).done hcall hpast hloose

/-- The tokens of `-2147483648 < f(x,)`, and a line end. -/
def leastBelowCall : Cursor :=
  ⟨none, [⟨.dash, "-", .nowhere⟩, ⟨.integer, "2147483648", .nowhere⟩, ⟨.less, "<", .nowhere⟩,
    ⟨.identifier, "f", .nowhere⟩, ⟨.openParen, "(", .nowhere⟩, ⟨.identifier, "x", .nowhere⟩,
    ⟨.comma, ",", .nowhere⟩, ⟨.closeParen, ")", .nowhere⟩, ⟨.newline, "\\n", .nowhere⟩],
    ⟨"", .nowhere⟩⟩

theorem leastBelowCall_scannable :
    ∀ t ∈ leastBelowCall.ahead, t.kind = .integer → t.Scannable := by
  have hsource : Token.ofSource "2147483648" =
      .ok [⟨.integer, "2147483648", ⟨0, 1, 1⟩, ⟨10, 1, 11⟩⟩,
        ⟨.newline, "", ⟨10, 1, 11⟩, ⟨10, 1, 11⟩⟩, ⟨.eof, "", ⟨10, 1, 11⟩, ⟨10, 1, 11⟩⟩] := by
    decide +kernel
  intro t ht hkind
  refine ⟨_, _, hsource, _, List.mem_cons_self, ?_⟩
  revert t
  decide

theorem expr_leastBelowCall : ∃ e c shorter,
    expr .standard .lowest leastBelowCall = .done e c shorter ∧
      e.bare = .compare .lt (.number Int32.minValue .nowhere)
        (.call "f" [.symbol "x" .nowhere] .nowhere) .nowhere := by
  have hleast : Int32.minValue = -Int32.ofInt (2147483648 : Nat) := by decide
  have hnumber : Derives .sum [⟨.dash, "-"⟩, ⟨.integer, "2147483648"⟩]
      (.number Int32.minValue .nowhere) := by
    rw [hleast]
    exact .product (.unary (.minusDecimal "-" (by decide +kernel) (by decide)))
  have hname : Derives .disjunction [⟨.identifier, "x"⟩] (.symbol "x" .nowhere) :=
    .conjunction (.comparison (.sum (.product (.unary (.call (.atom (.name "x")))))))
  have hcall : Derives .sum [⟨.identifier, "f"⟩, ⟨.openParen, "("⟩, ⟨.identifier, "x"⟩,
      ⟨.comma, ","⟩, ⟨.closeParen, ")"⟩] (.call "f" [.symbol "x" .nowhere] .nowhere) :=
    .product (.unary (.call (.callOf "(" ")" (.name "f") (.cons "," hname .nil))))
  have hpast : leastBelowCall.Past _ _ :=
    .cons rfl (.cons rfl (.cons rfl (.cons rfl (.cons rfl (.cons rfl (.cons rfl
      (.cons rfl (.nil _))))))))
  have hlowest : Strength.lowest.rank ≤ Strength.unary.rank := by decide
  obtain ⟨e, shorter, hdone, he⟩ := (expr_done_iff hlowest leastBelowCall_scannable _ _).mpr
    ⟨_, hpast, .conjunction (.comparison (.compare .lt "<" hnumber hcall)), loose_of_none rfl⟩
  exact ⟨e, _, shorter, hdone, he⟩

end Surface
end Offside
