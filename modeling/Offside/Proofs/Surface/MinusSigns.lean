/-
  Offside/Proofs/Surface/MinusSigns.lean
  ======================================
  **Integer literals behind minus signs.**  The minus sign next to a literal belongs to it,
  and every other one negates at run time.  So a literal is read in two ways: alone, where
  it must fit 32 bits, and with its sign, where the magnitude of the least 32-bit integer is
  allowed too.  A hexadecimal literal gives 32 bits in either way.

  `expr_minusSigns` says for every literal and every number of signs whether the reader
  accepts them, and that what it reads has the value that is written, up to a multiple of
  `2 ^ 32`: the two ways agree at the limits, however many digits there are.  It also says
  that 64 bits are enough for the negation (`NegatedAt64`), with a magnitude that is cut down
  to the greatest 64-bit integer if it does not fit.

  The step from 64 bits down to 32 is exact with one exception: behind a minus sign,
  `0x80000000` stands for the least integer, whose opposite takes one bit more
  (`expr_leastHexadecimal_wraps`).
-/
import Offside.Proofs.Surface.Strata

namespace Offside.Number

/-! ### The number that is written -/

/-- How the digits of a literal count. -/
inductive Base where
  | decimal
  | hexadecimal
deriving DecidableEq, Repr

/-- The text of a literal, its base and the number that it writes, the first digit being
    the most significant one. -/
inductive Writes : List Char → Base → Nat → Prop where
  | decimal {digits : List Char} {values : List Nat} (hne : digits ≠ [])
      (hvalues : digits.map decimalDigit? = values.map some) :
      Writes digits .decimal (Nat.ofDigits 10 values.reverse)
  | hexadecimal {mark : Char} {digits : List Char} {values : List Nat}
      (hmark : mark = 'x' ∨ mark = 'X') (hne : digits ≠ [])
      (hvalues : digits.map hexDigit? = values.map some) :
      Writes ('0' :: mark :: digits) .hexadecimal (Nat.ofDigits 16 values.reverse)

/-- Whether a literal for `n` can be read behind `signs` minus signs. -/
def Fits : Base → (signs n : Nat) → Prop
  | .decimal, 0, n => n ≤ 2 ^ 31 - 1
  | .decimal, _ + 1, n => n ≤ 2 ^ 31
  | .hexadecimal, _, n => n < 2 ^ 32

instance : ∀ base signs n, Decidable (Fits base signs n)
  | .decimal, 0, n => inferInstanceAs (Decidable (n ≤ 2 ^ 31 - 1))
  | .decimal, _ + 1, n => inferInstanceAs (Decidable (n ≤ 2 ^ 31))
  | .hexadecimal, _, n => inferInstanceAs (Decidable (n < 2 ^ 32))

theorem decimal?_ofDigits {cs : List Char} {values : List Nat} (hne : cs ≠ [])
    (h : cs.map decimalDigit? = values.map some) :
    decimal? cs = some (Nat.ofDigits 10 values.reverse) := by
  rw [decimal?_eq hne, digitsFrom_eq_ofDigits h, Nat.ofDigits_append_zero]

theorem hexadecimal?_ofDigits {cs : List Char} {values : List Nat} (hne : cs ≠ [])
    (h : cs.map hexDigit? = values.map some) :
    hexadecimal? cs = some (Nat.ofDigits 16 values.reverse) := by
  rw [hexadecimal?]
  · rw [digitsFrom_eq_ofDigits h, Nat.ofDigits_append_zero]
  · exact hne

theorem exists_writes {cs : List Char} (h : Token.Numeral cs) : ∃ base n, Writes cs base n := by
  cases h with
  | decimal hne hdigits =>
    obtain ⟨values, hvalues⟩ := exists_values decimalDigit? fun c hc => by
      rw [isSome_decimalDigit?]
      exact hdigits c hc
    exact ⟨_, _, .decimal hne hvalues⟩
  | hexadecimal hmark hne hdigits =>
    obtain ⟨values, hvalues⟩ := exists_values hexDigit? hdigits
    exact ⟨_, _, .hexadecimal hmark hne hvalues⟩

section Writes

variable {text : String} {base : Base} {n : Nat}

/-- A literal that stands alone. -/
theorem integer?_writes (h : Writes text.toList base n) :
    (Fits base 0 n ∧ integer? text = some (Int32.ofInt n)) ∨
      (¬ Fits base 0 n ∧ integer? text = none) := by
  generalize hcs : text.toList = cs at h
  cases h with
  | @decimal _ values hne hvalues =>
    rw [integer?_decimal (hcs ▸ decimal?_ofDigits hne hvalues)]
    have hfits : Fits .decimal 0 (Nat.ofDigits 10 values.reverse) ↔
        2 * Nat.ofDigits 10 values.reverse < UInt32.size := by
      rw [Fits, UInt32.size]
      omega
    rw [hfits]
    by_cases hn : 2 * Nat.ofDigits 10 values.reverse < UInt32.size
    · exact .inl ⟨hn, if_pos hn⟩
    · exact .inr ⟨hn, if_neg hn⟩
  | @hexadecimal mark digits values hmark hne hvalues =>
    rw [integer?_hexadecimal hcs hmark (hexadecimal?_ofDigits hne hvalues)]
    by_cases hn : Fits .hexadecimal 0 (Nat.ofDigits 16 values.reverse)
    · exact .inl ⟨hn, if_pos hn⟩
    · exact .inr ⟨hn, if_neg hn⟩

end Writes

/-! ### Negation at 64 bits -/

/-- The number that a minus sign negates, at 64 bits.  A decimal number that does not fit
    is cut down to the greatest one that does. -/
def Base.wide : Base → Nat → Int64
  | .decimal, n => if n < 2 ^ 63 then Int64.ofNat n else Int64.maxValue
  | .hexadecimal, n => (Int32.ofInt n).toInt64

namespace Base

theorem toInt_wide_decimal (n : Nat) : (decimal.wide n).toInt = min (n : Int) (2 ^ 63 - 1) := by
  rw [wide]
  split
  next hn =>
    rw [Int64.toInt_ofNat_of_lt hn]
    omega
  next hn =>
    rw [Int64.toInt_maxValue]
    omega

theorem toInt_wide_hexadecimal (n : Nat) :
    (hexadecimal.wide n).toInt = (Int32.ofInt n).toInt := by
  rw [wide, Int32.toInt_toInt64]

theorem le_toInt_wide (base : Base) (n : Nat) : -2 ^ 31 ≤ (base.wide n).toInt := by
  cases base with
  | decimal =>
    rw [toInt_wide_decimal]
    omega
  | hexadecimal =>
    rw [toInt_wide_hexadecimal]
    exact Int32.le_toInt _

theorem toInt_neg_wide (base : Base) (n : Nat) :
    (-base.wide n).toInt = -(base.wide n).toInt := by
  have hlow := base.le_toInt_wide n
  have hhigh := Int64.toInt_lt (base.wide n)
  rw [Int64.toInt_neg]
  apply Int.bmod_eq_of_le_mul_two <;> omega

theorem toInt32_neg_wide (base : Base) (n : Nat) :
    (-base.wide n).toInt32 = negated (base.wide n).toInt := by
  rw [Int64.toInt32_neg, negated, Int32.ofInt_neg, Int32.ofInt_int64ToInt]

/-- The last step down to 32 bits keeps the number, but for the bits of the least integer,
    whose opposite is one too great. -/
theorem toInt_toInt32_neg_wide {base : Base} {n : Nat} (h : Fits base 1 n) :
    (-base.wide n).toInt32.toInt = -(base.wide n).toInt ↔
      ¬ (base = .hexadecimal ∧ n = 2 ^ 31) := by
  rw [toInt32_neg_wide, negated, Int32.toInt_ofInt, Int32.size, Int.bmod_def]
  cases base with
  | decimal =>
    rw [Fits] at h
    rw [toInt_wide_decimal]
    simp only [reduceCtorEq, false_and, not_false_eq_true, iff_true]
    omega
  | hexadecimal =>
    rw [Fits] at h
    rw [toInt_wide_hexadecimal, Int32.toInt_ofInt, Int32.size, Int.bmod_def]
    simp only [true_and]
    omega

end Base
end Offside.Number

namespace Offside.Surface

open Number

/-- How a minus sign negates the literal `number` for `n`, at 64 bits: the magnitude is the
    one that the reader negates, and its negation does not wrap around.  The step down to 32
    bits does so for the least integer in hexadecimal only, where it gives the 32 bits that
    are meant. -/
structure NegatedAt64 (base : Base) (n : Nat) (number : Token) : Prop where
  magnitude : ∀ minus m, negatedMagnitude minus number = .ok m ↔
    Fits base 1 n ∧ m = (base.wide n).toInt
  bound : base = .decimal → (Fits base 1 n ↔ (base.wide n).toInt ≤ 2 ^ 31)
  opposite : (-base.wide n).toInt = -(base.wide n).toInt
  narrow : (-base.wide n).toInt32 = negated (base.wide n).toInt
  lossless : Fits base 1 n → ((-base.wide n).toInt32.toInt = -(base.wide n).toInt ↔
    ¬ (base = .hexadecimal ∧ n = 2 ^ 31))

section Negated

variable {base : Base} {n : Nat}

theorem negatedMagnitude_writes {number : Token} (h : Writes number.value.toList base n)
    (minus : Span) {m : Int} :
    negatedMagnitude minus number = .ok m ↔ Fits base 1 n ∧ m = (base.wide n).toInt := by
  have hbare : negatedMagnitude minus number = .ok m ↔
      negatedMagnitude .nowhere ⟨.integer, number.value, .nowhere⟩ = .ok m :=
    ⟨negatedMagnitude_ok rfl, negatedMagnitude_ok rfl⟩
  rw [hbare]
  generalize hcs : number.value.toList = cs at h
  cases h with
  | decimal hne hvalues =>
    rw [negatedMagnitude_decimal (hcs ▸ decimal?_ofDigits hne hvalues), Fits,
      Base.toInt_wide_decimal, UInt32.size]
    omega
  | hexadecimal hmark hne hvalues =>
    rw [negatedMagnitude_hexadecimal hcs hmark (hexadecimal?_ofDigits hne hvalues),
      Base.toInt_wide_hexadecimal]
    rfl

theorem negated_wide (h : Fits base 1 n) :
    negated (base.wide n).toInt = Int32.ofInt (-n) := by
  cases base with
  | decimal =>
    rw [Fits] at h
    rw [Base.toInt_wide_decimal, negated, min_eq_left (by omega)]
  | hexadecimal => rw [Base.toInt_wide_hexadecimal, negated_toInt, Int32.ofInt_neg]

theorem negatedAt64 {number : Token} (h : Writes number.value.toList base n) :
    NegatedAt64 base n number where
  magnitude minus _ := negatedMagnitude_writes h minus
  bound := by
    rintro rfl
    rw [Fits, Base.toInt_wide_decimal]
    omega
  opposite := base.toInt_neg_wide n
  narrow := base.toInt32_neg_wide n
  lossless := Base.toInt_toInt32_neg_wide

theorem negatedMagnitude_error {minus : Span} {t : Token} {why : Diagnostic}
    (h : negatedMagnitude minus t = .error why) :
    ∃ written place, why = ⟨.numberParse written, place⟩ := by
  unfold negatedMagnitude at h
  split at h <;> split at h <;> cases h <;> exact ⟨_, _, rfl⟩

end Negated

/-! ### What is read -/

/-- The value of an integer literal with minus signs in front, each of which wraps around. -/
def Expr.wrapped? : Expr → Option Int32
  | .number value _ => some value
  | .negate operand _ => operand.wrapped?.map (-·)
  | _ => none

theorem wrapped?_negation {e : Expr} {value : Int32} (h : e.wrapped? = some value) (span : Span) :
    (negation e span).wrapped? = some (-value) := by
  rw [negation_of_ne_float (by rintro v s rfl; cases h), Expr.wrapped?, h]
  rfl

/-- What a reader makes of a literal for `n` behind some minus signs, with `rest` behind it. -/
inductive Verdict (base : Base) (signs n : Nat) (rest : List Token) {bound : Nat} :
    Reading Expr bound → Prop where
  | accept {e : Expr} {c : Cursor} (hfits : Fits base signs n) (hrest : c.ahead = rest)
      (hvalue : e.wrapped? = some (Int32.ofInt ((-1) ^ signs * n))) (shorter : c.left < bound) :
      Verdict base signs n rest (.done e c shorter)
  | reject (hfits : ¬ Fits base signs n) (written : String) (place : Position) (c : Cursor) :
      Verdict base signs n rest (.stuck ⟨.numberParse written, place⟩ c)

section Readers

variable {base : Base} {n signs : Nat} {rest more : List Token} {number newline : Token}
  {c : Cursor} {bound bound' : Nat}

theorem Verdict.accepted {r : Reading Expr bound} (h : Verdict base signs n rest r)
    (hfits : Fits base signs n) :
    ∃ e c shorter, r = .done e c shorter ∧ c.ahead = rest ∧
      e.wrapped? = some (Int32.ofInt ((-1) ^ signs * n)) := by
  cases h with
  | accept _ hrest hvalue shorter => exact ⟨_, _, shorter, rfl, hrest, hvalue⟩
  | reject hnot => contradiction

theorem Verdict.rejected {r : Reading Expr bound} (h : Verdict base signs n rest r)
    (hfits : ¬ Fits base signs n) :
    ∃ written place c, r = .stuck ⟨.numberParse written, place⟩ c := by
  cases h with
  | accept hnot => contradiction
  | reject _ written place c => exact ⟨written, place, c, rfl⟩

theorem Verdict.weaken {r : Reading Expr bound} (h : Verdict base signs n rest r)
    (hle : bound ≤ bound') : Verdict base signs n rest (r.weaken hle) := by
  cases h with
  | accept hfits hrest hvalue shorter => exact .accept hfits hrest hvalue _
  | reject hfits written place c => exact .reject hfits written place c

theorem literal_verdict (h : Writes number.value.toList base n) (hkind : number.kind = .integer)
    (hc : c.ahead = number :: rest) : Verdict base 0 n rest (literal c) := by
  have hcurrent : c.current = number := by rw [Cursor.current, hc]
  have hinteger : c.kind = .integer := by rw [Cursor.kind, hcurrent, hkind]
  rw [literal, dif_pos hinteger, hcurrent]
  rcases integer?_writes h with ⟨hfits, hvalue⟩ | ⟨hfits, hvalue⟩
  · rw [hvalue]
    refine .accept hfits ?_ ?_ _
    · rw [Cursor.advance, hc]
    · rw [Expr.wrapped?, pow_zero, one_mul]
  · rw [hvalue]
    exact .reject hfits _ _ _

theorem negatedInteger_verdict (h : Writes number.value.toList base n)
    (hinteger : c.kind = .integer) (hc : c.ahead = number :: rest) (minus : Span) :
    Verdict base 1 n rest (negatedInteger minus c hinteger) := by
  have hcurrent : c.current = number := by rw [Cursor.current, hc]
  rw [negatedInteger, hcurrent]
  cases hm : negatedMagnitude minus number with
  | ok m =>
    obtain ⟨hfits, rfl⟩ := (negatedMagnitude_writes h minus).mp hm
    refine .accept hfits ?_ ?_ _
    · rw [Cursor.advance, hc]
    · rw [Expr.wrapped?, negated_wide hfits, pow_one, neg_one_mul]
  | error why =>
    obtain ⟨written, place, rfl⟩ := negatedMagnitude_error hm
    refine .reject (fun hfits => ?_) _ _ _
    rw [(negatedMagnitude_writes h minus).mpr ⟨hfits, rfl⟩] at hm
    cases hm

/-- Behind its beginning an expression does not go on at the end of the line. -/
theorem expr_verdict_of_headed {floor : Strength} (head : Head)
    (hhead : Grammar.standard.head c.kind = some head) (hnewline : newline.kind = .newline)
    (h : Verdict base signs n (newline :: more) (headed .standard head c)) :
    Verdict base signs n (newline :: more) (expr .standard floor c) := by
  rw [expr, hhead]
  dsimp only
  generalize headed .standard head c = r at h
  cases h with
  | @accept e c' hfits hrest hvalue shorter =>
    have hloose : Loose floor.rank c'.kind := by
      apply loose_of_none
      rw [Cursor.kind, Cursor.current, hrest, hnewline]
      rfl
    rw [Reading.andThen_done, climb_stop hloose]
    exact .accept hfits hrest hvalue _
  | reject hfits written place c' => exact .reject hfits written place c'

/-- One more sign in front of a sign negates what is read behind it. -/
theorem headed_minus_verdict (hc : c.advance.kind = .dash) (hleft : 0 < c.left)
    (h : Verdict base (signs + 1) n rest (expr .standard .unary c.advance)) :
    Verdict base (signs + 2) n rest (headed .standard .minus c) := by
  have hoperator : ¬ (c.advance.kind = .integer ∧ c.advance.peek ≠ .openParen) := by
    rw [hc]
    simp
  have hfits : Fits base (signs + 2) n ↔ Fits base (signs + 1) n := by cases base <;> rfl
  rw [headed, dif_neg hoperator, operand, dif_pos hleft]
  generalize expr .standard .unary c.advance = r at h
  cases h with
  | @accept e c' hfits' hrest hvalue shorter =>
    refine .accept (hfits.mpr hfits') hrest ?_ _
    rw [wrapped?_negation hvalue, ← Int32.ofInt_neg, pow_succ _ (signs + 1), mul_neg_one, neg_mul]
  | reject hfits' written place c' => exact .reject (hfits.not.mpr hfits') written place c'

/-- Each sign but the last is an operator, and the last belongs to the literal. -/
theorem expr_verdict (h : Writes number.value.toList base n) (hkind : number.kind = .integer)
    (hnewline : newline.kind = .newline) {dashes : List Token}
    (hdashes : ∀ t ∈ dashes, t.kind = .dash) (floor : Strength)
    (hc : c.ahead = dashes ++ number :: newline :: more) :
    Verdict base dashes.length n (newline :: more) (expr .standard floor c) := by
  induction dashes generalizing c floor with
  | nil =>
    have hinteger : c.kind = .integer := by
      rw [Cursor.kind, Cursor.current, hc]
      exact hkind
    refine expr_verdict_of_headed .literal (by rw [hinteger]; rfl) hnewline ?_
    rw [headed]
    exact literal_verdict h hkind hc
  | cons dash dashes ih =>
    have hdash : c.kind = .dash := by
      rw [Cursor.kind, Cursor.current, hc]
      exact hdashes dash List.mem_cons_self
    have hahead : c.advance.ahead = dashes ++ number :: newline :: more := by
      rw [Cursor.advance, hc]
      rfl
    refine expr_verdict_of_headed .minus (by rw [hdash]; rfl) hnewline ?_
    cases dashes with
    | nil =>
      have hinteger : c.advance.kind = .integer := by
        rw [Cursor.kind, Cursor.current, hahead]
        exact hkind
      have hpeek : c.advance.peek ≠ .openParen := by
        rw [Cursor.peek, hahead]
        simp [hnewline]
      rw [headed, dif_pos ⟨hinteger, hpeek⟩]
      exact (negatedInteger_verdict h hinteger hahead _).weaken _
    | cons dash' dashes =>
      refine headed_minus_verdict ?_ (Cursor.left_pos_of_kind hdash (by decide)) ?_
      · rw [Cursor.kind, Cursor.current, hahead]
        exact hdashes dash' (List.mem_cons_of_mem _ List.mem_cons_self)
      · exact ih (fun t ht => hdashes t (List.mem_cons_of_mem _ ht)) .unary hahead

end Readers

/-- A literal that the scan has found is read behind any number of minus signs, and before
    the end of the line, exactly if it fits, and then with the value that is written. -/
theorem expr_minusSigns {source : String} {ts : List Token}
    (hsource : Token.ofSource source = .ok ts) {t number : Token} (ht : t ∈ ts)
    (hkind : t.kind = .integer) (hnumber : number.kind = .integer)
    (hvalue : number.value = t.value) {newline : Token} (hnewline : newline.kind = .newline)
    {dashes : List Token} (hdashes : ∀ dash ∈ dashes, dash.kind = .dash) {more : List Token}
    {c : Cursor} (hc : c.ahead = dashes ++ number :: newline :: more) :
    (∃ base n, Writes number.value.toList base n) ∧
      ∀ base n, Writes number.value.toList base n →
        (Fits base dashes.length n →
          ∃ e rest shorter value, expr .standard .lowest c = .done e rest shorter ∧
            rest.ahead = newline :: more ∧ e.wrapped? = some value ∧
            value.toInt = Int.bmod ((-1) ^ dashes.length * n) (2 ^ 32)) ∧
        (¬ Fits base dashes.length n →
          ∃ written place rest, expr .standard .lowest c =
            .stuck ⟨.numberParse written, place⟩ rest) ∧
        NegatedAt64 base n number := by
  have hnumeral := Token.ofSource_numeral hsource ht hkind
  rw [← hvalue] at hnumeral
  refine ⟨exists_writes hnumeral, fun base n hwrites => ?_⟩
  have hverdict := expr_verdict hwrites hnumber hnewline hdashes .lowest hc
  refine ⟨fun hfits => ?_, hverdict.rejected, negatedAt64 hwrites⟩
  obtain ⟨e, rest, shorter, hread, hrest, hvalue⟩ := hverdict.accepted hfits
  exact ⟨e, rest, shorter, _, hread, hrest, hvalue, Int32.toInt_ofInt⟩

/-- Two minus signs before the bits of the least integer, which is its own opposite. -/
def leastBits : List Token :=
  [⟨.dash, "-", ⟨⟨0, 1, 1⟩, ⟨1, 1, 2⟩⟩⟩, ⟨.dash, "-", ⟨⟨1, 1, 2⟩, ⟨2, 1, 3⟩⟩⟩,
    ⟨.integer, "0X80000000", ⟨⟨2, 1, 3⟩, ⟨12, 1, 13⟩⟩⟩,
    ⟨.newline, "\\n", ⟨⟨12, 1, 13⟩, ⟨13, 1, 14⟩⟩⟩, ⟨.eof, "", ⟨⟨13, 2, 1⟩, ⟨13, 2, 1⟩⟩⟩]

theorem expr_leastBits : (Token.ofSource "--0X80000000\n").toOption = some leastBits ∧
    ∃ e rest shorter value,
      expr .standard .lowest (Cursor.ofTokens leastBits) = .done e rest shorter ∧
        rest.left = 1 ∧ e.wrapped? = some value ∧ value.toInt = -2147483648 := by
  have hscan : (Token.ofSource "--0X80000000\n").toOption = some leastBits := by decide +kernel
  refine ⟨hscan, ?_⟩
  cases hsource : Token.ofSource "--0X80000000\n" with
  | error d =>
    rw [hsource] at hscan
    cases hscan
  | ok ts =>
    rw [hsource] at hscan
    obtain rfl : ts = leastBits := Option.some.inj hscan
    have hvalues : "80000000".toList.map hexDigit? = [8, 0, 0, 0, 0, 0, 0, 0].map some := by
      decide
    have hwrites : Writes "0X80000000".toList .hexadecimal (2 ^ 31) :=
      .hexadecimal (.inr rfl) (by decide) hvalues
    have hdashes : ∀ dash ∈ leastBits.take 2, dash.kind = .dash := by simp [leastBits]
    have hahead : (Cursor.ofTokens leastBits).ahead =
        leastBits.take 2 ++ leastBits[2] :: leastBits[3] :: [] := rfl
    obtain ⟨-, hread⟩ := expr_minusSigns hsource (List.getElem_mem _) rfl rfl rfl rfl hdashes hahead
    obtain ⟨e, rest, shorter, value, hdone, hrest, hvalue, hint⟩ :=
      (hread .hexadecimal (2 ^ 31) hwrites).1 (by decide)
    refine ⟨e, rest, shorter, value, hdone, ?_, hvalue, hint⟩
    rw [Cursor.left, hrest]
    rfl

/-- One minus sign before the bits of the least integer. -/
def leastHexadecimal : List Token :=
  [⟨.dash, "-", ⟨⟨0, 1, 1⟩, ⟨1, 1, 2⟩⟩⟩, ⟨.integer, "0x80000000", ⟨⟨1, 1, 2⟩, ⟨11, 1, 12⟩⟩⟩,
    ⟨.newline, "\\n", ⟨⟨11, 1, 12⟩, ⟨12, 1, 13⟩⟩⟩, ⟨.eof, "", ⟨⟨12, 2, 1⟩, ⟨12, 2, 1⟩⟩⟩]

/-- The magnitude of `-0x80000000` is the least integer.  Its opposite is exact at 64 bits and
    is not a 32-bit integer: the step down to 32 bits wraps around, and what is read is the
    least integer again. -/
theorem expr_leastHexadecimal_wraps :
    (Token.ofSource "-0x80000000\n").toOption = some leastHexadecimal ∧
      Writes "0x80000000".toList .hexadecimal (2 ^ 31) ∧ Fits .hexadecimal 1 (2 ^ 31) ∧
      (∀ minus, negatedMagnitude minus leastHexadecimal[1] = .ok (-2147483648)) ∧
      (Base.hexadecimal.wide (2 ^ 31)).toInt = -2147483648 ∧
      (-Base.hexadecimal.wide (2 ^ 31)).toInt = 2147483648 ∧
      (-Base.hexadecimal.wide (2 ^ 31)).toInt32.toInt = -2147483648 ∧
      ∃ e rest shorter,
        expr .standard .lowest (Cursor.ofTokens leastHexadecimal) = .done e rest shorter ∧
          e.wrapped? = some (-Base.hexadecimal.wide (2 ^ 31)).toInt32 := by
  have hvalues : "80000000".toList.map hexDigit? = [8, 0, 0, 0, 0, 0, 0, 0].map some := by decide
  have hwrites : Writes "0x80000000".toList .hexadecimal (2 ^ 31) :=
    .hexadecimal (.inl rfl) (by decide) hvalues
  have hfits : Fits .hexadecimal 1 (2 ^ 31) := by decide
  have hwide : (Base.hexadecimal.wide (2 ^ 31)).toInt = -2147483648 := by decide
  refine ⟨by decide +kernel, hwrites, hfits, fun minus => ?_, hwide, by decide, by decide, ?_⟩
  · exact (negatedMagnitude_writes hwrites minus).mpr ⟨hfits, hwide.symm⟩
  · have hahead : (Cursor.ofTokens leastHexadecimal).ahead =
        [leastHexadecimal[0]] ++ leastHexadecimal[1] :: leastHexadecimal[2] :: [] := rfl
    have hverdict := expr_verdict hwrites rfl rfl (by simp [leastHexadecimal]) .lowest hahead
    obtain ⟨e, rest, shorter, hread, -, hvalue⟩ := hverdict.accepted hfits
    refine ⟨e, rest, shorter, hread, hvalue.trans ?_⟩
    rw [Base.toInt32_neg_wide, negated_wide hfits]
    rfl

end Offside.Surface
