/-
  Offside/Proofs/Token/Numeral.lean
  =================================
  **The texts of integer tokens.**  An integer token of a source text says decimal digits,
  or hexadecimal digits behind their mark (`ofSource_numeral`): it has no sign, and it is
  not empty.  A number reader is not so strict, as it takes a sign; on the text of such a
  token it gives the number that the digits write, if that fits.
-/
import Mathlib.Data.List.TakeWhile
import Mathlib.Data.Nat.Digits.Defs
import Offside.Proofs.Number.Exact
import Offside.Proofs.Token.Move

namespace Offside

/-! ### What integer literals write -/

namespace Number

section Digits

variable {base : Nat} {digit? : Char → Option Nat} {cs : List Char}

/-- The digits write the number with their values as its digits, from the last one on. -/
theorem digitsFrom_eq_ofDigits {values : List Nat} (h : cs.map digit? = values.map some)
    (acc : Nat) :
    digitsFrom base digit? acc cs = some (Nat.ofDigits base (values.reverse ++ [acc])) := by
  induction cs generalizing values acc with
  | nil =>
    obtain rfl : values = [] := by simpa using h.symm
    simp [digitsFrom]
  | cons c cs ih =>
    cases values with
    | nil => cases h
    | cons d values =>
      obtain ⟨hc, hcs⟩ := List.cons.inj h
      simp only [digitsFrom, hc]
      rw [ih hcs, List.reverse_cons, List.append_assoc, Nat.ofDigits_append,
        Nat.ofDigits_append, Nat.ofDigits_singleton, List.singleton_append, Nat.ofDigits_cons,
        Nat.ofDigits_singleton, Nat.mul_comm acc, Nat.add_comm d]

theorem exists_values (digit? : Char → Option Nat) (h : ∀ c ∈ cs, (digit? c).isSome = true) :
    ∃ values : List Nat, cs.map digit? = values.map some := by
  induction cs with
  | nil => exact ⟨[], rfl⟩
  | cons c cs ih =>
    obtain ⟨d, hd⟩ := Option.isSome_iff_exists.mp (h c List.mem_cons_self)
    obtain ⟨values, hvalues⟩ := ih fun c' hc' => h c' (List.mem_cons_of_mem c hc')
    exact ⟨d :: values, by rw [List.map_cons, hd, hvalues]; rfl⟩

theorem exists_digitsFrom (h : ∀ c ∈ cs, (digit? c).isSome = true) (acc : Nat) :
    ∃ n, digitsFrom base digit? acc cs = some n := by
  obtain ⟨values, hvalues⟩ := exists_values digit? h
  exact ⟨_, digitsFrom_eq_ofDigits hvalues acc⟩

theorem isSome_of_digitsFrom {acc n : Nat} (h : digitsFrom base digit? acc cs = some n) :
    ∀ c ∈ cs, (digit? c).isSome = true := by
  induction cs generalizing acc with
  | nil =>
    intro c hc
    exact absurd hc List.not_mem_nil
  | cons c cs ih =>
    rw [digitsFrom] at h
    cases hd : digit? c with
    | none => simp [hd] at h
    | some d =>
      simp only [hd] at h
      intro c' hc'
      rcases List.mem_cons.mp hc' with rfl | hc'
      · rw [hd]
        rfl
      · exact ih h c' hc'

end Digits

section Literals

variable {cs : List Char} {n : Nat}

theorem isSome_decimalDigit? (c : Char) : (decimalDigit? c).isSome = c.isDigit := by
  unfold decimalDigit?
  split <;> simp_all

theorem exists_decimal? (hne : cs ≠ []) (h : ∀ c ∈ cs, c.isDigit = true) :
    ∃ n, decimal? cs = some n := by
  rw [decimal?_eq hne]
  apply exists_digitsFrom
  intro c hc
  rw [isSome_decimalDigit?]
  exact h c hc

theorem exists_hexadecimal? (hne : cs ≠ []) (h : ∀ c ∈ cs, isHexDigit c = true) :
    ∃ n, hexadecimal? cs = some n := by
  rw [hexadecimal?]
  · exact exists_digitsFrom h 0
  · exact hne

theorem isDigit_of_decimal? (h : decimal? cs = some n) : ∀ c ∈ cs, c.isDigit = true := by
  unfold decimal? at h
  split at h
  · cases h
  · intro c hc
    rw [← isSome_decimalDigit?]
    exact isSome_of_digitsFrom h c hc

theorem isHexDigit_of_hexadecimal? (h : hexadecimal? cs = some n) :
    ∀ c ∈ cs, isHexDigit c = true := by
  unfold hexadecimal? at h
  split at h
  · cases h
  · exact isSome_of_digitsFrom h

theorem afterHexMark?_of_mark {mark : Char} (hmark : mark = 'x' ∨ mark = 'X') (cs : List Char) :
    afterHexMark? ('0' :: mark :: cs) = some cs := by
  rcases hmark with rfl | rfl <;> rfl

theorem signedDecimal?_of_decimal? (h : decimal? cs = some n) :
    signedDecimal? cs = some (n : Int) := by
  rw [signedDecimal?_of_isDigit (isDigit_of_decimal? h), h]
  rfl

theorem plusHexadecimal?_of_hexadecimal? (h : hexadecimal? cs = some n) :
    plusHexadecimal? cs = some n := by
  have hdigits := isHexDigit_of_hexadecimal? h
  unfold plusHexadecimal?
  split
  · exact absurd (hdigits '+' List.mem_cons_self) (by decide)
  · exact h

end Literals

section Readers

variable {text : String} {n : Nat} {mark : Char} {digits : List Char}

theorem integer?_decimal (h : decimal? text.toList = some n) :
    integer? text = if 2 * n < UInt32.size then some (Int32.ofInt n) else none := by
  have hbounds : (Int32.minValue.toInt ≤ (n : Int) ∧ (n : Int) ≤ Int32.maxValue.toInt) ↔
      2 * n < UInt32.size := by
    have hmin : Int32.minValue.toInt = -2147483648 := by decide
    have hmax : Int32.maxValue.toInt = 2147483647 := by decide
    rw [hmin, hmax, UInt32.size]
    omega
  rw [integer?, afterHexMark?_of_isDigit (isDigit_of_decimal? h), signedDecimal?_of_decimal? h]
  exact if_congr hbounds rfl rfl

theorem integer?_hexadecimal (htext : text.toList = '0' :: mark :: digits)
    (hmark : mark = 'x' ∨ mark = 'X') (h : hexadecimal? digits = some n) :
    integer? text = if n < UInt32.size then some (Int32.ofInt n) else none := by
  rw [integer?, htext, afterHexMark?_of_mark hmark]
  dsimp only
  rw [plusHexadecimal?_of_hexadecimal? h]
  rfl

/-- A minus sign lets the magnitude of a decimal literal be greater by one. -/
theorem magnitude?_decimal (h : decimal? text.toList = some n) :
    magnitude? text = if 2 * n ≤ UInt32.size then some (n : Int) else none := by
  have hbounds : (Int64.minValue.toInt ≤ (n : Int) ∧ (n : Int) ≤ -Int32.minValue.toInt) ↔
      2 * n ≤ UInt32.size := by
    have hmin : Int64.minValue.toInt = -9223372036854775808 := by decide
    have hmax : Int32.minValue.toInt = -2147483648 := by decide
    rw [hmin, hmax, UInt32.size]
    omega
  rw [magnitude?, signedDecimal?_of_decimal? h]
  exact if_congr hbounds rfl rfl

end Readers
end Number

namespace Token

open Number

/-- The texts of integer literals. -/
inductive Numeral : List Char → Prop where
  | decimal {digits : List Char} (hne : digits ≠ [])
      (h : ∀ c ∈ digits, c.isDigit = true) : Numeral digits
  | hexadecimal {mark : Char} {digits : List Char} (hmark : mark = 'x' ∨ mark = 'X')
      (hne : digits ≠ []) (h : ∀ c ∈ digits, isHexDigit c = true) :
      Numeral ('0' :: mark :: digits)

/-! ### Lexemes -/

namespace Lexeme

theorem decimalText_numeral {c : Char} (cs : List Char) (hc : c.isDigit = true) :
    (decimalText (c :: cs)).1 = .integer → Numeral (decimalText (c :: cs)).2 := by
  have hne := decimalText_ne_nil cs hc
  revert hne
  unfold decimalText
  split
  · intro _ h
    cases h
  · intro hne _
    exact .decimal hne fun d hd => List.mem_takeWhile_imp hd

theorem numberText_numeral {c : Char} (cs : List Char) (hc : c.isDigit = true) :
    (numberText (c :: cs)).1 = .integer → Numeral (numberText (c :: cs)).2 := by
  unfold numberText
  split
  next x d more heq =>
    split
    next hx =>
      intro _
      refine .hexadecimal hx.1 ?_ fun d hd => List.mem_takeWhile_imp hd
      simp [hx.2]
    next => exact decimalText_numeral cs hc
  next => exact decimalText_numeral cs hc

theorem ofWord_ne_integer (word : String) : Kind.ofWord word ≠ .integer := by
  intro h
  rcases ofWord_mem word with hword | hword
  · rw [h] at hword
    cases hword
  · rw [h] at hword
    simp [Kind.reserved] at hword

theorem readBy_numeral {c : Char} {cs : List Char} {l : Lexeme} (h : readBy c cs = some l)
    (hform : l.form = .plain .integer) : Numeral l.text := by
  unfold readBy at h
  split at h
  · cases h
    cases hform
  split at h
  · cases h
    cases hform
  split at h
  · cases h
    exact absurd (Form.plain.inj hform) (ofWord_ne_integer _)
  split at h
  next hc =>
    cases h
    exact numberText_numeral cs hc (Form.plain.inj hform)
  split at h
  · cases h
    unfold literal at hform
    split at hform
    split at hform
    · split at hform <;> cases hform
    · cases hform
  · unfold sign? at h
    split at h <;> cases h <;> cases hform

theorem read_numeral {cs : List Char} {l : Lexeme} (h : read cs = some l)
    (hform : l.form = .plain .integer) : Numeral l.text := by
  unfold read at h
  split at h
  · cases h
  · cases h
    cases hform
  · cases h
    cases hform
  · cases h
    cases hform
  · cases h
    cases hform
  · exact readBy_numeral h hform

end Lexeme

/-! ### The scan -/

/-- Where a token comes from: the layout, a quoted literal, or a lexeme that it repeats. -/
inductive Emitted (t : Token) : Prop where
  | layout (h : t.kind ∈ [Kind.newline, .indent, .dedent, .eof])
  | char (h : t.kind = .char)
  | lexeme {cs : List Char} {l : Lexeme} (hread : Lexeme.read cs = some l)
      (hform : l.form = .plain t.kind) (hvalue : t.value = String.ofList l.text)

theorem Emitted.numeral {t : Token} (h : t.Emitted) (hkind : t.kind = .integer) :
    Numeral t.value.toList := by
  cases h with
  | layout h =>
    rw [hkind] at h
    exact absurd h (by decide)
  | char h =>
    rw [hkind] at h
    cases h
  | lexeme hread hform hvalue =>
    rw [hvalue, String.toList_ofList]
    rw [hkind] at hform
    exact Lexeme.read_numeral hread hform

namespace Scan

variable {s s' : Scan} {ts : List Token}

theorem nest_emitted {width : Nat} (h : s.nest width = .ok (ts, s')) : ∀ t ∈ ts, t.Emitted := by
  intro t ht
  unfold nest at h
  dsimp only at h
  split at h
  · cases h
    rw [List.mem_singleton.mp ht]
    exact .layout (by simp [mark])
  split at h
  · cases h
    rw [List.eq_of_mem_replicate ht]
    exact .layout (by simp [mark])
  · cases h

theorem measureLine_emitted (h : s.measureLine = .ok (ts, s')) : ∀ t ∈ ts, t.Emitted := by
  unfold measureLine at h
  dsimp only at h
  split at h
  · cases h
    intro t ht
    exact absurd ht List.not_mem_nil
  · exact nest_emitted h

theorem emitLiteral_emitted {body text rest : List Char} {closed : Bool}
    (h : s.emitLiteral body closed text rest = .ok (ts, s')) : ∀ t ∈ ts, t.Emitted := by
  unfold emitLiteral at h
  split at h
  · split at h
    · cases h
      intro t ht
      rw [List.mem_singleton.mp ht]
      exact .char rfl
    · cases h
  · cases h

theorem takeLexeme_emitted (h : s.takeLexeme = .ok (ts, s')) : ∀ t ∈ ts, t.Emitted := by
  unfold takeLexeme at h
  split at h
  · cases h
  next form text rest hread =>
    cases form with
    | joint | gap =>
      cases h
      intro t ht
      exact absurd ht List.not_mem_nil
    | lineEnd =>
      cases h
      intro t ht
      split at ht
      · rw [List.mem_singleton.mp ht]
        exact .layout (by simp [token])
      · exact absurd ht List.not_mem_nil
    | quoted body closed => exact emitLiteral_emitted h
    | plain kind =>
      cases h
      intro t ht
      rw [List.mem_singleton.mp ht]
      exact .lexeme hread rfl rfl

theorem step_emitted (h : s.step = .ok (ts, s')) : ∀ t ∈ ts, t.Emitted := by
  unfold step at h
  split at h
  · exact measureLine_emitted h
  · exact takeLexeme_emitted h

theorem finish_emitted (s : Scan) : ∀ t ∈ s.finish, t.Emitted := by
  intro t ht
  obtain ⟨kind, hkind, rfl⟩ := mem_finish ht
  exact .layout (by simpa [Kind.isLayout, mark, or_assoc] using hkind)

theorem tokens_emitted (h : s.tokens = .ok ts) : ∀ t ∈ ts, t.Emitted := by
  fun_induction Scan.tokens s generalizing ts with
  | case1 s hrest =>
    cases h
    exact finish_emitted s
  | case2 | case3 => cases h
  | case4 s c cs hrest us s' hstep more hmore ih =>
    cases h
    intro t ht
    rcases List.mem_append.mp ht with ht | ht
    · exact step_emitted hstep t ht
    · exact ih hmore t ht

end Scan

/-- The integer tokens of a source text say what integer literals do. -/
theorem ofSource_numeral {source : String} {ts : List Token} (h : ofSource source = .ok ts)
    {t : Token} (ht : t ∈ ts) (hkind : t.kind = .integer) : Numeral t.value.toList :=
  (Scan.tokens_emitted h t ht).numeral hkind

end Token
end Offside
