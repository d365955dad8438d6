/-
  Offside/Proofs/Number/Exact.lean
  ================================
  **Numbers written exactly.**  A natural number is written by its decimal digits.  A finite
  double that is not negative is a significand times a power of two, so it has a finite
  decimal expansion, and `Binary64.exactText` writes all of it: with `s * 2 ^ -k` equal to
  `s * 5 ^ k / 10 ^ k`, the digits are those of `s * 5 ^ k` and the last `k` of them stand
  behind the point.

  Both are read back to the same number (`integer?_toDigits`, `magnitude?_toDigits`,
  `Binary64.ofText?_exactText`).  For doubles this says that rounding leaves alone what
  needs no rounding, in every binade and also below the least normal number, and that the
  short cuts for very large and very small decimals are not taken too early.
-/
import Mathlib.Algebra.Order.Field.Power
import Mathlib.Algebra.Order.Field.Rat
import Mathlib.Tactic.NormNum
import Mathlib.Tactic.Ring
import Mathlib.Tactic.Positivity
import Mathlib.Tactic.FieldSimp
import Offside.Number.Binary64

namespace Offside.Number

/-! ### Digits -/

theorem decimalDigit?_digitChar {d : Nat} (h : d < 10) :
    decimalDigit? (Nat.digitChar d) = some d := by
  have hall : ∀ d < 10, decimalDigit? (Nat.digitChar d) = some d := by decide
  exact hall d h

theorem isDigit_digitChar {d : Nat} (h : d < 10) : (Nat.digitChar d).isDigit = true := by
  have hall : ∀ d < 10, (Nat.digitChar d).isDigit = true := by decide
  exact hall d h

theorem digitsFrom_concat {base : Nat} {digit? : Char → Option Nat} {acc m d : Nat}
    {cs : List Char} {c : Char} (h : digitsFrom base digit? acc cs = some m)
    (hc : digit? c = some d) :
    digitsFrom base digit? acc (cs ++ [c]) = some (m * base + d) := by
  induction cs generalizing acc with
  | nil =>
    obtain rfl := Option.some.inj h
    simp only [List.nil_append, digitsFrom, hc]
  | cons a cs ih =>
    rw [digitsFrom] at h
    rw [List.cons_append, digitsFrom]
    cases ha : digit? a with
    | none => simp [ha] at h
    | some n =>
      rw [ha] at h
      exact ih h

theorem digitsFrom_toDigits (n : Nat) :
    digitsFrom 10 decimalDigit? 0 (Nat.toDigits 10 n) = some n := by
  induction n using Nat.strong_induction_on with
  | h n ih =>
    by_cases hn : n < 10
    · simp only [Nat.toDigits_of_lt_base hn, digitsFrom, decimalDigit?_digitChar hn,
        Nat.zero_mul, Nat.zero_add]
    · rw [Nat.toDigits_of_base_le (by omega) (by omega),
        digitsFrom_concat (ih (n / 10) (by omega))
          (decimalDigit?_digitChar (Nat.mod_lt n (by omega))), Nat.div_add_mod']

theorem decimal?_eq {cs : List Char} (h : cs ≠ []) :
    decimal? cs = digitsFrom 10 decimalDigit? 0 cs := by
  cases cs with
  | nil => exact absurd rfl h
  | cons c cs => rfl

theorem isDigit_of_mem_toDigits {n : Nat} {c : Char} (h : c ∈ Nat.toDigits 10 n) :
    c.isDigit = true := Nat.isDigit_of_mem_toDigits (by omega) (by omega) h

/-- A text of digits has no sign and no mark. -/
theorem signedDecimal?_of_isDigit {cs : List Char} (h : ∀ c ∈ cs, c.isDigit = true) :
    signedDecimal? cs = (decimal? cs).map fun n => (n : Int) := by
  rw [signedDecimal?.eq_def]
  split
  · exact absurd (h '-' List.mem_cons_self) (by decide)
  · exact absurd (h '+' List.mem_cons_self) (by decide)
  · rfl

theorem afterHexMark?_of_isDigit {cs : List Char} (h : ∀ c ∈ cs, c.isDigit = true) :
    afterHexMark? cs = none := by
  rw [afterHexMark?.eq_def]
  split
  · exact absurd (h 'x' (by simp)) (by decide)
  · exact absurd (h 'X' (by simp)) (by decide)
  · rfl

theorem signedDecimal?_toDigits (n : Nat) :
    signedDecimal? (Nat.toDigits 10 n) = some (n : Int) := by
  rw [signedDecimal?_of_isDigit fun _ => isDigit_of_mem_toDigits, decimal?_eq Nat.toDigits_ne_nil,
    digitsFrom_toDigits]
  rfl

/-! ### Integer literals -/

theorem integer?_toDigits {n : Nat} (h : (n : Int) ≤ Int32.maxValue.toInt) :
    integer? (String.ofList (Nat.toDigits 10 n)) = some (Int32.ofInt n) := by
  have hmin : Int32.minValue.toInt ≤ (n : Int) :=
    le_trans (by decide) (Int.natCast_nonneg n)
  rw [integer?, String.toList_ofList, afterHexMark?_of_isDigit fun _ => isDigit_of_mem_toDigits]
  simp only [signedDecimal?_toDigits, Option.bind_eq_bind, Option.bind_some]
  exact if_pos ⟨hmin, h⟩

theorem magnitude?_toDigits {n : Nat} (h : (n : Int) ≤ -Int32.minValue.toInt) :
    magnitude? (String.ofList (Nat.toDigits 10 n)) = some (n : Int) := by
  have hmin : Int64.minValue.toInt ≤ (n : Int) :=
    le_trans (by decide) (Int.natCast_nonneg n)
  rw [magnitude?, String.toList_ofList]
  simp only [signedDecimal?_toDigits, Option.bind_eq_bind, Option.bind_some]
  exact if_pos ⟨hmin, h⟩

namespace Binary64

/-! ### Exact rounding -/

theorem roundQuotient_mul {m d : Nat} (h : 0 < d) : roundQuotient (m * d) d = m := by
  rw [roundQuotient, Nat.mul_mod_left, Nat.mul_div_cancel m h]
  exact if_neg (by omega)

/-- The test by which `binade` chooses between two exponents. -/
theorem top_le_scaled_iff {num den : Nat} {k : ℤ} :
    (if 0 ≤ k then den <<< (k.toNat + 53) else den <<< 53) ≤
        (if 0 ≤ k then num else num <<< (-k).toNat) ↔
      (den : ℚ) * 2 ^ (k + 53) ≤ num := by
  by_cases hk : 0 ≤ k
  · obtain ⟨j, rfl⟩ := Int.eq_ofNat_of_zero_le hk
    have hpow : (2 : ℚ) ^ ((j : ℤ) + 53) = ((2 ^ (j + 53) : Nat) : ℚ) := by
      push_cast
      exact_mod_cast zpow_natCast (2 : ℚ) (j + 53)
    rw [if_pos hk, if_pos hk, Nat.shiftLeft_eq, Int.toNat_natCast, hpow]
    exact_mod_cast Iff.rfl
  · obtain ⟨j, hj⟩ := Int.eq_ofNat_of_zero_le (show 0 ≤ -k by omega)
    obtain rfl : k = -(j : ℤ) := by omega
    have hpow : (2 : ℚ) ^ (-(j : ℤ) + 53) * 2 ^ j = 2 ^ 53 := by
      rw [← zpow_natCast (2 : ℚ) j, ← zpow_add₀ (by norm_num)]
      norm_num
    have hpos : (0 : ℚ) < 2 ^ j := by positivity
    rw [if_neg hk, if_neg hk, Nat.shiftLeft_eq, Nat.shiftLeft_eq, neg_neg, Int.toNat_natCast,
      ← mul_le_mul_iff_left₀ hpos, mul_assoc, hpow]
    exact_mod_cast Iff.rfl

/-- The quotient lies in the binade that is found for it. -/
theorem binade_spec {num den : Nat} (hnum : num ≠ 0) (hden : den ≠ 0) :
    (den : ℚ) * 2 ^ (binade num den + 52) ≤ num ∧
      (num : ℚ) < den * 2 ^ (binade num den + 53) := by
  have hnum₁ : (2 : ℚ) ^ (num.log2 : ℤ) ≤ num := by
    rw [zpow_natCast]; exact_mod_cast Nat.log2_self_le hnum
  have hnum₂ : (num : ℚ) < 2 ^ ((num.log2 : ℤ) + 1) := by
    have h : num < 2 ^ (num.log2 + 1) := Nat.lt_log2_self
    exact_mod_cast h
  have hden₁ : (2 : ℚ) ^ (den.log2 : ℤ) ≤ den := by
    rw [zpow_natCast]; exact_mod_cast Nat.log2_self_le hden
  have hden₂ : (den : ℚ) < 2 ^ ((den.log2 : ℤ) + 1) := by
    have h : den < 2 ^ (den.log2 + 1) := Nat.lt_log2_self
    exact_mod_cast h
  rw [binade]
  generalize hk : (num.log2 : ℤ) - den.log2 - 53 = k
  have hpos : ∀ j : ℤ, (0 : ℚ) < 2 ^ j := fun j => zpow_pos (by norm_num) j
  by_cases htop : (den : ℚ) * 2 ^ (k + 53) ≤ num
  · rw [if_pos (top_le_scaled_iff.mpr htop)]
    refine ⟨by rwa [show k + 1 + 52 = k + 53 by ring], lt_of_lt_of_le hnum₂ ?_⟩
    calc (2 : ℚ) ^ ((num.log2 : ℤ) + 1) = 2 ^ (den.log2 : ℤ) * 2 ^ (k + 1 + 53) := by
          rw [← zpow_add₀ (by norm_num)]
          congr 1
          omega
      _ ≤ den * 2 ^ (k + 1 + 53) := mul_le_mul_of_nonneg_right hden₁ (hpos _).le
  · rw [if_neg (fun h => htop (top_le_scaled_iff.mp h))]
    refine ⟨le_trans (le_of_lt ?_) hnum₁, not_le.mp htop⟩
    calc (den : ℚ) * 2 ^ (k + 52) < 2 ^ ((den.log2 : ℤ) + 1) * 2 ^ (k + 52) :=
          mul_lt_mul_of_pos_right hden₂ (hpos _)
      _ = 2 ^ (num.log2 : ℤ) := by
          rw [← zpow_add₀ (by norm_num)]
          congr 1
          omega

/-- A quotient that is a significand times a power of two is not rounded.  The significand
    has 53 bits, or fewer if the power is the least there is. -/
theorem ofRatio_exact {num den s : Nat} {k : ℤ} (hs : s ≠ 0) (hden : den ≠ 0)
    (hexact : (num : ℚ) = s * 2 ^ k * den) (hk : -1074 ≤ k) (hsup : s < 2 ^ 53)
    (hinf : 2 ^ 52 ≤ s ∨ k = -1074)
    (hfinite : (k + 1074).toNat * 2 ^ 52 + s < 0x7FF0000000000000) :
    ofRatio num den = ⟨UInt64.ofNat ((k + 1074).toNat * 2 ^ 52 + s)⟩ := by
  have hpos : ∀ j : ℤ, (0 : ℚ) < 2 ^ j := fun j => zpow_pos (by norm_num) j
  have hden' : (0 : ℚ) < den := by exact_mod_cast Nat.pos_of_ne_zero hden
  have hs' : (0 : ℚ) < s := by exact_mod_cast Nat.pos_of_ne_zero hs
  have hnum : num ≠ 0 := by
    rintro rfl
    have : (0 : ℚ) < s * 2 ^ k * den := mul_pos (mul_pos hs' (hpos k)) hden'
    rw [← hexact] at this
    simp at this
  obtain ⟨hlow, hhigh⟩ := binade_spec hnum hden
  rw [hexact, mul_comm (den : ℚ), mul_le_mul_iff_left₀ hden'] at hlow
  rw [hexact, mul_comm (den : ℚ), mul_lt_mul_iff_left₀ hden'] at hhigh
  -- the exponent found is `k`, except that it may be smaller where `k` is the least
  have hle : binade num den ≤ k := by
    have h : (2 : ℚ) ^ (binade num den + 52) < 2 ^ (k + 53) := by
      refine lt_of_le_of_lt hlow ?_
      rw [add_comm k, zpow_add₀ (by norm_num)]
      refine mul_lt_mul_of_pos_right ?_ (hpos k)
      exact_mod_cast hsup
    have := (zpow_lt_zpow_iff_right₀ (by norm_num : (1 : ℚ) < 2)).mp h
    omega
  have hmax : max (binade num den) (-1074) = k := by
    rcases hinf with hinf | hinf
    · have h : (2 : ℚ) ^ (k + 52) < 2 ^ (binade num den + 53) := by
        refine lt_of_le_of_lt ?_ hhigh
        rw [add_comm k, zpow_add₀ (by norm_num)]
        refine mul_le_mul_of_nonneg_right ?_ (hpos k).le
        exact_mod_cast hinf
      have := (zpow_lt_zpow_iff_right₀ (by norm_num : (1 : ℚ) < 2)).mp h
      omega
    · omega
  have hround : (if 0 ≤ k then roundQuotient num (den <<< k.toNat)
      else roundQuotient (num <<< (-k).toNat) den) = s := by
    by_cases hk0 : 0 ≤ k
    · obtain ⟨j, rfl⟩ := Int.eq_ofNat_of_zero_le hk0
      have hn : num = s * (den * 2 ^ j) := by
        have h : (num : ℚ) = ((s * (den * 2 ^ j) : Nat) : ℚ) := by
          rw [hexact]
          push_cast
          rw [zpow_natCast]
          ring
        exact_mod_cast h
      rw [if_pos hk0, Int.toNat_natCast, Nat.shiftLeft_eq, hn]
      exact roundQuotient_mul (Nat.mul_pos (Nat.pos_of_ne_zero hden) (by positivity))
    · obtain ⟨j, hj⟩ := Int.eq_ofNat_of_zero_le (show 0 ≤ -k by omega)
      obtain rfl : k = -(j : ℤ) := by omega
      have hn : num * 2 ^ j = s * den := by
        have h : ((num * 2 ^ j : Nat) : ℚ) = ((s * den : Nat) : ℚ) := by
          push_cast
          rw [hexact, zpow_neg, zpow_natCast]
          field_simp
        exact_mod_cast h
      rw [if_neg hk0, neg_neg, Int.toNat_natCast, Nat.shiftLeft_eq, hn]
      exact roundQuotient_mul (Nat.pos_of_ne_zero hden)
  rw [ofRatio]
  rw [hmax, hround, Nat.shiftLeft_eq, if_pos hfinite]

/-! ### Decimal texts -/

/-- The last `k` decimal digits of `n`. -/
def places : Nat → Nat → List Char
  | 0, _ => []
  | k + 1, n => places k (n / 10) ++ [Nat.digitChar (n % 10)]

theorem length_places (k n : Nat) : (places k n).length = k := by
  induction k generalizing n with
  | zero => rfl
  | succ k ih => rw [places, List.length_append, ih, List.length_singleton]

theorem isDigit_of_mem_places {k n : Nat} {c : Char} (h : c ∈ places k n) :
    c.isDigit = true := by
  induction k generalizing n with
  | zero => cases h
  | succ k ih =>
    rcases List.mem_append.mp h with h | h
    · exact ih h
    · obtain rfl := List.mem_singleton.mp h
      exact isDigit_digitChar (Nat.mod_lt n (by omega))

theorem digitsFrom_places {acc m : Nat} {cs : List Char}
    (h : digitsFrom 10 decimalDigit? acc cs = some m) (k n : Nat) :
    digitsFrom 10 decimalDigit? acc (cs ++ places k n) = some (m * 10 ^ k + n % 10 ^ k) := by
  induction k generalizing n with
  | zero => rw [places, List.append_nil, h, pow_zero, mul_one, Nat.mod_one, add_zero]
  | succ k ih =>
    rw [places, ← List.append_assoc,
      digitsFrom_concat (ih (n / 10)) (decimalDigit?_digitChar (Nat.mod_lt n (by omega))),
      pow_succ', Nat.mod_mul]
    congr 1
    ring

/-- The number `m / 10 ^ k` with `k` digits behind the point. -/
def fixedPoint (m k : Nat) : List Char :=
  Nat.toDigits 10 (m / 10 ^ k) ++ '.' :: places k m

theorem unsignedDecimal?_fixedPoint (m k : Nat) :
    unsignedDecimal? (fixedPoint m k) = some (ofDecimal m (0 - (k : Int))) := by
  have hwhole : ∀ c ∈ Nat.toDigits 10 (m / 10 ^ k), c.isDigit = true := fun _ =>
    isDigit_of_mem_toDigits
  have hplaces : ∀ c ∈ places k m, c.isDigit = true := fun _ => isDigit_of_mem_places
  have htake : (fixedPoint m k).takeWhile Char.isDigit = Nat.toDigits 10 (m / 10 ^ k) := by
    rw [fixedPoint, List.takeWhile_append_of_pos hwhole]
    simp
  have hdrop : (fixedPoint m k).dropWhile Char.isDigit = '.' :: places k m := by
    rw [fixedPoint, List.dropWhile_append_of_pos hwhole]
    simp
  have hdigits : decimal? (Nat.toDigits 10 (m / 10 ^ k) ++ places k m) = some m := by
    rw [decimal?_eq (by simp [Nat.toDigits_ne_nil]), digitsFrom_places (digitsFrom_toDigits _),
      Nat.div_add_mod']
  have htake' : (places k m).takeWhile Char.isDigit = places k m := by
    have h : (places k m ++ []).takeWhile Char.isDigit = places k m ++ [].takeWhile _ :=
      List.takeWhile_append_of_pos hplaces
    simpa using h
  have hdrop' : (places k m).dropWhile Char.isDigit = [] := by
    have h : (places k m ++ []).dropWhile Char.isDigit = [].dropWhile _ :=
      List.dropWhile_append_of_pos hplaces
    simpa using h
  rw [unsignedDecimal?, htake, hdrop]
  simp only [htake', hdrop', hdigits, exponent?, length_places]

theorem ofText?_fixedPoint (m k : Nat) :
    ofText? (String.ofList (fixedPoint m k)) = some (ofDecimal m (0 - (k : Int))) := by
  -- the point keeps the text apart from the words for infinity and NaN
  have hpoint : ∀ word : String, '.' ∉ word.toList →
      String.ofList ((fixedPoint m k).map Char.toLower) ≠ word := by
    rintro _ hword rfl
    refine hword ?_
    rw [String.toList_ofList, fixedPoint, List.map_append, List.map_cons]
    exact List.mem_append_right _ List.mem_cons_self
  have hunsigned : unsigned? (fixedPoint m k) = some (ofDecimal m (0 - (k : Int))) := by
    rw [unsigned?, if_neg, if_neg, unsignedDecimal?_fixedPoint]
    · exact hpoint "nan" (by decide)
    · rintro (h | h)
      · exact hpoint "inf" (by decide) h
      · exact hpoint "infinity" (by decide) h
  have hfirst : ∀ c cs, fixedPoint m k = c :: cs → c.isDigit = true := by
    intro c cs h
    cases hwhole : Nat.toDigits 10 (m / 10 ^ k) with
    | nil => exact absurd hwhole Nat.toDigits_ne_nil
    | cons d ds =>
      rw [fixedPoint, hwhole, List.cons_append] at h
      have hd : d ∈ Nat.toDigits 10 (m / 10 ^ k) := by
        rw [hwhole]
        exact List.mem_cons_self
      rw [← (List.cons.inj h).1]
      exact isDigit_of_mem_toDigits hd
  rw [ofText?, String.toList_ofList]
  split
  next cs h => exact absurd (hfirst '-' cs h) (by decide)
  next cs h => exact absurd (hfirst '+' cs h) (by decide)
  next => exact hunsigned

/-! ### Finite doubles -/

/-- Holds for the values that are neither infinite nor NaN. -/
def isFinite (x : Binary64) : Bool := x.bits.toNat % 0x8000000000000000 < 0x7FF0000000000000

/-- Holds for the values with a minus sign, the negative zero among them. -/
def isNegative (x : Binary64) : Bool := 0x8000000000000000 ≤ x.bits.toNat

/-- The exponent of a value that is not negative, counted from one. -/
def exponent (x : Binary64) : Nat := max 1 (x.bits.toNat / 2 ^ 52)

/-- The significand of a value that is not negative, in units of its last bit. -/
def significand (x : Binary64) : Nat := x.bits.toNat - (x.exponent - 1) * 2 ^ 52

/-- The whole decimal expansion of a finite value that is not negative. -/
def exactText (x : Binary64) : List Char :=
  if x.exponent < 1075 then
    fixedPoint (x.significand * 5 ^ (1075 - x.exponent)) (1075 - x.exponent)
  else fixedPoint (x.significand * 2 ^ (x.exponent - 1075) * 10) 1

section Finite

variable {x : Binary64} (h : x.bits.toNat < 0x7FF0000000000000)

theorem bits_eq (x : Binary64) :
    (x.exponent - 1) * 2 ^ 52 + x.significand = x.bits.toNat := by
  rw [significand, exponent]
  omega

theorem significand_lt (x : Binary64) : x.significand < 2 ^ 53 := by
  rw [significand, exponent]
  omega

theorem le_significand (x : Binary64) : 2 ^ 52 ≤ x.significand ∨ x.exponent = 1 := by
  rw [significand, exponent]
  omega

include h in
theorem exponent_le : x.exponent ≤ 2046 := by
  rw [exponent]
  omega

theorem one_le_exponent (x : Binary64) : 1 ≤ x.exponent := Nat.le_max_left _ _

/-- A decimal of moderate size is a quotient that is rounded. -/
theorem ofDecimal_eq_ofRatio {m j : Nat} (hm : m ≠ 0) (hj : 0 < j) (hhigh : m < 10 ^ (309 + j))
    (hlow : 10 ^ j ≤ m * 10 ^ 325) : ofDecimal m (0 - (j : Int)) = ofRatio m (10 ^ j) := by
  have hcount : digitCount m ≤ 309 + j := by
    rw [digitCount]
    exact (Nat.length_toDigits_le_iff (by omega) (by omega)).mpr hhigh
  have hcount' : j < digitCount m + 325 := by
    by_contra hle
    have hlt : m < 10 ^ (j - 325) := by
      by_cases hpos : 0 < j - 325
      · exact (Nat.length_toDigits_le_iff (by omega) hpos).mp (by rw [digitCount] at hle; omega)
      · have hempty : (Nat.toDigits 10 m).length = 0 := by rw [digitCount] at hle; omega
        exact absurd (List.length_eq_zero_iff.mp hempty) Nat.toDigits_ne_nil
    have hpow : 10 ^ (j - 325) * 10 ^ 325 = 10 ^ j := by
      rw [← pow_add]
      congr 1
      omega
    have := Nat.mul_lt_mul_of_pos_right hlt (show 0 < 10 ^ 325 by positivity)
    omega
  rw [ofDecimal, if_neg hm, if_neg (by omega), if_neg (by omega), if_neg (by omega)]
  congr 1
  rw [powerOfTen, show (-(0 - (j : Int))).toNat = j by omega]
  rfl

theorem two_pow_le : 2 ^ 1075 ≤ 10 ^ 325 := by
  rw [show 1075 = 43 * 25 from rfl, show 325 = 13 * 25 from rfl, pow_mul, pow_mul]
  exact Nat.pow_le_pow_left (by norm_num) 25

theorem two_pow_le_largest : (2 : Nat) ^ 1024 ≤ 10 ^ 309 := by
  calc 2 ^ 1024 = (2 ^ 93) ^ 11 * 2 := by rw [← pow_mul, ← pow_succ]
    _ ≤ (10 ^ 28) ^ 11 * 10 := Nat.mul_le_mul (Nat.pow_le_pow_left (by norm_num) 11) (by omega)
    _ = 10 ^ 309 := by rw [← pow_mul, ← pow_succ]

include h in
/-- A finite double that is not negative is read back from its decimal expansion. -/
theorem ofText?_exactText : ofText? (String.ofList x.exactText) = some x := by
  have hbits := x.bits_eq
  have hsup := x.significand_lt
  have hinf := x.le_significand
  have hexp := exponent_le h
  have hone := x.one_le_exponent
  have hx : x = ⟨UInt64.ofNat ((x.exponent - 1) * 2 ^ 52 + x.significand)⟩ := by
    rw [hbits, UInt64.ofNat_toNat]
  by_cases hs : x.significand = 0
  · -- only zero has no significand
    have hexp1 : x.exponent = 1 := by omega
    rw [exactText, if_pos (by omega), hs, Nat.zero_mul, ofText?_fixedPoint, ofDecimal, if_pos rfl,
      hx, hs, hexp1]
    rfl
  · have hk : ((x.exponent : ℤ) - 1075 + 1074).toNat = x.exponent - 1 := by omega
    have hfinite : ((x.exponent : ℤ) - 1075 + 1074).toNat * 2 ^ 52 + x.significand <
        0x7FF0000000000000 := by rw [hk, hbits]; exact h
    have hk' : 2 ^ 52 ≤ x.significand ∨ (x.exponent : ℤ) - 1075 = -1074 := by omega
    rw [exactText]
    by_cases hsmall : x.exponent < 1075
    · generalize hj : 1075 - x.exponent = j
      have hexact : ((x.significand * 5 ^ j : Nat) : ℚ) =
          x.significand * 2 ^ ((x.exponent : ℤ) - 1075) * (10 ^ j : Nat) := by
        rw [show (x.exponent : ℤ) - 1075 = -(j : ℤ) by omega, zpow_neg, zpow_natCast]
        push_cast
        rw [show (10 : ℚ) = 2 * 5 by norm_num, mul_pow]
        field_simp
      rw [if_pos hsmall, ofText?_fixedPoint, ofDecimal_eq_ofRatio, ofRatio_exact hs (by positivity)
        hexact (by omega) hsup hk' hfinite, hk, ← hx]
      · exact Nat.mul_ne_zero hs (by positivity)
      · omega
      · rw [pow_add]
        have hle : 2 ^ 53 ≤ 10 ^ 309 := by
          calc 2 ^ 53 ≤ 2 ^ 1024 := pow_le_pow_right₀ (by omega) (by omega)
            _ ≤ 10 ^ 309 := two_pow_le_largest
        exact Nat.mul_lt_mul_of_lt_of_le (lt_of_lt_of_le hsup hle)
          (Nat.pow_le_pow_left (by omega) j) (by positivity)
      · have htwo : 2 ^ j ≤ 10 ^ 325 :=
          (Nat.pow_le_pow_right (by omega) (by omega)).trans two_pow_le
        calc 10 ^ j = 5 ^ j * 2 ^ j := by rw [← mul_pow, show 5 * 2 = 10 from rfl]
          _ ≤ 5 ^ j * 10 ^ 325 := Nat.mul_le_mul_left _ htwo
          _ ≤ x.significand * (5 ^ j * 10 ^ 325) := Nat.le_mul_of_pos_left _ (by omega)
          _ = x.significand * 5 ^ j * 10 ^ 325 := by rw [mul_assoc]
    · generalize hj : x.exponent - 1075 = j
      have hexact : ((x.significand * 2 ^ j * 10 : Nat) : ℚ) =
          x.significand * 2 ^ ((x.exponent : ℤ) - 1075) * (10 ^ 1 : Nat) := by
        rw [show (x.exponent : ℤ) - 1075 = (j : ℤ) by omega, zpow_natCast]
        push_cast
        ring
      rw [if_neg hsmall, ofText?_fixedPoint, ofDecimal_eq_ofRatio, ofRatio_exact hs (by positivity)
        hexact (by omega) hsup hk' hfinite, hk, ← hx]
      · exact Nat.mul_ne_zero (Nat.mul_ne_zero hs (by positivity)) (by omega)
      · omega
      · have hle : (2 : Nat) ^ 53 * 2 ^ j ≤ 2 ^ 1024 := by
          rw [← pow_add]
          exact pow_le_pow_right₀ (by omega) (by omega)
        have hpow : x.significand * 2 ^ j < 10 ^ 309 :=
          lt_of_lt_of_le (Nat.mul_lt_mul_of_pos_right hsup (by positivity))
            (hle.trans two_pow_le_largest)
        rw [pow_add, pow_one]
        exact Nat.mul_lt_mul_of_pos_right hpow (by omega)
      · rw [pow_one]
        have hpos : 1 ≤ x.significand * 2 ^ j := Nat.mul_pos (by omega) (by positivity)
        calc 10 ≤ x.significand * 2 ^ j * 10 := by omega
          _ ≤ x.significand * 2 ^ j * 10 * 10 ^ 325 := Nat.le_mul_of_pos_right _ (by positivity)

end Finite

theorem neg_neg (x : Binary64) : x.neg.neg = x := by
  rw [neg, neg, UInt64.xor_assoc, UInt64.xor_self, UInt64.xor_zero]

/-- The sign is the highest bit. -/
theorem xor_sign {r : Nat} (h : r < 2 ^ 63) : (2 ^ 63 + r) ^^^ 2 ^ 63 = r := by
  have hor := Nat.two_pow_add_eq_or_of_lt h 1
  rw [Nat.mul_one] at hor
  rw [hor]
  apply Nat.eq_of_testBit_eq
  intro i
  rw [Nat.testBit_xor, Nat.testBit_or]
  by_cases hi : 63 = i
  · subst hi
    rw [Nat.testBit_two_pow_self, Nat.testBit_lt_two_pow h]
    rfl
  · rw [Nat.testBit_two_pow_of_ne hi, Bool.false_or, Bool.xor_false]

theorem bits_neg_lt {x : Binary64} (hfinite : x.isFinite = true) (hneg : x.isNegative = true) :
    x.neg.bits.toNat < 0x7FF0000000000000 := by
  have hlt : x.bits.toNat < 2 ^ 64 := x.bits.toNat_lt
  have hle : 2 ^ 63 ≤ x.bits.toNat := of_decide_eq_true hneg
  have hmod : x.bits.toNat % 2 ^ 63 < 0x7FF0000000000000 := of_decide_eq_true hfinite
  have hbits : x.bits.toNat = 2 ^ 63 + (x.bits.toNat - 2 ^ 63) := by omega
  rw [neg, UInt64.toNat_xor, hbits]
  change (2 ^ 63 + (x.bits.toNat - 2 ^ 63)) ^^^ 2 ^ 63 < _
  rw [xor_sign (by omega)]
  omega

theorem bits_lt {x : Binary64} (hfinite : x.isFinite = true) (hpos : x.isNegative = false) :
    x.bits.toNat < 0x7FF0000000000000 := by
  have hlt : x.bits.toNat < 2 ^ 63 := not_le.mp (of_decide_eq_false hpos)
  have hmod : x.bits.toNat % 2 ^ 63 < 0x7FF0000000000000 := of_decide_eq_true hfinite
  omega

end Binary64
end Offside.Number
