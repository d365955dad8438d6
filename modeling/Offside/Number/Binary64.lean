/-
  Offside/Number/Binary64.lean
  ============================
  **Double-precision constants.**  A constant is carried as its 64 bits, so that every
  payload of a NaN and both zeros survive.  Reading a decimal text gives the nearest
  value, a tie going to the even neighbour; the work is done on exact natural numbers.

  With `q` the significand and `2 ^ k` its unit, the bits of a finite value are
  `(k + 1074) * 2 ^ 52 + q`, also when rounding carries `q` into the next binade and when
  the value is subnormal (`k = -1074`).
-/
import Offside.Number.Integer

namespace Offside.Number

/-- A double-precision value by its bits: sign, eleven of exponent, 52 of fraction. -/
structure Binary64 where
  bits : UInt64
deriving DecidableEq, Repr

namespace Binary64

def zero : Binary64 := ⟨0⟩

def infinity : Binary64 := ⟨0x7FF0000000000000⟩

def notANumber : Binary64 := ⟨0x7FF8000000000000⟩

/-- The value with the opposite sign. -/
def neg (x : Binary64) : Binary64 := ⟨x.bits ^^^ 0x8000000000000000⟩

/-- The quotient `n / d` rounded to the nearest integer, a tie to the even one. -/
def roundQuotient (n d : Nat) : Nat :=
  let q := n / d
  let r := n % d
  if d < 2 * r ∨ (d = 2 * r ∧ q % 2 = 1) then q + 1 else q

/-- The exponent `k` for which `num / den` lies in `[2 ^ (k + 52), 2 ^ (k + 53))`. -/
def binade (num den : Nat) : Int :=
  let k : Int := (num.log2 : Int) - den.log2 - 53
  let top := if 0 ≤ k then den <<< (k.toNat + 53) else den <<< 53
  let scaled := if 0 ≤ k then num else num <<< (-k).toNat
  if top ≤ scaled then k + 1 else k

/-- The value nearest to `num / den`, for positive numbers. -/
def ofRatio (num den : Nat) : Binary64 :=
  let k := max (binade num den) (-1074)
  let q :=
    if 0 ≤ k then roundQuotient num (den <<< k.toNat)
    else roundQuotient (num <<< (-k).toNat) den
  let bits := ((k + 1074).toNat <<< 52) + q
  if bits < 0x7FF0000000000000 then ⟨UInt64.ofNat bits⟩ else infinity

/-- The number written by a one and `n` zeros. -/
def powerOfTen (n : Nat) : Nat := Nat.pow 10 n

/-- The number of decimal digits of `n`. -/
def digitCount (n : Nat) : Nat := (Nat.toDigits 10 n).length

/-- The value nearest to `m * 10 ^ e`.  Above `10 ^ 309` that is infinity and below
    `10 ^ -324` it is zero, whatever the digits. -/
def ofDecimal (m : Nat) (e : Int) : Binary64 :=
  if m = 0 then zero
  else if 309 < (digitCount m : Int) + e then infinity
  else if (digitCount m : Int) + e < -324 then zero
  else if 0 ≤ e then ofRatio (m * powerOfTen e.toNat) 1
  else ofRatio m (powerOfTen (-e).toNat)

/-! ### Texts -/

/-- The exponent part of a decimal text: nothing, or a mark and a signed number. -/
def exponent? : List Char → Option Int
  | [] => some 0
  | c :: cs => if c = 'e' ∨ c = 'E' then signedDecimal? cs else none

/-- A decimal text without a sign: digits around an optional point, then an exponent. -/
def unsignedDecimal? (cs : List Char) : Option Binary64 :=
  let whole := cs.takeWhile Char.isDigit
  let rest := cs.dropWhile Char.isDigit
  let (fraction, tail) :=
    match rest with
    | '.' :: after => (after.takeWhile Char.isDigit, after.dropWhile Char.isDigit)
    | _ => ([], rest)
  match decimal? (whole ++ fraction), exponent? tail with
  | some m, some e => some (ofDecimal m (e - fraction.length))
  | _, _ => none

/-- A text without a sign: a decimal, or one of the words for infinity and NaN in any
    mix of cases. -/
def unsigned? (cs : List Char) : Option Binary64 :=
  let word := String.ofList (cs.map Char.toLower)
  if word = "inf" ∨ word = "infinity" then some infinity
  else if word = "nan" then some notANumber
  else unsignedDecimal? cs

/-- The value a text denotes. -/
def ofText? (text : String) : Option Binary64 :=
  match text.toList with
  | '-' :: cs => (unsigned? cs).map neg
  | '+' :: cs => unsigned? cs
  | cs => unsigned? cs

end Binary64
end Offside.Number
