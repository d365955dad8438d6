/-
  Offside/Number/Integer.lean
  ===========================
  **Integer literals.**  A literal is decimal, or hexadecimal after `0x` or `0X`.  A
  decimal literal must fit a signed 32-bit integer; a hexadecimal one gives the 32 bits
  themselves, so `0xffffffff` is minus one.

  A minus sign in front of a literal belongs to it (`Integer.magnitude?`), which is how
  the least 32-bit integer can be written at all.
-/
namespace Offside.Number

/-- The value of the hexadecimal digit `c`, in either case. -/
def hexDigit? (c : Char) : Option Nat :=
  if c.isDigit then some (c.toNat - '0'.toNat)
  else if 'a' ≤ c ∧ c ≤ 'f' then some (c.toNat - 'a'.toNat + 10)
  else if 'A' ≤ c ∧ c ≤ 'F' then some (c.toNat - 'A'.toNat + 10)
  else none

/-- Holds for the hexadecimal digits. -/
def isHexDigit (c : Char) : Bool := (hexDigit? c).isSome

/-- The number written by `cs` after the digits with value `acc`. -/
def digitsFrom (base : Nat) (digit? : Char → Option Nat) : Nat → List Char → Option Nat
  | acc, [] => some acc
  | acc, c :: cs =>
    match digit? c with
    | some d => digitsFrom base digit? (acc * base + d) cs
    | none => none

/-- The value of the decimal digit `c`. -/
def decimalDigit? (c : Char) : Option Nat :=
  if c.isDigit then some (c.toNat - '0'.toNat) else none

/-- The number written by a non-empty list of decimal digits. -/
def decimal? : List Char → Option Nat
  | [] => none
  | cs => digitsFrom 10 decimalDigit? 0 cs

/-- The number written by a non-empty list of hexadecimal digits. -/
def hexadecimal? : List Char → Option Nat
  | [] => none
  | cs => digitsFrom 16 hexDigit? 0 cs

/-- A decimal number with an optional sign. -/
def signedDecimal? : List Char → Option Int
  | '-' :: cs => (decimal? cs).map fun n => -(n : Int)
  | '+' :: cs => (decimal? cs).map fun n => (n : Int)
  | cs => (decimal? cs).map fun n => (n : Int)

/-- A hexadecimal number, which may have a plus sign. -/
def plusHexadecimal? : List Char → Option Nat
  | '+' :: cs => hexadecimal? cs
  | cs => hexadecimal? cs

/-- What follows the mark of a hexadecimal literal. -/
def afterHexMark? : List Char → Option (List Char)
  | '0' :: 'x' :: cs => some cs
  | '0' :: 'X' :: cs => some cs
  | _ => none

/-- The value of an integer literal. -/
def integer? (text : String) : Option Int32 :=
  match afterHexMark? text.toList with
  | some cs => do
    let n ← plusHexadecimal? cs
    if n < UInt32.size then some (Int32.ofInt n) else none
  | none => do
    let n ← signedDecimal? text.toList
    if Int32.minValue.toInt ≤ n ∧ n ≤ Int32.maxValue.toInt then some (Int32.ofInt n) else none

/-- The number a minus sign negates when it stands directly before the decimal literal
    `text`: at most the magnitude of the least 32-bit integer. -/
def magnitude? (text : String) : Option Int := do
  let n ← signedDecimal? text.toList
  if Int64.minValue.toInt ≤ n ∧ n ≤ -Int32.minValue.toInt then some n else none

/-- The 32-bit integer congruent to `-n`. -/
def negated (n : Int) : Int32 := Int32.ofInt (-n)

end Offside.Number
