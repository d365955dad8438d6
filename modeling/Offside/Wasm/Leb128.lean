/-
  Offside/Wasm/Leb128.lean
  ========================
  **Numbers of variable length.**  Seven bits a byte, the lowest first; the top bit of a
  byte says that another follows.  Counts, indices and sizes are unsigned; constants are
  signed, and the last byte's bit six is their sign.  All of them are numbers of 32 bits
  (`u32Leb`, `i32Leb`).
-/
namespace Offside.Wasm

/-- A byte with its top bit set, from the lowest seven bits of `n`. -/
def moreByte (n : Nat) : UInt8 := UInt8.ofNat (n % 128 + 128)

/-- The unsigned form of `n`. -/
def unsignedLeb (n : Nat) : List UInt8 :=
  if n < 128 then [UInt8.ofNat n] else moreByte n :: unsignedLeb (n / 128)
termination_by n

/-- The signed form of `n`. -/
def signedLeb (n : Int) : List UInt8 :=
  if -64 ≤ n ∧ n < 64 then [UInt8.ofNat (n % 128).toNat]
  else moreByte (n % 128).toNat :: signedLeb (n / 128)
termination_by n.natAbs

/-- The form of an index. -/
def u32Leb (n : UInt32) : List UInt8 := unsignedLeb n.toNat

/-- The form of a constant. -/
def i32Leb (n : Int32) : List UInt8 := signedLeb n.toInt

/-- The form of a count or a size, of which 32 bits are written. -/
def countLeb (n : Nat) : List UInt8 := u32Leb (UInt32.ofNat n)

/-- Bytes behind their number. -/
def sized (bytes : List UInt8) : List UInt8 := countLeb bytes.length ++ bytes

/-- A name: its UTF-8 bytes behind their number. -/
def encodeName (name : String) : List UInt8 := sized name.toUTF8.data.toList

end Offside.Wasm
