/-
  Offside/Proofs/Wasm/ShortestForm.lean
  =====================================
  **A number has one shortest form.**  The bytes of a number of variable length are decoded
  from left to right: each adds seven bits above those that are there, and the first byte
  without its top bit is the last.  The decoder of signed numbers then extends bit six of
  that byte over all higher bits.  Neither knows how many bits a number may have, so a number
  has many forms: a byte that only repeats the sign may be put behind it again and again.

  `ShortestForm` says of some bytes that they are decoded to a value, whatever follows them,
  and that whatever else is decoded to it takes more bytes.  Both writers give such forms
  (`shortestForm_unsignedLeb`, `shortestForm_signedLeb`), because they stop as soon as the
  rest can be left out.  The proofs are about numbers and not about bits: a decoder adds
  multiples of powers of two (`collectUnsigned_eq`, `collectSigned_eq`).
-/
import Mathlib.Data.Nat.Bitwise
import Mathlib.Tactic.Ring
import Offside.Proofs.Wasm.Decode

namespace Offside.Wasm

/-! ### Decoders -/

/-- Decodes an unsigned number of which the bits below `shift` are those of `value`. -/
def collectUnsigned (shift value : Nat) : List UInt8 → Option (Nat × List UInt8)
  | [] => none
  | b :: bytes =>
    let value := value ||| ((b &&& 0x7F).toNat <<< shift)
    if b &&& 0x80 = 0 then some (value, bytes) else collectUnsigned (shift + 7) value bytes

/-- Decodes a signed number of which the bits below `shift` are those of `value`. -/
def collectSigned (shift value : Nat) : List UInt8 → Option (Int × List UInt8)
  | [] => none
  | b :: bytes =>
    let value := value ||| ((b &&& 0x7F).toNat <<< shift)
    if b &&& 0x80 = 0 then
      -- with all bits from `shift + 7` on set, the number is this much less
      some (if b &&& 0x40 = 0 then (value : Int) else value - (2 ^ (shift + 7) : Nat), bytes)
    else collectSigned (shift + 7) value bytes

def decodeUnsigned (bytes : List UInt8) : Option (Nat × List UInt8) := collectUnsigned 0 0 bytes

def decodeSigned (bytes : List UInt8) : Option (Int × List UInt8) := collectSigned 0 0 bytes

/-- The bytes are decoded to the value, whatever follows them, and anything else that is
    decoded to it takes more bytes. -/
structure ShortestForm {α : Type} (decode : Reader α) (bytes : List UInt8) (a : α) : Prop where
  decoded : decode.Reads bytes a
  shortest : ∀ other rest, decode other = some (a, rest) →
    bytes.length + rest.length ≤ other.length
  unique : ∀ other rest, decode other = some (a, rest) →
    other.length = bytes.length + rest.length → other = bytes ++ rest

/-- A reader that refuses some of what is decoded leaves no shorter form. -/
theorem ShortestForm.of_refines {α : Type} {decode read : Reader α} {bytes : List UInt8} {a : α}
    (h : ShortestForm decode bytes a) (hread : read.Reads bytes a)
    (hrefines : ∀ {other r}, read other = some r → decode other = some r) :
    ShortestForm read bytes a where
  decoded := hread
  shortest other rest hother := h.shortest other rest (hrefines hother)
  unique other rest hother := h.unique other rest (hrefines hother)

/-! ### Decoding by arithmetic -/

/-- The unsigned number at the front of some bytes, the lowest byte weighing least. -/
def unsignedValue : List UInt8 → Option (Nat × List UInt8)
  | [] => none
  | b :: bytes =>
    if b.toNat < 128 then some (b.toNat, bytes)
    else (unsignedValue bytes).map fun (n, rest) => (128 * n + (b.toNat - 128), rest)

/-- The signed number at the front of some bytes, of which the last is a number of seven bits
    in two's complement. -/
def signedValue : List UInt8 → Option (Int × List UInt8)
  | [] => none
  | b :: bytes =>
    if b.toNat < 64 then some (b.toNat, bytes)
    else if b.toNat < 128 then some (b.toNat - 128, bytes)
    else (signedValue bytes).map fun (n, rest) => (128 * n + (b.toNat - 128), rest)

theorem toNat_and_lowBits (b : UInt8) : (b &&& 0x7F).toNat = b.toNat % 128 := by
  rw [UInt8.toNat_and]
  exact Nat.and_two_pow_sub_one_eq_mod b.toNat 7

theorem and_two_pow_eq_zero (n i : Nat) : n &&& 2 ^ i = 0 ↔ n / 2 ^ i % 2 = 0 := by
  rw [Nat.and_two_pow, Nat.testBit_eq_decide_div_mod_eq]
  rcases Nat.mod_two_eq_zero_or_one (n / 2 ^ i) with h | h <;> simp [h]

theorem and_topBit_eq_zero (b : UInt8) : b &&& 0x80 = 0 ↔ b.toNat < 128 := by
  have hb := b.toNat_lt
  have hbit := and_two_pow_eq_zero b.toNat 7
  rw [← UInt8.toNat_inj, UInt8.toNat_and]
  refine hbit.trans ?_
  omega

theorem and_signBit_eq_zero (b : UInt8) : b &&& 0x40 = 0 ↔ b.toNat % 128 < 64 := by
  have hbit := and_two_pow_eq_zero b.toNat 6
  rw [← UInt8.toNat_inj, UInt8.toNat_and]
  refine hbit.trans ?_
  omega

/-- Bits that are put above those of a number are added to it. -/
theorem or_shiftLeft {value shift : Nat} (h : value < 2 ^ shift) (g : Nat) :
    value ||| (g <<< shift) = value + 2 ^ shift * g := by
  rw [Nat.or_comm, ← Nat.shiftLeft_add_eq_or_of_lt h, Nat.shiftLeft_eq, Nat.add_comm, Nat.mul_comm]

theorem add_group_lt {value shift g : Nat} (h : value < 2 ^ shift) (hg : g < 128) :
    value + 2 ^ shift * g < 2 ^ (shift + 7) := by
  have hle : 2 ^ shift * (g + 1) ≤ 2 ^ shift * 128 := Nat.mul_le_mul_left _ hg
  rw [Nat.mul_succ] at hle
  rw [Nat.pow_add]
  omega

theorem collectUnsigned_eq {shift value : Nat} (h : value < 2 ^ shift) (bytes : List UInt8) :
    collectUnsigned shift value bytes =
      (unsignedValue bytes).map fun (n, rest) => (value + 2 ^ shift * n, rest) := by
  induction bytes generalizing shift value with
  | nil => rfl
  | cons b bytes ih =>
    simp only [collectUnsigned, unsignedValue, and_topBit_eq_zero, toNat_and_lowBits,
      or_shiftLeft h]
    by_cases hlast : b.toNat < 128
    · rw [if_pos hlast, if_pos hlast, Nat.mod_eq_of_lt hlast]
      rfl
    · have hlt := add_group_lt h (Nat.mod_lt b.toNat (by omega : 128 > 0))
      rw [if_neg hlast, if_neg hlast, ih hlt]
      have hgroup : b.toNat % 128 = b.toNat - 128 := by
        have hb := b.toNat_lt
        omega
      cases unsignedValue bytes with
      | none => rfl
      | some p =>
        simp only [Option.map_some, Option.some.injEq, Prod.mk.injEq, and_true, hgroup]
        ring

theorem collectSigned_eq {shift value : Nat} (h : value < 2 ^ shift) (bytes : List UInt8) :
    collectSigned shift value bytes =
      (signedValue bytes).map fun (n, rest) => (value + (2 ^ shift : Nat) * n, rest) := by
  induction bytes generalizing shift value with
  | nil => rfl
  | cons b bytes ih =>
    simp only [collectSigned, signedValue, and_topBit_eq_zero, and_signBit_eq_zero,
      toNat_and_lowBits, or_shiftLeft h]
    by_cases hlast : b.toNat < 128
    · rw [if_pos hlast, Nat.mod_eq_of_lt hlast]
      by_cases hsign : b.toNat < 64
      · rw [if_pos hsign, if_pos hsign]
        simp
      · rw [if_neg hsign, if_neg hsign, if_pos hlast]
        simp only [Option.map_some, Option.some.injEq, Prod.mk.injEq, and_true, Nat.pow_add]
        push_cast
        rw [Int.mul_sub]
        omega
    · have hlt := add_group_lt h (Nat.mod_lt b.toNat (by omega : 128 > 0))
      rw [if_neg hlast, if_neg (by omega), if_neg hlast, ih hlt]
      have hgroup : ((b.toNat % 128 : Nat) : Int) = b.toNat - 128 := by
        have hb := b.toNat_lt
        omega
      cases signedValue bytes with
      | none => rfl
      | some p =>
        simp only [Option.map_some, Option.some.injEq, Prod.mk.injEq, and_true]
        rw [Int.natCast_add, Int.natCast_mul, hgroup]
        push_cast
        ring

theorem decodeUnsigned_eq (bytes : List UInt8) : decodeUnsigned bytes = unsignedValue bytes := by
  rw [decodeUnsigned, collectUnsigned_eq (by simp)]
  simp

theorem decodeSigned_eq (bytes : List UInt8) : decodeSigned bytes = signedValue bytes := by
  rw [decodeSigned, collectSigned_eq (by simp)]
  simp

/-! ### What is written is decoded -/

/-- What is read as a number of so many bits is decoded to the same number. -/
theorem decodeUnsigned_of_unsigned {bits : Nat} {bytes : List UInt8} {r : Nat × List UInt8}
    (h : Reader.unsigned bits bytes = some r) : decodeUnsigned bytes = some r := by
  rw [decodeUnsigned_eq]
  induction bytes generalizing bits r with
  | nil => cases h
  | cons b bytes ih =>
    rw [Reader.unsigned] at h
    rw [unsignedValue]
    split_ifs at h ⊢ with hlast hfits hbits
    · exact h
    · obtain ⟨p, hp, rfl⟩ := Option.map_eq_some_iff.mp h
      rw [ih hp]
      rfl

theorem decodeSigned_of_signed {bits : Nat} {bytes : List UInt8} {r : Int × List UInt8}
    (h : Reader.signed bits bytes = some r) : decodeSigned bytes = some r := by
  rw [decodeSigned_eq]
  induction bytes generalizing bits r with
  | nil => cases h
  | cons b bytes ih =>
    rw [Reader.signed] at h
    rw [signedValue]
    split_ifs at h ⊢ with hlow _ hlast _ _
    · exact h
    · exact h
    · obtain ⟨p, hp, rfl⟩ := Option.map_eq_some_iff.mp h
      rw [ih hp]
      rfl

/-! ### What is written is shortest -/

theorem length_signedLeb_pos (n : Int) : 0 < (signedLeb n).length := by
  rw [signedLeb]
  split <;> exact Nat.succ_pos _

/-- The byte of seven bits that are followed by others is found again from the number. -/
theorem moreByte_eq {n : Nat} {b : UInt8} (hb : 128 ≤ b.toNat) (hn : n % 128 = b.toNat - 128) :
    moreByte n = b := by
  rw [← UInt8.toNat_inj, Reader.toNat_moreByte, hn, Nat.sub_add_cancel hb]

theorem unsignedLeb_le {n : Nat} {other rest : List UInt8}
    (h : unsignedValue other = some (n, rest)) :
    (unsignedLeb n).length + rest.length ≤ other.length ∧
      (other.length = (unsignedLeb n).length + rest.length → other = unsignedLeb n ++ rest) := by
  induction other generalizing n with
  | nil => cases h
  | cons b bytes ih =>
    rw [unsignedValue] at h
    rw [unsignedLeb]
    split_ifs at h with hlast
    · obtain ⟨rfl, rfl⟩ : b.toNat = n ∧ bytes = rest := by simpa using h
      rw [if_pos hlast]
      simp [Nat.add_comm]
    · obtain ⟨⟨m, rest'⟩, hm, hn⟩ := Option.map_eq_some_iff.mp h
      obtain ⟨rfl, rfl⟩ := Prod.mk.inj hn
      obtain ⟨hle, hunique⟩ := ih hm
      have hb := b.toNat_lt
      by_cases hshort : 128 * m + (b.toNat - 128) < 128
      · -- the byte is followed by zeros, and there is at least one
        have hpos := length_unsignedLeb_pos m
        rw [if_pos hshort]
        simp only [List.length_cons, List.length_nil]
        exact ⟨by omega, fun heq => by omega⟩
      · have hm' : (128 * m + (b.toNat - 128)) / 128 = m := by omega
        have hbyte : moreByte (128 * m + (b.toNat - 128)) = b := moreByte_eq (by omega) (by omega)
        rw [if_neg hshort, hm', hbyte]
        simp only [List.length_cons, List.cons_append]
        refine ⟨by omega, fun heq => ?_⟩
        rw [← hunique (by omega)]

theorem signedLeb_le {n : Int} {other rest : List UInt8}
    (h : signedValue other = some (n, rest)) :
    (signedLeb n).length + rest.length ≤ other.length ∧
      (other.length = (signedLeb n).length + rest.length → other = signedLeb n ++ rest) := by
  induction other generalizing n with
  | nil => cases h
  | cons b bytes ih =>
    rw [signedValue] at h
    rw [signedLeb]
    split_ifs at h with hlow hlast
    · obtain ⟨rfl, rfl⟩ : (b.toNat : Int) = n ∧ bytes = rest := by simpa using h
      have hbyte : ((b.toNat : Int) % 128).toNat = b.toNat := by omega
      rw [if_pos (by omega), hbyte]
      simp [Nat.add_comm]
    · obtain ⟨rfl, rfl⟩ : (b.toNat - 128 : Int) = n ∧ bytes = rest := by simpa using h
      have hbyte : ((b.toNat - 128 : Int) % 128).toNat = b.toNat := by omega
      rw [if_pos (by omega), hbyte]
      simp [Nat.add_comm]
    · obtain ⟨⟨m, rest'⟩, hm, hn⟩ := Option.map_eq_some_iff.mp h
      obtain ⟨rfl, rfl⟩ := Prod.mk.inj hn
      obtain ⟨hle, hunique⟩ := ih hm
      have hb := b.toNat_lt
      by_cases hshort : -64 ≤ 128 * m + (b.toNat - 128 : Int) ∧ 128 * m + (b.toNat - 128 : Int) < 64
      · -- the byte is followed by signs, and there is at least one
        have hpos := length_signedLeb_pos m
        rw [if_pos hshort]
        simp only [List.length_cons, List.length_nil]
        exact ⟨by omega, fun heq => by omega⟩
      · have hm' : (128 * m + (b.toNat - 128 : Int)) / 128 = m := by omega
        have hbyte : moreByte ((128 * m + (b.toNat - 128 : Int)) % 128).toNat = b :=
          moreByte_eq (by omega) (by omega)
        rw [if_neg hshort, hm', hbyte]
        simp only [List.length_cons, List.cons_append]
        refine ⟨by omega, fun heq => ?_⟩
        rw [← hunique (by omega)]

theorem shortestForm_unsignedLeb (n : Nat) : ShortestForm decodeUnsigned (unsignedLeb n) n where
  decoded rest :=
    decodeUnsigned_of_unsigned (Reader.unsigned_unsignedLeb n.lt_two_pow_self rest)
  shortest other rest h := by
    rw [decodeUnsigned_eq] at h
    exact (unsignedLeb_le h).1
  unique other rest h := by
    rw [decodeUnsigned_eq] at h
    exact (unsignedLeb_le h).2

theorem shortestForm_signedLeb (n : Int) : ShortestForm decodeSigned (signedLeb n) n where
  decoded rest := by
    have hbits : -((2 ^ (n.natAbs + 1 - 1) : Nat) : Int) ≤ n ∧
        n < ((2 ^ (n.natAbs + 1 - 1) : Nat) : Int) := by
      have hlt := n.natAbs.lt_two_pow_self
      rw [Nat.add_sub_cancel]
      omega
    exact decodeSigned_of_signed (Reader.signed_signedLeb hbits rest)
  shortest other rest h := by
    rw [decodeSigned_eq] at h
    exact (signedLeb_le h).1
  unique other rest h := by
    rw [decodeSigned_eq] at h
    exact (signedLeb_le h).2

/-! ### How many bytes there are -/

theorem length_unsignedLeb_le {n k : Nat} (h : n < 128 ^ (k + 1)) :
    (unsignedLeb n).length ≤ k + 1 := by
  induction k generalizing n with
  | zero =>
    rw [unsignedLeb, if_pos (by simpa using h)]
    simp
  | succ k ih =>
    rw [unsignedLeb]
    split
    · simp
    · rw [List.length_cons]
      exact Nat.succ_le_succ (ih (Nat.div_lt_of_lt_mul (by rwa [← Nat.pow_succ'])))

theorem length_signedLeb_le {n : Int} {k : Nat}
    (h : -((64 * 128 ^ k : Nat) : Int) ≤ n ∧ n < ((64 * 128 ^ k : Nat) : Int)) :
    (signedLeb n).length ≤ k + 1 := by
  induction k generalizing n with
  | zero =>
    rw [signedLeb, if_pos (by simpa using h)]
    simp
  | succ k ih =>
    rw [signedLeb]
    split
    · simp
    · rw [List.length_cons]
      refine Nat.succ_le_succ (ih ?_)
      rw [Nat.pow_succ] at h
      generalize 128 ^ k = limit at h ⊢
      omega

/-- **Numbers are written in their shortest form.**  What is written for a number of 32 bits is
    decoded to it, whatever follows, takes at most five bytes, and nothing else that is decoded
    to it is as short.  The same holds for the readers that refuse more than 32 bits. -/
theorem leb_shortestForm (n : UInt32) (k : Int32) :
    (ShortestForm decodeUnsigned (u32Leb n) n.toNat ∧
      ShortestForm Reader.u32 (u32Leb n) n.toNat ∧ (u32Leb n).length ≤ 5) ∧
    (ShortestForm decodeSigned (i32Leb k) k.toInt ∧
      ShortestForm Reader.i32 (i32Leb k) k.toInt ∧ (i32Leb k).length ≤ 5) := by
  have hn : ShortestForm decodeUnsigned (u32Leb n) n.toNat := shortestForm_unsignedLeb _
  have hk : ShortestForm decodeSigned (i32Leb k) k.toInt := shortestForm_signedLeb _
  constructor
  · refine ⟨hn, hn.of_refines (.u32 n) decodeUnsigned_of_unsigned, ?_⟩
    have hlt := n.toNat_lt
    exact length_unsignedLeb_le (by omega)
  · refine ⟨hk, hk.of_refines (.i32 k) decodeSigned_of_signed, ?_⟩
    have hle := k.le_toInt
    have hlt := k.toInt_lt
    exact length_signedLeb_le (by omega)

end Offside.Wasm
