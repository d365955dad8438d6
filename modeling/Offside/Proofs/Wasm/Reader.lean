/-
  Offside/Proofs/Wasm/Reader.lean
  ===============================
  **Reading bytes.**  A reader takes a value off the front of a list of bytes and leaves
  the rest, or it refuses them.  The binary format is a handful of shapes: numbers of
  variable length, vectors behind their number of entries, and regions behind their size in
  bytes.  Each has a reader here, which refuses what the format does not allow: a number
  that needs more bits than it may have, a region that is not used up by what it holds.

  `Reads r bytes a` says that `r` finds `a` in exactly these bytes, whatever follows them;
  the writers of the format are related to its readers by it.  What fills a region to its
  end is read by readers that only know where to stop because the bytes end (`Fills`).
-/
import Mathlib.Algebra.Group.Nat.Defs
import Offside.Wasm.Leb128

namespace Offside.Wasm

/-- Takes a value off the front of some bytes, or refuses them. -/
abbrev Reader := StateT (List UInt8) Option

namespace Reader

variable {α β : Type}

/-! ### Readers -/

def byte : Reader UInt8 := fun bytes =>
  match bytes with
  | [] => none
  | b :: rest => some (b, rest)

/-- Reads nothing, and refuses if there is no value. -/
def ofOption (a : Option α) : Reader α := fun bytes => a.map fun a => (a, bytes)

/-- Reads the given bytes and no others. -/
def literal : List UInt8 → Reader Unit
  | [] => pure ()
  | b :: bs => do
    let c ← byte
    if c = b then literal bs else ofOption none

def take (n : Nat) : Reader (List UInt8) := fun bytes =>
  if n ≤ bytes.length then some (bytes.take n, bytes.drop n) else none

def times (r : Reader α) : Nat → Reader (List α)
  | 0 => pure []
  | n + 1 => do
    let a ← r
    let as ← times r n
    return a :: as

/-- Reads values until no bytes are left. -/
def all (r : Reader α) : Reader (List α) := fun bytes =>
  (go bytes.length bytes).map fun as => (as, [])
where
  go : Nat → List UInt8 → Option (List α)
    | _, [] => some []
    | 0, _ :: _ => none
    | fuel + 1, b :: bytes => do
      let (a, rest) ← r (b :: bytes)
      let as ← go fuel rest
      return a :: as

/-- The value that uses up all bytes. -/
def whole (r : Reader α) (bytes : List UInt8) : Option α :=
  match r bytes with
  | some (a, []) => some a
  | _ => none

/-! ### Numbers -/

/-- An unsigned number of the given number of bits, seven of them in each byte. -/
def unsigned : Nat → List UInt8 → Option (Nat × List UInt8)
  | _, [] => none
  | bits, b :: bytes =>
    if b.toNat < 128 then
      if b.toNat < 2 ^ bits then some (b.toNat, bytes) else none
    else if 7 < bits then
      (unsigned (bits - 7) bytes).map fun (n, rest) => (128 * n + (b.toNat - 128), rest)
    else none

/-- A signed number of the given number of bits.  The last byte stands for a number of
    seven bits in two's complement. -/
def signed : Nat → List UInt8 → Option (Int × List UInt8)
  | _, [] => none
  | bits, b :: bytes =>
    if b.toNat < 64 then
      if b.toNat < 2 ^ (bits - 1) then some (b.toNat, bytes) else none
    else if b.toNat < 128 then
      if 128 ≤ b.toNat + 2 ^ (bits - 1) then some (b.toNat - 128, bytes) else none
    else if 7 < bits then
      (signed (bits - 7) bytes).map fun (n, rest) => (128 * n + (b.toNat - 128), rest)
    else none

/-- A count, an index or a size. -/
def u32 : Reader Nat := unsigned 32

def i32 : Reader Int := signed 32

/-- The bits of a number in eight bytes, the lowest first. -/
def bits64 : Reader UInt64 := do
  let bytes ← take 8
  return UInt64.ofNat (bytes.foldr (fun b n => b.toNat + 256 * n) 0)

/-! ### Vectors and regions -/

/-- Values behind their number. -/
def vec (r : Reader α) : Reader (List α) := do
  let n ← u32
  times r n

/-- A region behind its size, which what is read there uses up. -/
def region (r : Reader α) : Reader α := do
  let size ← u32
  let bytes ← take size
  ofOption (whole r bytes)

def text : Reader String := fun bytes =>
  (String.fromUTF8? ⟨bytes.toArray⟩).map fun s => (s, [])

/-! ### What is read -/

/-- The reader finds the value in these bytes, whatever follows them. -/
def Reads (r : Reader α) (bytes : List UInt8) (a : α) : Prop :=
  ∀ rest, r (bytes ++ rest) = some (a, rest)

/-- The reader finds the value in these bytes, if nothing follows them. -/
def Fills (r : Reader α) (bytes : List UInt8) (a : α) : Prop := r bytes = some (a, [])

variable {r : Reader α} {f : α → Reader β} {a : α} {b : β} {bytes more : List UInt8}

theorem bind_eq {rest : List UInt8} (h : r bytes = some (a, rest)) :
    (r >>= f) bytes = f a rest := by
  change (r bytes).bind (fun p => f p.1 p.2) = f a rest
  rw [h]
  rfl

theorem Reads.fills (h : Reads r bytes a) : Fills r bytes a := by
  have hnil := h []
  rwa [List.append_nil] at hnil

theorem Reads.pure (a : α) : Reads (pure a) [] a := fun _ => rfl

theorem Reads.bind (h : Reads r bytes a) (h' : Reads (f a) more b) :
    Reads (r >>= f) (bytes ++ more) b := by
  intro rest
  rw [List.append_assoc, bind_eq (h (more ++ rest))]
  exact h' rest

theorem Reads.bind_fills (h : Reads r bytes a) (h' : Fills (f a) more b) :
    Fills (r >>= f) (bytes ++ more) b :=
  (bind_eq (h more)).trans h'

theorem Fills.bind (h : Fills r bytes a) (h' : Fills (f a) [] b) : Fills (r >>= f) bytes b :=
  (bind_eq h).trans h'

/-- The last step of a reader computes a value from what was read. -/
theorem Reads.bind_nil (h : Reads r bytes a) (h' : Reads (f a) [] b) :
    Reads (r >>= f) bytes b := by
  have hbind := h.bind h'
  rwa [List.append_nil] at hbind

theorem Reads.map {g : α → β} (h : Reads r bytes a) : Reads (g <$> r) bytes (g a) := by
  intro rest
  change (r (bytes ++ rest)).bind (fun p => some (g p.1, p.2)) = some (g a, rest)
  rw [h]
  rfl

theorem Reads.byte (b : UInt8) : Reads byte [b] b := fun _ => rfl

theorem Reads.ofOption {x : Option α} (h : x = some a) : Reads (ofOption x) [] a := by
  subst h
  exact fun _ => rfl

theorem Reads.literal (bytes : List UInt8) : Reads (literal bytes) bytes () := by
  induction bytes with
  | nil => exact .pure ()
  | cons b bytes ih =>
    have hb : Reads (if b = b then Reader.literal bytes else Reader.ofOption none) bytes () := by
      rw [if_pos rfl]
      exact ih
    exact (Reads.byte b).bind hb

theorem Reads.take (bytes : List UInt8) : Reads (take bytes.length) bytes bytes := by
  intro rest
  rw [Reader.take, if_pos (by simp), List.take_left, List.drop_left]

theorem Reads.times {enc : α → List UInt8} {xs : List α} (h : ∀ x ∈ xs, Reads r (enc x) x) :
    Reads (times r xs.length) (xs.flatMap enc) xs := by
  induction xs with
  | nil => exact .pure []
  | cons x xs ih =>
    have hrest := ih fun y hy => h y (List.mem_cons_of_mem x hy)
    exact (h x List.mem_cons_self).bind (hrest.bind_nil (.pure (x :: xs)))

theorem go_flatMap {enc : α → List UInt8} {xs : List α}
    (h : ∀ x ∈ xs, Reads r (enc x) x ∧ enc x ≠ []) {fuel : Nat}
    (enough : (xs.flatMap enc).length ≤ fuel) : all.go r fuel (xs.flatMap enc) = some xs := by
  induction xs generalizing fuel with
  | nil => rw [List.flatMap_nil, all.go]
  | cons x xs ih =>
    obtain ⟨hreads, hne⟩ := h x List.mem_cons_self
    obtain ⟨b, bytes, hbytes⟩ := List.exists_cons_of_ne_nil hne
    rw [List.flatMap_cons, hbytes, List.cons_append] at enough ⊢
    obtain ⟨fuel, rfl⟩ : ∃ n, fuel = n + 1 := ⟨fuel - 1, by simp at enough; omega⟩
    have hx : r (b :: (bytes ++ xs.flatMap enc)) = some (x, xs.flatMap enc) := by
      rw [← List.cons_append, ← hbytes]
      exact hreads _
    have hxs : all.go r fuel (xs.flatMap enc) = some xs :=
      ih (fun y hy => h y (List.mem_cons_of_mem x hy)) (by simp at enough ⊢; omega)
    rw [all.go, hx]
    change (all.go r fuel (xs.flatMap enc)).bind (fun as => some (x :: as)) = some (x :: xs)
    rw [hxs]
    rfl

theorem Fills.all {enc : α → List UInt8} {xs : List α}
    (h : ∀ x ∈ xs, Reads r (enc x) x ∧ enc x ≠ []) :
    Fills (all r) (xs.flatMap enc) xs := by
  rw [Fills, Reader.all, go_flatMap h (Nat.le_refl _)]
  rfl

theorem Fills.whole (h : Fills r bytes a) : whole r bytes = some a := by
  rw [Reader.whole, h]

/-! ### Numbers -/

theorem toNat_moreByte (n : Nat) : (moreByte n).toNat = n % 128 + 128 := by
  rw [moreByte]
  exact UInt8.toNat_ofNat_of_lt' (by change _ < 256; omega)

theorem unsigned_unsignedLeb {n bits : Nat} (h : n < 2 ^ bits) (rest : List UInt8) :
    unsigned bits (unsignedLeb n ++ rest) = some (n, rest) := by
  induction n using Nat.strongRecOn generalizing bits with
  | ind n ih =>
    rw [unsignedLeb]
    by_cases hlast : n < 128
    · have htoNat : (UInt8.ofNat n).toNat = n :=
        UInt8.toNat_ofNat_of_lt' (by change _ < 256; omega)
      rw [if_pos hlast, List.singleton_append, unsigned, htoNat, if_pos hlast, if_pos h]
    · -- a number above 127 has more than seven bits
      have hbits : 7 < bits := by
        refine (Nat.pow_lt_pow_iff_right (by omega : 1 < 2)).mp ?_
        omega
      have hrest : n / 128 < 2 ^ (bits - 7) := by
        refine Nat.div_lt_of_lt_mul ?_
        have hpow : 128 * 2 ^ (bits - 7) = 2 ^ bits := by
          rw [show 128 = 2 ^ 7 from rfl, ← Nat.pow_add, Nat.add_sub_cancel' (by omega)]
        rwa [hpow]
      rw [if_neg hlast, List.cons_append, unsigned, toNat_moreByte, if_neg (by omega),
        if_pos hbits, ih (n / 128) (by omega) hrest, Option.map_some]
      have hvalue : 128 * (n / 128) + (n % 128 + 128 - 128) = n := by omega
      exact congrArg (fun k => some (k, rest)) hvalue

theorem signed_signedLeb {n : Int} {bits : Nat}
    (h : -((2 ^ (bits - 1) : Nat) : Int) ≤ n ∧ n < ((2 ^ (bits - 1) : Nat) : Int))
    (rest : List UInt8) : signed bits (signedLeb n ++ rest) = some (n, rest) := by
  fun_induction signedLeb n generalizing bits with
  | case1 n hlast =>
    -- the byte of a negative number is 128 above it
    have htoNat : (UInt8.ofNat (n % 128).toNat).toNat = (n % 128).toNat :=
      UInt8.toNat_ofNat_of_lt' (by change _ < 256; omega)
    rw [List.singleton_append, signed, htoNat]
    generalize 2 ^ (bits - 1) = limit at h
    by_cases hsign : 0 ≤ n
    · rw [if_pos (by omega), if_pos (by omega)]
      have hvalue : ((n % 128).toNat : Int) = n := by omega
      exact congrArg (fun k => some (k, rest)) hvalue
    · rw [if_neg (by omega), if_pos (by omega), if_pos (by omega)]
      have hvalue : ((n % 128).toNat : Int) - 128 = n := by omega
      exact congrArg (fun k => some (k, rest)) hvalue
  | case2 n hmore ih =>
    have hbits : 7 < bits := by
      refine Nat.lt_of_not_le fun hle => ?_
      have hpow : 2 ^ (bits - 1) ≤ 2 ^ 6 := Nat.pow_le_pow_right (by omega) (by omega)
      omega
    have hrest : -((2 ^ (bits - 7 - 1) : Nat) : Int) ≤ n / 128 ∧
        n / 128 < ((2 ^ (bits - 7 - 1) : Nat) : Int) := by
      have hpow : 2 ^ (bits - 1) = 128 * 2 ^ (bits - 7 - 1) := by
        rw [show 128 = 2 ^ 7 from rfl, ← Nat.pow_add]
        congr 1
        omega
      rw [hpow] at h
      generalize 2 ^ (bits - 7 - 1) = limit at h
      omega
    rw [List.cons_append, signed, toNat_moreByte, if_neg (by omega), if_neg (by omega),
      if_pos hbits, ih hrest, Option.map_some]
    have hvalue : 128 * (n / 128) + (((n % 128).toNat % 128 + 128 : Nat) - 128 : Int) = n := by
      omega
    exact congrArg (fun k => some (k, rest)) hvalue

theorem Reads.u32 (n : UInt32) : Reads u32 (u32Leb n) n.toNat :=
  unsigned_unsignedLeb n.toNat_lt

theorem Reads.count {n : Nat} (h : n < 2 ^ 32) : Reads Reader.u32 (countLeb n) n := by
  have hread := Reads.u32 (UInt32.ofNat n)
  rwa [UInt32.toNat_ofNat_of_lt' h] at hread

theorem Reads.i32 (n : Int32) : Reads i32 (i32Leb n) n.toInt :=
  signed_signedLeb ⟨n.le_toInt, n.toInt_lt⟩

/-! ### Vectors and regions -/

theorem Reads.vec {enc : α → List UInt8} {xs : List α} (fits : xs.length < 2 ^ 32)
    (h : ∀ x ∈ xs, Reads r (enc x) x) :
    Reads (vec r) (countLeb xs.length ++ xs.flatMap enc) xs :=
  (Reads.count fits).bind (.times h)

theorem Fills.region (fits : bytes.length < 2 ^ 32) (h : Fills r bytes a) :
    Reads (region r) (sized bytes) a :=
  (Reads.count fits).bind ((Reads.take bytes).bind_nil (.ofOption h.whole))

theorem Fills.text (s : String) : Fills text s.toUTF8.data.toList s := by
  have hread : String.fromUTF8? s.toUTF8 = some s := dif_pos s.isValidUTF8
  rw [Fills, Reader.text, Array.toArray_toList, hread]
  rfl

end Reader
end Offside.Wasm
