/-
  Offside/Text/Utf8.lean
  ======================
  **Text measured in bytes.**  A text is held as characters, but its offsets are told
  in bytes of its UTF-8 form.  `byteLength` is the measure and `dropBytes` the cut that
  goes with it (`dropBytes_byteLength_append`).
-/
namespace Offside.Text

/-- The number of bytes of the UTF-8 form. -/
def byteLength : List Char → Nat
  | [] => 0
  | c :: cs => c.utf8Size + byteLength cs

@[simp] theorem byteLength_nil : byteLength [] = 0 := rfl

@[simp] theorem byteLength_cons (c : Char) (cs : List Char) :
    byteLength (c :: cs) = c.utf8Size + byteLength cs := rfl

@[simp] theorem byteLength_append (a b : List Char) :
    byteLength (a ++ b) = byteLength a + byteLength b := by
  induction a with
  | nil => simp
  | cons c cs ih => simp [ih, Nat.add_assoc]

theorem byteLength_pos {cs : List Char} (h : cs ≠ []) : 0 < byteLength cs := by
  cases cs with
  | nil => exact absurd rfl h
  | cons c cs =>
    have hc := c.utf8Size_pos
    rw [byteLength_cons]
    omega

/-- The text after its first `n` bytes.  A cut inside a character takes the whole
    character away. -/
def dropBytes : Nat → List Char → List Char
  | 0, cs => cs
  | _ + 1, [] => []
  | n + 1, c :: cs => dropBytes (n + 1 - c.utf8Size) cs

@[simp] theorem dropBytes_zero (cs : List Char) : dropBytes 0 cs = cs := by
  cases cs <;> rfl

/-- The cut behind a beginning of the text leaves what follows it. -/
theorem dropBytes_byteLength_append (a b : List Char) :
    dropBytes (byteLength a) (a ++ b) = b := by
  induction a with
  | nil => exact dropBytes_zero b
  | cons c cs ih =>
    have hc : 0 < c.utf8Size := c.utf8Size_pos
    have hlen : byteLength (c :: cs) = byteLength (c :: cs) - 1 + 1 := by
      rw [byteLength_cons]; omega
    rw [hlen, List.cons_append, dropBytes, ← hlen, byteLength_cons, Nat.add_sub_cancel_left, ih]

end Offside.Text
