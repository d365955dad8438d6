/-
  Offside/Proofs/PhysicalLines.lean
  =================================
  **Which line a byte is on.**  The lines of a text are its pieces behind each line feed, and
  there is one way only to cut it so (`Text.SplitAfterFeeds`).  The look-up walks over them and
  adds up their bytes, so it finds the one line whose stretch of bytes has the given offset,
  also if the offset is inside a character (`lineAmong_eq_some`).

  The number of that line tells how many bytes before the offset are line feeds.  Each line in
  front of it has one, at its end, and of the line itself less than the whole is before the
  offset.  A byte of a longer character is never taken for a line feed.

  The end of the text is on no line in this sense.  It is shown on the last one, without the line
  feed, or the carriage return and line feed, at its end (`lineAt_physicalLines`).  At a place
  between two characters it is the line across the place (`lineAt_of_after`).
-/
import Offside.Proofs.Token.Located
import Offside.Report

namespace Offside

open Text (byteLength lineStart)

/-! ### Lines -/

namespace Text

/-- The first line of a text, with the line feed that ends it. -/
def firstLine (text : List Char) : List Char :=
  text.takeWhile (· ≠ '\n') ++ (text.dropWhile (· ≠ '\n')).take 1

/-- What follows the first line. -/
def afterFirstLine (text : List Char) : List Char := (text.dropWhile (· ≠ '\n')).drop 1

/-- The line in which `before` and `after` meet. -/
def lineAcross (before after : List Char) : List Char :=
  before.rtakeWhile (· ≠ '\n') ++ firstLine after

variable {line rest : List Char}

theorem ne_lineFeed_of_mem (h : '\n' ∉ line) : ∀ c ∈ line, decide (c ≠ '\n') = true := by
  intro c hc
  rw [decide_eq_true_eq]
  rintro rfl
  exact h hc

theorem firstLine_append (h : '\n' ∉ line) : firstLine (line ++ rest) = line ++ firstLine rest := by
  rw [firstLine, firstLine, List.takeWhile_append_of_pos (ne_lineFeed_of_mem h),
    List.dropWhile_append_of_pos (ne_lineFeed_of_mem h), List.append_assoc]

theorem afterFirstLine_append (h : '\n' ∉ line) :
    afterFirstLine (line ++ rest) = afterFirstLine rest := by
  rw [afterFirstLine, afterFirstLine, List.dropWhile_append_of_pos (ne_lineFeed_of_mem h)]

theorem firstLine_ne_nil (h : rest ≠ []) : firstLine rest ≠ [] := by
  cases rest with
  | nil => exact absurd rfl h
  | cons c cs =>
    by_cases hc : c = '\n'
    · subst hc
      simp [firstLine]
    · simp [firstLine, hc]

/-- Behind a line feed a line begins anew. -/
theorem rtakeWhile_append_lineFeed (before line : List Char) :
    (before ++ '\n' :: line).rtakeWhile (· ≠ '\n') = line.rtakeWhile (· ≠ '\n') := by
  induction line using List.reverseRecOn with
  | nil => rw [List.rtakeWhile_concat_neg _ _ _ (by decide), List.rtakeWhile_nil]
  | append_singleton line c ih =>
    rw [← List.cons_append, ← List.append_assoc]
    rw [List.rtakeWhile_concat, List.rtakeWhile_concat, ih]

theorem rtakeWhile_eq_self (h : '\n' ∉ line) : line.rtakeWhile (· ≠ '\n') = line :=
  List.rtakeWhile_eq_self_iff.mpr (ne_lineFeed_of_mem h)

/-- A text has as many bytes as its string. -/
theorem byteLength_eq_utf8ByteSize (text : List Char) :
    byteLength text = (String.ofList text).utf8ByteSize := by
  induction text with
  | nil => rfl
  | cons c cs ih =>
    rw [byteLength_cons, ih, String.ofList_cons, String.utf8ByteSize_append,
      String.utf8ByteSize_singleton]

/-- The text is cut behind each line feed, and nowhere else. -/
inductive SplitAfterFeeds : List Char → List (List Char) → Prop where
  | nil : SplitAfterFeeds [] []
  | last {line : List Char} (hne : line ≠ []) (hline : '\n' ∉ line) : SplitAfterFeeds line [line]
  | feed {line rest : List Char} {lines : List (List Char)} (hline : '\n' ∉ line)
      (h : SplitAfterFeeds rest lines) :
      SplitAfterFeeds (line ++ '\n' :: rest) ((line ++ ['\n']) :: lines)

/-- The line and what is left of it without its end: a line feed, or a carriage return and a line
    feed. -/
inductive Unended : List Char → List Char → Prop where
  | returned (text : List Char) : Unended (text ++ ['\r', '\n']) text
  | ended {text : List Char} (h : text.getLast? ≠ some '\r') : Unended (text ++ ['\n']) text
  | plain {text : List Char} (h : text.getLast? ≠ some '\n') : Unended text text

theorem SplitAfterFeeds.flatten {text : List Char} {lines : List (List Char)}
    (h : SplitAfterFeeds text lines) : lines.flatten = text := by
  induction h with
  | nil => rfl
  | last => simp
  | feed _ _ ih => simp [ih]

/-- The lines in front of a line have one line feed each, and the line has none but at its end. -/
theorem SplitAfterFeeds.feeds {text : List Char} {lines : List (List Char)}
    (h : SplitAfterFeeds text lines) {front back : List (List Char)} {line : List Char}
    (hlines : lines = front ++ line :: back) :
    front.flatten.count '\n' = front.length ∧ '\n' ∉ line.dropLast := by
  induction h generalizing front with
  | nil => simp at hlines
  | @last whole _ hwhole =>
    obtain ⟨rfl, rfl, -⟩ : front = [] ∧ whole = line ∧ back = [] := by
      cases front with
      | nil => simpa using hlines
      | cons => simp at hlines
    exact ⟨rfl, fun hmem => hwhole (List.dropLast_subset _ hmem)⟩
  | @feed first rest lines hfirst _ ih =>
    cases front with
    | nil =>
      obtain ⟨rfl, -⟩ := List.cons.inj hlines
      simpa using hfirst
    | cons _ front =>
      obtain ⟨rfl, hmore⟩ := List.cons.inj hlines
      obtain ⟨hcount, hline⟩ := ih hmore
      refine ⟨?_, hline⟩
      rw [List.flatten_cons, List.count_append, hcount, List.count_append,
        List.count_eq_zero_of_not_mem hfirst, List.length_cons]
      simp [Nat.add_comm]

end Text

theorem physicalLines_eq {text : List Char} (h : text ≠ []) :
    physicalLines text = Text.firstLine text :: physicalLines (Text.afterFirstLine text) := by
  cases text with
  | nil => exact absurd rfl h
  | cons c cs =>
    rw [physicalLines.eq_2, Text.firstLine, Text.afterFirstLine]
    split
    next hnone =>
      have hline := List.takeWhile_append_dropWhile (p := (· ≠ '\n')) (l := c :: cs)
      rw [hnone, List.append_nil] at hline
      rw [hnone, hline, List.take_nil, List.drop_nil, List.append_nil, physicalLines.eq_1]
    next feed after hfeed =>
      rw [hfeed]
      rfl

theorem physicalLines_feed {line : List Char} (h : '\n' ∉ line) (rest : List Char) :
    physicalLines (line ++ '\n' :: rest) = (line ++ ['\n']) :: physicalLines rest := by
  rw [physicalLines_eq (by simp), Text.firstLine_append h, Text.afterFirstLine_append h]
  rfl

theorem physicalLines_last {line : List Char} (hne : line ≠ []) (h : '\n' ∉ line) :
    physicalLines line = [line] := by
  have hall := List.takeWhile_eq_self_iff.mpr (Text.ne_lineFeed_of_mem h)
  have hnone := List.dropWhile_eq_nil_iff.mpr (Text.ne_lineFeed_of_mem h)
  rw [physicalLines_eq hne, Text.firstLine, Text.afterFirstLine, hall, hnone]
  simp [physicalLines]

theorem splitAfterFeeds_physicalLines (text : List Char) :
    Text.SplitAfterFeeds text (physicalLines text) := by
  induction hn : text.length using Nat.strongRecOn generalizing text with
  | ind n ih =>
    by_cases hfeed : '\n' ∈ text
    · obtain ⟨line, rest, rfl, hline⟩ := List.eq_append_cons_of_mem hfeed
      rw [physicalLines_feed hline]
      exact .feed hline (ih rest.length (by simp [← hn]; omega) rest rfl)
    · by_cases hne : text = []
      · subst hne
        rw [physicalLines]
        exact .nil
      · rw [physicalLines_last hne hfeed]
        exact .last hne hfeed

/-- There is one way only to cut a text behind its line feeds. -/
theorem splitAfterFeeds_iff (text : List Char) (lines : List (List Char)) :
    Text.SplitAfterFeeds text lines ↔ lines = physicalLines text := by
  constructor
  · intro h
    induction h with
    | nil => rw [physicalLines]
    | last hne hline => rw [physicalLines_last hne hline]
    | feed hline _ ih => rw [physicalLines_feed hline, ih]
  · rintro rfl
    exact splitAfterFeeds_physicalLines text

theorem flatten_physicalLines (text : List Char) : (physicalLines text).flatten = text :=
  (splitAfterFeeds_physicalLines text).flatten

theorem unended_withoutEnd (line : List Char) : Text.Unended line (withoutEnd line) := by
  rw [← List.reverse_reverse line]
  generalize line.reverse = back
  rw [withoutEnd, List.reverse_reverse]
  split
  next cs => simpa using Text.Unended.returned cs.reverse
  next cs hcs =>
    have hlast : cs.reverse.getLast? ≠ some '\r' := by
      cases cs with
      | nil => simp
      | cons c cs => simpa using fun hc => hcs cs (by rw [hc])
    simpa using Text.Unended.ended hlast
  next hcs =>
    refine .plain ?_
    cases back with
    | nil => simp
    | cons c cs => simpa using fun hc => hcs cs (by rw [hc])

/-! ### Bytes -/

namespace Text

/-- How many of the first `offset` bytes of a text are line feeds. -/
def feedsBefore (source : String) (offset : Nat) : Nat :=
  (source.toUTF8.data.toList.take offset).count 0x0a

theorem toUTF8_ofList (cs : List Char) :
    (String.ofList cs).toUTF8.data.toList = cs.flatMap String.utf8EncodeChar := by
  rw [String.toUTF8_eq_toByteArray, String.toByteArray_ofList]
  exact List.toList_data_toByteArray

theorem length_flatMap_utf8EncodeChar (cs : List Char) :
    (cs.flatMap String.utf8EncodeChar).length = byteLength cs := by
  induction cs with
  | nil => rfl
  | cons c cs ih => simp [ih]

theorem lineFeed_ne_ofNat {n : Nat} (hn : n < 256) (hne : n ≠ 10) : 0x0a ≠ UInt8.ofNat n := by
  intro h
  have hfeed : (0x0a : UInt8).toNat = 10 := rfl
  rw [h, UInt8.toNat_ofNat'] at hfeed
  omega

/-- The byte of a line feed is in no other character. -/
theorem lineFeed_not_mem_utf8EncodeChar {c : Char} (hc : c ≠ '\n') :
    0x0a ∉ String.utf8EncodeChar c := by
  have hval : c.val.toNat ≠ 10 := fun h => hc (Char.ext (UInt32.toNat.inj h))
  intro hmem
  delta String.utf8EncodeChar at hmem
  dsimp only at hmem
  -- a character of several bytes has none below 128
  split at hmem
  · exact lineFeed_ne_ofNat (by omega) hval (List.mem_singleton.mp hmem)
  split at hmem
  · simp only [List.mem_cons, List.not_mem_nil, or_false] at hmem
    rcases hmem with h | h <;> exact lineFeed_ne_ofNat (by omega) (by omega) h
  split at hmem
  · simp only [List.mem_cons, List.not_mem_nil, or_false] at hmem
    rcases hmem with h | h | h <;> exact lineFeed_ne_ofNat (by omega) (by omega) h
  · simp only [List.mem_cons, List.not_mem_nil, or_false] at hmem
    rcases hmem with h | h | h | h <;> exact lineFeed_ne_ofNat (by omega) (by omega) h

theorem count_flatMap_utf8EncodeChar (cs : List Char) :
    (cs.flatMap String.utf8EncodeChar).count 0x0a = cs.count '\n' := by
  induction cs with
  | nil => rfl
  | cons c cs ih =>
    rw [List.flatMap_cons, List.count_append, ih]
    by_cases hc : c = '\n'
    · subst hc
      rw [List.count_cons_self, Nat.add_comm]
      rfl
    · rw [List.count_cons_of_ne hc,
        List.count_eq_zero_of_not_mem (lineFeed_not_mem_utf8EncodeChar hc), Nat.zero_add]

/-- The bytes of a line but for the last ones have no line feed. -/
theorem count_take_bytes {line : List Char} (h : '\n' ∉ line.dropLast) {offset : Nat}
    (hoffset : offset < byteLength line) :
    ((line.flatMap String.utf8EncodeChar).take offset).count 0x0a = 0 := by
  have hnone {cs : List Char} (hcs : '\n' ∉ cs) :
      ((cs.flatMap String.utf8EncodeChar).take offset).count 0x0a = 0 := by
    have hcount := count_flatMap_utf8EncodeChar cs
    rw [List.count_eq_zero_of_not_mem hcs] at hcount
    exact Nat.le_zero.mp (hcount ▸ (List.take_sublist offset _).count_le 0x0a)
  by_cases hline : '\n' ∈ line
  · -- the line ends with its line feed, which is a byte of its own
    obtain ⟨body, rest, rfl, hbody⟩ := List.eq_append_cons_of_mem hline
    obtain rfl : rest = [] := by
      by_contra hrest
      rw [List.dropLast_append_cons, List.dropLast_cons_of_ne_nil hrest] at h
      simp at h
    have hshort : offset ≤ (body.flatMap String.utf8EncodeChar).length := by
      rw [byteLength_append] at hoffset
      have hfeed : byteLength ['\n'] = 1 := rfl
      rw [length_flatMap_utf8EncodeChar]
      omega
    rw [List.flatMap_append, List.take_append_of_le_length hshort]
    exact hnone hbody
  · exact hnone hline

/-- The line feeds before an offset are those of the lines in front of its line. -/
theorem feedsBefore_append {front line back : List Char} (h : '\n' ∉ line.dropLast) {offset : Nat}
    (hoffset : offset < byteLength line) :
    feedsBefore (String.ofList (front ++ line ++ back)) (byteLength front + offset) =
      front.count '\n' := by
  have hfront := length_flatMap_utf8EncodeChar front
  have hline : offset ≤ (line.flatMap String.utf8EncodeChar).length := by
    rw [length_flatMap_utf8EncodeChar]
    omega
  rw [feedsBefore, toUTF8_ofList, List.append_assoc, List.flatMap_append, List.flatMap_append,
    ← hfront, List.take_length_add_append, List.take_append_of_le_length hline, List.count_append,
    count_flatMap_utf8EncodeChar, count_take_bytes h hoffset, Nat.add_zero]

end Text

/-! ### The look-up -/

/-- The line with an offset is found, and it begins behind the lines in front of it. -/
theorem lineAmong_eq_some {lines : List (List Char)} {number start p : Nat} (hstart : start ≤ p)
    (hstop : p < start + byteLength lines.flatten) :
    ∃ front line back offset, lines = front ++ line :: back ∧
      start + byteLength front.flatten + offset = p ∧ offset < byteLength line ∧
      lineAmong number start p lines = some ⟨number + front.length, line, offset⟩ := by
  induction lines generalizing number start with
  | nil =>
    rw [List.flatten_nil, Text.byteLength_nil] at hstop
    omega
  | cons first lines ih =>
    rw [List.flatten_cons, Text.byteLength_append] at hstop
    rw [lineAmong]
    by_cases hp : p < start + byteLength first
    · refine ⟨[], first, lines, p - start, rfl, ?_, by omega, if_pos ⟨hstart, hp⟩⟩
      rw [List.flatten_nil, Text.byteLength_nil]
      omega
    · obtain ⟨front, line, back, offset, rfl, hoffset, hinside, hfound⟩ :=
        @ih (number + 1) (start + byteLength first) (by omega) (by omega)
      refine ⟨first :: front, line, back, offset, rfl, ?_, hinside, ?_⟩
      · rw [List.flatten_cons, Text.byteLength_append]
        omega
      · rw [if_neg (by omega), hfound, List.length_cons, Nat.add_assoc, Nat.add_comm 1]

theorem lineAmong_eq_none {lines : List (List Char)} {number start p : Nat}
    (hstop : start + byteLength lines.flatten ≤ p) : lineAmong number start p lines = none := by
  induction lines generalizing number start with
  | nil => rfl
  | cons first lines ih =>
    rw [List.flatten_cons, Text.byteLength_append] at hstop
    rw [lineAmong, if_neg (by omega), ih (by omega)]

/-- The line is the one with the byte `p` of the text, and has it at its offset. -/
structure SourceLine.Holds (l : SourceLine) (source : String) (p : Nat) : Prop where
  number : 1 ≤ l.number
  line : (physicalLines source.toList)[l.number - 1]? = some l.text
  offset : byteLength ((physicalLines source.toList).take (l.number - 1)).flatten + l.offset = p
  inside : l.offset < byteLength l.text
  feeds : l.number = 1 + Text.feedsBefore source p

/-- The line is the last one of the text, without its end, and the offset is behind it.  A text
    without lines has an empty one. -/
structure SourceLine.IsLast (l : SourceLine) (source : String) : Prop where
  number : l.number = max (physicalLines source.toList).length 1
  text : Text.Unended ((physicalLines source.toList).getLastD []) l.text
  offset : l.offset = byteLength l.text

theorem lineAt_inside {source : String} {p : Nat} (h : p < byteLength source.toList) :
    ∃ l, lineAt source.toList p = some l ∧ l.Holds source p := by
  have hsplit := splitAfterFeeds_physicalLines source.toList
  have hflatten := hsplit.flatten
  rw [← hflatten, ← Nat.zero_add (byteLength _)] at h
  obtain ⟨front, line, back, offset, hlines, hoffset, hinside, hfound⟩ :=
    @lineAmong_eq_some _ 1 0 p (Nat.zero_le p) h
  obtain ⟨hcount, hline⟩ := hsplit.feeds hlines
  refine ⟨_, by rw [lineAt, hfound], ?_⟩
  rw [Nat.zero_add] at hoffset
  have hnumber : 1 + front.length - 1 = front.length := Nat.add_sub_cancel_left 1 front.length
  constructor
  case number => exact Nat.le_add_right 1 front.length
  case line =>
    rw [hnumber, hlines, List.getElem?_append_right (Nat.le_refl _), Nat.sub_self]
    rfl
  case offset => rw [hnumber, hlines, List.take_left, hoffset]
  case inside => exact hinside
  case feeds =>
    rw [hlines, List.flatten_append, List.flatten_cons, ← List.append_assoc] at hflatten
    rw [← String.ofList_toList (s := source), ← hflatten, ← hoffset,
      Text.feedsBefore_append hline hinside, hcount]

theorem lineAt_end (source : String) :
    ∃ l, lineAt source.toList (byteLength source.toList) = some l ∧ l.IsLast source := by
  have hnone : lineAmong 1 0 (byteLength source.toList) (physicalLines source.toList) = none :=
    lineAmong_eq_none (by rw [flatten_physicalLines, Nat.zero_add])
  have hlast : lineAt source.toList (byteLength source.toList) =
      some (lastLine (physicalLines source.toList)) := by
    rw [lineAt, hnone]
    exact if_pos rfl
  exact ⟨_, hlast, rfl, unended_withoutEnd _, rfl⟩

theorem lineAt_beyond {source : String} {p : Nat} (h : byteLength source.toList < p) :
    lineAt source.toList p = none := by
  have hnone : lineAmong 1 0 p (physicalLines source.toList) = none :=
    lineAmong_eq_none (by rw [flatten_physicalLines, Nat.zero_add]; exact h.le)
  rw [lineAt, hnone]
  exact if_neg (by omega)

/-- **Every byte is on one line.**  A line is found for the offsets up to the length of the text.
    Before the end it is the physical line with that byte, numbered by the line feeds before it,
    and at the end it is the last one. -/
theorem lineAt_physicalLines (source : String) (p : Nat) :
    (∀ lines, Text.SplitAfterFeeds source.toList lines ↔ lines = physicalLines source.toList) ∧
    ((lineAt source.toList p).isSome = true ↔ p ≤ source.utf8ByteSize) ∧
    (p < source.utf8ByteSize → ∃ l, lineAt source.toList p = some l ∧ l.Holds source p) ∧
    (p = source.utf8ByteSize → ∃ l, lineAt source.toList p = some l ∧ l.IsLast source) := by
  have hsize : byteLength source.toList = source.utf8ByteSize := by
    rw [Text.byteLength_eq_utf8ByteSize, String.ofList_toList]
  rw [← hsize]
  refine ⟨splitAfterFeeds_iff source.toList, ?_, lineAt_inside, ?_⟩
  · constructor
    · intro hsome
      by_contra hp
      rw [lineAt_beyond (Nat.lt_of_not_le hp)] at hsome
      cases hsome
    · intro hp
      rcases Nat.lt_or_eq_of_le hp with hlt | rfl
      · obtain ⟨l, hl, -⟩ := lineAt_inside hlt
        rw [hl, Option.isSome_some]
      · obtain ⟨l, hl, -⟩ := lineAt_end source
        rw [hl, Option.isSome_some]
  · rintro rfl
    exact lineAt_end source

/-- Two kinds of line end, an empty line, and a character of two bytes. -/
def unevenLines : String := "a\r\n\né\r\n"

theorem lineAt_unevenLines :
    (⟨3, ['é', '\r', '\n'], 1⟩ : SourceLine).Holds unevenLines 5 ∧
    (⟨3, ['é'], 2⟩ : SourceLine).IsLast unevenLines := by
  obtain ⟨-, -, hinside, -⟩ := lineAt_physicalLines unevenLines 5
  obtain ⟨-, -, -, hend⟩ := lineAt_physicalLines unevenLines 8
  obtain ⟨l, hl, hholds⟩ := hinside (by decide)
  obtain ⟨m, hm, hlast⟩ := hend (by decide)
  have hfive : lineAt unevenLines.toList 5 = some ⟨3, ['é', '\r', '\n'], 1⟩ := by decide +kernel
  have height : lineAt unevenLines.toList 8 = some ⟨3, ['é'], 2⟩ := by decide +kernel
  obtain rfl := Option.some.inj (hl.symm.trans hfive)
  obtain rfl := Option.some.inj (hm.symm.trans height)
  exact ⟨hholds, hlast⟩

/-! ### The line across a place -/

theorem Text.lineFeed_not_mem_lineAcross (before after : List Char) :
    '\n' ∉ (lineAcross before after).dropLast := by
  have hbefore : '\n' ∉ before.rtakeWhile (· ≠ '\n') := fun hmem =>
    absurd (List.mem_rtakeWhile_imp hmem) (by decide)
  have hafter : '\n' ∉ after.takeWhile (· ≠ '\n') := fun hmem =>
    absurd (List.mem_takeWhile_imp hmem) (by decide)
  rw [lineAcross, firstLine, ← List.append_assoc]
  cases after.dropWhile (· ≠ '\n') with
  | nil =>
    rw [List.take_nil, List.append_nil]
    intro hmem
    exact (List.mem_append.mp (List.dropLast_subset _ hmem)).elim hbefore hafter
  | cons c cs =>
    rw [List.take_succ_cons, List.take_zero, List.dropLast_concat]
    intro hmem
    exact (List.mem_append.mp hmem).elim hbefore hafter

/-- The line with a place in the text is found by the offset of the place.  The induction
    goes through the lines before it. -/
theorem lineAmong_physicalLines {after : List Char} (hafter : after ≠ []) :
    ∀ (before : List Char) (number start : Nat),
      lineAmong number start (start + byteLength before) (physicalLines (before ++ after)) =
        some ⟨number + before.count '\n', Text.lineAcross before after,
          byteLength (before.rtakeWhile (· ≠ '\n'))⟩ := by
  intro before
  induction hn : before.length using Nat.strongRecOn generalizing before with
  | ind n ih =>
    intro number start
    by_cases hfeed : '\n' ∈ before
    · -- the place is behind the first line
      obtain ⟨line, rest, rfl, hline⟩ := List.eq_append_cons_of_mem hfeed
      have hstop : start + byteLength (line ++ '\n' :: rest) =
          start + byteLength (line ++ ['\n']) + byteLength rest := by
        simp only [Text.byteLength_append, Text.byteLength_cons, Text.byteLength_nil]
        omega
      have hcount : number + (line ++ '\n' :: rest).count '\n' =
          number + 1 + rest.count '\n' := by
        rw [List.count_append, List.count_cons_self, List.count_eq_zero_of_not_mem hline]
        omega
      rw [List.append_assoc, List.cons_append, physicalLines_feed hline, lineAmong, hstop,
        if_neg (by omega), ih rest.length (by simp [← hn]; omega) rest rfl, hcount,
        Text.lineAcross, Text.lineAcross, Text.rtakeWhile_append_lineFeed]
    · -- the place is in the first line
      have hne : before ++ after ≠ [] := by simp [hafter]
      have hpos := Text.byteLength_pos (Text.firstLine_ne_nil hafter)
      rw [physicalLines_eq hne, lineAmong, Text.firstLine_append hfeed, Text.byteLength_append,
        if_pos (by omega), List.count_eq_zero_of_not_mem hfeed, Text.lineAcross,
        Text.rtakeWhile_eq_self hfeed, Nat.add_sub_cancel_left, Nat.add_zero]

theorem lineAt_of_after {before after : List Char} (hafter : after ≠ []) :
    lineAt (before ++ after) (byteLength before) =
      some ⟨before.count '\n' + 1, Text.lineAcross before after,
        byteLength before - lineStart before⟩ := by
  have hline := lineAmong_physicalLines hafter before 1 0
  rw [Nat.zero_add] at hline
  have hoffset : byteLength (before.rtakeWhile (· ≠ '\n')) =
      byteLength before - lineStart before := by
    have := Text.byteLength_eq_lineStart_add before
    omega
  rw [lineAt, hline, hoffset, Nat.add_comm 1]

/-- Without its end a line has no line feed. -/
theorem Text.Unended.lineFeed_not_mem {line text : List Char} (h : Unended line text)
    (hline : '\n' ∉ line.dropLast) : '\n' ∉ text := by
  cases h with
  | returned =>
    have hdrop : (text ++ ['\r', '\n']).dropLast = text ++ ['\r'] := by simp
    rw [hdrop] at hline
    exact fun hmem => hline (List.mem_append_left _ hmem)
  | ended => rwa [List.dropLast_concat] at hline
  | plain hlast =>
    rcases List.eq_nil_or_concat line with rfl | ⟨init, last, rfl⟩
    · exact List.not_mem_nil
    · rw [List.concat_eq_append] at hline hlast ⊢
      rw [List.dropLast_concat] at hline
      rw [List.mem_append, List.mem_singleton]
      rintro (hmem | rfl)
      · exact hline hmem
      · exact hlast List.getLast?_concat

theorem lineFeed_not_mem_lastLine (text : List Char) :
    '\n' ∉ ((physicalLines text).getLastD []).dropLast := by
  rcases List.eq_nil_or_concat (physicalLines text) with hnil | ⟨front, line, hlines⟩
  · simp [hnil]
  · rw [List.concat_eq_append] at hlines
    have hfeeds := (splitAfterFeeds_physicalLines text).feeds hlines
    rw [hlines, List.getLastD_concat]
    exact hfeeds.2

/-- At a place in the text, or at its end, there is a line to show. -/
theorem exists_lineAt (before after : List Char) :
    ∃ line, lineAt (before ++ after) (byteLength before) = some line ∧
      '\n' ∉ line.text.dropLast := by
  by_cases hafter : after = []
  · obtain ⟨line, hline, hlast⟩ := lineAt_end (String.ofList before)
    rw [String.toList_ofList] at hline
    rw [hafter, List.append_nil]
    have hfeed := hlast.text.lineFeed_not_mem (lineFeed_not_mem_lastLine _)
    exact ⟨line, hline, fun hmem => hfeed (List.dropLast_subset _ hmem)⟩
  · exact ⟨_, lineAt_of_after hafter, Text.lineFeed_not_mem_lineAcross before after⟩

end Offside
