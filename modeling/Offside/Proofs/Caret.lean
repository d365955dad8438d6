/-
  Offside/Proofs/Caret.lean
  =========================
  **Where the caret of a report stands.**  The last row of a report has a caret, and the row
  above it shows the line with the place that the report is about.  The caret stands as far
  to the right as the text before the place has bytes.  So it stands under the character at
  the place if all the characters shown before it have one byte, and too far to the right
  if some have more, by the bytes they have more (`compile_error_caret`).  The number of the
  line, the blanks before it and what stands behind the place make no difference.
-/
import Offside.Proofs.Located
import Offside.Proofs.Token.Lookahead

namespace Offside

open Text (byteLength)

/-! ### Bytes and characters -/

namespace Text

theorem length_le_byteLength (cs : List Char) : cs.length ≤ byteLength cs := by
  induction cs with
  | nil => exact Nat.le_refl 0
  | cons c cs ih =>
    have hc := c.utf8Size_pos
    rw [List.length_cons, byteLength_cons]
    omega

/-- A text has as many bytes as characters if each has one. -/
theorem byteLength_eq_length_iff (cs : List Char) :
    byteLength cs = cs.length ↔ ∀ c ∈ cs, c.utf8Size = 1 := by
  induction cs with
  | nil => simp
  | cons c cs ih =>
    have hc := c.utf8Size_pos
    have hcs := length_le_byteLength cs
    rw [List.forall_mem_cons, ← ih, List.length_cons, byteLength_cons]
    omega

/-- The beginnings of a text are told apart by their bytes. -/
theorem eq_of_byteLength_eq {a b text : List Char} (ha : a <+: text) (hb : b <+: text)
    (h : byteLength a = byteLength b) : a = b := by
  have hsame : ∀ {a b : List Char}, a <+: b → byteLength a = byteLength b → a = b := by
    rintro a b ⟨more, rfl⟩ hbytes
    by_cases hmore : more = []
    · rw [hmore, List.append_nil]
    · have hpos := byteLength_pos hmore
      rw [byteLength_append] at hbytes
      omega
  rcases List.prefix_or_prefix_of_prefix ha hb with hab | hba
  · exact hsame hab h
  · exact (hsame hba h.symm).symm

theorem trimEnd_prefix (cs : List Char) : trimEnd cs <+: cs := List.rdropWhile_prefix isBlank cs

end Text

/-! ### The shown line -/

/-- What is shown of the text before a place, in the line with the place. -/
def shownBefore (before : List Char) : List Char :=
  (before.rtakeWhile (· ≠ '\n')).dropWhile isMargin

/-- The byte `offset` of the text begins the character `c`, and `c` is one of the characters that
    its line is shown with. -/
structure ShownAt (source : String) (offset : Nat) (before : List Char) (c : Char)
    (after : List Char) : Prop where
  text : source.toList = before ++ c :: after
  offset : offset = byteLength before
  behindMargin : ((Text.lineAcross before (c :: after)).takeWhile isMargin).length ≤
    (before.rtakeWhile (· ≠ '\n')).length
  beforeEnd : (before.rtakeWhile (· ≠ '\n')).length <
    ((Text.lineAcross before (c :: after)).takeWhile isMargin).length +
      (shownText (Text.lineAcross before (c :: after))).length

/-- A margin that ends in front of the text `c :: rest` at the latest is the margin of what
    comes before. -/
theorem margin_append {lead rest : List Char} {c : Char}
    (h : ((lead ++ c :: rest).takeWhile isMargin).length ≤ lead.length) :
    (lead ++ c :: rest).takeWhile isMargin = lead.takeWhile isMargin ∧
      (lead ++ c :: rest).dropWhile isMargin = lead.dropWhile isMargin ++ c :: rest := by
  by_cases hlead : lead.dropWhile isMargin = []
  · have hall : ∀ b ∈ lead, isMargin b = true := List.dropWhile_eq_nil_iff.mp hlead
    have hc : isMargin c = false := by
      rw [List.takeWhile_append_of_pos hall, List.length_append] at h
      refine Bool.eq_false_iff.mpr fun hc => ?_
      rw [List.takeWhile_cons_of_pos hc, List.length_cons] at h
      omega
    exact ⟨Token.takeWhile_append_stop (Token.stopsAt_cons hc) lead,
      Token.dropWhile_append_stop (Token.stopsAt_cons hc) lead⟩
  · exact Token.takeWhile_append_of_rest hlead (c :: rest)

/-- Blanks at the beginning of a line have one byte each. -/
theorem byteLength_margin (cs : List Char) :
    byteLength (cs.takeWhile isMargin) = (cs.takeWhile isMargin).length := by
  refine (Text.byteLength_eq_length_iff _).mpr fun c hc => ?_
  have hmargin := List.mem_takeWhile_imp hc
  rw [isMargin, Bool.or_eq_true, decide_eq_true_eq, decide_eq_true_eq] at hmargin
  rcases hmargin with rfl | rfl <;> rfl

theorem firstLine_cons {c : Char} (hc : c ≠ '\n') (cs : List Char) :
    Text.firstLine (c :: cs) = c :: Text.firstLine cs := by
  have hline : '\n' ∉ [c] := by simpa using hc.symm
  exact Text.firstLine_append hline

/-- A text that begins like another and is long enough to have its next character has it. -/
theorem exists_of_isPrefix {xs lead rest : List Char} {c : Char} (h : xs <+: lead ++ c :: rest)
    (hlength : lead.length < xs.length) : ∃ tail, xs = lead ++ c :: tail := by
  have hlead : lead ++ [c] <+: lead ++ c :: rest := ⟨rest, by simp⟩
  have hlength' : (lead ++ [c]).length ≤ xs.length := by
    rw [List.length_append]
    exact hlength
  obtain ⟨tail, htail⟩ := List.prefix_of_prefix_length_le hlead h hlength'
  exact ⟨tail, by simp [← htail]⟩

section

variable {source : String} {offset : Nat} {before after : List Char} {c : Char}

theorem ShownAt.margin (h : ShownAt source offset before c after) :
    ((Text.lineAcross before (c :: after)).takeWhile isMargin) =
        (before.rtakeWhile (· ≠ '\n')).takeWhile isMargin ∧
      ∃ tail,
        shownText (Text.lineAcross before (c :: after)) = shownBefore before ++ c :: tail := by
  obtain ⟨rest, hrest⟩ : ∃ rest, Text.firstLine (c :: after) = c :: rest := by
    by_cases hc : c = '\n'
    · subst hc
      exact ⟨[], by simp [Text.firstLine]⟩
    · exact ⟨_, firstLine_cons hc after⟩
  have hmargin := h.behindMargin
  have hend := h.beforeEnd
  rw [Text.lineAcross, hrest] at hmargin hend ⊢
  obtain ⟨htake, hdrop⟩ := margin_append hmargin
  have hprefix : shownText (before.rtakeWhile (· ≠ '\n') ++ c :: rest) <+:
      shownBefore before ++ c :: rest := by
    rw [shownBefore, ← hdrop]
    exact Text.trimEnd_prefix _
  refine ⟨htake, exists_of_isPrefix hprefix ?_⟩
  have hlength := congrArg List.length
    (List.takeWhile_append_dropWhile (p := isMargin) (l := before.rtakeWhile (· ≠ '\n')))
  rw [htake] at hend
  rw [List.length_append] at hlength
  rw [shownBefore]
  omega

/-- The caret has as many dashes before it as the text shown before the place has bytes. -/
theorem ShownAt.dashes (h : ShownAt source offset before c after) :
    byteLength before - Text.lineStart before -
        ((Text.lineAcross before (c :: after)).takeWhile isMargin).length =
      byteLength (shownBefore before) := by
  have hline := Text.byteLength_eq_lineStart_add before
  have hlead := congrArg byteLength
    (List.takeWhile_append_dropWhile (p := isMargin) (l := before.rtakeWhile (· ≠ '\n')))
  rw [Text.byteLength_append, byteLength_margin] at hlead
  rw [h.margin.1, shownBefore]
  omega

end

/-! ### The caret -/

theorem caretRule_length (number dashes : Nat) :
    (caretRule number dashes).length = (numberMargin number).length + dashes := by
  simp only [caretRule, numberMargin, List.length_append, List.length_replicate, List.length_cons,
    List.length_nil]

theorem ShownAt.line_eq {source : String} {d : Diagnostic} {before after : List Char} {c : Char}
    (h : ShownAt source d.position.offset before c after)
    (hposition : d.position.IsIn source.toList) : d.position.line = before.count '\n' + 1 := by
  obtain ⟨before', hbefore', hposition⟩ := hposition
  have hbefore : before <+: source.toList := ⟨c :: after, h.text.symm⟩
  have hoffset : byteLength before' = byteLength before := by
    rw [← h.offset, hposition]
    rfl
  rw [hposition, Text.eq_of_byteLength_eq hbefore' hbefore hoffset]
  rfl

/-- The caret of a report stands under the character that the report is about, or further to the
    right by the bytes that the characters shown before it have more than one. -/
theorem compile_error_caret {source : String} {d : Diagnostic} (h : compile source = .error d)
    {before after : List Char} {c : Char} (hshown : ShownAt source d.position.offset before c after)
    (file : String) :
    ∃ head tail rule, EndsWithRows (d.report source file).toList (head ++ c :: tail) rule ∧
      head = numberMargin d.position.line ++ shownBefore before ∧
      shownText (Text.lineAcross before (c :: after)) = shownBefore before ++ c :: tail ∧
      rule.length = head.length + (byteLength (shownBefore before) - (shownBefore before).length) ∧
      (rule.length = head.length ↔ ∀ b ∈ shownBefore before, b.utf8Size = 1) := by
  obtain ⟨-, tail, htail⟩ := hshown.margin
  have hline := hshown.line_eq (compile_error_isIn h)
  have hlineAt : lineAt source.toList d.position.offset =
      some ⟨d.position.line, Text.lineAcross before (c :: after),
        byteLength before - Text.lineStart before⟩ := by
    rw [hshown.text, hshown.offset, lineAt_of_after (List.cons_ne_nil c after), hline]
  have hrows := report_endsWithRows hlineAt (Text.lineFeed_not_mem_lineAcross _ _) file
  rw [hshown.dashes, htail, ← List.append_assoc] at hrows
  refine ⟨numberMargin d.position.line ++ shownBefore before, tail,
    caretRule d.position.line (byteLength (shownBefore before)), hrows, rfl, htail, ?_, ?_⟩
  · have hbytes := Text.length_le_byteLength (shownBefore before)
    rw [caretRule_length, List.length_append]
    omega
  · rw [caretRule_length, List.length_append, Nat.add_left_cancel_iff,
      Text.byteLength_eq_length_iff]

/-- A character that nothing begins with, on a line with a margin and an accent before it. -/
def accentBefore : List Char := "def f():\n\tx = 'é' ".toList

theorem compile_error_caret_accent :
    compile "def f():\n\tx = 'é' $\n" = .error ⟨.unrecognisedToken "$", ⟨19, 2, 11⟩⟩ ∧
    ShownAt "def f():\n\tx = 'é' $\n" 19 accentBefore '$' ['\n'] ∧
    ∃ head tail rule,
      EndsWithRows ((⟨.unrecognisedToken "$", ⟨19, 2, 11⟩⟩ : Diagnostic).report
        "def f():\n\tx = 'é' $\n" "f.py").toList (head ++ '$' :: tail) rule ∧
      head = "2 | x = 'é' ".toList ∧ rule.length = head.length + 1 := by
  have herror : compile "def f():\n\tx = 'é' $\n" =
      .error ⟨.unrecognisedToken "$", ⟨19, 2, 11⟩⟩ := by decide +kernel
  have hshown : ShownAt "def f():\n\tx = 'é' $\n" 19 accentBefore '$' ['\n'] :=
    ⟨by decide, by decide, by decide, by decide⟩
  obtain ⟨head, tail, rule, hrows, hhead, -, hlength, -⟩ := compile_error_caret herror hshown "f.py"
  exact ⟨herror, hshown, head, tail, rule, hrows, hhead, hlength⟩

/-- Behind an accent the caret does not stand under the character that is refused. -/
theorem caret_right_of_refused :
    compile "'é' $" = .error ⟨.unrecognisedToken "$", ⟨5, 1, 6⟩⟩ ∧
    (⟨.unrecognisedToken "$", ⟨5, 1, 6⟩⟩ : Diagnostic).report "'é' $" "f.py" =
      "Error: UnrecognisedToken\n-> f.py\n  |\n1 | 'é' $\n  | -----^\n" := by
  decide +kernel

end Offside
