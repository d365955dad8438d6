/-
  Offside/Proofs/Located.lean
  ===========================
  **Every refusal points to a place in the text.**  Whichever stage refuses a text, the
  position it reports is one in the text: its offset stands between two characters, and its
  line and column are those of the offset.  The report finds the same line on its own, by
  the offset alone, and so it always has a line to show, and ends with a rule under the line and
  a caret behind the rule (`compile_error_located`).

  The scan knows where its tokens start, and the stages behind it take every position from
  the start of a token.
-/
import Offside.Proofs.Alike
import Offside.Proofs.PhysicalLines

namespace Offside

open Text (byteLength lineStart)

/-! ### Rows -/

/-- A line feed that ends a text does not stay. -/
theorem Text.lineFeed_not_mem_trimEnd {cs : List Char} (h : '\n' ∉ cs.dropLast) :
    '\n' ∉ trimEnd cs := by
  change '\n' ∉ cs.rdropWhile isBlank
  induction cs using List.reverseRecOn with
  | nil => exact h
  | append_singleton init last =>
    rw [List.dropLast_concat] at h
    by_cases hlast : isBlank last = true
    · rw [List.rdropWhile_concat_pos _ _ _ hlast]
      have hsub : init.rdropWhile isBlank <+: init := List.rdropWhile_prefix isBlank init
      exact fun hmem => h (hsub.mem hmem)
    · rw [List.rdropWhile_concat_neg _ _ _ hlast, List.mem_append, List.mem_singleton]
      rintro (hmem | rfl)
      · exact h hmem
      · exact hlast (by decide)

/-- The text that a line is shown with. -/
def shownText (line : List Char) : List Char := Text.trimEnd (line.dropWhile isMargin)

/-- What stands before the text of a line in its row. -/
def numberMargin (number : Nat) : List Char := Nat.toDigits 10 number ++ [' ', '|', ' ']

/-- What stands before the caret, under a line with the given number. -/
def caretRule (number dashes : Nat) : List Char :=
  List.replicate ((Nat.toDigits 10 number).length + 1) ' ' ++ ['|', ' '] ++
    List.replicate dashes '-'

/-- The report ends with the row, and below it with a caret behind the rule. -/
structure EndsWithRows (report row rule : List Char) : Prop where
  rows : ∃ top, report = top ++ '\n' :: row ++ '\n' :: (rule ++ ['^', '\n'])
  row : '\n' ∉ row
  rule : ∀ c ∈ rule, c ≠ '\n' ∧ c ≠ '^'

theorem toList_toString (n : Nat) : (toString n).toList = Nat.toDigits 10 n := String.toList_ofList

theorem lineRows_toList (line : SourceLine) :
    (lineRows line).toList =
      (barRow (Nat.toDigits 10 line.number).length).toList ++
        '\n' :: (numberMargin line.number ++ shownText line.text) ++
        '\n' :: (caretRule line.number (line.offset - (line.text.takeWhile isMargin).length) ++
          ['^', '\n']) := by
  have hlength : (toString line.number).length = (Nat.toDigits 10 line.number).length := by
    rw [← String.length_toList, toList_toString]
  have hbar : ("|" : String).toList = ['|'] := rfl
  have hfeed : ("\n" : String).toList = ['\n'] := rfl
  have hmargin : (" | " : String).toList = [' ', '|', ' '] := rfl
  have hspace : (" " : String).toList = [' '] := rfl
  have hcaret : ("^\n" : String).toList = ['^', '\n'] := rfl
  simp only [lineRows, barRow, shownText, numberMargin, caretRule, hlength, String.toList_append,
    String.toList_ofList, toList_toString, hbar, hfeed, hmargin, hspace, hcaret, List.append_assoc,
    List.cons_append, List.nil_append]

theorem caretRule_chars (number dashes : Nat) :
    ∀ c ∈ caretRule number dashes, c ≠ '\n' ∧ c ≠ '^' := by
  intro c hc
  rw [caretRule, List.mem_append, List.mem_append] at hc
  rcases hc with (hc | hc) | hc
  · rw [List.eq_of_mem_replicate hc]
    decide
  · rcases List.mem_pair.mp hc with rfl | rfl <;> decide
  · rw [List.eq_of_mem_replicate hc]
    decide

theorem lineFeed_not_mem_numberMargin (number : Nat) : '\n' ∉ numberMargin number := by
  rw [numberMargin, List.mem_append]
  rintro (hmem | hmem)
  · exact absurd (Nat.isDigit_of_mem_toDigits (by decide) (by decide) hmem) (by decide)
  · exact absurd hmem (by decide)

theorem lineFeed_not_mem_shownText {line : List Char} (h : '\n' ∉ line.dropLast) :
    '\n' ∉ shownText line := by
  refine Text.lineFeed_not_mem_trimEnd fun hmem => ?_
  have hne : line.dropWhile isMargin ≠ [] := by
    intro hnil
    rw [hnil] at hmem
    cases hmem
  rw [← List.takeWhile_append_dropWhile (p := isMargin) (l := line),
    List.dropLast_append_of_ne_nil hne] at h
  exact h (List.mem_append_right _ hmem)

/-- A report that has a line to show ends with it and with a rule under it. -/
theorem report_endsWithRows {source : String} {d : Diagnostic} {shown : SourceLine}
    (hshown : lineAt source.toList d.position.offset = some shown)
    (hfeed : '\n' ∉ shown.text.dropLast) (file : String) :
    EndsWithRows (d.report source file).toList (numberMargin shown.number ++ shownText shown.text)
      (caretRule shown.number (shown.offset - (shown.text.takeWhile isMargin).length)) where
  rows := by
    rw [Diagnostic.report, hshown, String.toList_append, lineRows_toList]
    refine ⟨(headRow d.cause ++ "-> " ++ file ++ "\n").toList ++
      (barRow (Nat.toDigits 10 shown.number).length).toList, ?_⟩
    simp only [List.append_assoc, List.cons_append]
  row := by
    rw [List.mem_append]
    rintro (hmem | hmem)
    · exact lineFeed_not_mem_numberMargin _ hmem
    · exact lineFeed_not_mem_shownText hfeed hmem
  rule := caretRule_chars _ _

/-! ### Refusals -/

/-- Whatever is refused behind the scan is refused at the start of a token. -/
theorem compileTokens_position {text : List Char} {init : List Token} {last : Token}
    (htokens : ∀ t ∈ init ++ [last], t.span.start.IsIn text) (heof : last.kind = .eof)
    {stage : Stage} {d : Diagnostic} (h : compileTokens (init ++ [last]) = .error (stage, d)) :
    d.position.IsIn text := by
  have hself : List.Forall₂ (Token.Alike fun p _ => p.IsIn text) (init ++ [last])
      (init ++ [last]) :=
    List.forall₂_same.mpr fun t ht => ⟨rfl, rfl, htokens t ht⟩
  have hend : (Surface.Cursor.ofTokens (init ++ [last])).inputEnd.span = last.span := by
    simp [Surface.Cursor.ofTokens, heof]
  have hcursor := Surface.Cursor.ofTokens_alike hself (by
    rw [hend]
    exact htokens last (by simp))
  have hresult := compileTokens_alike hcursor
  rw [h] at hresult
  cases hresult with
  | error _ why => exact why.position

theorem compile_error_isIn {source : String} {d : Diagnostic} (h : compile source = .error d) :
    d.position.IsIn source.toList := by
  have hscan := Token.ofSource_scanned source
  rw [compile_eq_compileTokens] at h
  generalize Token.ofSource source = x at hscan h
  cases hscan with
  | error position =>
    cases h
    exact position
  | @ok init last tokens eof =>
    change (compileTokens (init ++ [last])).unstaged = .error d at h
    cases hcompiled : compileTokens (init ++ [last]) with
    | ok bytes =>
      rw [hcompiled] at h
      cases h
    | error refusal =>
      rw [hcompiled] at h
      cases h
      exact compileTokens_position tokens eof hcompiled

/-- The diagnostic is about the place in the text between `before` and `after`, and the report
    of it shows the line with that place. -/
structure Diagnostic.Locates (d : Diagnostic) (source : String) (before after : List Char) :
    Prop where
  text : source.toList = before ++ after
  boundary : String.Pos.Raw.IsValid source ⟨d.position.offset⟩
  offset : d.position.offset = byteLength before
  line : d.position.line = 1 + before.count '\n'
  column : d.position.column = d.position.offset - lineStart before + 1
  /-- There is a line to show, and the last row is a rule under it that ends in a caret. -/
  report : ∃ shown, lineAt source.toList d.position.offset = some shown ∧ ∀ file,
    d.report source file = headRow d.cause ++ "-> " ++ file ++ "\n" ++ lineRows shown ∧
    EndsWithRows (d.report source file).toList (numberMargin shown.number ++ shownText shown.text)
      (caretRule shown.number (shown.offset - (shown.text.takeWhile isMargin).length))
  /-- Before the end of the text it is the line that the position names. -/
  lineAt : d.position.offset < source.utf8ByteSize →
    lineAt source.toList d.position.offset =
      some ⟨d.position.line, Text.lineAcross before after, d.position.column - 1⟩

/-- A refused text is refused at a place in it, by whichever stage. -/
theorem compile_error_located {source : String} {d : Diagnostic}
    (h : compile source = .error d) : ∃ before after, d.Locates source before after := by
  obtain ⟨before, ⟨after, hsource⟩, hposition⟩ := compile_error_isIn h
  have hoffset : d.position.offset = byteLength before := by rw [hposition]; rfl
  refine ⟨before, after, ?_⟩
  constructor
  case text => exact hsource.symm
  case boundary =>
    apply String.Pos.Raw.isValid_iff_exists_append.mpr
    refine ⟨String.ofList before, String.ofList after, ?_, ?_⟩
    · rw [← String.ofList_append, hsource, String.ofList_toList]
    · rw [hoffset, Text.byteLength_eq_utf8ByteSize]
      rfl
  case offset => exact hoffset
  case line =>
    rw [hposition, Nat.add_comm]
    rfl
  case column =>
    rw [hposition]
    rfl
  case report =>
    obtain ⟨shown, hshown, hfeed⟩ := exists_lineAt before after
    rw [hsource, ← hoffset] at hshown
    refine ⟨shown, hshown, fun file => ⟨?_, report_endsWithRows hshown hfeed file⟩⟩
    rw [Diagnostic.report, hshown]
  case lineAt =>
    intro hinside
    have hafter : after ≠ [] := by
      rintro rfl
      rw [← String.ofList_toList (s := source), ← hsource, ← Text.byteLength_eq_utf8ByteSize,
        List.append_nil, hoffset] at hinside
      exact absurd hinside (Nat.lt_irrefl _)
    rw [← hsource, hoffset, lineAt_of_after hafter, hposition]
    rfl

/-- A sum of an `int` and a `float`, on the second line. -/
def mixedSum : String := "def f(x: int):\n    y = x + 2.0\n"

theorem compile_error_mixedSum :
    ∃ before after, (⟨.typeMatch "int" "float", ⟨27, 2, 13⟩⟩ : Diagnostic).Locates mixedSum
      before after :=
  compile_error_located (by decide +kernel)

end Offside
