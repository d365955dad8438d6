/-
  Offside/Proofs/Token/Located.lean
  =================================
  **The scan knows where it is.**  It keeps count of bytes and lines as it goes, lexeme by
  lexeme.  `Place.behind` says what the count should be behind a given beginning of the
  text, and the scan has it right at every step (`Scan.Reached`).  So every token of a text
  starts at a position in the text, and so does whatever the scan refuses
  (`ofSource_scanned`).

  A line feed is never inside a lexeme, only at the end of one (`Lexeme.read_lineFeed`).  That
  is why the scan may count lines by lexemes.
-/
import Mathlib.Data.List.DropRight
import Offside.Proofs.Token.Move

namespace Offside

/-! ### Positions in a text -/

/-- Where the line begins that goes on behind `before`: behind the last line feed. -/
def Text.lineStart (before : List Char) : Nat := byteLength (before.rdropWhile (· ≠ '\n'))

/-- A line goes on from where it begins. -/
theorem Text.byteLength_eq_lineStart_add (before : List Char) :
    byteLength before = lineStart before + byteLength (before.rtakeWhile (· ≠ '\n')) := by
  rw [lineStart, ← byteLength_append, List.rdropWhile_append_rtakeWhile]

/-- The place that a scan has come to behind `before`. -/
def Place.behind (before : List Char) : Place :=
  ⟨Text.byteLength before, before.count '\n' + 1, Text.lineStart before⟩

/-- The position is that of a place in the text. -/
def Position.IsIn (p : Position) (text : List Char) : Prop :=
  ∃ before, before <+: text ∧ p = (Place.behind before).position

namespace Place

variable {before text : List Char}

theorem behind_append (h : '\n' ∉ text) :
    behind (before ++ text) = (behind before).advance (Text.byteLength text) := by
  have hstart : Text.lineStart (before ++ text) = Text.lineStart before := by
    have hall : ∀ c ∈ text.reverse, decide (c ≠ '\n') = true := by
      intro c hc
      rw [decide_eq_true_eq]
      rintro rfl
      exact h (List.mem_reverse.mp hc)
    rw [Text.lineStart, Text.lineStart, List.rdropWhile, List.rdropWhile, List.reverse_append,
      List.dropWhile_append_of_pos hall]
  rw [behind, hstart, Text.byteLength_append, List.count_append, List.count_eq_zero_of_not_mem h]
  rfl

theorem behind_lineFeed :
    behind (before ++ ['\n']) = ((behind before).advance 1).newLine := by
  have hstart : Text.lineStart (before ++ ['\n']) = Text.byteLength (before ++ ['\n']) := by
    rw [Text.lineStart, List.rdropWhile_concat_neg _ _ _ (by decide)]
  rw [behind, hstart, Text.byteLength_append, List.count_append]
  rfl

/-- A line ends with its line feed. -/
theorem behind_append_lineFeed (h : '\n' ∉ text) :
    behind (before ++ (text ++ ['\n'])) =
      ((behind before).advance (Text.byteLength (text ++ ['\n']))).newLine := by
  rw [← List.append_assoc, behind_lineFeed, behind_append h, Text.byteLength_append]
  rfl

end Place

/-! ### Lexemes and line feeds -/

namespace Token

theorem quotedBody_lineFeed (quote : Char) (cs : List Char) :
    '\n' ∉ (quotedBody quote cs).1 := by
  fun_induction quotedBody quote cs with
  | case1 => exact List.not_mem_nil
  | case2 c cs hc body rest hbody ih =>
    rw [hbody] at ih
    have hne : '\n' ≠ c := fun h => hc h.symm
    simp [hne, ih]
  | case3 => exact List.not_mem_nil
  | case4 c cs hc hstop body rest hbody ih =>
    rw [hbody] at ih
    have hne : '\n' ≠ c := fun h => hstop (.inr (.inr h.symm))
    simp [hne, ih]
  | case5 => exact List.not_mem_nil

namespace Lexeme

theorem exponentDigits_lineFeed {mark : List Char} (h : '\n' ∉ mark) (cs : List Char) :
    '\n' ∉ exponentDigits mark cs := by
  have hdigits : '\n' ∉ cs.takeWhile Char.isDigit := fun hmem =>
    absurd (List.mem_takeWhile_imp hmem) (by decide)
  unfold exponentDigits
  split
  · exact List.not_mem_nil
  · rw [List.mem_append]
    exact not_or.mpr ⟨h, hdigits⟩

theorem exponentText_lineFeed (cs : List Char) : '\n' ∉ exponentText cs := by
  unfold exponentText
  split
  next c s cs =>
    by_cases hc : c = 'e' ∨ c = 'E'
    · have hmark : '\n' ≠ c := by rintro rfl; exact absurd hc (by decide)
      rw [if_pos hc]
      by_cases hs : s = '+' ∨ s = '-'
      · have hsign : '\n' ≠ s := by rintro rfl; exact absurd hs (by decide)
        rw [if_pos hs]
        exact exponentDigits_lineFeed (by simp [hmark, hsign]) cs
      · rw [if_neg hs]
        exact exponentDigits_lineFeed (by simp [hmark]) (s :: cs)
    · rw [if_neg hc]
      exact List.not_mem_nil
  next => exact List.not_mem_nil

theorem decimalText_lineFeed (cs : List Char) : '\n' ∉ (decimalText cs).2 := by
  have hdigits : ∀ ds : List Char, '\n' ∉ ds.takeWhile Char.isDigit := fun ds hmem =>
    absurd (List.mem_takeWhile_imp hmem) (by decide)
  unfold decimalText
  split
  next after _ =>
    simp [hdigits, exponentText_lineFeed]
  next => exact hdigits cs

theorem numberText_lineFeed (cs : List Char) : '\n' ∉ (numberText cs).2 := by
  unfold numberText
  split
  next x h more =>
    split
    next hx =>
      have hmark : '\n' ≠ x := by rintro rfl; exact absurd hx.1 (by decide)
      have hdigits : '\n' ∉ (h :: more).takeWhile Number.isHexDigit := fun hmem =>
        absurd (List.mem_takeWhile_imp hmem) (by decide)
      simp [hmark, hdigits]
    next => exact decimalText_lineFeed _
  next => exact decimalText_lineFeed cs

theorem literal_lineFeed {quote : Char} (hquote : '\n' ≠ quote) (cs : List Char) :
    '\n' ∉ (literal quote cs).text := by
  have hbody := quotedBody_lineFeed quote cs
  unfold literal
  generalize quotedBody quote cs = p at hbody
  obtain ⟨body, rest⟩ := p
  cases rest with
  | nil => simpa [hquote] using hbody
  | cons c after =>
    dsimp only
    split <;> simpa [hquote] using hbody

theorem sign?_lineFeed {cs : List Char} {l : Lexeme} (h : sign? cs = some l) :
    '\n' ∉ l.text ∧ ∃ kind, l.form = .plain kind := by
  unfold sign? at h
  split at h <;> cases h <;> exact ⟨by simp, _, rfl⟩

/-- Holds for the lexemes that end a line of the text. -/
def endsLine (l : Lexeme) : Prop := l.form = .joint ∨ l.form = .lineEnd

theorem readBy_lineFeed {c : Char} {cs : List Char} {l : Lexeme} (h : readBy c cs = some l) :
    '\n' ∉ l.text ∧ ¬ l.endsLine := by
  have hrun : ∀ (p : Char → Bool) (ds : List Char), p '\n' = false → '\n' ∉ ds.takeWhile p := by
    intro p ds hp hmem
    rw [List.mem_takeWhile_imp hmem] at hp
    cases hp
  unfold readBy at h
  split at h
  · cases h
    exact ⟨hrun isGap _ (by decide), by simp [endsLine, run]⟩
  split at h
  · cases h
    exact ⟨hrun _ _ (by decide), by simp [endsLine, run]⟩
  split at h
  · cases h
    exact ⟨hrun isWordPart _ (by decide), by simp [endsLine, word]⟩
  split at h
  · cases h
    exact ⟨numberText_lineFeed _, by simp [endsLine, number]⟩
  split at h
  next hquote =>
    cases h
    have hc : '\n' ≠ c := by rintro rfl; exact absurd hquote (by decide)
    refine ⟨literal_lineFeed hc cs, ?_⟩
    unfold literal endsLine
    split
    split
    · split <;> simp
    · simp
  next =>
    obtain ⟨hfeed, kind, hform⟩ := sign?_lineFeed h
    exact ⟨hfeed, by simp [endsLine, hform]⟩

/-- A line feed ends its lexeme, and there is one in those that end a line only. -/
theorem read_lineFeed {cs : List Char} {l : Lexeme} (h : read cs = some l) :
    (l.endsLine ∧ ∃ line, l.text = line ++ ['\n'] ∧ '\n' ∉ line) ∨
      (¬ l.endsLine ∧ '\n' ∉ l.text) := by
  unfold read at h
  split at h
  · cases h
  · cases h
    exact .inl ⟨.inl rfl, ['\\'], rfl, by decide⟩
  · cases h
    exact .inl ⟨.inl rfl, ['\\', '\r'], rfl, by decide⟩
  · cases h
    exact .inl ⟨.inr rfl, [], rfl, by decide⟩
  · cases h
    exact .inl ⟨.inr rfl, ['\r'], rfl, by decide⟩
  · obtain ⟨hfeed, hform⟩ := readBy_lineFeed h
    exact .inr ⟨hform, hfeed⟩

end Lexeme

/-! ### The scan -/

namespace Scan

variable {source : List Char} {s : Scan}

/-- The scan has come to where it says it is. -/
def Reached (source : List Char) (s : Scan) : Prop :=
  ∃ before, before ++ s.rest = source ∧ s.place = Place.behind before

theorem reached_start (source : List Char) : Reached source (start source) :=
  ⟨[], rfl, rfl⟩

theorem Reached.position (h : s.Reached source) : s.place.position.IsIn source := by
  obtain ⟨before, hsource, hplace⟩ := h
  exact ⟨before, ⟨s.rest, hsource⟩, by rw [hplace]⟩

theorem Reached.place_eq {before : List Char} (h : s.Reached (before ++ s.rest)) :
    s.place = Place.behind before := by
  obtain ⟨before', hsource, hplace⟩ := h
  rwa [← List.append_cancel_right hsource]

theorem Reached.past (h : s.Reached source) {text rest : List Char} (hrest : text ++ rest = s.rest)
    (hfeed : '\n' ∉ text) : (s.past text rest).Reached source := by
  obtain ⟨before, hsource, hplace⟩ := h
  refine ⟨before ++ text, ?_, ?_⟩
  · rw [← hsource, ← hrest, List.append_assoc]
    rfl
  · rw [Place.behind_append hfeed, ← hplace]
    rfl

/-- Behind the line feed that ends a lexeme a line begins. -/
theorem Reached.newLine (h : s.Reached source) {line rest : List Char}
    (hrest : line ++ ['\n'] ++ rest = s.rest) (hfeed : '\n' ∉ line) :
    ({ s.past (line ++ ['\n']) rest with
      place := (s.past (line ++ ['\n']) rest).place.newLine } : Scan).Reached source := by
  obtain ⟨before, hsource, hplace⟩ := h
  refine ⟨before ++ (line ++ ['\n']), ?_, ?_⟩
  · rw [← hsource, ← hrest, List.append_assoc]
    rfl
  · rw [Place.behind_append_lineFeed hfeed, ← hplace]
    rfl

/-- What a step gives starts in the text, and the scan knows where it is after it. -/
inductive Stepped (source : List Char) : Except Diagnostic (List Token × Scan) → Prop where
  | ok {ts : List Token} {s : Scan} (tokens : ∀ t ∈ ts, t.span.start.IsIn source)
      (next : s.Reached source) : Stepped source (.ok (ts, s))
  | error {d : Diagnostic} (position : d.position.IsIn source) : Stepped source (.error d)

theorem Reached.nest (h : s.Reached source) (width : Nat) : Stepped source (s.nest width) := by
  unfold Scan.nest
  split
  · refine .ok ?_ h
    intro t ht
    rw [List.mem_singleton.mp ht]
    exact h.position
  dsimp only
  split
  · refine .ok ?_ h
    intro t ht
    rw [List.eq_of_mem_replicate ht]
    exact h.position
  · exact .error h.position

theorem Reached.afterLeading (h : s.Reached source) : s.afterLeading.Reached source := by
  have hfeed : '\n' ∉ s.rest.takeWhile isLeading := fun hmem =>
    absurd (List.mem_takeWhile_imp hmem) (by decide)
  exact h.past List.takeWhile_append_dropWhile hfeed

theorem Reached.place_afterLeading {before : List Char} (h : s.Reached (before ++ s.rest)) :
    s.afterLeading.place = Place.behind (before ++ s.rest.takeWhile isLeading) := by
  have hleading : s.rest.takeWhile isLeading ++ s.afterLeading.rest = s.rest :=
    List.takeWhile_append_dropWhile
  have hreached := h.afterLeading
  rw [← hleading, ← List.append_assoc] at hreached
  exact hreached.place_eq

theorem Reached.measureLine (h : s.Reached source) : Stepped source s.measureLine := by
  unfold Scan.measureLine
  dsimp only
  split
  · exact .ok (fun _ ht => absurd ht List.not_mem_nil) h.afterLeading
  · exact h.afterLeading.nest _

theorem Reached.emit (h : s.Reached source) (kind : Kind) (value : List Char)
    {text rest : List Char} (hrest : text ++ rest = s.rest) (hfeed : '\n' ∉ text) :
    Stepped source (.ok (s.emit kind value text rest)) := by
  refine .ok ?_ (h.past hrest hfeed)
  intro t ht
  rw [List.mem_singleton.mp ht]
  exact h.position

theorem Reached.emitLiteral (h : s.Reached source) (body : List Char) (closed : Bool)
    {text rest : List Char} (hrest : text ++ rest = s.rest) (hfeed : '\n' ∉ text) :
    Stepped source (s.emitLiteral body closed text rest) := by
  unfold Scan.emitLiteral
  split
  · split
    · exact h.emit .char _ hrest hfeed
    · exact .error h.position
  · exact .error h.position

theorem Reached.endLine (h : s.Reached source) {line rest : List Char}
    (hrest : line ++ ['\n'] ++ rest = s.rest) (hfeed : '\n' ∉ line) :
    Stepped source (.ok (s.endLine (line ++ ['\n']) rest)) := by
  refine .ok ?_ (h.newLine hrest hfeed)
  intro t ht
  split at ht
  · rw [List.mem_singleton.mp ht]
    exact h.position
  · exact absurd ht List.not_mem_nil

theorem Reached.takeLexeme (h : s.Reached source) : Stepped source s.takeLexeme := by
  unfold Scan.takeLexeme
  split
  · exact .error h.position
  next form text rest hread =>
    have hrest : text ++ rest = s.rest := (Lexeme.read_append hread).1
    rcases Lexeme.read_lineFeed hread with ⟨hends, line, htext, hfeed⟩ | ⟨hends, hfeed⟩
    · obtain rfl : text = line ++ ['\n'] := htext
      rcases hends with hform | hform
      · obtain rfl : form = .joint := hform
        exact .ok (fun _ ht => absurd ht List.not_mem_nil) (h.newLine hrest hfeed)
      · obtain rfl : form = .lineEnd := hform
        exact h.endLine hrest hfeed
    · cases form with
      | joint => exact absurd (Or.inl rfl) hends
      | lineEnd => exact absurd (Or.inr rfl) hends
      | gap => exact .ok (fun _ ht => absurd ht List.not_mem_nil) (h.past hrest hfeed)
      | quoted body closed => exact h.emitLiteral body closed hrest hfeed
      | plain kind => exact h.emit kind text hrest hfeed

theorem Reached.step (h : s.Reached source) : Stepped source s.step := by
  unfold Scan.step
  split
  · exact h.measureLine
  · exact h.takeLexeme

/-- A step that leaves `text` behind leads to the place behind it. -/
theorem Reached.next {before text : List Char} {s' : Scan} {ts : List Token}
    (h : s.Reached (before ++ s.rest)) (hstep : s.step = .ok (ts, s'))
    (hrest : text ++ s'.rest = s.rest) : s'.Reached (before ++ text ++ s'.rest) := by
  have hnext := h.step
  rw [hstep, ← hrest, ← List.append_assoc] at hnext
  cases hnext with
  | ok _ next => exact next

theorem Runs.reached {s' : Scan} {ts : List Token} (h : s.Runs ts s') (hs : s.Reached source) :
    s'.Reached source := by
  induction h with
  | refl => exact hs
  | step _ hstep _ ih =>
    have hnext := hs.step
    rw [hstep] at hnext
    cases hnext with
    | ok _ next => exact ih next

theorem Reached.finish (h : s.Reached source) : ∀ t ∈ s.finish, t.span.start.IsIn source := by
  intro t ht
  obtain ⟨kind, -, rfl⟩ := Scan.mem_finish ht
  exact h.position

/-- All tokens start in the text, of which the last is its end, or what is refused does. -/
inductive Scanned (source : List Char) : Except Diagnostic (List Token) → Prop where
  | ok {init : List Token} {last : Token} (tokens : ∀ t ∈ init ++ [last], t.span.start.IsIn source)
      (eof : last.kind = .eof) : Scanned source (.ok (init ++ [last]))
  | error {d : Diagnostic} (position : d.position.IsIn source) : Scanned source (.error d)

/-- A scan that knows where it is gives tokens that do. -/
theorem Reached.tokens (h : s.Reached source) : Scanned source s.tokens := by
  fun_induction Scan.tokens s with
  | case1 s hrest => exact .ok h.finish rfl
  | case2 s c cs hrest d hstep =>
    have hd := h.step
    rw [hstep] at hd
    cases hd with
    | error position => exact .error position
  | case3 s c cs hrest ts s' hstep d hmore ih =>
    have hnext := h.step
    rw [hstep] at hnext
    cases hnext with
    | ok _ next =>
      have hd := ih next
      rwa [hmore] at hd
  | case4 s c cs hrest ts s' hstep more hmore ih =>
    have hnext := h.step
    rw [hstep] at hnext
    cases hnext with
    | ok tokens next =>
      have hmoreTokens := ih next
      rw [hmore] at hmoreTokens
      cases hmoreTokens with
      | ok moreTokens eof =>
        rw [← List.append_assoc]
        refine .ok ?_ eof
        intro t ht
        rw [List.append_assoc, List.mem_append] at ht
        exact ht.elim (tokens t) (moreTokens t)

end Scan

/-- The tokens of a source text start in it, and so does what a scan of it refuses. -/
theorem ofSource_scanned (source : String) : Scan.Scanned source.toList (ofSource source) :=
  (Scan.reached_start source.toList).tokens

end Token
end Offside
