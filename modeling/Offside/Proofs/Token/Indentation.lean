/-
  Offside/Proofs/Token/Indentation.lean
  =====================================
  **Indentation is nesting by the nearest smaller width.**  The scan keeps the widths of the
  open blocks and nothing else of the lines it has measured.  What the blocks are can be told
  from the lines alone (`measuredLines`): a line is nested in the last line before it that is
  narrower, and it fits if one of its own width is in reach (`nesting`, `Fits`).  How wide a
  line is and whether it counts is said without the scan (`columnFrom`, `counts`), and the scan
  agrees (`foldl_widen`, `isEmptyLine_eq`).

  The two meet in `openWidths`, which is what the scan keeps, told as a function of the widths
  so far (`Scan.nest_openWidths`).  A step either measures the next line or passes over text
  that has no part in this (`Scan.Turn`), so a whole scan gives the marks that the lines ask for
  and refuses the first line that does not fit (`ofSource_indentation`).
-/
import Offside.Proofs.Token.Located
import Offside.Proofs.Token.Stream

namespace Offside.Token

/-! ### The measured lines of a text -/

/-- The characters that a line is indented with. -/
def leadingChars : List Char := [' ', '\t', '\x0c']

/-- The column behind leading characters that begin in the given column.  A tab goes on to the
    next multiple of eight, and a form feed goes back to the first column. -/
def columnFrom : Nat → List Char → Nat
  | column, [] => column
  | column, ' ' :: cs => columnFrom (column + 1) cs
  | column, '\t' :: cs => columnFrom (column + (8 - column % 8)) cs
  | _, '\x0c' :: cs => columnFrom 0 cs
  | column, _ :: cs => columnFrom column cs

/-- Behind the leading characters of a line there is text that is neither the end of the line
    nor a comment. -/
def counts (after : List Char) : Bool := after.head?.any (· ∉ ['\n', '\r', '#'])

/-- A line that is more than blanks and a comment. -/
structure MeasuredLine where
  /-- The text before the first character of the line that counts. -/
  before : List Char
  width : Nat
deriving DecidableEq, Repr

/-- Where the line begins, its leading characters apart. -/
def MeasuredLine.position (line : MeasuredLine) : Position := (Place.behind line.before).position

/-- The measured lines of `text` behind `before`, with so many parentheses open.  `fresh` says
    that a line begins that can be measured; behind it, lexemes are passed over up to a line
    end outside of parentheses. -/
def linesFrom (before : List Char) (depth : Nat) (fresh : Bool) (text : List Char) :
    List MeasuredLine :=
  if fresh then
    let leading := text.takeWhile (· ∈ leadingChars)
    let after := text.dropWhile (· ∈ leadingChars)
    let more := linesFrom (before ++ leading) depth false after
    if counts after then ⟨before ++ leading, columnFrom 0 leading⟩ :: more else more
  else
    match _hread : Lexeme.read text with
    | none => []
    | some l =>
      if l.isSound then
        linesFrom (before ++ l.text) (depthFrom depth l.kind?.toList)
          (l.form = .lineEnd ∧ depth = 0) l.rest
      else []
termination_by 2 * text.length + if fresh then 1 else 0
decreasing_by
  · have hlen : (text.dropWhile (· ∈ leadingChars)).length ≤ text.length :=
      (List.dropWhile_suffix _).length_le
    rw [if_neg not_false, if_pos ‹fresh = true›]
    omega
  · have hlen := Lexeme.read_length _hread
    have hnew : (if decide (l.form = .lineEnd ∧ depth = 0) = true then 1 else 0) ≤ 1 := by
      split <;> decide
    omega

/-- The measured lines of a source text, as far as it can be read. -/
def measuredLines (source : String) : List MeasuredLine := linesFrom [] 0 true source.toList

/-! ### What the scan makes of a line -/

theorem isLeading_eq : Scan.isLeading = fun c => decide (c ∈ leadingChars) := by
  funext c
  simp [Scan.isLeading, leadingChars, Bool.or_assoc]

theorem isEmptyLine_eq (after : List Char) : Scan.isEmptyLine after = !counts after := by
  cases after with
  | nil => rfl
  | cons c cs => simp [Scan.isEmptyLine, counts, Bool.or_assoc]

theorem foldl_widen (column : Nat) (leading : List Char) :
    leading.foldl Scan.widen column = columnFrom column leading := by
  fun_induction columnFrom column leading with
  | case1 => rfl
  | case2 column cs ih => exact ih
  | case3 column cs ih =>
    have htab : Scan.widen column '\t' = column + (8 - column % 8) := by
      change (column / 8 + 1) * 8 = _
      omega
    rw [List.foldl_cons, htab, ih]
  | case4 column cs ih => exact ih
  | case5 column c cs hspace htab hfeed ih =>
    rw [List.foldl_cons, Scan.widen, if_neg hspace, if_neg htab, if_neg hfeed, ih]

/-! ### Widths and depths -/

/-- The depth of a line of the given width behind lines of the earlier widths, latest first:
    one more than that of the last line that is narrower.  Before the text there is a line of
    width zero. -/
def nesting : List Nat → Nat → Nat
  | [], width => if width = 0 then 0 else 1
  | v :: earlier, width =>
    if width = 0 then 0 else if v < width then nesting earlier v + 1 else nesting earlier width

/-- An earlier line is as wide, and so are all between, or wider. -/
def Fits (earlier : List Nat) (width : Nat) : Prop :=
  ∃ between before, earlier ++ [0] = between ++ width :: before ∧ ∀ v ∈ between, width ≤ v

/-- The line closes blocks and there is none to go on with. -/
def Misfit (earlier : List Nat) (width : Nat) : Prop :=
  width < earlier.headD 0 ∧ ¬ Fits earlier width

/-- The widths of the blocks that are open behind lines of the given widths, latest first. -/
def openWidths : List Nat → List Nat
  | [] => []
  | width :: earlier => if width = 0 then [] else width :: (openWidths earlier).filter (· < width)

theorem openWidths_headD (earlier : List Nat) : (openWidths earlier).headD 0 = earlier.headD 0 := by
  cases earlier with
  | nil => rfl
  | cons width earlier =>
    rw [openWidths]
    split
    next h => simp [h]
    next => rfl

theorem openWidths_pos {earlier : List Nat} {v : Nat} (h : v ∈ openWidths earlier) : 0 < v := by
  induction earlier with
  | nil => cases h
  | cons width earlier ih =>
    rw [openWidths] at h
    split at h
    · cases h
    next hwidth =>
      rcases List.mem_cons.mp h with rfl | h
      · exact Nat.pos_of_ne_zero hwidth
      · exact ih (List.mem_filter.mp h).1

/-- Every block is wider than the ones it is in. -/
theorem openWidths_sorted (earlier : List Nat) : (openWidths earlier).Pairwise (· > ·) := by
  induction earlier with
  | nil => exact .nil
  | cons width earlier ih =>
    rw [openWidths]
    split
    · exact .nil
    · refine List.pairwise_cons.mpr ⟨?_, ih.filter _⟩
      intro v hv
      simpa using (List.mem_filter.mp hv).2

theorem openWidths_le {v width : Nat} {earlier : List Nat} (h : v ∈ openWidths (width :: earlier)) :
    v ≤ width := by
  rw [openWidths] at h
  split at h
  · cases h
  · rcases List.mem_cons.mp h with rfl | h
    · exact Nat.le_refl _
    · exact Nat.le_of_lt (by simpa using (List.mem_filter.mp h).2)

/-- The depth of a line is the number of blocks open behind it. -/
theorem nesting_eq (earlier : List Nat) (width : Nat) :
    nesting earlier width = (openWidths (width :: earlier)).length := by
  induction earlier generalizing width with
  | nil =>
    rw [nesting, openWidths]
    split <;> rfl
  | cons v earlier ih =>
    rw [nesting, openWidths]
    split
    · rfl
    next hwidth =>
      split
      next hlt =>
        -- every block open behind the narrower line is narrower still
        have hall : ∀ u ∈ openWidths (v :: earlier), decide (u < width) = true := by
          intro u hu
          exact decide_eq_true (Nat.lt_of_le_of_lt (openWidths_le hu) hlt)
        rw [ih, List.length_cons, List.filter_eq_self.mpr hall]
      next hlt =>
        have hv : v ≠ 0 := by omega
        rw [ih, openWidths, if_neg hwidth, openWidths, if_neg hv]
        rw [List.filter_cons_of_neg (by simpa using hlt), List.filter_filter]
        have hfilter : ∀ u, (decide (u < width) && decide (u < v)) = decide (u < width) := by
          intro u
          rw [← Bool.decide_and, decide_eq_decide]
          omega
        simp only [hfilter]

theorem fits_cons {v width : Nat} {earlier : List Nat} :
    Fits (v :: earlier) width ↔ width = v ∨ (width ≤ v ∧ Fits earlier width) := by
  constructor
  · rintro ⟨between, before, heq, hall⟩
    cases between with
    | nil => exact .inl (List.cons.inj heq).1.symm
    | cons u between =>
      obtain ⟨rfl, hmore⟩ := List.cons.inj heq
      exact .inr ⟨hall v List.mem_cons_self, between, before, hmore,
        fun u hu => hall u (List.mem_cons_of_mem _ hu)⟩
  · rintro (rfl | ⟨hle, between, before, heq, hall⟩)
    · exact ⟨[], earlier ++ [0], rfl, fun _ hv => absurd hv List.not_mem_nil⟩
    · refine ⟨v :: between, before, by rw [List.cons_append, heq, List.cons_append], ?_⟩
      intro u hu
      rcases List.mem_cons.mp hu with rfl | hu
      · exact hle
      · exact hall u hu

/-- A line fits if it goes on with an open block or with the text. -/
theorem fits_iff {earlier : List Nat} {width : Nat} :
    Fits earlier width ↔ width ∈ openWidths earlier ∨ width = 0 := by
  induction earlier with
  | nil =>
    constructor
    · rintro ⟨between, before, heq, -⟩
      rcases List.cons_eq_append_iff.mp heq with ⟨-, heq⟩ | ⟨more, -, heq⟩
      · exact .inr (List.cons.inj heq).1
      · simp at heq
    · rintro (hmem | rfl)
      · cases hmem
      · exact ⟨[], [], rfl, fun _ hv => absurd hv List.not_mem_nil⟩
  | cons v earlier ih =>
    rw [fits_cons, ih, openWidths]
    split
    next hv => grind
    next hv =>
      rw [List.mem_cons, List.mem_filter, decide_eq_true_eq]
      grind

theorem dropWhile_of_sorted {width : Nat} {blocks : List Nat} (h : blocks.Pairwise (· > ·))
    (hmem : width ∈ blocks) :
    blocks.dropWhile (width < ·) = width :: blocks.filter (· < width) := by
  induction h with
  | nil => cases hmem
  | @cons block blocks hblock _ ih =>
    rcases List.mem_cons.mp hmem with rfl | hmem
    · have hall : ∀ v ∈ blocks, decide (v < width) = true := fun v hv =>
        decide_eq_true (hblock v hv)
      simp [List.filter_eq_self.mpr hall]
    · have hlt : width < block := hblock width hmem
      rw [List.dropWhile_cons_of_pos (by simpa using hlt), ih hmem,
        List.filter_cons_of_neg (by simpa using Nat.le_of_lt hlt)]

/-- The blocks that a line leaves open are the ones that are not wider, if it fits. -/
theorem dropWhile_openWidths {earlier : List Nat} {width : Nat} (h : Fits earlier width) :
    (openWidths earlier).dropWhile (width < ·) = openWidths (width :: earlier) := by
  rw [openWidths]
  rcases fits_iff.mp h with hmem | rfl
  · rw [if_neg (Nat.ne_of_gt (openWidths_pos hmem))]
    exact dropWhile_of_sorted (openWidths_sorted earlier) hmem
  · rw [if_pos rfl, List.dropWhile_eq_nil_iff]
    intro v hv
    exact decide_eq_true (openWidths_pos hv)

theorem headD_dropWhile_ne {earlier : List Nat} {width : Nat} (h : ¬ Fits earlier width) :
    ((openWidths earlier).dropWhile (width < ·)).headD 0 ≠ width := by
  rw [fits_iff, not_or] at h
  cases hkept : (openWidths earlier).dropWhile (width < ·) with
  | nil => exact fun h0 => h.2 h0.symm
  | cons v kept =>
    have hmem : v ∈ openWidths earlier := by
      refine (List.dropWhile_sublist (width < ·)).subset ?_
      rw [hkept]
      exact List.mem_cons_self
    rintro rfl
    exact h.1 hmem

/-- A line as wide as the last fits. -/
theorem fits_headD (earlier : List Nat) : Fits earlier (earlier.headD 0) := by
  cases earlier with
  | nil => exact fits_iff.mpr (.inr rfl)
  | cons v earlier => exact fits_cons.mpr (.inl rfl)

namespace Scan

variable {s s' : Scan} {ts us : List Token} {before : List Char} {earlier : List Nat}

/-- A line that fits leaves the blocks open that it should, and no other line is let through. -/
theorem nest_openWidths (h : s.blocks = openWidths earlier) (width : Nat) :
    (Misfit earlier width ∧ s.nest width = .error (s.refuse (.inconsistentIndentation width))) ∨
    (¬ Misfit earlier width ∧
      ∃ ts, s.nest width = .ok (ts, { s with blocks := openWidths (width :: earlier) })) := by
  unfold nest
  rw [h, openWidths_headD]
  split
  next hlt =>
    have hall : ∀ v ∈ openWidths earlier, decide (v < width) = true := by
      intro v hv
      cases earlier with
      | nil => cases hv
      | cons u earlier => exact decide_eq_true (Nat.lt_of_le_of_lt (openWidths_le hv) hlt)
    refine .inr ⟨fun hmisfit => Nat.lt_asymm hlt hmisfit.1, [s.mark .indent], ?_⟩
    rw [openWidths, if_neg (Nat.ne_of_gt (Nat.zero_lt_of_lt hlt)), List.filter_eq_self.mpr hall]
  next hlt =>
    dsimp only
    by_cases hfits : Fits earlier width
    · rw [dropWhile_openWidths hfits, openWidths_headD, if_pos List.headD_cons]
      exact .inr ⟨fun hmisfit => hmisfit.2 hfits, _, rfl⟩
    · rw [if_neg (headD_dropWhile_ne hfits)]
      refine .inl ⟨⟨?_, hfits⟩, rfl⟩
      refine Nat.lt_of_le_of_ne (Nat.le_of_not_lt hlt) ?_
      rintro rfl
      exact hfits (fits_headD earlier)

/-! ### One step -/

/-- The measured lines that the scan will come to. -/
def lines (s : Scan) (before : List Char) : List MeasuredLine :=
  linesFrom before s.depth s.fresh s.rest

/-- The scan stands behind `before`, and its open blocks are those of the lines measured so
    far. -/
structure Follows (before : List Char) (earlier : List Nat) (s : Scan) : Prop where
  reached : s.Reached (before ++ s.rest)
  fresh : s.fresh = true → s.depth = 0
  blocks : s.blocks = openWidths earlier

/-- What a step has to do with the lines: it measures the next one, which fits or does not, or
    it leaves them all ahead. -/
inductive Turn (before : List Char) (earlier : List Nat) (s : Scan) :
    Except Diagnostic (List Token × Scan) → Prop where
  | measured {line : MeasuredLine} {ts : List Token} {s' : Scan}
      (hlines : s.lines before = line :: s'.lines line.before)
      (hfits : ¬ Misfit earlier line.width)
      (hnext : s'.Follows line.before (line.width :: earlier))
      (hinside : s'.fresh = false ∧ s'.rest ≠ [])
      (hmarks : ∀ t ∈ ts, t.span.start = line.position) : Turn before earlier s (.ok (ts, s'))
  | misfit {line : MeasuredLine} {more : List MeasuredLine} (hlines : s.lines before = line :: more)
      (hmisfit : Misfit earlier line.width) :
      Turn before earlier s (.error ⟨.inconsistentIndentation line.width, line.position⟩)
  | passed {before' : List Char} {ts : List Token} {s' : Scan}
      (hlines : s.lines before = s'.lines before') (hnext : s'.Follows before' earlier)
      (hmarks : ∀ t ∈ ts, t.kind.isBlockMark = false) : Turn before earlier s (.ok (ts, s'))
  | refused {d : Diagnostic} (hlines : s.lines before = [])
      (hcause : ∀ width, d.cause ≠ .inconsistentIndentation width) :
      Turn before earlier s (.error d)

theorem lines_fresh (hfresh : s.fresh = true) (before : List Char) :
    s.lines before =
      if isEmptyLine (s.rest.dropWhile isLeading) then
        s.afterLeading.lines (before ++ s.rest.takeWhile isLeading)
      else ⟨before ++ s.rest.takeWhile isLeading, width (s.rest.takeWhile isLeading)⟩ ::
        s.afterLeading.lines (before ++ s.rest.takeWhile isLeading) := by
  rw [lines, linesFrom, if_pos hfresh, ← isLeading_eq, isEmptyLine_eq, width, foldl_widen]
  cases hcounts : counts (s.rest.dropWhile isLeading) with
  | true => exact if_pos hcounts
  | false => exact if_neg (Bool.not_eq_true _ ▸ hcounts)

theorem lines_lexeme {l : Lexeme} (hfresh : s.fresh = false) (hread : Lexeme.read s.rest = some l)
    (hsound : l.isSound = true) (before : List Char) :
    s.lines before = linesFrom (before ++ l.text) (depthFrom s.depth l.kind?.toList)
      (l.form = .lineEnd ∧ s.depth = 0) l.rest := by
  rw [lines, linesFrom, hfresh, if_neg Bool.false_ne_true]
  split
  next hnone =>
    rw [hnone] at hread
    cases hread
  next l' hread' =>
    rw [hread] at hread'
    cases hread'
    rw [if_pos hsound]

theorem lines_refused (hfresh : s.fresh = false)
    (hread : ∀ l, Lexeme.read s.rest = some l → l.isSound = false) : s.lines before = [] := by
  rw [lines, linesFrom, hfresh, if_neg Bool.false_ne_true]
  split
  next => rfl
  next l hl => rw [hread l hl, if_neg Bool.false_ne_true]

theorem Follows.step (h : s.Follows before earlier) : s.Turn before earlier s.step := by
  have hmove := s.step_move
  generalize hstep : s.step = result at hmove
  have hfresh : ¬ s.AtLine → s.fresh = false := by
    intro hline
    cases hfresh : s.fresh with
    | false => rfl
    | true => exact absurd ⟨hfresh, h.fresh hfresh⟩ hline
  have hleading : s.rest.takeWhile isLeading ++ s.afterLeading.rest = s.rest :=
    List.takeWhile_append_dropWhile
  cases hmove with
  | blank hline hempty =>
    have hlines := lines_fresh hline.1 before
    rw [if_pos hempty] at hlines
    exact .passed hlines ⟨h.reached.next hstep hleading, fun hfresh => (by cases hfresh), h.blocks⟩
      (fun _ ht => absurd ht List.not_mem_nil)
  | measured hline hempty hnest =>
    have hlines := lines_fresh hline.1 before
    rw [hempty, if_neg Bool.false_ne_true] at hlines
    have hpos : s.afterLeading.place.position = MeasuredLine.position
        ⟨before ++ s.rest.takeWhile isLeading, width (s.rest.takeWhile isLeading)⟩ := by
      rw [h.reached.place_afterLeading]
      rfl
    rcases nest_openWidths (s := s.afterLeading) h.blocks (width (s.rest.takeWhile isLeading)) with
      ⟨hmisfit, herror⟩ | ⟨hfits, ts, hok⟩
    · obtain rfl := herror.symm.trans hnest
      rw [refuse, hpos]
      exact .misfit hlines hmisfit
    · obtain rfl := hok.symm.trans hnest
      refine .measured hlines hfits
        ⟨h.reached.next hstep hleading, fun hfresh => (by cases hfresh), rfl⟩
        ⟨rfl, ?_⟩ fun t ht => ((nest_marks hok).2 t ht).trans hpos
      intro hnil
      have hnil' : s.rest.dropWhile isLeading = [] := hnil
      rw [hnil'] at hempty
      cases hempty
  | refused d hline hread hcause => exact .refused (lines_refused (hfresh hline) hread) hcause
  | skipped hline hread hsound hkind hform hplace =>
    have hlines := lines_lexeme (hfresh hline) hread hsound before
    refine .passed (hlines.trans ?_)
      ⟨h.reached.next hstep (Lexeme.read_append hread).1, h.fresh, h.blocks⟩
      (fun _ ht => absurd ht List.not_mem_nil)
    rw [hkind, decide_eq_false fun hend => hform hend.1, ← hfresh hline]
    rfl
  | @ended l hline hread hsound hform =>
    have hlines := lines_lexeme (hfresh hline) hread hsound before
    have hkind : l.kind? = none := by rw [Lexeme.kind?, hform]
    refine .passed (hlines.trans ?_)
      ⟨h.reached.next hstep (Lexeme.read_append hread).1, fun hzero => of_decide_eq_true hzero,
        h.blocks⟩ ?_
    · rw [hkind, decide_eq_decide.mpr (and_iff_right hform)]
      rfl
    · intro t ht
      rw [eq_newline_of_mem_endLine ht]
      rfl
  | @emitted l kind value hline hread hsound hkind =>
    have hlines := lines_lexeme (hfresh hline) hread hsound before
    have hform : l.form ≠ .lineEnd := by
      intro hform
      rw [Lexeme.kind?, hform] at hkind
      cases hkind
    have hnot := hfresh hline
    refine .passed (hlines.trans ?_)
      ⟨h.reached.next hstep (Lexeme.read_append hread).1, fun hfresh => ?_, h.blocks⟩ ?_
    · rw [hkind, Option.toList_some, depthFrom_singleton, decide_eq_false fun hend => hform hend.1,
        ← hnot]
      rfl
    · exact absurd (hnot.symm.trans hfresh) Bool.false_ne_true
    · intro t ht
      rw [List.mem_singleton.mp ht]
      exact Kind.not_isBlockMark (Lexeme.read_not_layout hread hkind)

/-! ### A whole scan -/

/-- The tokens of a step start where the scan is, or where it comes to. -/
theorem step_starts (h : s.step = .ok (ts, s')) :
    s.place.offset ≤ s'.place.offset ∧
      ∀ t ∈ ts, s.place.offset ≤ t.span.start.offset ∧ t.span.start.offset ≤ s'.place.offset := by
  have hmove := s.step_move
  rw [h] at hmove
  cases hmove with
  | blank hline hempty =>
    exact ⟨Nat.le_add_right _ _, fun _ ht => absurd ht List.not_mem_nil⟩
  | measured hline hempty hnest =>
    obtain ⟨hplace, hmarks⟩ := nest_marks hnest
    have hle : s.place.offset ≤ s.afterLeading.place.offset := Nat.le_add_right _ _
    refine ⟨hplace ▸ hle, fun t ht => ?_⟩
    rw [hmarks t ht, hplace]
    exact ⟨hle, Nat.le_refl _⟩
  | @skipped l _ hline hread hsound hkind hform hplace =>
    exact ⟨hplace ▸ Nat.le_add_right _ _, fun _ ht => absurd ht List.not_mem_nil⟩
  | ended hline hread hsound hform =>
    refine ⟨Nat.le_add_right _ _, fun t ht => ?_⟩
    rw [eq_newline_of_mem_endLine ht]
    exact ⟨Nat.le_refl _, Nat.le_add_right _ _⟩
  | emitted value hline hread hsound hkind =>
    refine ⟨Nat.le_add_right _ _, fun t ht => ?_⟩
    rw [List.mem_singleton.mp ht]
    exact ⟨Nat.le_refl _, Nat.le_add_right _ _⟩

/-- Inside a line a step goes on in the text and opens or closes no block. -/
theorem step_inside (hline : ¬ s.AtLine) (h : s.step = .ok (ts, s')) :
    s.place.offset < s'.place.offset ∧ ∀ t ∈ ts, t.kind.isBlockMark = false := by
  have hpos : ∀ {l : Lexeme}, Lexeme.read s.rest = some l →
      s.place.offset < s.place.offset + Text.byteLength l.text := fun hread =>
    Nat.lt_add_of_pos_right (Text.byteLength_pos (Lexeme.read_append hread).2)
  have hmove := s.step_move
  rw [h] at hmove
  cases hmove with
  | blank hat | measured hat => exact absurd hat hline
  | skipped hline hread hsound hkind hform hplace =>
    exact ⟨hplace ▸ hpos hread, fun _ ht => absurd ht List.not_mem_nil⟩
  | ended hline hread hsound hform =>
    refine ⟨hpos hread, fun t ht => ?_⟩
    rw [eq_newline_of_mem_endLine ht]
    rfl
  | emitted value hline hread hsound hkind =>
    refine ⟨hpos hread, fun t ht => ?_⟩
    rw [List.mem_singleton.mp ht]
    exact Kind.not_isBlockMark (Lexeme.read_not_layout hread hkind)

theorem Runs.starts (h : s.Runs ts s') :
    s.place.offset ≤ s'.place.offset ∧
      ∀ t ∈ ts, s.place.offset ≤ t.span.start.offset ∧ t.span.start.offset ≤ s'.place.offset := by
  induction h with
  | refl s => exact ⟨Nat.le_refl _, fun _ ht => absurd ht List.not_mem_nil⟩
  | step _ hstep _ ih =>
    obtain ⟨hle, hts⟩ := step_starts hstep
    refine ⟨hle.trans ih.1, fun t ht => ?_⟩
    rcases List.mem_append.mp ht with ht | ht
    · exact ⟨(hts t ht).1, (hts t ht).2.trans ih.1⟩
    · exact ⟨hle.trans (ih.2 t ht).1, (ih.2 t ht).2⟩

/-- Behind the beginning of a line, blocks open and close further on in the text. -/
theorem Runs.marks_later (h : s.Runs ts s') (hinside : s.fresh = false ∧ s.rest ≠ [])
    (hend : s'.rest = []) :
    s.place.offset < s'.place.offset ∧
      ∀ t ∈ ts, t.kind.isBlockMark = true → s.place.offset < t.span.start.offset := by
  cases h with
  | refl => exact absurd hend hinside.2
  | step _ hstep hruns =>
    have hline : ¬ s.AtLine := fun hline => by
      rw [hline.1] at hinside
      cases hinside.1
    obtain ⟨hlt, hnone⟩ := step_inside hline hstep
    obtain ⟨hle, hmore⟩ := hruns.starts
    refine ⟨hlt.trans_le hle, fun t ht hmark => ?_⟩
    rcases List.mem_append.mp ht with ht | ht
    · rw [hnone t ht] at hmark
      cases hmark
    · exact hlt.trans_le (hmore t ht).1

theorem lines_nil (h : s.rest = []) : s.lines before = [] := by
  have hread : ∀ l, Lexeme.read [] = some l → l.isSound = false := fun l hl => by cases hl
  cases hfresh : s.fresh with
  | false => exact lines_refused hfresh (by rwa [h])
  | true =>
    have hafter : s.afterLeading.rest = [] := by
      change s.rest.dropWhile isLeading = []
      rw [h]
      rfl
    rw [lines_fresh hfresh before, h]
    exact lines_refused rfl (by rwa [hafter])

/-- A scan that reaches the end comes by every line that it has ahead. -/
theorem Runs.at_line {last : Scan} (h : s.Runs ts last) (hend : last.rest = [])
    (hs : s.Follows before earlier) {passed later : List MeasuredLine} {line : MeasuredLine}
    (hlines : s.lines before = passed ++ line :: later) :
    ∃ us vs s', ts = us ++ vs ∧ s.Runs us s' ∧ s'.Runs vs last ∧
      s'.Follows line.before (line.width :: ((passed.map MeasuredLine.width).reverse ++ earlier)) ∧
      s'.fresh = false ∧ s'.rest ≠ [] := by
  induction h generalizing before earlier passed with
  | refl s =>
    rw [lines_nil hend] at hlines
    simp at hlines
  | @step s s' s'' ts us hrest hstep hruns ih =>
    have hturn := hs.step
    rw [hstep] at hturn
    cases hturn with
    | @measured first _ _ hfirst hfits hnext hinside hmarks =>
      rw [hfirst] at hlines
      cases passed with
      | nil =>
        obtain ⟨rfl, -⟩ := List.cons.inj hlines
        have hruns₁ := Runs.step hrest hstep (.refl s')
        rw [List.append_nil] at hruns₁
        exact ⟨ts, us, s', rfl, hruns₁, hruns, hnext, hinside⟩
      | cons first' passed =>
        obtain ⟨rfl, hmore⟩ := List.cons.inj hlines
        obtain ⟨us', vs, s₁, rfl, hruns₁, hruns₂, hfollows, hinside⟩ := ih hend hnext hmore
        refine ⟨ts ++ us', vs, s₁, by rw [List.append_assoc], .step hrest hstep hruns₁, hruns₂, ?_,
          hinside⟩
        simpa using hfollows
    | passed hsame hnext hmarks =>
      rw [hsame] at hlines
      obtain ⟨us', vs, s₁, rfl, hruns₁, hruns₂, hfollows, hinside⟩ := ih hend hnext hlines
      exact ⟨ts ++ us', vs, s₁, by rw [List.append_assoc], .step hrest hstep hruns₁, hruns₂,
        hfollows, hinside⟩

/-- Blocks open and close at measured lines. -/
theorem Runs.marks_at_lines {last : Scan} (h : s.Runs ts last) (hs : s.Follows before earlier) :
    ∀ t ∈ ts, t.kind.isBlockMark = true →
      ∃ line ∈ s.lines before, t.span.start = line.position := by
  induction h generalizing before earlier with
  | refl => exact fun _ ht => absurd ht List.not_mem_nil
  | step hrest hstep hruns ih =>
    have hturn := hs.step
    rw [hstep] at hturn
    intro t ht hmark
    cases hturn with
    | measured hlines hfits hnext hinside hmarks =>
      rw [hlines]
      rcases List.mem_append.mp ht with ht | ht
      · exact ⟨_, List.mem_cons_self, hmarks t ht⟩
      · obtain ⟨line, hline, hstart⟩ := ih hnext t ht hmark
        exact ⟨line, List.mem_cons_of_mem _ hline, hstart⟩
    | passed hlines hnext hmarks =>
      rw [hlines]
      rcases List.mem_append.mp ht with ht | ht
      · rw [hmarks t ht] at hmark
        cases hmark
      · exact ih hnext t ht hmark

/-- The first line that does not fit behind the lines before it. -/
inductive FirstMisfit : List Nat → List MeasuredLine → MeasuredLine → Prop where
  | here {earlier : List Nat} {line : MeasuredLine} {more : List MeasuredLine}
      (h : Misfit earlier line.width) : FirstMisfit earlier (line :: more) line
  | later {earlier : List Nat} {line first : MeasuredLine} {more : List MeasuredLine}
      (hfits : ¬ Misfit earlier first.width) (h : FirstMisfit (first.width :: earlier) more line) :
      FirstMisfit earlier (first :: more) line

theorem firstMisfit_iff {lines : List MeasuredLine} {line : MeasuredLine} :
    FirstMisfit earlier lines line ↔
      ∃ passed later, lines = passed ++ line :: later ∧
        Misfit ((passed.map MeasuredLine.width).reverse ++ earlier) line.width ∧
        ∀ us l vs, passed = us ++ l :: vs →
          ¬ Misfit ((us.map MeasuredLine.width).reverse ++ earlier) l.width := by
  constructor
  · intro h
    induction h with
    | here h =>
      refine ⟨[], _, rfl, h, ?_⟩
      intro us l vs hnil
      simp at hnil
    | @later earlier line first more hfits _ ih =>
      obtain ⟨passed, later, rfl, hmisfit, hpassed⟩ := ih
      refine ⟨first :: passed, later, rfl, by simpa using hmisfit, ?_⟩
      intro us l vs heq
      cases us with
      | nil =>
        obtain ⟨rfl, -⟩ := List.cons.inj heq
        exact hfits
      | cons first' us =>
        obtain ⟨rfl, hmore⟩ := List.cons.inj heq
        simpa using hpassed us l vs hmore
  · rintro ⟨passed, later, rfl, hmisfit, hpassed⟩
    induction passed generalizing earlier with
    | nil => exact .here hmisfit
    | cons first passed ih =>
      refine .later (hpassed [] first passed rfl) (ih (by simpa using hmisfit) ?_)
      intro us l vs heq
      simpa using hpassed (first :: us) l vs (by rw [heq, List.cons_append])

/-- What does not fit is still ahead after a step. -/
theorem Follows.misfit_ahead (h : s.Follows before earlier) (hstep : s.step = .ok (ts, s')) :
    ∃ before' earlier', s'.Follows before' earlier' ∧ ∀ line,
      FirstMisfit earlier (s.lines before) line ↔ FirstMisfit earlier' (s'.lines before') line := by
  have hturn := h.step
  rw [hstep] at hturn
  cases hturn with
  | measured hlines hfits hnext =>
    refine ⟨_, _, hnext, fun line => ?_⟩
    rw [hlines]
    constructor
    · intro hfirst
      cases hfirst with
      | here hmisfit => exact absurd hmisfit hfits
      | later _ hlater => exact hlater
    · exact .later hfits
  | passed hlines hnext =>
    refine ⟨_, _, hnext, fun line => ?_⟩
    rw [hlines]

/-- A scan refuses a line for its width if and only if it is the first that does not fit. -/
theorem Follows.tokens_error_iff (h : s.Follows before earlier) (width : Nat)
    (position : Position) :
    s.tokens = .error ⟨.inconsistentIndentation width, position⟩ ↔
      ∃ line, FirstMisfit earlier (s.lines before) line ∧ line.width = width ∧
        line.position = position := by
  fun_induction Scan.tokens s generalizing before earlier with
  | case1 s hrest =>
    rw [lines_nil hrest]
    constructor
    · intro hok
      cases hok
    · rintro ⟨line, hmisfit, -⟩
      cases hmisfit
  | case2 s c cs hrest d hstep =>
    have hturn := h.step
    rw [hstep] at hturn
    cases hturn with
    | @misfit line more hlines hmisfit =>
      rw [hlines]
      constructor
      · intro herror
        cases herror
        exact ⟨line, .here hmisfit, rfl, rfl⟩
      · rintro ⟨line', hfirst, rfl, rfl⟩
        cases hfirst with
        | here => rfl
        | later hfits => exact absurd hmisfit hfits
    | refused hlines hcause =>
      rw [hlines]
      constructor
      · intro herror
        cases herror
        exact absurd rfl (hcause width)
      · rintro ⟨line, hmisfit, -⟩
        cases hmisfit
  | case3 s c cs hrest ts s' hstep d hmore ih =>
    obtain ⟨before', earlier', hnext, hahead⟩ := h.misfit_ahead hstep
    simp only [hahead]
    exact hmore ▸ ih hnext
  | case4 s c cs hrest ts s' hstep more hmore ih =>
    obtain ⟨before', earlier', hnext, hahead⟩ := h.misfit_ahead hstep
    have hnone := ih hnext
    rw [hmore] at hnone
    simp only [hahead, ← hnone, reduceCtorEq]

theorem follows_start (text : List Char) : (start text).Follows [] [] :=
  ⟨reached_start text, fun _ => rfl, rfl⟩

end Scan

/-- The kinds of the tokens that start at the offset or before. -/
def kindsUpTo (ts : List Token) (offset : Nat) : List Kind :=
  (ts.filter (·.span.start.offset ≤ offset)).map Token.kind

/-- Only blocks count for which the tokens behind the offset have no mark. -/
theorem count_kindsUpTo {us vs : List Token} {offset : Nat} {k : Kind} (hk : k.isBlockMark = true)
    (hus : ∀ t ∈ us, t.span.start.offset ≤ offset)
    (hvs : ∀ t ∈ vs, t.kind.isBlockMark = true → offset < t.span.start.offset) :
    (kindsUpTo (us ++ vs) offset).count k = (us.map Token.kind).count k := by
  have hkept : us.filter (·.span.start.offset ≤ offset) = us :=
    List.filter_eq_self.mpr fun t ht => decide_eq_true (hus t ht)
  have hnone : k ∉ (vs.filter (·.span.start.offset ≤ offset)).map Token.kind := by
    intro hmem
    obtain ⟨t, ht, rfl⟩ := List.mem_map.mp hmem
    obtain ⟨ht, hle⟩ := List.mem_filter.mp ht
    exact absurd (of_decide_eq_true hle) (Nat.not_le_of_lt (hvs t ht hk))
  rw [kindsUpTo, List.filter_append, List.map_append, hkept, List.count_append,
    List.count_eq_zero_of_not_mem hnone, Nat.add_zero]

/-- A mark at the end of the text. -/
def endMark (source : String) (kind : Kind) : Token :=
  ⟨kind, "", (Place.behind source.toList).spanOf 0⟩

/-- So many blocks are open behind a measured line as its nesting says. -/
theorem count_upTo_line {source : String} {ts : List Token} (h : ofSource source = .ok ts)
    {earlier later : List MeasuredLine} {line : MeasuredLine}
    (hlines : measuredLines source = earlier ++ line :: later) :
    (kindsUpTo ts line.position.offset).count .indent =
      (kindsUpTo ts line.position.offset).count .dedent +
        nesting (earlier.map MeasuredLine.width).reverse line.width := by
  obtain ⟨body, last, hruns, hrest, rfl⟩ := Scan.exists_runs h
  obtain ⟨us, vs, s, rfl, hbefore, hbehind, hfollows, hinside⟩ :=
    hruns.at_line hrest (Scan.follows_start _) hlines
  have hplace : s.place.offset = line.position.offset := by
    rw [hfollows.reached.place_eq]
    rfl
  obtain ⟨hlast, hlater⟩ := hbehind.marks_later hinside hrest
  have hus : ∀ t ∈ us, t.span.start.offset ≤ line.position.offset := fun t ht =>
    hplace ▸ (hbefore.starts.2 t ht).2
  have hvs : ∀ t ∈ vs ++ last.finish, t.kind.isBlockMark = true →
      line.position.offset < t.span.start.offset := by
    intro t ht hmark
    rcases List.mem_append.mp ht with ht | ht
    · exact hplace ▸ hlater t ht hmark
    · obtain ⟨kind, -, rfl⟩ := Scan.mem_finish ht
      exact hplace ▸ hlast
  rw [List.append_assoc, count_kindsUpTo rfl hus hvs, count_kindsUpTo rfl hus hvs, nesting_eq]
  have hstreams := (Scan.streams_start source.toList).runs hbefore
  have hcount := hstreams.stream.count_indent
  rw [List.nil_append, hfollows.blocks] at hcount
  simpa using hcount

/-- Blocks open and close at measured lines, up to the end of the text. -/
theorem exists_endMarks {source : String} {ts : List Token} (h : ofSource source = .ok ts) :
    ∃ body n, ts = body ++ List.replicate n (endMark source .dedent) ++ [endMark source .eof] ∧
      ∀ t ∈ body, t.kind.isBlockMark = true →
        ∃ line ∈ measuredLines source, t.span.start = line.position := by
  obtain ⟨body, last, hruns, hrest, rfl⟩ := Scan.exists_runs h
  have hmarks := hruns.marks_at_lines (Scan.follows_start _)
  have hmark : last.mark = endMark source := by
    have hreached := hruns.reached (Scan.reached_start source.toList)
    rw [← List.append_nil source.toList, ← hrest] at hreached
    funext kind
    rw [Scan.mark, hreached.place_eq, endMark]
  refine ⟨body ++ if last.busy then [last.mark .newline] else [], last.blocks.length, ?_, ?_⟩
  · rw [Scan.finish, hmark]
    simp only [List.append_assoc]
  · intro t ht hblock
    rcases List.mem_append.mp ht with ht | ht
    · exact hmarks t ht hblock
    · split at ht
      · rw [List.mem_singleton.mp ht] at hblock
        cases hblock
      · cases ht

/-- In a text that can be read, so many blocks are open behind a measured line as its nesting
    says, and blocks open and close at measured lines or at the end of the text.  A line is
    refused for its width if and only if it is narrower than the one before and no line as wide
    is in reach, and this is so of no earlier line. -/
theorem ofSource_indentation (source : String) :
    (∀ ts, ofSource source = .ok ts →
      (∀ earlier line later, measuredLines source = earlier ++ line :: later →
        (kindsUpTo ts line.position.offset).count .indent =
          (kindsUpTo ts line.position.offset).count .dedent +
            nesting (earlier.map MeasuredLine.width).reverse line.width) ∧
      ∃ body n, ts = body ++ List.replicate n (endMark source .dedent) ++ [endMark source .eof] ∧
        ∀ t ∈ body, t.kind.isBlockMark = true →
          ∃ line ∈ measuredLines source, t.span.start = line.position) ∧
    ∀ width position, ofSource source = .error ⟨.inconsistentIndentation width, position⟩ ↔
      ∃ earlier line later, measuredLines source = earlier ++ line :: later ∧
        line.width = width ∧ line.position = position ∧
        Misfit (earlier.map MeasuredLine.width).reverse line.width ∧
        ∀ us l vs, earlier = us ++ l :: vs →
          ¬ Misfit (us.map MeasuredLine.width).reverse l.width := by
  refine ⟨fun ts h => ⟨fun earlier line later => count_upTo_line h, exists_endMarks h⟩, ?_⟩
  intro width position
  refine ((Scan.follows_start source.toList).tokens_error_iff width position).trans ?_
  constructor
  · rintro ⟨line, hfirst, hwidth, hposition⟩
    obtain ⟨earlier, later, hlines, hmisfit, hearlier⟩ := Scan.firstMisfit_iff.mp hfirst
    simp only [List.append_nil] at hmisfit hearlier
    exact ⟨earlier, line, later, hlines, hwidth, hposition, hmisfit, hearlier⟩
  · rintro ⟨earlier, line, later, hlines, hwidth, hposition, hmisfit, hearlier⟩
    refine ⟨line, Scan.firstMisfit_iff.mpr ⟨earlier, later, hlines, ?_⟩, hwidth, hposition⟩
    simp only [List.append_nil]
    exact ⟨hmisfit, hearlier⟩

/-- A tab reaches as far as eight spaces, and only what is behind a form feed counts.  The
    lines in parentheses and behind the mark that joins lines are not measured, nor are the
    empty one and the comment. -/
def unevenBlocks : String :=
  "if (a\n b):\n\tx = 1 + \\\n 2\n\n  # c\n\t if b:\n\t\t y\n  \x0c        z\n"

theorem ofSource_unevenBlocks :
    (∃ ts, ofSource unevenBlocks = .ok ts ∧
      (kindsUpTo ts 56).count .indent = (kindsUpTo ts 56).count .dedent + nesting [17, 9, 8, 0] 8) ∧
    ∃ earlier line later, measuredLines (unevenBlocks ++ "    u\n") = earlier ++ line :: later ∧
      line.position = ⟨62, 10, 5⟩ ∧ Misfit (earlier.map MeasuredLine.width).reverse line.width := by
  have hlines : measuredLines unevenBlocks =
      [⟨[], 0⟩, ⟨unevenBlocks.toList.take 12, 8⟩, ⟨unevenBlocks.toList.take 34, 9⟩,
        ⟨unevenBlocks.toList.take 43, 17⟩] ++ ⟨unevenBlocks.toList.take 56, 8⟩ :: [] := by
    decide +kernel
  have hoffset : (MeasuredLine.mk (unevenBlocks.toList.take 56) 8).position.offset = 56 := by
    decide +kernel
  have hmisfit : ofSource (unevenBlocks ++ "    u\n") =
      .error ⟨.inconsistentIndentation 4, ⟨62, 10, 5⟩⟩ := by decide +kernel
  have hok : (ofSource unevenBlocks).isOk = true := by decide +kernel
  constructor
  · cases hsource : ofSource unevenBlocks with
    | error d =>
      rw [hsource] at hok
      cases hok
    | ok ts =>
      have hcount := ((ofSource_indentation unevenBlocks).1 ts hsource).1 _ _ _ hlines
      rw [hoffset] at hcount
      exact ⟨ts, rfl, hcount⟩
  · obtain ⟨earlier, line, later, hsplit, -, hposition, hline, -⟩ :=
      ((ofSource_indentation _).2 _ _).mp hmisfit
    exact ⟨earlier, line, later, hsplit, hposition, hline⟩

end Offside.Token
