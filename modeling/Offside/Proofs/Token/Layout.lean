/-
  Offside/Proofs/Token/Layout.lean
  ================================
  **Scanning written lines.**  A `Line` is a row of pieces with a level of indentation, four
  spaces to a level.  Scanning the text of some lines gives the tokens of their pieces, and
  between them the tokens for the layout: the end of every line, the opening of a block
  where the level goes up and the closing of as many blocks as it goes down (`layout`).

  A step of the scan is one piece, the end of a line or the measuring of a line.  Each is
  proved to use up its text and to give its tokens, for every text behind it
  (`Scan.Yields`); what the scan remembers between two lines is only the level.
-/
import Offside.Proofs.Token.Move
import Offside.Proofs.Token.Piece

namespace Offside.Token

/-! ### Pieces in a row -/

def textOf (ps : List Piece) : List Char := ps.flatMap Piece.text

/-- What the tokens among the pieces say. -/
def spellingsOf (ps : List Piece) : List Spelling := ps.filterMap Piece.spelling?

@[simp] theorem textOf_append (ps qs : List Piece) :
    textOf (ps ++ qs) = textOf ps ++ textOf qs := List.flatMap_append

@[simp] theorem spellingsOf_append (ps qs : List Piece) :
    spellingsOf (ps ++ qs) = spellingsOf ps ++ spellingsOf qs := List.filterMap_append

theorem textOf_cons (p : Piece) (ps : List Piece) : textOf (p :: ps) = p.text ++ textOf ps :=
  List.flatMap_cons

theorem spellingsOf_cons (p : Piece) (ps : List Piece) :
    spellingsOf (p :: ps) = p.spelling?.toList ++ spellingsOf ps := by
  cases h : p.spelling? with
  | none => simp [spellingsOf, h]
  | some s => simp [spellingsOf, h]

/-- Holds if every piece can be written and ends before the next, the last one before
    `stop`. -/
def Flows (stop : Char) : List Piece → Prop
  | [] => True
  | p :: ps => p.valid = true ∧ p.endsBefore ((textOf ps).headD stop) = true ∧ Flows stop ps

theorem headD_append {α : Type} (as bs : List α) (d : α) :
    (as ++ bs).headD d = as.headD (bs.headD d) := by
  cases as with
  | nil => rfl
  | cons a as => rfl

theorem flows_append {stop : Char} {ps qs : List Piece} :
    Flows stop (ps ++ qs) ↔ Flows ((textOf qs).headD stop) ps ∧ Flows stop qs := by
  induction ps with
  | nil => simp [Flows]
  | cons p ps ih =>
    rw [List.cons_append, Flows, Flows, ih, textOf_append, headD_append]
    simp only [and_assoc]

/-! ### Steps of a scan -/

namespace Scan

/-- Scanning comes from `s` to `s'` and gives tokens that say `w`. -/
def Yields (s : Scan) (w : List Spelling) (s' : Scan) : Prop :=
  ∀ ts, s'.tokens = .ok ts → ∃ us, s.tokens = .ok (us ++ ts) ∧ us.map Token.spelling = w

theorem Yields.trans {s s' s'' : Scan} {w w' : List Spelling} (h : s.Yields w s')
    (h' : s'.Yields w' s'') : s.Yields (w ++ w') s'' := by
  intro ts hts
  obtain ⟨us', hus', rfl⟩ := h' ts hts
  obtain ⟨us, hus, rfl⟩ := h _ hus'
  refine ⟨us ++ us', ?_, List.map_append⟩
  rw [hus, List.append_assoc]

theorem yields_of_step {s s' : Scan} {us : List Token} (hrest : s.rest ≠ [])
    (h : s.step = .ok (us, s')) : s.Yields (us.map Token.spelling) s' := by
  intro ts hts
  refine ⟨us, ?_, rfl⟩
  rw [tokens_of_step hrest h, hts]
  rfl

end Scan

/-- The depth of open parentheses after some tokens. -/
def depthOver (depth : Nat) (w : List Spelling) : Nat :=
  w.foldl (fun d s => Scan.depthAfter d s.kind) depth

theorem depthOver_append (depth : Nat) (w w' : List Spelling) :
    depthOver depth (w ++ w') = depthOver (depthOver depth w) w' := List.foldl_append

section Steps

variable {place : Place} {blocks : List Nat} {depth : Nat} {busy : Bool} {c : Char}
  {cs : List Char}

/-- The token that a piece becomes at some place. -/
def Piece.token? (p : Piece) (place : Place) : Option Token :=
  p.spelling?.map fun s => ⟨s.kind, s.value, place.spanOf (Text.byteLength p.text)⟩

/-- One step of the scan takes a piece. -/
theorem Piece.step {p : Piece} (hvalid : p.valid = true) (hends : p.endsBefore c = true) :
    Scan.step ⟨p.text ++ c :: cs, place, blocks, depth, false, busy⟩ =
      .ok ((p.token? place).toList, ⟨c :: cs, place.advance (Text.byteLength p.text), blocks,
        depthOver depth p.spelling?.toList, false, busy || p.spelling?.isSome⟩) := by
  have hread : Lexeme.read (p.text ++ c :: cs) = some ⟨p.form, p.text, c :: cs⟩ :=
    Piece.read hvalid hends
  rw [Scan.step, if_neg (by simp), Scan.takeLexeme, hread]
  cases p with
  | gap =>
    rw [show gap.spelling?.isSome = false from rfl, Bool.or_false]
    rfl
  | fixed kind | integer value | float value =>
    rw [show (Piece.spelling? _).isSome = true from rfl, Bool.or_true]
    rfl
  | name text =>
    rw [show (Piece.spelling? _).isSome = true from rfl, Bool.or_true]
    simp [Piece.form, Scan.emit, Scan.token, Piece.token?, Piece.text, Piece.spelling?, depthOver,
      Scan.past, String.ofList_toList]
  | char value =>
    rw [show (Piece.spelling? _).isSome = true from rfl, Bool.or_true]
    simp only [Piece.form, Scan.emitLiteral, decodeChar?_escape, if_true]
    rfl

theorem Piece.yields {p : Piece} (hvalid : p.valid = true) (hends : p.endsBefore c = true) :
    Scan.Yields ⟨p.text ++ c :: cs, place, blocks, depth, false, busy⟩ p.spelling?.toList
      ⟨c :: cs, place.advance (Text.byteLength p.text), blocks,
        depthOver depth p.spelling?.toList, false, busy || p.spelling?.isSome⟩ := by
  have hspelling : (p.token? place).toList.map Token.spelling = p.spelling?.toList := by
    rw [Piece.token?]
    cases p.spelling? with
    | none => rfl
    | some s => rfl
  have h : Scan.Yields ⟨p.text ++ c :: cs, place, blocks, depth, false, busy⟩
      ((p.token? place).toList.map Token.spelling) _ :=
    Scan.yields_of_step (by simp) (Piece.step hvalid hends)
  rwa [hspelling] at h

theorem pieces_yield {stop : Char} {ps : List Piece} (h : Flows stop ps) (place : Place)
    (blocks : List Nat) (depth : Nat) (busy : Bool) (cs : List Char) :
    ∃ place', Scan.Yields ⟨textOf ps ++ stop :: cs, place, blocks, depth, false, busy⟩
      (spellingsOf ps)
      ⟨stop :: cs, place', blocks, depthOver depth (spellingsOf ps), false,
        busy || !(spellingsOf ps).isEmpty⟩ := by
  induction ps generalizing place depth busy with
  | nil =>
    refine ⟨place, ?_⟩
    rw [show spellingsOf [] = [] from rfl, List.isEmpty_nil, Bool.not_true, Bool.or_false]
    exact fun ts hts => ⟨[], hts, rfl⟩
  | cons p ps ih =>
    obtain ⟨hvalid, hends, hflows⟩ := h
    obtain ⟨more, hmore⟩ : ∃ more, textOf ps ++ stop :: cs =
        (textOf ps).headD stop :: more := by
      cases textOf ps with
      | nil => exact ⟨cs, rfl⟩
      | cons a as => exact ⟨as ++ stop :: cs, rfl⟩
    have hfirst : Scan.Yields ⟨p.text ++ (textOf ps ++ stop :: cs), place, blocks, depth, false,
        busy⟩ p.spelling?.toList ⟨textOf ps ++ stop :: cs,
        place.advance (Text.byteLength p.text), blocks, depthOver depth p.spelling?.toList, false,
        busy || p.spelling?.isSome⟩ := by
      rw [hmore]
      exact Piece.yields hvalid hends
    obtain ⟨place', hrest⟩ := ih hflows _ _ _
    have hbusy : (busy || !(spellingsOf (p :: ps)).isEmpty) =
        ((busy || p.spelling?.isSome) || !(spellingsOf ps).isEmpty) := by
      rw [spellingsOf_cons]
      cases p.spelling? with
      | none => simp
      | some s => simp
    refine ⟨place', ?_⟩
    rw [hbusy, spellingsOf_cons, depthOver_append, textOf_cons, List.append_assoc]
    exact hfirst.trans hrest

theorem lineEnd_yields (place : Place) (blocks : List Nat) (cs : List Char) :
    ∃ place', Scan.Yields ⟨'\n' :: cs, place, blocks, 0, false, true⟩ [⟨.newline, "\\n"⟩]
      ⟨cs, place', blocks, 0, true, false⟩ := by
  let token : Token := ⟨.newline, "\\n", place.spanOf (Text.byteLength ['\n'])⟩
  refine ⟨(place.advance (Text.byteLength ['\n'])).newLine, ?_⟩
  exact Scan.yields_of_step (by simp)
    (show Scan.step ⟨'\n' :: cs, place, blocks, 0, false, true⟩ = .ok ([token], _) from rfl)

end Steps

/-! ### Lines -/

/-- The opening or the closing of blocks between lines of the given levels. -/
def shift (level level' : Nat) : List Spelling :=
  if level < level' then [⟨.indent, ""⟩] else List.replicate (level - level') ⟨.dedent, ""⟩

/-- The widths of the open blocks at a level. -/
def widths : Nat → List Nat
  | 0 => []
  | level + 1 => 4 * (level + 1) :: widths level

theorem headD_widths (level : Nat) : (widths level).headD 0 = 4 * level := by
  cases level with
  | zero => rfl
  | succ level => rfl

theorem length_widths (level : Nat) : (widths level).length = level := by
  induction level with
  | zero => rfl
  | succ level ih => rw [widths, List.length_cons, ih]

theorem dropWhile_widths {level level' : Nat} (h : level' ≤ level) :
    (widths level).dropWhile (4 * level' < ·) = widths level' := by
  induction level with
  | zero =>
    obtain rfl : level' = 0 := by omega
    rfl
  | succ level ih =>
    rw [widths, List.dropWhile_cons]
    by_cases hlt : level' ≤ level
    · rw [if_pos (decide_eq_true (by omega)), ih hlt]
    · obtain rfl : level' = level + 1 := by omega
      rw [if_neg (by simp), widths]

theorem length_takeWhile_widths {level level' : Nat} (h : level' ≤ level) :
    ((widths level).takeWhile (4 * level' < ·)).length = level - level' := by
  have hsplit := congrArg List.length
    (List.takeWhile_append_dropWhile (p := (4 * level' < ·)) (l := widths level))
  rw [List.length_append, dropWhile_widths h, length_widths, length_widths] at hsplit
  omega

theorem isLeading_of_isWordStart {c : Char} (h : isWordStart c = true) :
    Scan.isLeading c = false := by
  have hne : ∀ d, isWordStart d = false → c ≠ d := by
    rintro d hd rfl
    rw [h] at hd
    cases hd
  simp [Scan.isLeading, hne ' ' (by decide), hne '\t' (by decide), hne '\x0c' (by decide)]

theorem isEmptyLine_of_isWordStart {c : Char} (h : isWordStart c = true) (cs : List Char) :
    Scan.isEmptyLine (c :: cs) = false := by
  have hne : ∀ d, isWordStart d = false → c ≠ d := by
    rintro d hd rfl
    rw [h] at hd
    cases hd
  simp [Scan.isEmptyLine, hne '\n' (by decide), hne '\r' (by decide), hne '#' (by decide)]

theorem width_replicate (n : Nat) : Scan.width (List.replicate n ' ') = n := by
  have h : ∀ k, (List.replicate n ' ').foldl Scan.widen k = k + n := by
    induction n with
    | zero => exact fun k => rfl
    | succ n ih =>
      intro k
      rw [List.replicate_succ, List.foldl_cons, ih, Scan.widen, if_pos rfl]
      omega
  rw [Scan.width, h, Nat.zero_add]

/-- Fitting a line into the open blocks. -/
theorem nest_eq {s : Scan} {level level' : Nat} (hblocks : s.blocks = widths level)
    (h : level' ≤ level + 1) :
    ∃ us, s.nest (4 * level') = .ok (us, { s with blocks := widths level' }) ∧
      us.map Token.spelling = shift level level' := by
  rw [Scan.nest, hblocks, headD_widths, shift]
  by_cases hlt : level < level'
  · obtain rfl : level' = level + 1 := by omega
    rw [if_pos (by omega), if_pos hlt]
    exact ⟨_, rfl, rfl⟩
  · rw [if_neg (by omega), if_neg hlt]
    dsimp only
    rw [dropWhile_widths (by omega), headD_widths, if_pos rfl,
      length_takeWhile_widths (by omega)]
    refine ⟨_, rfl, ?_⟩
    rw [List.map_replicate]
    rfl

/-- Measuring a line. -/
theorem measure_yields {level level' : Nat} {c : Char} (hc : isWordStart c = true)
    (h : level' ≤ level + 1) (place : Place) (cs : List Char) :
    ∃ place', Scan.Yields
      ⟨List.replicate (4 * level') ' ' ++ c :: cs, place, widths level, 0, true, false⟩
      (shift level level') ⟨c :: cs, place', widths level', 0, false, false⟩ := by
  have hspace : ∀ a ∈ List.replicate (4 * level') ' ', Scan.isLeading a = true := by
    intro a ha
    rw [List.eq_of_mem_replicate ha]
    rfl
  have hfresh := isLeading_of_isWordStart hc
  have htake : (List.replicate (4 * level') ' ' ++ c :: cs).takeWhile Scan.isLeading =
      List.replicate (4 * level') ' ' := takeWhile_append_cons hspace hfresh
  have hdrop : (List.replicate (4 * level') ' ' ++ c :: cs).dropWhile Scan.isLeading =
      c :: cs := dropWhile_append_cons hspace hfresh
  let after : Scan := ⟨c :: cs, place.advance
    (Text.byteLength (List.replicate (4 * level') ' ')), widths level, 0, false, false⟩
  have hafter : Scan.afterLeading ⟨List.replicate (4 * level') ' ' ++ c :: cs, place,
      widths level, 0, true, false⟩ = after := by
    rw [Scan.afterLeading, htake, hdrop]
    rfl
  obtain ⟨us, hnest, hus⟩ := nest_eq (s := after) rfl h
  refine ⟨after.place, ?_⟩
  rw [← hus]
  refine Scan.yields_of_step (by simp) ?_
  rw [Scan.step, if_pos ⟨rfl, rfl⟩, Scan.measureLine]
  dsimp only
  rw [hafter, htake, width_replicate, if_neg (by simp [after, isEmptyLine_of_isWordStart hc])]
  exact hnest

/-- Holds for the tokens that a line can begin with. -/
def Piece.isWord (p : Piece) : Bool := p.spelling?.isSome && p.text.head?.any isWordStart

/-- Pieces on a line of their own. -/
structure Line where
  level : Nat
  pieces : List Piece

def Line.text (l : Line) : List Char :=
  List.replicate (4 * l.level) ' ' ++ (textOf l.pieces ++ ['\n'])

/-- Holds of the lines that begin with a word and close the parentheses they open. -/
structure Line.Valid (l : Line) : Prop where
  flows : Flows '\n' l.pieces
  starts : l.pieces.head?.any Piece.isWord = true
  closes : depthOver 0 (spellingsOf l.pieces) = 0

/-- Holds if the lines are valid and none is more than one level above the one before it. -/
def WellLaid (level : Nat) : List Line → Prop
  | [] => True
  | l :: ls => l.Valid ∧ l.level ≤ level + 1 ∧ WellLaid l.level ls

/-- What the tokens of some lines say, behind a line of the given level. -/
def layout (level : Nat) : List Line → List Spelling
  | [] => List.replicate level ⟨.dedent, ""⟩
  | l :: ls =>
    shift level l.level ++ (spellingsOf l.pieces ++ ⟨.newline, "\\n"⟩ :: layout l.level ls)

theorem layout_level {level : Nat} {ps : List Piece} {ls : List Line} :
    layout level (⟨level, ps⟩ :: ls) =
      spellingsOf ps ++ ⟨.newline, "\\n"⟩ :: layout level ls := by
  rw [layout, shift, if_neg (Nat.lt_irrefl level), Nat.sub_self]
  rfl

theorem layout_indent {level : Nat} {l : Line} {ls : List Line} (h : l.level = level + 1) :
    layout level (l :: ls) = ⟨.indent, ""⟩ :: layout (level + 1) (l :: ls) := by
  obtain ⟨_, ps⟩ := l
  subst h
  rw [layout_level, layout, shift, if_pos (Nat.lt_succ_self level)]
  rfl

theorem layout_dedent {level : Nat} {ls : List Line} (h : ∀ l ∈ ls.head?, l.level ≤ level) :
    layout (level + 1) ls = ⟨.dedent, ""⟩ :: layout level ls := by
  cases ls with
  | nil => rfl
  | cons l ls =>
    have hle : l.level ≤ level := h l rfl
    rw [layout, layout, shift, shift, if_neg (by omega), if_neg (by omega),
      Nat.succ_sub hle, List.replicate_succ]
    rfl

theorem Line.Valid.exists_cons {l : Line} (h : l.Valid) :
    ∃ c cs, textOf l.pieces = c :: cs ∧ isWordStart c = true ∧
      (spellingsOf l.pieces).isEmpty = false := by
  obtain ⟨level, pieces⟩ := l
  have hstarts := h.starts
  cases pieces with
  | nil => cases hstarts
  | cons p ps =>
    obtain ⟨hspelling, hstart⟩ := Bool.and_eq_true_iff.1 hstarts
    obtain ⟨s, hs⟩ := Option.isSome_iff_exists.1 hspelling
    have hbusy : (spellingsOf (p :: ps)).isEmpty = false := by simp [spellingsOf, hs]
    cases htext : p.text with
    | nil =>
      rw [htext] at hstart
      cases hstart
    | cons c cs =>
      rw [htext] at hstart
      exact ⟨c, cs ++ textOf ps, by simp [textOf, htext], hstart, hbusy⟩

theorem Line.Valid.yields {l : Line} (hl : l.Valid) {level : Nat} (h : l.level ≤ level + 1)
    (place : Place) (cs : List Char) :
    ∃ place', Scan.Yields ⟨l.text ++ cs, place, widths level, 0, true, false⟩
      (shift level l.level ++ (spellingsOf l.pieces ++ [⟨.newline, "\\n"⟩]))
      ⟨cs, place', widths l.level, 0, true, false⟩ := by
  -- the line is measured, then its pieces are taken, then its end
  obtain ⟨c, tail, htail, hc, hbusy⟩ := hl.exists_cons
  have htext : l.text ++ cs = List.replicate (4 * l.level) ' ' ++ c :: (tail ++ '\n' :: cs) := by
    rw [Line.text, htail]
    simp
  obtain ⟨place₁, hmeasure⟩ := measure_yields hc h place (tail ++ '\n' :: cs)
  obtain ⟨place₂, hpieces⟩ : ∃ place₂, Scan.Yields
      ⟨c :: (tail ++ '\n' :: cs), place₁, widths l.level, 0, false, false⟩
      (spellingsOf l.pieces) ⟨'\n' :: cs, place₂, widths l.level, 0, false, true⟩ := by
    have hyield := pieces_yield hl.flows place₁ (widths l.level) 0 false cs
    rwa [htail, hl.closes, hbusy] at hyield
  obtain ⟨place₃, hend⟩ := lineEnd_yields place₂ (widths l.level) cs
  refine ⟨place₃, ?_⟩
  rw [htext]
  exact hmeasure.trans (hpieces.trans hend)

theorem tokens_lines {level : Nat} {ls : List Line} (h : WellLaid level ls) (place : Place) :
    ∃ ts, Scan.tokens ⟨ls.flatMap Line.text, place, widths level, 0, true, false⟩ = .ok ts ∧
      ts.map Token.spelling = layout level ls ++ [⟨.eof, ""⟩] := by
  induction ls generalizing level place with
  | nil =>
    refine ⟨_, Scan.tokens.eq_def _, ?_⟩
    simp [Scan.finish, layout, length_widths, Token.spelling, Scan.mark]
  | cons l ls ih =>
    obtain ⟨hvalid, hlevel, hrest⟩ := h
    obtain ⟨place', hline⟩ := hvalid.yields hlevel place (ls.flatMap Line.text)
    obtain ⟨ts, hts, hspell⟩ := ih hrest place'
    obtain ⟨us, hus, hspell'⟩ := hline ts hts
    refine ⟨us ++ ts, hus, ?_⟩
    rw [List.map_append, hspell, hspell', layout]
    simp

/-- Scanning written lines succeeds. -/
theorem ofSource_lines {ls : List Line} (h : WellLaid 0 ls) :
    ∃ ts, ofSource (String.ofList (ls.flatMap Line.text)) = .ok ts ∧
      ts.map Token.spelling = layout 0 ls ++ [⟨.eof, ""⟩] := by
  rw [ofSource, String.toList_ofList]
  exact tokens_lines h Place.start

end Offside.Token
