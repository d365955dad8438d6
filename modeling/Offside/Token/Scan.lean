/-
  Offside/Token/Scan.lean
  =======================
  **From a text to tokens.**  A `Scan` is the part of the text still to come and what must
  be remembered of the part that is done: the place reached, the widths of the open
  blocks, the depth of open parentheses, whether a fresh line is about to begin, and
  whether the logical line has a token yet.

  A fresh line outside parentheses is first measured (`Scan.measureLine`): its leading
  blanks open a block, close some, or go on in the same one.  Everything else is one
  lexeme (`Scan.takeLexeme`).  Each step uses up text, or is the measuring of a fresh line,
  which cannot happen twice in a row; so `Scan.weight` falls (`Scan.step_weight`) and
  `Scan.tokens` ends on every text.
-/
import Offside.Diagnostic
import Offside.Text.Utf8
import Offside.Token.Lexeme

namespace Offside.Token

/-- A scan under way. -/
structure Scan where
  /-- The text still to come. -/
  rest : List Char
  place : Place
  /-- The widths of the open blocks, innermost first; the text itself has width zero. -/
  blocks : List Nat
  /-- How many parentheses are open. -/
  depth : Nat
  /-- A line begins here that has not been measured. -/
  fresh : Bool
  /-- The logical line has a token already. -/
  busy : Bool

namespace Scan

/-- The scan of a text from its beginning. -/
def start (text : List Char) : Scan := ⟨text, Place.start, [], 0, true, false⟩

/-! ### Line widths -/

/-- Holds for the characters that make up the width of a line. -/
def isLeading (c : Char) : Bool := c = ' ' || c = '\t' || c = '\x0c'

/-- The width after one more leading character: a space adds one, a tab goes on to the
    next multiple of eight, a form feed begins again. -/
def widen (width : Nat) (c : Char) : Nat :=
  if c = ' ' then width + 1
  else if c = '\t' then (width / 8 + 1) * 8
  else if c = '\x0c' then 0
  else width

/-- The width of a line with the given leading characters. -/
def width (leading : List Char) : Nat := leading.foldl widen 0

/-- Holds if the line with this text after its leading characters has no token: such a
    line is not measured. -/
def isEmptyLine : List Char → Bool
  | [] => true
  | c :: _ => c = '\n' || c = '\r' || c = '#'

/-! ### Steps -/

/-- A token that stands for no text. -/
def mark (s : Scan) (kind : Kind) : Token := ⟨kind, "", s.place.spanOf 0⟩

/-- A token for the next `text`. -/
def token (s : Scan) (kind : Kind) (value text : List Char) : Token :=
  ⟨kind, String.ofList value, s.place.spanOf (Text.byteLength text)⟩

/-- A diagnostic at the place reached. -/
def refuse (s : Scan) (cause : Cause) : Diagnostic := ⟨cause, s.place.position⟩

/-- Steps over `text`, after which `rest` remains. -/
def past (s : Scan) (text rest : List Char) : Scan :=
  { s with rest := rest, place := s.place.advance (Text.byteLength text) }

/-- Steps over the leading characters of a fresh line. -/
def afterLeading (s : Scan) : Scan :=
  { s.past (s.rest.takeWhile isLeading) (s.rest.dropWhile isLeading) with fresh := false }

/-- Fits a line of the given width into the open blocks. -/
def nest (s : Scan) (width : Nat) : Except Diagnostic (List Token × Scan) :=
  if s.blocks.headD 0 < width then
    .ok ([s.mark .indent], { s with blocks := width :: s.blocks })
  else
    let closed := s.blocks.takeWhile (width < ·)
    let kept := s.blocks.dropWhile (width < ·)
    if kept.headD 0 = width then
      .ok (List.replicate closed.length (s.mark .dedent), { s with blocks := kept })
    else .error (s.refuse (.inconsistentIndentation width))

/-- Measures a fresh line. -/
def measureLine (s : Scan) : Except Diagnostic (List Token × Scan) :=
  let after := s.afterLeading
  if isEmptyLine after.rest then .ok ([], after)
  else after.nest (width (s.rest.takeWhile isLeading))

/-- The depth of open parentheses after a token.  A closing one without its opening one
    changes nothing. -/
def depthAfter (depth : Nat) (kind : Kind) : Nat :=
  if kind = .openParen then depth + 1 else if kind = .closeParen then depth - 1 else depth

/-- Steps over a line end, which ends the logical line outside parentheses. -/
def endLine (s : Scan) (text rest : List Char) : List Token × Scan :=
  let tokens := if s.depth = 0 ∧ s.busy then [s.token .newline ['\\', 'n'] text] else []
  let after := s.past text rest
  (tokens, { after with
    place := after.place.newLine, fresh := s.depth = 0, busy := s.busy && s.depth ≠ 0 })

/-- Steps over a token of the logical line. -/
def emit (s : Scan) (kind : Kind) (value text rest : List Char) : List Token × Scan :=
  ([s.token kind value text],
   { s.past text rest with depth := depthAfter s.depth kind, busy := true })

/-- Steps over a quoted literal. -/
def emitLiteral (s : Scan) (body : List Char) (closed : Bool) (text rest : List Char) :
    Except Diagnostic (List Token × Scan) :=
  if closed then
    match decodeChar? body with
    | some c => .ok (s.emit .char [c] text rest)
    | none => .error (s.refuse (.invalidCharLiteral (String.ofList text)))
  else .error (s.refuse (.unterminatedLiteral (String.ofList text)))

/-- Steps over one lexeme. -/
def takeLexeme (s : Scan) : Except Diagnostic (List Token × Scan) :=
  match Lexeme.read s.rest with
  | none => .error (s.refuse (.unrecognisedToken (String.ofList (s.rest.take 1))))
  | some ⟨form, text, rest⟩ =>
    match form with
    | .joint =>
      let after := s.past text rest
      .ok ([], { after with place := after.place.newLine })
    | .lineEnd => .ok (s.endLine text rest)
    | .gap => .ok ([], s.past text rest)
    | .quoted body closed => s.emitLiteral body closed text rest
    | .plain kind => .ok (s.emit kind text text rest)

/-- One step of a scan with text to come. -/
def step (s : Scan) : Except Diagnostic (List Token × Scan) :=
  if s.fresh ∧ s.depth = 0 then s.measureLine else s.takeLexeme

/-- The tokens at the end of the text: the logical line ends and every block closes. -/
def finish (s : Scan) : List Token :=
  (if s.busy then [s.mark .newline] else []) ++
    List.replicate s.blocks.length (s.mark .dedent) ++ [s.mark .eof]

/-! ### Every step brings the end nearer -/

/-- What a step makes smaller. -/
def weight (s : Scan) : Nat := 2 * s.rest.length + if s.fresh then 1 else 0

theorem nest_rest {s s' : Scan} {width : Nat} {ts : List Token}
    (h : s.nest width = .ok (ts, s')) : s'.rest = s.rest ∧ s'.fresh = s.fresh := by
  unfold nest at h
  dsimp only at h
  split at h
  · cases h; exact ⟨rfl, rfl⟩
  · split at h
    · cases h; exact ⟨rfl, rfl⟩
    · cases h

theorem measureLine_weight {s s' : Scan} {ts : List Token} (hfresh : s.fresh = true)
    (h : s.measureLine = .ok (ts, s')) : s'.weight < s.weight := by
  have hrest : s'.rest = s.rest.dropWhile isLeading ∧ s'.fresh = false := by
    unfold measureLine at h
    dsimp only at h
    split at h
    · cases h; exact ⟨rfl, rfl⟩
    · obtain ⟨h1, h2⟩ := nest_rest h
      exact ⟨h1, h2⟩
  have hlen : (s.rest.dropWhile isLeading).length ≤ s.rest.length :=
    (List.dropWhile_suffix isLeading).length_le
  simp only [weight, hrest.1, hrest.2, hfresh, if_true, Bool.false_eq_true, if_false]
  omega

theorem takeLexeme_rest {s s' : Scan} {ts : List Token} (h : s.takeLexeme = .ok (ts, s')) :
    s'.rest.length < s.rest.length := by
  unfold takeLexeme at h
  split at h
  · cases h
  next form text rest hread =>
    have hlen : rest.length < s.rest.length := Lexeme.read_length hread
    split at h
    · cases h; exact hlen
    · cases h; exact hlen
    · cases h; exact hlen
    · unfold emitLiteral at h
      split at h
      · split at h
        · cases h; exact hlen
        · cases h
      · cases h
    · cases h; exact hlen

theorem step_weight {s s' : Scan} {ts : List Token} (h : s.step = .ok (ts, s')) :
    s'.weight < s.weight := by
  unfold step at h
  split at h
  next hs => exact measureLine_weight hs.1 h
  next =>
    have hlen := takeLexeme_rest h
    have hnew : (if s'.fresh = true then 1 else 0) ≤ 1 := by split <;> omega
    unfold weight
    omega

/-- The tokens of the rest of the text. -/
def tokens (s : Scan) : Except Diagnostic (List Token) :=
  match s.rest with
  | [] => .ok s.finish
  | _ :: _ =>
    match _hstep : s.step with
    | .error d => .error d
    | .ok (ts, s') =>
      match s'.tokens with
      | .error d => .error d
      | .ok more => .ok (ts ++ more)
termination_by s.weight
decreasing_by exact step_weight (by assumption)

end Scan

/-- The tokens of a source text. -/
def ofSource (source : String) : Except Diagnostic (List Token) :=
  (Scan.start source.toList).tokens

end Offside.Token
