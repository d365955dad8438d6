/-
  Offside/Proofs/Token/Stream.lean
  ================================
  **The shape of a token stream.**  Logical lines end with a newline and are not empty;
  blocks open and close between lines only; every block that opens is closed, and none
  closes that was not open; and inside parentheses there is no layout at all
  (`ofSource_shape`).

  All of this is in a machine that takes one kind at a time and knows how many blocks and
  parentheses are open and whether the line has a token yet (`Stream`).  The scan moves as
  the machine does (`Scan.Streams`), and the rest is about the words that the machine takes.
  Only at the end of the text the scan does what the machine does not: there the line ends
  and the blocks close, whether the parentheses are closed or not.
-/
import Mathlib.Computability.Language
import Offside.Proofs.Token.Move

namespace Offside.Token

open scoped Computability

/-! ### Shapes -/

/-- The words of one kind in `p`. -/
def kindIn (p : Kind → Bool) : Language Kind := {w | ∃ k, p k = true ∧ w = [k]}

/-- A block that opens or closes. -/
def blockMark : Language Kind := kindIn Kind.isBlockMark

/-- The kinds of the tokens of a line. -/
def content : Language Kind := kindIn fun k => !k.isLayout

/-- At least one token, the end of the line, and the blocks that open and close behind it. -/
def logicalLine : Language Kind := content * content∗ * kindIn (· = .newline) * blockMark∗

def streamShape : Language Kind := blockMark∗ * logicalLine∗ * kindIn (· = .eof)

/-- How many parentheses are open behind tokens of the given kinds, with so many open in
    front of them.  One that closes without having been opened does not count. -/
def depthFrom : Nat → List Kind → Nat
  | depth, [] => depth
  | depth, .openParen :: ks => depthFrom (depth + 1) ks
  | depth, .closeParen :: ks => depthFrom (depth - 1) ks
  | depth, _ :: ks => depthFrom depth ks

def depthOf (ks : List Kind) : Nat := depthFrom 0 ks

/-- No layout stands inside parentheses. -/
def JoinsLines (ks : List Kind) : Prop :=
  ∀ us k vs, ks = us ++ k :: vs → k ∈ [Kind.newline, .indent, .dedent] → depthOf us = 0

theorem singleton_mem_kindIn {p : Kind → Bool} {k : Kind} (h : p k = true) : [k] ∈ kindIn p :=
  ⟨k, h, rfl⟩

theorem replicate_dedent_mem (n : Nat) : List.replicate n Kind.dedent ∈ blockMark∗ := by
  induction n with
  | zero => exact Language.nil_mem_kstar _
  | succ n ih =>
    have hmark : [Kind.dedent] ∈ blockMark := singleton_mem_kindIn (by decide)
    have hle : blockMark * blockMark∗ ≤ blockMark∗ := mul_kstar_le_kstar
    exact hle (Language.append_mem_mul hmark ih)

/-- Blocks that open and close behind lines belong to the last of them. -/
theorem lines_mul_blockMarks {ks : List Kind} (h : ks ∈ blockMark∗ * logicalLine∗ * blockMark∗) :
    ks ∈ blockMark∗ * logicalLine∗ := by
  have hmarks : blockMark∗ * blockMark∗ = blockMark∗ := kstar_mul_kstar _
  have habsorb : logicalLine * (blockMark∗ * logicalLine∗) ≤ blockMark∗ * logicalLine∗ := by
    calc logicalLine * (blockMark∗ * logicalLine∗)
        = content * content∗ * kindIn (· = .newline) * (blockMark∗ * blockMark∗) *
            logicalLine∗ := by simp only [logicalLine, mul_assoc]
      _ = logicalLine * logicalLine∗ := by rw [hmarks, logicalLine]
      _ ≤ 1 * logicalLine∗ := by
          rw [one_mul]
          exact mul_kstar_le_kstar
      _ ≤ blockMark∗ * logicalLine∗ := mul_le_mul_left one_le_kstar _
  have hmove : logicalLine∗ * blockMark∗ ≤ blockMark∗ * logicalLine∗ := by
    refine kstar_mul_le ?_ habsorb
    calc blockMark∗ = blockMark∗ * 1 := (mul_one _).symm
      _ ≤ blockMark∗ * logicalLine∗ := mul_le_mul_right one_le_kstar _
  have hle : blockMark∗ * logicalLine∗ * blockMark∗ ≤ blockMark∗ * logicalLine∗ :=
    calc blockMark∗ * logicalLine∗ * blockMark∗
        = blockMark∗ * (logicalLine∗ * blockMark∗) := mul_assoc _ _ _
      _ ≤ blockMark∗ * (blockMark∗ * logicalLine∗) := mul_le_mul_right hmove _
      _ = blockMark∗ * logicalLine∗ := by rw [← mul_assoc, hmarks]
  exact hle h

theorem lines_mul_line {ks : List Kind} (h : ks ∈ blockMark∗ * logicalLine∗ * logicalLine) :
    ks ∈ blockMark∗ * logicalLine∗ := by
  have hle : blockMark∗ * (logicalLine∗ * logicalLine) ≤ blockMark∗ * logicalLine∗ :=
    mul_le_mul_right kstar_mul_le_kstar _
  rw [mul_assoc] at h
  exact hle h

theorem content_of_ne_nil {line : List Kind} (h : line ∈ content∗) (hne : line ≠ []) :
    line ∈ content * content∗ := by
  rw [← Language.one_add_self_mul_kstar_eq_kstar, Language.mem_add, Language.mem_one] at h
  rcases h with hnil | hmem
  · exact absurd hnil hne
  · exact hmem

theorem line_mem {line marks : List Kind} (hline : line ∈ content * content∗)
    (hmarks : marks ∈ blockMark∗) : line ++ [Kind.newline] ++ marks ∈ logicalLine := by
  have hnewline : [Kind.newline] ∈ kindIn (· = .newline) := singleton_mem_kindIn (by decide)
  exact Language.append_mem_mul (Language.append_mem_mul hline hnewline) hmarks

theorem depthFrom_append (depth : Nat) (us vs : List Kind) :
    depthFrom depth (us ++ vs) = depthFrom (depthFrom depth us) vs := by
  fun_induction depthFrom depth us <;> simp_all [depthFrom]

/-- The scan counts parentheses one by one. -/
theorem depthFrom_singleton (depth : Nat) (k : Kind) :
    depthFrom depth [k] = Scan.depthAfter depth k := by
  cases k <;> rfl

/-- Layout leaves the parentheses as they are. -/
theorem depthFrom_layout {vs : List Kind} (h : ∀ k ∈ vs, k.isLayout = true) (depth : Nat) :
    depthFrom depth vs = depth := by
  induction vs with
  | nil => rfl
  | cons k vs ih =>
    have hk : depthFrom depth [k] = depth := by
      have hlayout := h k List.mem_cons_self
      simp only [Kind.isLayout, Bool.or_eq_true, decide_eq_true_eq] at hlayout
      rcases hlayout with ((rfl | rfl) | rfl) | rfl <;> rfl
    rw [← List.singleton_append, depthFrom_append, hk]
    exact ih fun k hk => h k (List.mem_cons_of_mem _ hk)

theorem depthOf_append {ks vs : List Kind} (h : ∀ k ∈ vs, k.isLayout = true) :
    depthOf (ks ++ vs) = depthOf ks := by
  rw [depthOf, depthFrom_append, depthFrom_layout h, depthOf]

theorem JoinsLines.append {ks vs : List Kind} (h : JoinsLines ks) (hdepth : depthOf ks = 0)
    (hvs : ∀ k ∈ vs, k.isLayout = true) : JoinsLines (ks ++ vs) := by
  intro us k ws heq hk
  rcases List.append_eq_append_iff.mp heq with ⟨between, rfl, rfl⟩ | ⟨between, rfl, hbetween⟩
  · rw [depthOf_append fun k hk => hvs k (List.mem_append_left _ hk)]
    exact hdepth
  · cases between with
    | nil => simpa using hdepth
    | cons k' between =>
      cases hbetween
      exact h us k between rfl hk

/-! ### The machine -/

/-- Tokens of the given kinds can be taken one by one and leave so many blocks and so many
    parentheses open, and the line with a token or without one. -/
inductive Stream : List Kind → Nat → Nat → Bool → Prop where
  | nil : Stream [] 0 0 false
  | indent {ks : List Kind} {blocks : Nat} (h : Stream ks blocks 0 false) :
      Stream (ks ++ [.indent]) (blocks + 1) 0 false
  | dedent {ks : List Kind} {blocks : Nat} (h : Stream ks (blocks + 1) 0 false) :
      Stream (ks ++ [.dedent]) blocks 0 false
  | newline {ks : List Kind} {blocks : Nat} (h : Stream ks blocks 0 true) :
      Stream (ks ++ [.newline]) blocks 0 false
  | token {ks : List Kind} {blocks depth : Nat} {busy : Bool} {k : Kind}
      (h : Stream ks blocks depth busy) (hk : k.isLayout = false) :
      Stream (ks ++ [k]) blocks (depthFrom depth [k]) true

namespace Stream

variable {ks : List Kind} {blocks depth : Nat} {busy : Bool}

theorem dedents {n : Nat} (h : Stream ks (blocks + n) 0 false) :
    Stream (ks ++ List.replicate n .dedent) blocks 0 false := by
  induction n generalizing ks with
  | zero => simpa using h
  | succ n ih =>
    have hnext := ih (Stream.dedent h)
    rwa [List.append_assoc, List.singleton_append, ← List.replicate_succ] at hnext

/-- Behind finished lines there are the tokens of the line in hand. -/
theorem exists_lines (h : Stream ks blocks depth busy) :
    ∃ done line, ks = done ++ line ∧ done ∈ blockMark∗ * logicalLine∗ ∧ line ∈ content∗ ∧
      (busy = true ↔ line ≠ []) := by
  have hmarks : ∀ {done : List Kind} {k : Kind}, done ∈ blockMark∗ * logicalLine∗ →
      (k = .indent ∨ k = .dedent) → done ++ [k] ∈ blockMark∗ * logicalLine∗ := by
    intro done k hdone hk
    have hmark : [k] ∈ blockMark := singleton_mem_kindIn (by simpa [Kind.isBlockMark] using hk)
    have hle : blockMark ≤ blockMark∗ := le_kstar
    exact lines_mul_blockMarks (Language.append_mem_mul hdone (hle hmark))
  induction h with
  | nil =>
    refine ⟨[], [], rfl, ?_, Language.nil_mem_kstar _, by simp⟩
    exact Language.append_mem_mul (Language.nil_mem_kstar _) (Language.nil_mem_kstar _)
  | indent _ ih =>
    obtain ⟨done, line, rfl, hdone, -, hbusy⟩ := ih
    obtain rfl : line = [] := by simpa using hbusy
    exact ⟨done ++ [.indent], [], by simp, hmarks hdone (.inl rfl), Language.nil_mem_kstar _,
      by simp⟩
  | dedent _ ih =>
    obtain ⟨done, line, rfl, hdone, -, hbusy⟩ := ih
    obtain rfl : line = [] := by simpa using hbusy
    exact ⟨done ++ [.dedent], [], by simp, hmarks hdone (.inr rfl), Language.nil_mem_kstar _,
      by simp⟩
  | newline _ ih =>
    obtain ⟨done, line, rfl, hdone, hline, hbusy⟩ := ih
    have hline' : line ∈ content * content∗ := content_of_ne_nil hline (hbusy.mp rfl)
    refine ⟨done ++ (line ++ [.newline] ++ []), [], by simp, ?_, Language.nil_mem_kstar _, by simp⟩
    have hlast := line_mem hline' (Language.nil_mem_kstar _)
    exact lines_mul_line (Language.append_mem_mul hdone hlast)
  | @token ks blocks depth busy k _ hk ih =>
    obtain ⟨done, line, rfl, hdone, hline, -⟩ := ih
    refine ⟨done, line ++ [k], by simp, hdone, ?_, by simp⟩
    have hmem : [k] ∈ content := singleton_mem_kindIn (by simp [hk])
    have hle : content∗ * content ≤ content∗ := kstar_mul_le_kstar
    exact hle (Language.append_mem_mul hline hmem)

/-- There are as many openings of blocks as closings and open blocks. -/
theorem count_indent (h : Stream ks blocks depth busy) :
    ks.count .indent = ks.count .dedent + blocks := by
  induction h with
  | nil => rfl
  | indent _ ih => simp [List.count_append, ih, Nat.add_assoc]
  | dedent _ ih =>
    simp only [List.count_append, ih, List.count_singleton]
    simp
    omega
  | newline _ ih => simp [List.count_append, ih]
  | @token ks blocks depth busy k _ hk ih =>
    have hindent : k ≠ .indent := by
      rintro rfl
      cases hk
    have hdedent : k ≠ .dedent := by
      rintro rfl
      cases hk
    simp [List.count_append, ih, hindent, hdedent]

theorem depthOf_eq (h : Stream ks blocks depth busy) : depthOf ks = depth := by
  induction h with
  | nil => rfl
  | indent _ ih | dedent _ ih | newline _ ih =>
    rw [depthOf, depthFrom_append, ← depthOf, ih]
    rfl
  | token _ _ ih => rw [depthOf, depthFrom_append, ← depthOf, ih]

/-- What the machine takes, it takes up to every point of it. -/
theorem upTo (h : Stream ks blocks depth busy) {us : List Kind} (hus : us <+: ks) :
    ∃ blocks depth busy, Stream us blocks depth busy := by
  induction h with
  | nil =>
    rw [List.prefix_nil.mp hus]
    exact ⟨0, 0, false, .nil⟩
  | indent h ih | dedent h ih | newline h ih =>
    rcases List.prefix_concat_iff.mp hus with rfl | hus
    · exact ⟨_, _, _, by constructor; exact h⟩
    · exact ih hus
  | token h hk ih =>
    rcases List.prefix_concat_iff.mp hus with rfl | hus
    · exact ⟨_, _, _, .token h hk⟩
    · exact ih hus

/-- Layout is taken outside of parentheses only. -/
theorem depth_of_layout {k : Kind} (h : Stream (ks ++ [k]) blocks depth busy)
    (hk : k.isLayout = true) : depthOf ks = 0 := by
  generalize hks : ks ++ [k] = ks' at h
  cases h with
  | nil => simp at hks
  | indent h | dedent h | newline h =>
    obtain ⟨rfl, -⟩ := List.append_inj' hks rfl
    exact h.depthOf_eq
  | token h hcontent =>
    obtain ⟨-, heq⟩ := List.append_inj' hks rfl
    obtain rfl := List.singleton_inj.mp heq
    rw [hk] at hcontent
    cases hcontent

theorem joinsLines (h : Stream ks blocks depth busy) : JoinsLines ks := by
  intro us k vs hks hk
  have hupTo : us ++ [k] <+: ks := ⟨vs, by rw [hks, List.append_assoc, List.singleton_append]⟩
  obtain ⟨_, _, _, hstream⟩ := h.upTo hupTo
  refine hstream.depth_of_layout ?_
  rcases List.mem_cons.mp hk with rfl | hk
  · rfl
  · simp at hk
    rcases hk with rfl | rfl <;> rfl

end Stream

/-! ### The scan -/

namespace Scan

variable {s s' : Scan} {ks : List Kind} {ts us : List Token}

/-- The machine has taken the kinds and is where the scan is.  A fresh line begins outside
    of parentheses and without a token. -/
structure Streams (ks : List Kind) (s : Scan) : Prop where
  stream : Stream ks s.blocks.length s.depth s.busy
  fresh : s.fresh = true → s.depth = 0 ∧ s.busy = false

theorem streams_start (text : List Char) : (start text).Streams [] :=
  ⟨.nil, fun _ => ⟨rfl, rfl⟩⟩

theorem Streams.nest (h : s.Streams ks) (hdepth : s.depth = 0) (hbusy : s.busy = false)
    {width : Nat} (hnest : s.nest width = .ok (ts, s')) :
    s'.Streams (ks ++ ts.map Token.kind) := by
  have hstream := h.stream
  rw [hdepth, hbusy] at hstream
  rcases nest_ok hnest with ⟨-, rfl, rfl⟩ | ⟨-, -, rfl, rfl⟩
  · refine ⟨?_, h.fresh⟩
    rw [hdepth, hbusy]
    exact .indent hstream
  · refine ⟨?_, h.fresh⟩
    have hsplit := congrArg List.length
      (List.takeWhile_append_dropWhile (p := (width < ·)) (l := s.blocks))
    rw [List.length_append, Nat.add_comm] at hsplit
    rw [← hsplit] at hstream
    rw [hdepth, hbusy, List.map_replicate]
    exact hstream.dedents

theorem Streams.endLine (h : s.Streams ks) (text rest : List Char) :
    (s.endLine text rest).2.Streams (ks ++ (s.endLine text rest).1.map Token.kind) := by
  have hstream := h.stream
  by_cases hdepth : s.depth = 0
  · refine ⟨?_, fun _ => ⟨hdepth, by simp [Scan.endLine, hdepth]⟩⟩
    cases hbusy : s.busy with
    | true =>
      rw [hdepth, hbusy] at hstream
      simpa [Scan.endLine, past, token, hdepth, hbusy] using Stream.newline hstream
    | false =>
      rw [hdepth, hbusy] at hstream
      simpa [Scan.endLine, past, hdepth, hbusy] using hstream
  · refine ⟨?_, fun hfresh => absurd (of_decide_eq_true hfresh) hdepth⟩
    simpa [Scan.endLine, past, hdepth] using hstream

theorem Streams.step (h : s.Streams ks) (hstep : s.step = .ok (ts, s')) :
    s'.Streams (ks ++ ts.map Token.kind) := by
  have hmove := s.step_move
  rw [hstep] at hmove
  cases hmove with
  | blank hline =>
    rw [List.map_nil, List.append_nil]
    exact ⟨h.stream, fun hfresh => by cases hfresh⟩
  | measured hline _ hnest =>
    obtain ⟨hdepth, hbusy⟩ := h.fresh hline.1
    have hafter : s.afterLeading.Streams ks := ⟨h.stream, fun hfresh => by cases hfresh⟩
    exact hafter.nest hdepth hbusy hnest
  | skipped =>
    rw [List.map_nil, List.append_nil]
    exact ⟨h.stream, h.fresh⟩
  | ended => exact h.endLine _ _
  | emitted value hline hread hsound hkind =>
    have hstream := h.stream.token (Lexeme.read_not_layout hread hkind)
    rw [depthFrom_singleton] at hstream
    refine ⟨hstream, fun hfresh => ?_⟩
    exact absurd ⟨hfresh, (h.fresh hfresh).1⟩ hline

theorem Streams.runs (h : s.Streams ks) (hruns : s.Runs ts s') :
    s'.Streams (ks ++ ts.map Token.kind) := by
  induction hruns generalizing ks with
  | refl => simpa using h
  | step _ hstep _ ih => simpa using ih (h.step hstep)

/-- The end of the text ends the line and closes the blocks. -/
theorem finish_kinds (s : Scan) :
    s.finish.map Token.kind =
      (if s.busy then [Kind.newline] else []) ++ List.replicate s.blocks.length .dedent ++
        [.eof] := by
  cases hbusy : s.busy <;> simp [finish, hbusy, mark]

theorem Streams.shape (h : s.Streams ks) : ks ++ s.finish.map Token.kind ∈ streamShape := by
  obtain ⟨done, line, rfl, hdone, hline, hbusy⟩ := h.stream.exists_lines
  have heof : [Kind.eof] ∈ kindIn (· = .eof) := singleton_mem_kindIn (by decide)
  have hmarks := replicate_dedent_mem s.blocks.length
  rw [finish_kinds, ← List.append_assoc]
  refine Language.append_mem_mul ?_ heof
  cases hs : s.busy with
  | true =>
    have hmem := line_mem (content_of_ne_nil hline (hbusy.mp hs)) hmarks
    have hlines := lines_mul_line (Language.append_mem_mul hdone hmem)
    rw [← List.append_assoc, ← List.append_assoc] at hlines
    rwa [if_pos rfl, ← List.append_assoc]
  | false =>
    obtain rfl : line = [] := by simpa [hs] using hbusy
    have hlines := lines_mul_blockMarks (Language.append_mem_mul hdone hmarks)
    rwa [if_neg Bool.false_ne_true, List.append_nil, List.nil_append]

theorem Streams.balanced (h : s.Streams ks) :
    (ks ++ s.finish.map Token.kind).count .indent =
      (ks ++ s.finish.map Token.kind).count .dedent := by
  rw [finish_kinds]
  cases s.busy <;> simp [h.stream.count_indent, List.count_replicate]

/-- No block closes that was not open. -/
theorem Streams.count_dedent_le (h : s.Streams ks) {us : List Kind}
    (hus : us <+: ks ++ s.finish.map Token.kind) : us.count .dedent ≤ us.count .indent := by
  rcases List.prefix_or_prefix_of_prefix hus (List.prefix_append ks _) with hus | ⟨vs, rfl⟩
  · obtain ⟨_, _, _, hstream⟩ := h.stream.upTo hus
    have := hstream.count_indent
    omega
  · have hvs : vs <+: s.finish.map Token.kind := (List.prefix_append_right_inj ks).mp hus
    have hle : vs.count .dedent ≤ s.blocks.length := by
      refine (hvs.sublist.count_le _).trans ?_
      rw [finish_kinds]
      cases s.busy <;> simp
    have := h.stream.count_indent
    rw [List.count_append, List.count_append]
    omega

theorem finish_isLayout (s : Scan) : ∀ k ∈ s.finish.map Token.kind, k.isLayout = true := by
  intro k hk
  obtain ⟨t, ht, rfl⟩ := List.mem_map.mp hk
  obtain ⟨kind, hlayout, rfl⟩ := mem_finish ht
  exact hlayout

end Scan

/-- The shape of the stream, the balance of its blocks, and how parentheses join lines.  Only
    what the end of the text adds can stand inside parentheses, and only if one is left open. -/
theorem ofSource_shape {source : String} {ts : List Token} (h : ofSource source = .ok ts) :
    ts.map Token.kind ∈ streamShape ∧
    (∀ us, us <+: ts.map Token.kind → us.count .dedent ≤ us.count .indent) ∧
    (ts.map Token.kind).count .indent = (ts.map Token.kind).count .dedent ∧
    ∃ body last, (Scan.start source.toList).Runs body last ∧ last.rest = [] ∧
      ts = body ++ last.finish ∧ JoinsLines (body.map Token.kind) ∧
      (depthOf (body.map Token.kind) = 0 → JoinsLines (ts.map Token.kind)) := by
  obtain ⟨body, last, hruns, hrest, rfl⟩ := Scan.exists_runs h
  have hstreams := (Scan.streams_start source.toList).runs hruns
  rw [List.nil_append] at hstreams
  rw [List.map_append]
  refine ⟨hstreams.shape, fun us => hstreams.count_dedent_le, hstreams.balanced, body, last, hruns,
    hrest, rfl, hstreams.stream.joinsLines, ?_⟩
  intro hdepth
  exact hstreams.stream.joinsLines.append hdepth last.finish_isLayout

/-- A comment, lines joined by parentheses in parentheses and by a mark, one closing
    parenthesis too many and, at the end, one too few. -/
def unevenSource : String := "\n  # a\nif ((a\n )\n  b):\n\tx\\\n\n\n\ty)\nz (\n  1"

theorem ofSource_unevenSource : ∃ ts, ofSource unevenSource = .ok ts ∧
    ts.map Token.kind =
      [.ifWord, .openParen, .openParen, .identifier, .closeParen, .identifier, .closeParen,
        .colon, .newline, .indent, .identifier, .newline, .identifier, .closeParen, .newline,
        .dedent, .identifier, .openParen, .integer, .newline, .eof] ∧
    ts.map Token.kind ∈ streamShape ∧
    ∃ body last, (Scan.start unevenSource.toList).Runs body last ∧ last.rest = [] ∧
      ts = body ++ last.finish ∧ JoinsLines (body.map Token.kind) := by
  have hkinds : (ofSource unevenSource).toOption.map (List.map Token.kind) =
      some [.ifWord, .openParen, .openParen, .identifier, .closeParen, .identifier, .closeParen,
        .colon, .newline, .indent, .identifier, .newline, .identifier, .closeParen, .newline,
        .dedent, .identifier, .openParen, .integer, .newline, .eof] := by decide +kernel
  cases hsource : ofSource unevenSource with
  | error d =>
    rw [hsource] at hkinds
    cases hkinds
  | ok ts =>
    rw [hsource] at hkinds
    obtain ⟨hshape, -, -, body, last, hruns, hrest, hts, hjoins, -⟩ := ofSource_shape hsource
    exact ⟨ts, rfl, Option.some.inj hkinds, hshape, body, last, hruns, hrest, hts, hjoins⟩

end Offside.Token
