/-
  Offside/Proofs/Token/Tiling.lean
  ================================
  **Nothing is lost and nothing is made up.**  The spans of the tokens follow one another
  through the text.  Under a span stands what its token says (`Says`): its own text, a quoted
  literal of its character, a line end, or nothing.  Between two spans, before the first and
  behind the last there is only `Filler`: blanks, comments, joints of lines and line ends
  (`ofSource_tiles`).

  `Tiled` says both at once of the text that is still to come.  A step of the scan puts a
  piece of text in front of what the later steps have tiled, so the whole text is tiled by
  induction from its end.
-/
import Offside.Proofs.Token.Escapes

namespace Offside

open Text (byteLength)

/-- The text has `part` between the two offsets, behind `before` and in front of `after`. -/
structure Text.CutAt (text before part after : List Char) (start stop : Nat) : Prop where
  whole : text = before ++ part ++ after
  start : start = byteLength before
  stop : stop = byteLength (before ++ part)

namespace Token

/-! ### What a text says -/

/-- The body of a literal between two quotes stands for the character. -/
inductive Denotes (quote : Char) : List Char → Char → Prop where
  | itself {c : Char} (h : c ∉ [quote, '\\', '\n']) : Denotes quote [c] c
  | named {d c : Char} (h : (d, c) ∈ namedEscapes) : Denotes quote ['\\', d] c
  | code {digits : List Char} {n : Nat} (hlength : digits.length ≤ 2)
      (h : Number.hexadecimal? digits = some n) :
      Denotes quote ('\\' :: 'x' :: digits) (Char.ofNat n)

/-- What stands under the span of a token. -/
def Says (t : Token) (part : List Char) : Prop :=
  match t.kind with
  | .indent | .dedent | .eof => part = []
  | .newline => part = [] ∨ part = ['\n'] ∨ part = ['\r', '\n']
  | .char => ∃ quote body c, quote ∈ ['\'', '"'] ∧ part = quote :: (body ++ [quote]) ∧
      Denotes quote body c ∧ t.value.toList = [c]
  | _ => t.value.toList = part

theorem says_of_plain {t : Token} {part : List Char} (hlayout : t.kind.isLayout = false)
    (hchar : t.kind ≠ .char) (h : t.value.toList = part) : t.Says part := by
  unfold Says
  split <;> simp_all [Kind.isLayout]

/-- What may stand between tokens, in front of the text `after`: blanks, comments up to the
    end of their line, joints of lines and line ends. -/
inductive Filler : List Char → List Char → Prop where
  | nil (after : List Char) : Filler [] after
  | blank {c : Char} {gap after : List Char} (hc : c ∈ [' ', '\t', '\r', '\x0c'])
      (h : Filler gap after) : Filler (c :: gap) after
  | comment {body gap after : List Char} (hbody : '\n' ∉ body)
      (hend : (gap ++ after).head? ∈ [none, some '\n']) (h : Filler gap after) :
      Filler ('#' :: (body ++ gap)) after
  | joint {gap after : List Char} (h : Filler gap after) : Filler ('\\' :: '\n' :: gap) after
  | jointReturn {gap after : List Char} (h : Filler gap after) :
      Filler ('\\' :: '\r' :: '\n' :: gap) after
  | lineFeed {gap after : List Char} (h : Filler gap after) : Filler ('\n' :: gap) after

theorem Filler.append {gap gap' after : List Char} (h : Filler gap (gap' ++ after))
    (h' : Filler gap' after) : Filler (gap ++ gap') after := by
  generalize hrest : gap' ++ after = rest at h
  induction h with
  | nil => exact h'
  | blank hc _ ih => exact .blank hc (ih hrest)
  | @comment body gap _ hbody hend _ ih =>
    subst hrest
    rw [List.cons_append, List.append_assoc]
    refine .comment hbody ?_ (ih rfl)
    rwa [List.append_assoc]
  | joint _ ih => exact .joint (ih hrest)
  | jointReturn _ ih => exact .jointReturn (ih hrest)
  | lineFeed _ ih => exact .lineFeed (ih hrest)

theorem filler_of_isGap {gap : List Char} (h : ∀ c ∈ gap, isGap c = true) (after : List Char) :
    Filler gap after := by
  induction gap with
  | nil => exact .nil after
  | cons c gap ih =>
    have hc : c ∈ [' ', '\t', '\r', '\x0c'] := by
      simpa [isGap, or_assoc] using h c List.mem_cons_self
    exact .blank hc (ih fun d hd => h d (List.mem_cons_of_mem c hd))

/-! ### Lexemes -/

/-- The body of a literal with one character in it. -/
theorem quotedBody_single {quote c : Char} {cs rest : List Char}
    (h : quotedBody quote cs = ([c], rest)) : c ∉ [quote, '\\', '\n'] := by
  unfold quotedBody at h
  split at h
  · split at h <;> simp at h
  next d ds _ =>
    split at h
    · cases h
    next hstop =>
      simp only [Prod.mk.injEq, List.cons.injEq] at h
      obtain ⟨⟨rfl, -⟩, -⟩ := h
      simpa using hstop
  · cases h

theorem mem_namedEscapes {d c : Char} (h : escaped? d = some c) : (d, c) ∈ namedEscapes := by
  unfold escaped? at h
  repeat' split at h
  all_goals simp_all [namedEscapes, eq_comm]

theorem decodeEscapes_eq_nil {cs : List Char} (h : decodeEscapes cs = some []) : cs = [] := by
  fun_cases decodeEscapes cs with
  | case1 => rfl
  | _ =>
    rw [decodeEscapes.eq_def] at h
    simp_all

theorem denotes_of_decodeEscapes {quote c : Char} {body : List Char}
    (hbody : ∀ d, body = [d] → d ∉ [quote, '\\', '\n']) (h : decodeEscapes body = some [c]) :
    Denotes quote body c := by
  fun_cases decodeEscapes body with
  | case1 => cases h
  | case2 a b more m n hb ha =>
    obtain ⟨hmore, rfl⟩ : decodeEscapes more = some [] ∧ Char.ofNat (16 * m + n) = c := by
      simpa [decodeEscapes, ha, hb] using h
    obtain rfl := decodeEscapes_eq_nil hmore
    exact .code (Nat.le_refl 2)
      (by simp [Number.hexadecimal?, Number.digitsFrom, ha, hb, Nat.mul_comm])
  | case3 a b more m hb ha =>
    have hmore : decodeEscapes (b :: more) = some [] := by
      simp [decodeEscapes, ha, hb] at h
      exact h.1
    cases decodeEscapes_eq_nil hmore
  | case4 a b more ha => simp [decodeEscapes, ha] at h
  | case5 a =>
    obtain ⟨m, hm, rfl⟩ : ∃ m, Number.hexDigit? a = some m ∧ Char.ofNat m = c := by
      simpa [decodeEscapes] using h
    exact .code (Nat.le_succ 1) (by simp [Number.hexadecimal?, Number.digitsFrom, hm])
  | case6 d more hpair hsingle e he =>
    obtain ⟨hmore, rfl⟩ : decodeEscapes more = some [] ∧ e = c := by
      rw [decodeEscapes.eq_def] at h
      simpa [he] using h
    obtain rfl := decodeEscapes_eq_nil hmore
    exact .named (mem_namedEscapes he)
  | case7 d more hpair hsingle he =>
    rw [decodeEscapes.eq_def] at h
    simp [he] at h
  | case8 => cases h
  | case9 d ds hd =>
    obtain ⟨hmore, rfl⟩ : decodeEscapes ds = some [] ∧ d = c := by
      rw [decodeEscapes.eq_def] at h
      simpa [hd] using h
    obtain rfl := decodeEscapes_eq_nil hmore
    exact .itself (hbody d rfl)

theorem denotes_of_decodeChar? {quote c : Char} {body cs rest : List Char}
    (hbody : quotedBody quote cs = (body, rest)) (h : decodeChar? body = some c) :
    Denotes quote body c := by
  refine denotes_of_decodeEscapes (fun d hd => quotedBody_single (hd ▸ hbody)) ?_
  unfold decodeChar? at h
  split at h
  next d hd =>
    cases h
    exact hd
  next => cases h

namespace Lexeme

/-- What the form of a lexeme says about its text and what follows it. -/
inductive Cut : Form → List Char → List Char → Prop where
  | joint (rest : List Char) : Cut .joint ['\\', '\n'] rest
  | jointReturn (rest : List Char) : Cut .joint ['\\', '\r', '\n'] rest
  | lineEnd (rest : List Char) : Cut .lineEnd ['\n'] rest
  | lineEndReturn (rest : List Char) : Cut .lineEnd ['\r', '\n'] rest
  | gap {text rest : List Char} (h : Filler text rest) : Cut .gap text rest
  | unclosed (body text rest : List Char) : Cut (.quoted body false) text rest
  | closed {quote : Char} {body cs rest rest' : List Char} (hquote : quote ∈ ['\'', '"'])
      (hbody : quotedBody quote cs = (body, rest')) :
      Cut (.quoted body true) (quote :: (body ++ [quote])) rest
  | plain {kind : Kind} (text rest : List Char) (hlayout : kind.isLayout = false)
      (hchar : kind ≠ .char) : Cut (.plain kind) text rest

theorem literal_cut {quote : Char} (hquote : quote ∈ ['\'', '"']) (cs : List Char) :
    Cut (literal quote cs).form (literal quote cs).text (literal quote cs).rest := by
  unfold literal
  generalize hbody : quotedBody quote cs = p
  obtain ⟨body, rest⟩ := p
  cases rest with
  | nil => exact .unclosed ..
  | cons c after =>
    dsimp only
    split
    · exact .closed hquote hbody
    · exact .unclosed ..

theorem ofWord_ne_char (word : String) : Kind.ofWord word ≠ .char := by
  intro h
  rcases ofWord_mem word with hword | hword
  · rw [h] at hword
    cases hword
  · rw [h] at hword
    simp [Kind.reserved] at hword

theorem numberText_ne_char (cs : List Char) : (numberText cs).1 ≠ .char := by
  rcases numberText_kind cs with hkind | hkind <;> rw [hkind] <;> decide

/-- A comment goes up to the end of its line. -/
theorem comment_filler (cs : List Char) :
    Filler (('#' :: cs).takeWhile (· ≠ '\n')) (('#' :: cs).dropWhile (· ≠ '\n')) := by
  have hbody : '\n' ∉ cs.takeWhile (· ≠ '\n') := fun hmem =>
    absurd (List.mem_takeWhile_imp hmem) (by decide)
  have hend : ([] ++ cs.dropWhile (· ≠ '\n')).head? ∈ [none, some '\n'] := by
    have hhead := List.head?_dropWhile_not (· ≠ '\n') cs
    rw [List.nil_append]
    cases hrest : (cs.dropWhile (· ≠ '\n')).head? with
    | none => simp
    | some c =>
      rw [hrest] at hhead
      simpa using hhead
  have hfiller := Filler.comment hbody hend (.nil _)
  rw [List.append_nil] at hfiller
  rw [List.takeWhile_cons_of_pos (by decide), List.dropWhile_cons_of_pos (by decide)]
  exact hfiller

theorem readBy_cut {c : Char} {cs : List Char} {l : Lexeme} (h : readBy c cs = some l) :
    Cut l.form l.text l.rest := by
  have hlayout := fun k => readBy_not_layout (k := k) h
  unfold readBy at h
  split at h
  · cases h
    exact .gap (filler_of_isGap (fun d hd => List.mem_takeWhile_imp hd) _)
  split at h
  next hc =>
    cases h
    subst hc
    exact .gap (comment_filler cs)
  split at h
  · cases h
    exact .plain _ _ (hlayout _ rfl) (ofWord_ne_char _)
  split at h
  · cases h
    exact .plain _ _ (hlayout _ rfl) (numberText_ne_char _)
  split at h
  next hquote =>
    cases h
    exact literal_cut (by simpa using hquote) cs
  next =>
    unfold sign? at h
    split at h <;> cases h <;> exact .plain _ _ rfl (by decide)

theorem read_cut {cs : List Char} {l : Lexeme} (h : read cs = some l) :
    Cut l.form l.text l.rest := by
  unfold read at h
  split at h
  · cases h
  · cases h
    exact .joint _
  · cases h
    exact .jointReturn _
  · cases h
    exact .lineEnd _
  · cases h
    exact .lineEndReturn _
  · exact readBy_cut h

end Lexeme

/-! ### Tiled text -/

/-- The tokens tile the text `rest` that comes behind `before`. -/
inductive Tiled : List Char → List Char → List Token → Prop where
  | done {before gap : List Char} (h : Filler gap []) : Tiled before gap []
  | token {before gap part rest : List Char} {t : Token} {ts : List Token}
      (hgap : Filler gap (part ++ rest))
      (hstart : t.span.start = (Place.behind (before ++ gap)).position)
      (hstop : t.span.stop.offset = byteLength (before ++ gap ++ part)) (hsaid : t.Says part)
      (h : Tiled (before ++ gap ++ part) rest ts) : Tiled before (gap ++ (part ++ rest)) (t :: ts)

namespace Tiled

variable {before gap part rest : List Char} {ts : List Token}

/-- More filler may stand in front. -/
theorem skip (h : Tiled (before ++ gap) rest ts) (hgap : Filler gap rest) :
    Tiled before (gap ++ rest) ts := by
  generalize hbefore : before ++ gap = before' at h
  cases h with
  | done h =>
    rw [← List.append_nil rest] at hgap
    exact .done (hgap.append h)
  | @token _ gap' part rest t ts hgap' hstart hstop hsaid h =>
    subst hbefore
    rw [← List.append_assoc]
    rw [List.append_assoc before] at hstart hstop h
    exact .token (hgap.append hgap') hstart hstop hsaid h

/-- A token stands at the front. -/
theorem here {s : Scan} {t : Token} (h : Tiled (before ++ part) rest ts)
    (hplace : s.place = Place.behind before) (hspan : t.span = s.place.spanOf (byteLength part))
    (hsaid : t.Says part) : Tiled before (part ++ rest) (t :: ts) := by
  have hstart : t.span.start = (Place.behind (before ++ [])).position := by
    rw [hspan, hplace, List.append_nil]
    rfl
  have hstop : t.span.stop.offset = byteLength (before ++ [] ++ part) := by
    rw [hspan, hplace, List.append_nil, Text.byteLength_append]
    rfl
  rw [← List.append_nil before] at h
  exact .token (.nil _) hstart hstop hsaid h

theorem mark {s : Scan} {kind : Kind} (h : Tiled before rest ts)
    (hplace : s.place = Place.behind before) (hkind : kind.isLayout = true) :
    Tiled before rest (s.mark kind :: ts) := by
  have hsaid : (s.mark kind).Says [] := by
    simp only [Kind.isLayout, Bool.or_eq_true, decide_eq_true_eq] at hkind
    rcases hkind with ((rfl | rfl) | rfl) | rfl <;> simp [Says, Scan.mark]
  rw [← List.append_nil before] at h
  exact h.here hplace rfl hsaid

theorem marks {s : Scan} {kind : Kind} (h : Tiled before rest ts)
    (hplace : s.place = Place.behind before) (hkind : kind.isLayout = true) (n : Nat) :
    Tiled before rest (List.replicate n (s.mark kind) ++ ts) := by
  induction n with
  | zero => exact h
  | succ n ih => exact ih.mark hplace hkind

end Tiled

/-! ### The scan -/

namespace Scan

variable {s s' : Scan} {before : List Char} {ts : List Token}

/-- The step leaves some text behind, and its tokens tile it. -/
def Tiles (before : List Char) (s : Scan) (ts : List Token) (s' : Scan) : Prop :=
  ∃ text, text ++ s'.rest = s.rest ∧
    ∀ more, Tiled (before ++ text) s'.rest more → Tiled before s.rest (ts ++ more)

theorem measureLine_tiles (hs : s.Reached (before ++ s.rest)) (h : s.measureLine = .ok (ts, s')) :
    s.Tiles before ts s' := by
  have hplace := hs.place_afterLeading
  have hleading : s.rest.takeWhile isLeading ++ s.rest.dropWhile isLeading = s.rest :=
    List.takeWhile_append_dropWhile
  have hblank : Filler (s.rest.takeWhile isLeading) (s.rest.dropWhile isLeading) := by
    refine filler_of_isGap (fun c hc => ?_) _
    have hc' := List.mem_takeWhile_imp hc
    simp only [isLeading, isGap, Bool.or_eq_true, decide_eq_true_eq] at hc' ⊢
    tauto
  unfold measureLine at h
  dsimp only at h
  split at h
  · cases h
    refine ⟨_, hleading, fun more hmore => ?_⟩
    rw [← hleading]
    exact hmore.skip hblank
  · rcases nest_ok h with ⟨-, rfl, rfl⟩ | ⟨-, -, rfl, rfl⟩
    · refine ⟨_, hleading, fun more hmore => ?_⟩
      rw [← hleading]
      exact (hmore.mark hplace rfl).skip hblank
    · refine ⟨_, hleading, fun more hmore => ?_⟩
      rw [← hleading]
      exact (hmore.marks hplace rfl _).skip hblank

theorem token_tiles (hplace : s.place = Place.behind before) {kind : Kind}
    {value text rest : List Char} (hrest : text ++ rest = s.rest)
    (hsaid : (s.token kind value text).Says text) (hs' : s'.rest = rest) :
    s.Tiles before [s.token kind value text] s' := by
  subst hs'
  refine ⟨text, hrest, fun more hmore => ?_⟩
  rw [← hrest]
  exact hmore.here hplace rfl hsaid

theorem filler_tiles {text rest : List Char} (hrest : text ++ rest = s.rest)
    (hfiller : Filler text rest) (hs' : s'.rest = rest) : s.Tiles before [] s' := by
  subst hs'
  refine ⟨text, hrest, fun more hmore => ?_⟩
  rw [← hrest]
  exact hmore.skip hfiller

theorem endLine_tiles (hplace : s.place = Place.behind before) {text rest : List Char}
    (hrest : text ++ rest = s.rest) (htext : text = ['\n'] ∨ text = ['\r', '\n']) :
    s.Tiles before (s.endLine text rest).1 (s.endLine text rest).2 := by
  unfold endLine
  dsimp only
  split
  · exact token_tiles hplace hrest (Or.inr htext) rfl
  · refine filler_tiles hrest ?_ rfl
    rcases htext with rfl | rfl
    · exact .lineFeed (.nil _)
    · exact .blank (by simp) (.lineFeed (.nil _))

theorem takeLexeme_tiles (hplace : s.place = Place.behind before)
    (h : s.takeLexeme = .ok (ts, s')) : s.Tiles before ts s' := by
  unfold takeLexeme at h
  split at h
  · cases h
  next form text rest hread =>
    have hrest : text ++ rest = s.rest := (Lexeme.read_append hread).1
    have hcut : Lexeme.Cut form text rest := Lexeme.read_cut hread
    cases hcut with
    | joint =>
      cases h
      exact filler_tiles hrest (.joint (.nil _)) rfl
    | jointReturn =>
      cases h
      exact filler_tiles hrest (.jointReturn (.nil _)) rfl
    | lineEnd =>
      cases h
      exact endLine_tiles hplace hrest (.inl rfl)
    | lineEndReturn =>
      cases h
      exact endLine_tiles hplace hrest (.inr rfl)
    | gap hfiller =>
      cases h
      exact filler_tiles hrest hfiller rfl
    | unclosed => cases h
    | @closed quote body cs _ _ hquote hbody =>
      change s.emitLiteral body true _ _ = _ at h
      rw [emitLiteral, if_pos rfl] at h
      cases hchar : decodeChar? body with
      | none =>
        rw [hchar] at h
        cases h
      | some c =>
        rw [hchar] at h
        cases h
        have hdenotes := denotes_of_decodeChar? hbody hchar
        exact token_tiles hplace hrest
          ⟨quote, body, c, hquote, rfl, hdenotes, String.toList_ofList⟩ rfl
    | @plain kind _ _ hlayout hchar =>
      cases h
      have hsaid : (s.token kind text text).Says text :=
        says_of_plain hlayout hchar String.toList_ofList
      exact token_tiles hplace hrest hsaid rfl

theorem step_tiles (hs : s.Reached (before ++ s.rest)) (h : s.step = .ok (ts, s')) :
    s.Tiles before ts s' := by
  unfold step at h
  split at h
  · exact measureLine_tiles hs h
  · exact takeLexeme_tiles hs.place_eq h

theorem finish_tiled (hplace : s.place = Place.behind before) : Tiled before [] s.finish := by
  have hend : Tiled before [] [s.mark .eof] := (Tiled.done (.nil _)).mark hplace rfl
  have hblocks : Tiled before []
      (List.replicate s.blocks.length (s.mark .dedent) ++ [s.mark .eof]) :=
    hend.marks hplace rfl _
  rw [finish, List.append_assoc]
  split
  · exact hblocks.mark hplace rfl
  · exact hblocks

theorem tokens_tiled (hs : s.Reached (before ++ s.rest)) (h : s.tokens = .ok ts) :
    Tiled before s.rest ts := by
  fun_induction Scan.tokens s generalizing before ts with
  | case1 s hrest =>
    cases h
    rw [hrest]
    exact finish_tiled hs.place_eq
  | case2 | case3 => cases h
  | case4 s c cs hrest us s' hstep more hmore ih =>
    cases h
    obtain ⟨text, htext, htiled⟩ := step_tiles hs hstep
    exact htiled more (ih (hs.next hstep htext) hmore)

end Scan

/-! ### Spans and gaps -/

/-- The stretches from `offset` to `length` that no span covers: before the first token,
    between two of them, and behind the last. -/
def gaps (length : Nat) : Nat → List Token → List (Nat × Nat)
  | offset, [] => [(offset, length)]
  | offset, t :: ts => (offset, t.span.start.offset) :: gaps length t.span.stop.offset ts

namespace Tiled

variable {before rest : List Char} {ts : List Token}

theorem cutAt (h : Tiled before rest ts) : ∀ t ∈ ts, ∃ before' part after,
    Text.CutAt (before ++ rest) before' part after t.span.start.offset t.span.stop.offset ∧
      t.span.start = (Place.behind before').position ∧ t.Says part := by
  induction h with
  | done => exact fun t ht => absurd ht List.not_mem_nil
  | @token before gap part rest t ts hgap hstart hstop hsaid _ ih =>
    intro u hu
    rcases List.mem_cons.mp hu with rfl | hu
    · refine ⟨before ++ gap, part, rest, ⟨?_, ?_, hstop⟩, hstart, hsaid⟩
      · simp only [List.append_assoc]
      · rw [hstart]
        rfl
    · have hmem := ih u hu
      simp only [List.append_assoc] at hmem ⊢
      exact hmem

theorem gap_filler (h : Tiled before rest ts) :
    ∀ g ∈ gaps (byteLength (before ++ rest)) (byteLength before) ts, ∃ before' gap after,
      Text.CutAt (before ++ rest) before' gap after g.1 g.2 ∧ Filler gap after := by
  induction h with
  | @done before gap h =>
    intro g hg
    rw [List.mem_singleton.mp hg]
    exact ⟨before, gap, [], ⟨(List.append_nil _).symm, rfl, rfl⟩, h⟩
  | @token before gap part rest t ts hgap hstart hstop hsaid _ ih =>
    intro g hg
    rcases List.mem_cons.mp hg with rfl | hg
    · refine ⟨before, gap, part ++ rest, ⟨?_, rfl, ?_⟩, hgap⟩
      · simp only [List.append_assoc]
      · rw [hstart]
        rfl
    · rw [← hstop] at ih
      simp only [List.append_assoc] at ih hg ⊢
      exact ih g hg

theorem le_start (h : Tiled before rest ts) :
    ∀ t ∈ ts, byteLength before ≤ t.span.start.offset := by
  induction h with
  | done => exact fun t ht => absurd ht List.not_mem_nil
  | @token before gap part rest t ts hgap hstart hstop hsaid _ ih =>
    intro u hu
    rcases List.mem_cons.mp hu with rfl | hu
    · have hoffset : u.span.start.offset = byteLength (before ++ gap) := by
        rw [hstart]
        rfl
      rw [hoffset, Text.byteLength_append]
      exact Nat.le_add_right _ _
    · have hle := ih u hu
      simp only [Text.byteLength_append] at hle
      omega

/-- The spans do not overlap. -/
theorem pairwise (h : Tiled before rest ts) :
    ts.Pairwise fun t u => t.span.stop.offset ≤ u.span.start.offset := by
  induction h with
  | done => exact .nil
  | @token before gap part rest t ts hgap hstart hstop hsaid h ih =>
    refine .cons (fun u hu => ?_) ih
    rw [hstop]
    exact h.le_start u hu

end Tiled

/-- **The tokens tile the text.**  Spans are in order and do not overlap.  Each starts where
    its position says, and its token says what stands under it.  What no span covers is
    filler. -/
theorem ofSource_tiles {source : String} {ts : List Token} (h : ofSource source = .ok ts) :
    (∀ t ∈ ts, t.span.start.offset ≤ t.span.stop.offset) ∧
    ts.Pairwise (fun t u => t.span.stop.offset ≤ u.span.start.offset) ∧
    (∀ t ∈ ts, ∃ before part after,
      Text.CutAt source.toList before part after t.span.start.offset t.span.stop.offset ∧
      t.span.start.line = 1 + before.count '\n' ∧
      t.span.start.column = byteLength (before.rtakeWhile (· ≠ '\n')) + 1 ∧ t.Says part) ∧
    ∀ g ∈ gaps (byteLength source.toList) 0 ts, ∃ before gap after,
      Text.CutAt source.toList before gap after g.1 g.2 ∧ Filler gap after := by
  have htiled : Tiled [] source.toList ts := Scan.tokens_tiled (Scan.reached_start _) h
  refine ⟨?_, htiled.pairwise, ?_, htiled.gap_filler⟩
  · intro t ht
    obtain ⟨before, part, after, hcut, -, -⟩ := htiled.cutAt t ht
    rw [hcut.start, hcut.stop, Text.byteLength_append]
    exact Nat.le_add_right _ _
  · intro t ht
    obtain ⟨before, part, after, hcut, hstart, hsaid⟩ := htiled.cutAt t ht
    refine ⟨before, part, after, hcut, ?_, ?_, hsaid⟩
    · rw [hstart]
      exact Nat.add_comm _ _
    · have hline := Text.byteLength_eq_lineStart_add before
      rw [hstart]
      change byteLength before - Text.lineStart before + 1 = _
      omega

/-- Characters of two and three bytes, in comments and in a literal, two kinds of line end, a
    joint, and an escape of one digit. -/
def mixedText : String := "\t# ä\nif 'ß' \\\n <= ord('\\x4'):\r\n  x = 0x1F # €\n"

theorem ofSource_mixedText : ∃ ts, ofSource mixedText = .ok ts ∧
    gaps 50 0 ts =
      [(0, 6), (8, 9), (13, 17), (19, 20), (23, 23), (24, 24), (29, 29), (30, 30), (31, 31),
        (33, 35), (35, 35), (36, 37), (38, 39), (43, 49), (50, 50), (50, 50), (50, 50)] ∧
    ts.Pairwise (fun t u => t.span.stop.offset ≤ u.span.start.offset) ∧
    (∀ t ∈ ts, ∃ before part after,
      Text.CutAt mixedText.toList before part after t.span.start.offset t.span.stop.offset ∧
      t.span.start.line = 1 + before.count '\n' ∧ t.Says part) ∧
    ∀ g ∈ gaps (byteLength mixedText.toList) 0 ts, ∃ before gap after,
      Text.CutAt mixedText.toList before gap after g.1 g.2 ∧ Filler gap after := by
  have hgaps : (ofSource mixedText).toOption.map (gaps 50 0) =
      some [(0, 6), (8, 9), (13, 17), (19, 20), (23, 23), (24, 24), (29, 29), (30, 30), (31, 31),
        (33, 35), (35, 35), (36, 37), (38, 39), (43, 49), (50, 50), (50, 50), (50, 50)] := by
    decide +kernel
  cases hsource : ofSource mixedText with
  | error d =>
    rw [hsource] at hgaps
    cases hgaps
  | ok ts =>
    rw [hsource] at hgaps
    obtain ⟨-, hpairwise, hcut, hfiller⟩ := ofSource_tiles hsource
    refine ⟨ts, rfl, Option.some.inj hgaps, hpairwise, fun t ht => ?_, hfiller⟩
    obtain ⟨before, part, after, hpart, hline, -, hsaid⟩ := hcut t ht
    exact ⟨before, part, after, hpart, hline, hsaid⟩

end Token
end Offside
