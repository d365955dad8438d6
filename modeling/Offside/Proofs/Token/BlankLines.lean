/-
  Offside/Proofs/Token/BlankLines.lean
  ====================================
  **Blank lines are invisible.**  Wherever a fresh line begins outside of parentheses, a line
  of blanks, with or without a comment, may be put in: the tokens say the same as before, and
  a text that is refused is refused for the same cause (`ofSource_insert_blankLine`).

  The scan of the longer text goes through three parts.  Up to the new line it takes the same
  steps as before, since a step looks no further than its own line (`Runs.swap`).  It passes
  over the new line without a token and remembers nothing of it (`BlankLine.runs`).  From
  there on it has the same text to come as the other scan had, at another place.
-/
import Offside.Proofs.Token.Alike
import Offside.Proofs.Token.Located
import Offside.Proofs.Token.Lookahead

namespace Offside.Token

/-! ### Lines that are put in -/

/-- A line of blanks, perhaps a comment, and the end of the line. -/
def BlankLine (line : List Char) : Prop :=
  ∃ leading comment ending, line = leading ++ (comment ++ ending) ∧
    (∀ c ∈ leading, c ∈ [' ', '\t', '\x0c']) ∧
    (comment = [] ∨ ∃ body, comment = '#' :: body ∧ '\n' ∉ body) ∧
    ending ∈ [['\n'], ['\r', '\n']]

/-- The scan of `before ++ after` comes to a fresh line outside of parentheses behind
    `before`. -/
def FreshLineAt (before after : List Char) : Prop :=
  ∃ ts s, (Scan.start (before ++ after)).Runs ts s ∧ s.rest = after ∧ s.AtLine

/-- What the tokens of a scan say, or the cause of its refusal. -/
def spelled (x : Except Diagnostic (List Token)) : Except Cause (List Spelling) :=
  (x.map (·.map Token.spelling)).mapError Diagnostic.cause

theorem spelled_eq {P : Position → Position → Prop} {x y : Except Diagnostic (List Token)}
    (h : ResultAlike P (List.Forall₂ (Token.Alike P)) x y) : spelled x = spelled y := by
  cases h with
  | error why => exact congrArg Except.error why.cause
  | ok tokens =>
    refine congrArg Except.ok ?_
    induction tokens with
    | nil => rfl
    | cons ht _ ih => simp_all [Token.spelling, ht.kind, ht.value]

/-! ### Up to the new line -/

/-- The texts have the same lines up to where the one goes on with `rest` and the other with
    `rest'`. -/
inductive Swapped (rest rest' : List Char) : List Char → List Char → Prop where
  | here : Swapped rest rest' rest rest'
  | line {line text text' : List Char} (hline : '\n' ∉ line) (h : Swapped rest rest' text text') :
      Swapped rest rest' (line ++ '\n' :: text) (line ++ '\n' :: text')

section

variable {rest rest' text text' before : List Char}

theorem Swapped.length_le (h : Swapped rest rest' text text') : rest.length ≤ text.length := by
  induction h with
  | here => exact Nat.le_refl _
  | line _ _ ih =>
    simp only [List.length_append, List.length_cons]
    omega

theorem Swapped.eq_of_self (h : Swapped rest rest' rest text') : text' = rest' := by
  generalize htext : rest = text at h
  cases h with
  | here => rfl
  | @line line more more' _ hmore =>
    have hlength := hmore.length_le
    simp only [List.length_append, List.length_cons] at hlength
    omega

/-- A text that ends with a line feed is made up of lines. -/
theorem swapped_of_lineFeed (init rest rest' : List Char) :
    Swapped rest rest' (init ++ '\n' :: rest) (init ++ '\n' :: rest') := by
  induction hn : init.length using Nat.strongRecOn generalizing init with
  | ind n ih =>
    by_cases hfeed : '\n' ∈ init
    · obtain ⟨line, more, rfl, hline⟩ := List.eq_append_cons_of_mem hfeed
      have hmore : more.length < n := by
        simp only [List.length_append, List.length_cons] at hn
        omega
      have hswapped := Swapped.line hline (ih more.length hmore more rfl)
      simpa using hswapped
    · exact .line hfeed .here

/-- Where a line begins, the text before it is made up of lines. -/
theorem swapped_of_lineStart {before : List Char}
    (h : Text.lineStart before = Text.byteLength before) (rest rest' : List Char) :
    Swapped rest rest' (before ++ rest) (before ++ rest') := by
  have hline : before.rtakeWhile (· ≠ '\n') = [] := by
    by_contra hne
    have hpos := Text.byteLength_pos hne
    have hsplit := Text.byteLength_eq_lineStart_add before
    omega
  rcases before.eq_nil_or_concat with rfl | ⟨init, c, rfl⟩
  · exact .here
  · have hc := List.rtakeWhile_eq_nil_iff.mp hline (by simp)
    obtain rfl : c = '\n' := by simpa using hc
    rw [List.concat_eq_append, List.append_assoc, List.append_assoc]
    exact swapped_of_lineFeed init rest rest'

end

namespace Scan

variable {R : Place → Place → Prop} {P : Position → Position → Prop}
  {Q : List Char → List Char → Prop} {s s' t : Scan} {ts : List Token}

/-- Scans that remember the same take alike steps at the same line, whatever the lines behind
    it are. -/
theorem Alike.step_line (h : s.Alike R s') (hR : Carried R P) {line text text' : List Char}
    (hline : '\n' ∉ line) (hrest : s.rest = line ++ '\n' :: text)
    (hrest' : s'.rest = line ++ '\n' :: text') (hnext : Q text text')
    (hinside : ∀ part, '\n' ∉ part → Q (part ++ '\n' :: text) (part ++ '\n' :: text')) :
    StepAlike R P Q s.step s'.step := by
  by_cases hat : s.AtLine
  · rw [step_of_atLine hat, step_of_atLine (h.atLine.mp hat)]
    have hend : ∀ more, Lexeme.AtLineEnd ('\n' :: more) := Lexeme.atLineEnd_cons (by decide)
    refine h.measureLine_upTo_end hR hrest hrest' (hend _) (hend _) (hinside _ fun hmem => ?_)
    exact hline ((List.dropWhile_suffix _).subset hmem)
  · rw [step_of_not_atLine hat, step_of_not_atLine (fun hat' => hat (h.atLine.mpr hat'))]
    have hread := Lexeme.read_line hline text
    have hread' := Lexeme.read_line hline text'
    rw [← hrest] at hread
    rw [← hrest'] at hread'
    cases hform : Lexeme.endForm? line with
    | some form =>
      rw [hform] at hread hread'
      rw [takeLexeme_eq_stepOver hread, takeLexeme_eq_stepOver hread']
      exact h.stepOver hR rfl rfl hnext
    | none =>
      rw [hform] at hread hread'
      cases hlexeme : Lexeme.read line with
      | none =>
        rw [hlexeme] at hread hread'
        have hfirst : s.rest.take 1 = s'.rest.take 1 := by
          rw [hrest, hrest']
          cases line with
          | nil => cases hform
          | cons c cs => rfl
        rw [takeLexeme, takeLexeme, hread, hread', hfirst]
        exact .error (h.refuse hR _)
      | some l =>
        rw [hlexeme] at hread hread'
        rw [takeLexeme_eq_stepOver hread, takeLexeme_eq_stepOver hread']
        refine h.stepOver hR rfl rfl (hinside l.rest ?_)
        intro hmem
        apply hline
        rw [← (Lexeme.read_append hlexeme).1]
        exact List.mem_append_right _ hmem

theorem Runs.weight_le (h : s.Runs ts t) : t.weight ≤ s.weight := by
  induction h with
  | refl => exact Nat.le_refl _
  | step _ hstep _ ih => exact ih.trans (Nat.le_of_lt (step_weight hstep))

/-- A scan that comes to a fresh line comes there as well if other lines follow, and gives
    tokens that say the same. -/
theorem Runs.swap {rest' : List Char} (h : s.Runs ts t) (hfresh : t.fresh = true)
    (halike : s.Alike R s') (hR : Carried R P) (hrest : Swapped t.rest rest' s.rest s'.rest) :
    ∃ ts' t', s'.Runs ts' t' ∧ t.Alike R t' ∧ t'.rest = rest' ∧
      List.Forall₂ (Token.Alike P) ts ts' := by
  induction h generalizing s' with
  | refl t => exact ⟨[], s', .refl s', halike, hrest.eq_of_self, .nil⟩
  | @step s s₁ t us vs hne hstep hruns ih =>
    generalize htext : s.rest = text, htext' : s'.rest = text' at hrest
    cases hrest with
    | here =>
      -- no step comes back to the beginning of a line
      have hless := (hruns.weight_le).trans_lt (step_weight hstep)
      have hnew : (if s.fresh = true then 1 else 0) ≤ 1 := by split <;> decide
      rw [weight, weight, htext, hfresh, if_pos rfl] at hless
      omega
    | line hline hmore =>
      have hboth := halike.step_line hR hline htext htext' hmore fun part hpart => .line hpart hmore
      have hne' : s'.rest ≠ [] := by simp [htext']
      rw [hstep] at hboth
      generalize hstep' : s'.step = x at hboth
      cases hboth with
      | ok tokens next rest =>
        obtain ⟨ts', t', hruns', halike', hrest', htokens⟩ := ih hfresh next rest
        exact ⟨_, t', .step hne' hstep' hruns', halike', hrest', List.rel_append tokens htokens⟩

/-! ### The new line -/

section

variable (place : Place) (blocks : List Nat) {rest : List Char}

theorem step_leading {leading : List Char} (hleading : ∀ c ∈ leading, isLeading c = true)
    (hstop : StopsAt isLeading rest) (hempty : isEmptyLine rest = true) :
    step ⟨leading ++ rest, place, blocks, 0, true, false⟩ =
      .ok ([], ⟨rest, place.advance (Text.byteLength leading), blocks, 0, false, false⟩) := by
  have htake : (leading ++ rest).takeWhile isLeading = leading := by
    rw [takeWhile_append_stop hstop, List.takeWhile_eq_self_iff.mpr hleading]
  have hdrop : (leading ++ rest).dropWhile isLeading = rest := by
    rw [dropWhile_append_stop hstop, List.dropWhile_eq_nil_iff.mpr hleading, List.nil_append]
  rw [step_of_atLine ⟨rfl, rfl⟩, measureLine]
  simp only [afterLeading, past, htake, hdrop, hempty, if_true]

theorem step_comment {body : List Char} (hbody : '\n' ∉ body) :
    step ⟨'#' :: (body ++ '\n' :: rest), place, blocks, 0, false, false⟩ =
      .ok ([], ⟨'\n' :: rest, place.advance (Text.byteLength ('#' :: body)), blocks, 0, false,
        false⟩) := by
  have hall : ∀ c ∈ '#' :: body, decide (c ≠ '\n') = true := by
    intro c hc
    rw [decide_eq_true_eq]
    rintro rfl
    exact hbody (by simpa using hc)
  have hstop : StopsAt (· ≠ '\n') ('\n' :: rest) := stopsAt_cons (by decide)
  have hread : Lexeme.read ('#' :: (body ++ '\n' :: rest)) =
      some ⟨.gap, '#' :: body, '\n' :: rest⟩ := by
    change some (Lexeme.run .gap (· ≠ '\n') ('#' :: body ++ '\n' :: rest)) = _
    rw [Lexeme.run, takeWhile_append_stop hstop, dropWhile_append_stop hstop,
      List.takeWhile_eq_self_iff.mpr hall, List.dropWhile_eq_nil_iff.mpr hall, List.nil_append]
  rw [step_of_read (by simp [AtLine]) hread]
  rfl

theorem step_lineEnd {ending : List Char} (hending : ending ∈ [['\n'], ['\r', '\n']]) :
    step ⟨ending ++ rest, place, blocks, 0, false, false⟩ =
      .ok ([],
        ⟨rest, (place.advance (Text.byteLength ending)).newLine, blocks, 0, true, false⟩) := by
  simp only [List.mem_cons, List.not_mem_nil, or_false] at hending
  rcases hending with rfl | rfl <;> rfl

/-- A comment ends with its line, a carriage return before the end included. -/
theorem runs_comment {body ending : List Char} (hbody : '\n' ∉ body)
    (hending : ending ∈ [['\n'], ['\r', '\n']]) :
    ∃ place', Runs ⟨'#' :: (body ++ (ending ++ rest)), place, blocks, 0, false, false⟩ []
      ⟨rest, place', blocks, 0, true, false⟩ := by
  obtain ⟨body', hbody', htext⟩ : ∃ body', '\n' ∉ body' ∧
      body ++ (ending ++ rest) = body' ++ '\n' :: rest := by
    simp only [List.mem_cons, List.not_mem_nil, or_false] at hending
    rcases hending with rfl | rfl
    · exact ⟨body, hbody, rfl⟩
    · exact ⟨body ++ ['\r'], by simp [hbody], by simp⟩
  rw [htext]
  have hfeed : ['\n'] ∈ [['\n'], ['\r', '\n']] := by simp
  exact ⟨_, .step (by simp) (step_comment place blocks hbody')
    (.step (by simp) (step_lineEnd _ blocks hfeed) (.refl _))⟩

end

end Scan

/-- The scan passes over a blank line without a token and remembers nothing of it. -/
theorem BlankLine.runs {line : List Char} (h : BlankLine line) (place : Place)
    (blocks : List Nat) (rest : List Char) :
    ∃ place', Scan.Runs ⟨line ++ rest, place, blocks, 0, true, false⟩ []
      ⟨rest, place', blocks, 0, true, false⟩ := by
  obtain ⟨leading, comment, ending, rfl, hleading, hcomment, hending⟩ := h
  have hblank : ∀ c ∈ leading, Scan.isLeading c = true := by
    intro c hc
    simpa [Scan.isLeading, or_assoc] using hleading c hc
  rw [List.append_assoc, List.append_assoc]
  rcases hcomment with rfl | ⟨body, rfl, hbody⟩
  · have hends : StopsAt Scan.isLeading (ending ++ rest) ∧
        Scan.isEmptyLine (ending ++ rest) = true ∧ ending ≠ [] := by
      simp only [List.mem_cons, List.not_mem_nil, or_false] at hending
      rcases hending with rfl | rfl <;> exact ⟨stopsAt_cons (by decide), rfl, by simp⟩
    obtain ⟨hstop, hempty, hne⟩ := hends
    exact ⟨_, .step (by simp [hne]) (Scan.step_leading place blocks hblank hstop hempty)
      (.step (by simp [hne]) (Scan.step_lineEnd _ blocks hending) (.refl _))⟩
  · obtain ⟨place', hruns⟩ := Scan.runs_comment _ blocks hbody hending
    exact ⟨place', .step (by simp)
      (Scan.step_leading place blocks hblank (stopsAt_cons (by decide)) rfl) hruns⟩

/-! ### The whole text -/

/-- **Blank lines are invisible.**  A blank line that is put in where a fresh line begins changes
    neither what the tokens say nor why a text is refused. -/
theorem ofSource_insert_blankLine {source : String} {before line after : List Char}
    (hsource : source.toList = before ++ after) (hfresh : FreshLineAt before after)
    (hline : BlankLine line) :
    spelled (ofSource (String.ofList (before ++ (line ++ after)))) = spelled (ofSource source) := by
  obtain ⟨ts, s, hruns, rfl, hat⟩ := hfresh
  have hanywhere : Scan.Carried (fun _ _ => True) (fun _ _ => True) :=
    ⟨fun _ => trivial, fun _ _ => trivial, fun _ => trivial⟩
  have hstart : (Scan.start (before ++ s.rest)).Alike (fun _ _ => True)
      (Scan.start (before ++ (line ++ s.rest))) := ⟨trivial, rfl, rfl, rfl, rfl⟩
  obtain ⟨hdepth, hbusy, hlineStart⟩ := (Scan.settled_start _).runs hruns hat.1
  have hplace : s.place = Place.behind before :=
    (hruns.reached (Scan.reached_start (before ++ s.rest))).place_eq
  have hswapped : Swapped s.rest (line ++ s.rest) (before ++ s.rest)
      (before ++ (line ++ s.rest)) := by
    rw [hplace] at hlineStart
    exact swapped_of_lineStart hlineStart _ _
  obtain ⟨ts', s', hruns', halike, hrest', htokens⟩ := hruns.swap hat.1 hstart hanywhere hswapped
  obtain ⟨place, hpassed⟩ := hline.runs s'.place s'.blocks s.rest
  have hs' : s' = ⟨line ++ s.rest, s'.place, s'.blocks, 0, true, false⟩ := by
    rw [← hrest', ← hdepth, ← hat.1, ← hbusy, halike.depth, halike.fresh, halike.busy]
  have hbehind : s.Alike (fun _ _ => True) ⟨s.rest, place, s'.blocks, 0, true, false⟩ :=
    ⟨trivial, halike.blocks, hdepth, hat.1, hbusy⟩
  have hinserted : (Scan.start (before ++ (line ++ s.rest))).Runs (ts' ++ [])
      ⟨s.rest, place, s'.blocks, 0, true, false⟩ := hruns'.trans (hs' ▸ hpassed)
  rw [List.append_nil] at hinserted
  have hboth := hruns.resultAlike hinserted htokens (hbehind.tokens hanywhere rfl)
  rw [ofSource, ofSource, hsource, String.toList_ofList]
  exact (spelled_eq hboth).symm

/-- A call over two lines, behind which a fresh line begins. -/
def brokenCall : List Char := "a(\n)\n".toList

/-- A comment, wider than the line below it, that ends with a carriage return. -/
theorem ofSource_insert_comment :
    FreshLineAt brokenCall "  b\n".toList ∧ BlankLine "\t # ä\r\n".toList ∧
      (ofSource "a(\n)\n  b\n").isOk = true ∧
      spelled (ofSource (String.ofList (brokenCall ++ ("\t # ä\r\n".toList ++ "  b\n".toList)))) =
        spelled (ofSource "a(\n)\n  b\n") := by
  have hfresh : FreshLineAt brokenCall "  b\n".toList :=
    ⟨_, _, .step (by decide) rfl <| .step (by decide) rfl <| .step (by decide) rfl <|
      .step (by decide) rfl <| .step (by decide) rfl <| .step (by decide) rfl <| .refl _,
      rfl, rfl, rfl⟩
  have hline : BlankLine "\t # ä\r\n".toList :=
    ⟨['\t', ' '], ['#', ' ', 'ä'], ['\r', '\n'], rfl, by simp,
      .inr ⟨[' ', 'ä'], rfl, by decide⟩, by decide⟩
  exact ⟨hfresh, hline, by decide +kernel, ofSource_insert_blankLine (by decide) hfresh hline⟩

end Offside.Token
