/-
  Offside/Proofs/Token/Escapes.lean
  =================================
  **A literal is read back as what it was written for.**  Between quotes a character stands
  for itself, or is written by a backslash and a letter, or by the two digits of its code
  (`Escapes`).  A backslash, a line feed and the quote itself never stand for themselves.

  Two readers go over a body that is written so.  One looks for its end, by quotes and
  backslashes alone, and the other decodes it.  Both take the text of one character at a
  time, whatever text is behind it (`Escapes.quotedBody_append`,
  `Escapes.decodeEscapes_append`), and so they agree on every mixture.  In particular a
  character behind the two digits of a code is never taken for a third one.

  Wherever the scan of a text comes to a literal, it makes one token of it if there is one
  character between the quotes, and refuses it otherwise (`ofSource_literal`).
-/
import Mathlib.Data.List.Forall2
import Offside.Proofs.Token.Located

namespace Offside.Token

/-! ### Writing a character -/

/-- The characters that a backslash and a letter stand for. -/
def namedEscapes : List (Char × Char) :=
  [('n', '\n'), ('t', '\t'), ('r', '\r'), ('0', '\x00'), ('\\', '\\'), ('\'', '\''), ('"', '"')]

/-- The hexadecimal digit for a number, in either case. -/
def HexDigitFor (d : Char) (n : Nat) : Prop :=
  n < 16 ∧ (d = Nat.digitChar n ∨ d = (Nat.digitChar n).toUpper)

/-- The texts that can be written for a character between two quotes. -/
inductive Escapes (quote : Char) : Char → List Char → Prop where
  | itself {c : Char} (h : c ∉ [quote, '\\', '\n']) : Escapes quote c [c]
  | named {d c : Char} (h : (d, c) ∈ namedEscapes) : Escapes quote c ['\\', d]
  | code {c high low : Char} {m n : Nat} (hhigh : HexDigitFor high m) (hlow : HexDigitFor low n)
      (h : c.toNat = 16 * m + n) : Escapes quote c ['\\', 'x', high, low]

/-- The literal with the texts of its characters. -/
def literalText (quote : Char) (parts : List (List Char)) : List Char :=
  quote :: (parts.flatten ++ [quote])

theorem HexDigitFor.hexDigit? {d : Char} {n : Nat} (h : HexDigitFor d n) :
    Number.hexDigit? d = some n := by
  have hall : ((List.range 16).all fun k =>
      Number.hexDigit? (Nat.digitChar k) == some k &&
        Number.hexDigit? (Nat.digitChar k).toUpper == some k) = true := by decide
  have hn := List.all_eq_true.mp hall n (List.mem_range.mpr h.1)
  rw [Bool.and_eq_true, beq_iff_eq, beq_iff_eq] at hn
  rcases h.2 with rfl | rfl
  · exact hn.1
  · exact hn.2

/-- A digit is not one of the characters that mean something in a literal. -/
theorem HexDigitFor.plain {d : Char} {n : Nat} (h : HexDigitFor d n) {quote : Char}
    (hquote : quote ∈ ['\'', '"']) : d ∉ [quote, '\\', '\n'] := by
  intro hd
  have hmem : d ∈ ['\'', '"', '\\', '\n'] := by
    simp only [List.mem_cons, List.not_mem_nil, or_false] at hquote hd ⊢
    rcases hquote with rfl | rfl <;> rcases hd with rfl | rfl | rfl <;> simp
  have hdigit := h.hexDigit?
  simp only [List.mem_cons, List.not_mem_nil, or_false] at hmem
  rcases hmem with rfl | rfl | rfl | rfl <;> cases hdigit

/-! ### Reading it back -/

theorem quotedBody_plain {quote c : Char} (h : c ∉ [quote, '\\', '\n']) (cs : List Char) :
    quotedBody quote (c :: cs) = (c :: (quotedBody quote cs).1, (quotedBody quote cs).2) := by
  simp only [List.mem_cons, List.not_mem_nil, or_false] at h
  rw [quotedBody_cons fun hc => h (.inr (.inl hc)), if_neg h]

theorem quotedBody_backslash {quote d : Char} (hd : d ≠ '\n') (cs : List Char) :
    quotedBody quote ('\\' :: d :: cs) =
      ('\\' :: d :: (quotedBody quote cs).1, (quotedBody quote cs).2) := by
  rw [quotedBody, if_neg hd]

/-- A character that is not a backslash is decoded to itself. -/
theorem decodeEscapes_cons {c : Char} (hc : c ≠ '\\') (cs : List Char) :
    decodeEscapes (c :: cs) = (decodeEscapes cs).map (c :: ·) := by
  rw [decodeEscapes.eq_def]
  exact if_neg hc

section

variable {quote c : Char} {text : List Char}

/-- The body of a literal goes on behind the text of a character. -/
theorem Escapes.quotedBody_append (h : Escapes quote c text) (hquote : quote ∈ ['\'', '"'])
    (cs : List Char) :
    quotedBody quote (text ++ cs) =
      (text ++ (quotedBody quote cs).1, (quotedBody quote cs).2) := by
  cases h with
  | itself hc => exact quotedBody_plain hc cs
  | @named d _ hd =>
    have hne : d ≠ '\n' := by
      rintro rfl
      exact absurd hd (by simp [namedEscapes])
    exact quotedBody_backslash hne cs
  | code hhigh hlow _ =>
    simp only [List.cons_append, List.nil_append]
    rw [quotedBody_backslash (by decide), quotedBody_plain (hhigh.plain hquote),
      quotedBody_plain (hlow.plain hquote)]

theorem escaped?_of_mem {d : Char} (h : (d, c) ∈ namedEscapes) :
    d ≠ 'x' ∧ escaped? d = some c := by
  simp only [namedEscapes, List.mem_cons, List.not_mem_nil, or_false, Prod.mk.injEq] at h
  rcases h with ⟨rfl, rfl⟩ | ⟨rfl, rfl⟩ | ⟨rfl, rfl⟩ | ⟨rfl, rfl⟩ | ⟨rfl, rfl⟩ | ⟨rfl, rfl⟩ |
    ⟨rfl, rfl⟩ <;> exact ⟨by decide, rfl⟩

/-- The text of a character is decoded to the character. -/
theorem Escapes.decodeEscapes_append (h : Escapes quote c text) (cs : List Char) :
    decodeEscapes (text ++ cs) = (decodeEscapes cs).map (c :: ·) := by
  cases h with
  | itself hc =>
    have hne : c ≠ '\\' := by
      rintro rfl
      simp at hc
    rw [List.singleton_append, decodeEscapes_cons hne]
  | @named d _ hd =>
    obtain ⟨hx, hescaped⟩ := escaped?_of_mem hd
    simp only [List.cons_append, List.nil_append]
    rw [decodeEscapes.eq_4 _ _ _ (fun _ _ _ h => absurd h hx) (fun _ h => absurd h hx),
      if_pos rfl, hescaped]
  | code hhigh hlow hcode =>
    simp only [List.cons_append, List.nil_append]
    rw [decodeEscapes, if_pos rfl]
    simp only [hhigh.hexDigit?, hlow.hexDigit?, ← hcode, Char.ofNat_toNat]

end

section

variable {quote : Char} {b : List Char} {parts : List (List Char)}

/-- The body of a literal ends where it was written to end. -/
theorem quotedBody_flatten (h : List.Forall₂ (Escapes quote) b parts)
    (hquote : quote ∈ ['\'', '"']) (after : List Char) :
    quotedBody quote (parts.flatten ++ quote :: after) = (parts.flatten, quote :: after) := by
  induction h with
  | nil =>
    have hslash : quote ≠ '\\' := by
      rintro rfl
      exact absurd hquote (by decide)
    rw [List.flatten_nil, List.nil_append, quotedBody_cons hslash, if_pos (.inl rfl)]
  | cons hc _ ih => rw [List.flatten_cons, List.append_assoc, hc.quotedBody_append hquote, ih]

/-- The body of a literal is decoded to the characters it was written for. -/
theorem decodeEscapes_flatten (h : List.Forall₂ (Escapes quote) b parts) :
    decodeEscapes parts.flatten = some b := by
  induction h with
  | nil => rfl
  | cons hc _ ih => rw [List.flatten_cons, hc.decodeEscapes_append, ih, Option.map_some]

theorem read_literal (h : List.Forall₂ (Escapes quote) b parts) (hquote : quote ∈ ['\'', '"'])
    (after : List Char) :
    Lexeme.read (literalText quote parts ++ after) =
      some ⟨.quoted parts.flatten true, literalText quote parts, after⟩ := by
  have hliteral : Lexeme.literal quote (parts.flatten ++ quote :: after) =
      ⟨.quoted parts.flatten true, literalText quote parts, after⟩ := by
    simp only [Lexeme.literal, quotedBody_flatten h hquote, if_pos, literalText, List.cons_append]
  rw [literalText, List.cons_append, List.append_assoc, List.singleton_append, ← literalText,
    ← hliteral]
  simp only [List.mem_cons, List.not_mem_nil, or_false] at hquote
  rcases hquote with rfl | rfl <;> rfl

end

/-! ### Literals in a text -/

namespace Scan

variable {s : Scan} {quote : Char} {b : String} {parts : List (List Char)} {after : List Char}
  (hline : ¬ s.AtLine) (hquote : quote ∈ ['\'', '"'])
  (hparts : List.Forall₂ (Escapes quote) b.toList parts)
  (hrest : s.rest = literalText quote parts ++ after)

include hline hquote hparts hrest

theorem step_literal :
    s.step = s.emitLiteral parts.flatten true (literalText quote parts) after := by
  have htake : s.step = s.takeLexeme := if_neg hline
  rw [htake, takeLexeme, hrest, read_literal hparts hquote]

/-- A literal for one character becomes a token. -/
theorem step_literal_ok (hb : b.length = 1) :
    s.step = .ok (s.emit .char b.toList (literalText quote parts) after) := by
  obtain ⟨c, hc⟩ := List.length_eq_one_iff.mp (String.length_toList.trans hb)
  rw [step_literal hline hquote hparts hrest, emitLiteral, if_pos rfl, decodeChar?,
    decodeEscapes_flatten hparts, hc]

/-- A literal for no character or for several is refused. -/
theorem step_literal_error (hb : b.length ≠ 1) :
    s.step =
      .error (s.refuse (.invalidCharLiteral (String.ofList (literalText quote parts)))) := by
  have hnone : decodeChar? parts.flatten = none := by
    rw [decodeChar?, decodeEscapes_flatten hparts]
    split
    next c heq =>
      rw [← String.length_toList, Option.some.inj heq] at hb
      exact absurd rfl hb
    next => rfl
  rw [step_literal hline hquote hparts hrest, emitLiteral, if_pos rfl, hnone]

end Scan

/-- **A literal is read back.**  Its body is decoded to the characters that it was written for.
    Wherever the scan of a text comes to it and is not about to measure a line, it gives one token
    that spans it, with its character, or the text is refused there. -/
theorem ofSource_literal {quote : Char} (hquote : quote ∈ ['\'', '"']) {b : String}
    {parts : List (List Char)} (hparts : List.Forall₂ (Escapes quote) b.toList parts) :
    decodeEscapes parts.flatten = some b.toList ∧
    ∀ (source : String) (ts : List Token) (s : Scan) (after : List Char),
      (Scan.start source.toList).Runs ts s → ¬ s.AtLine →
      s.rest = literalText quote parts ++ after →
      ∃ before, source.toList = before ++ literalText quote parts ++ after ∧
        (b.length = 1 → ∃ t s', (Scan.start source.toList).Runs (ts ++ [t]) s' ∧ ¬ s'.AtLine ∧
          s'.rest = after ∧ t.kind = .char ∧ t.value = b ∧
          t.span = (Place.behind before).spanOf (Text.byteLength (literalText quote parts))) ∧
        (b.length ≠ 1 → ofSource source =
          .error ⟨.invalidCharLiteral (String.ofList (literalText quote parts)),
            (Place.behind before).position⟩) := by
  refine ⟨decodeEscapes_flatten hparts, ?_⟩
  intro source ts s after hruns hline hrest
  obtain ⟨before, hsource, hplace⟩ := hruns.reached (Scan.reached_start source.toList)
  have hne : s.rest ≠ [] := by
    rw [hrest, literalText]
    exact List.cons_ne_nil _ _
  refine ⟨before, by rw [← hsource, hrest, List.append_assoc], fun hb => ?_, fun hb => ?_⟩
  · have hstep := Scan.step_literal_ok hline hquote hparts hrest hb
    refine ⟨_, _, hruns.trans (.step hne hstep (.refl _)), hline, rfl, rfl, ?_, ?_⟩
    · exact String.ofList_toList
    · rw [← hplace]
      rfl
  · have hstep := Scan.step_literal_error hline hquote hparts hrest hb
    rw [ofSource, hruns.tokens, Scan.tokens_of_refused hne hstep, ← hplace]
    rfl

/-- A code, a digit that does not belong to it, both quotes and a backslash. -/
def mixedParts : List (List Char) :=
  [['\\', 'x', '4', 'a'], ['b'], ['\\', '\''], ['"'], ['\\', '\\']]

/-- The scan of a text that begins with a parenthesis, behind it. -/
def behindParen (rest : List Char) : Scan := ⟨rest, ⟨1, 1, 0⟩, [], 1, false, true⟩

theorem runs_behindParen (rest : List Char) :
    (Scan.start ('(' :: rest)).Runs [⟨.openParen, "(", ⟨⟨0, 1, 1⟩, ⟨1, 1, 2⟩⟩⟩]
      (behindParen rest) := by
  have hmeasure : (Scan.start ('(' :: rest)).step =
      .ok ([], ⟨'(' :: rest, Place.start, [], 0, false, false⟩) := rfl
  have hparen : (⟨'(' :: rest, Place.start, [], 0, false, false⟩ : Scan).step =
      .ok ([⟨.openParen, "(", ⟨⟨0, 1, 1⟩, ⟨1, 1, 2⟩⟩⟩], behindParen rest) := rfl
  exact .step (List.cons_ne_nil _ _) hmeasure (.step (List.cons_ne_nil _ _) hparen (.refl _))

theorem ofSource_mixedParts :
    List.Forall₂ (Escapes '\'') "Jb'\"\\".toList mixedParts ∧
    (∃ t s', (Scan.start "('\\x4A')".toList).Runs
        [⟨.openParen, "(", ⟨⟨0, 1, 1⟩, ⟨1, 1, 2⟩⟩⟩, t] s' ∧
      s'.rest = [')'] ∧ t.kind = .char ∧ t.value = "J") ∧
    ∃ before, "('\\x4ab\\'\"\\\\')".toList = before ++ literalText '\'' mixedParts ++ [')'] ∧
      ofSource "('\\x4ab\\'\"\\\\')" =
        .error ⟨.invalidCharLiteral "'\\x4ab\\'\"\\\\'", (Place.behind before).position⟩ := by
  have hj : List.Forall₂ (Escapes '\'') "J".toList [['\\', 'x', '4', 'A']] :=
    .cons (.code (m := 4) (n := 10) ⟨by decide, .inl rfl⟩ ⟨by decide, .inr rfl⟩ rfl) .nil
  have hmixed : List.Forall₂ (Escapes '\'') "Jb'\"\\".toList mixedParts :=
    .cons (.code (m := 4) (n := 10) ⟨by decide, .inl rfl⟩ ⟨by decide, .inl rfl⟩ rfl) <|
    .cons (.itself (by decide)) <| .cons (.named (by decide)) <| .cons (.itself (by decide)) <|
    .cons (.named (by decide)) .nil
  have hline (rest : List Char) : ¬ (behindParen rest).AtLine := fun h => Bool.false_ne_true h.1
  refine ⟨hmixed, ?_, ?_⟩
  · obtain ⟨_, -, hok, -⟩ := (ofSource_literal (by decide) hj).2 "('\\x4A')" _ _ [')']
      (runs_behindParen _) (hline _) rfl
    obtain ⟨t, s', hruns, -, hrest, hkind, hvalue, -⟩ := hok rfl
    exact ⟨t, s', hruns, hrest, hkind, hvalue⟩
  · obtain ⟨before, hsource, -, herror⟩ := (ofSource_literal (by decide) hmixed).2
      "('\\x4ab\\'\"\\\\')" _ _ [')'] (runs_behindParen _) (hline _) rfl
    exact ⟨before, hsource, herror (by decide)⟩

end Offside.Token
