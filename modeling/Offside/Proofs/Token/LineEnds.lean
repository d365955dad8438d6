/-
  Offside/Proofs/Token/LineEnds.lean
  ==================================
  **Lines may end with a carriage return.**  A text in which every line feed gets a carriage
  return before it has the same tokens, at the same lines and columns (`ofSource_withReturns`).
  There is one exception.  A carriage return is a blank as well, and part of a comment.  So
  behind blanks or a comment it is taken with them, and the end of the line starts with the
  line feed, one column further to the right (`pushed`).

  The two scans go in lockstep (`Returned.step`).  They are level, except that behind blanks or
  a comment at the end of a line the second scan has a carriage return less ahead of it.
-/
import Offside.Proofs.Token.Alike
import Offside.Proofs.Token.Located
import Offside.Proofs.Token.Lookahead

namespace Offside.Token

/-! ### Lexemes before a carriage return -/

/-- A literal that is closed ends where it does, whatever follows. -/
theorem quotedBody_of_closed {quote : Char} (hquote : quote ≠ '\\') {cs body after : List Char}
    (h : quotedBody quote cs = (body, quote :: after)) (more : List Char) :
    quotedBody quote (cs ++ more) = (body, quote :: after ++ more) := by
  fun_induction quotedBody quote cs generalizing body with
  | case1 cs => exact absurd (List.cons.inj (Prod.mk.inj h).2).1.symm hquote
  | case2 c cs hc body' rest hbody ih =>
    obtain ⟨rfl, rfl⟩ := Prod.mk.inj h
    rw [List.cons_append, List.cons_append, quotedBody, if_neg hc, ih hbody]
  | case3 c cs hslash hstop =>
    obtain ⟨rfl, htail⟩ := Prod.mk.inj h
    obtain ⟨rfl, rfl⟩ := List.cons.inj htail
    rw [List.cons_append, quotedBody_cons hquote, if_pos hstop]
  | case4 c cs hslash hstop body' rest hbody ih =>
    obtain ⟨rfl, rfl⟩ := Prod.mk.inj h
    rw [List.cons_append, quotedBody_cons fun hc => hstop (.inr (.inl hc)), if_neg hstop,
      ih hbody]
  | case5 => cases h

/-- A literal that is not closed at the end of a line goes on over a carriage return. -/
theorem quotedBody_of_unclosed {quote : Char} {cs : List Char} (hquote : '\r' ≠ quote)
    (hline : '\n' ∉ cs) (h : ∀ after, (quotedBody quote cs).2 ≠ quote :: after) :
    (quotedBody quote (cs ++ ['\r'])).2 = [] := by
  fun_induction quotedBody quote cs with
  | case1 cs => simp at hline
  | case2 c cs hc body rest hbody ih =>
    rw [hbody] at ih
    rw [List.cons_append, List.cons_append, quotedBody, if_neg hc]
    exact ih (fun hmem => hline (by simp [hmem])) h
  | case3 c cs hslash hstop =>
    rcases hstop with rfl | rfl | rfl
    · exact absurd rfl (h cs)
    · -- a backslash at the end of the line escapes the carriage return
      cases cs with
      | nil => rfl
      | cons d ds => exact (hslash d ds rfl rfl).elim
    · simp at hline
  | case4 c cs hslash hstop body rest hbody ih =>
    rw [hbody] at ih
    rw [List.cons_append, quotedBody_cons fun hc => hstop (.inr (.inl hc)), if_neg hstop]
    exact ih (fun hmem => hline (by simp [hmem])) h
  | case5 =>
    rw [List.nil_append, quotedBody_cons (by decide), if_neg (by simp [hquote])]
    rfl

namespace Lexeme

/-- What is cut off at the head of a line, and of the line with a carriage return behind it. -/
inductive BeforeReturn (line : List Char) : Option Lexeme → Option Lexeme → Prop where
  | none : BeforeReturn line none none
  | inside {l : Lexeme} (h : l.form = .gap → l.rest ≠ []) :
      BeforeReturn line (some l) (some (l.before ['\r']))
  /-- Blanks and comments take the carriage return with them. -/
  | gap : BeforeReturn line (some ⟨.gap, line, []⟩) (some ⟨.gap, line ++ ['\r'], []⟩)
  | unclosed (body text rest body' text' rest' : List Char) :
      BeforeReturn line (some ⟨.quoted body false, text, rest⟩)
        (some ⟨.quoted body' false, text', rest'⟩)

theorem run_beforeReturn {p : Char → Bool} (hp : p '\r' = true) (line : List Char) :
    BeforeReturn line (some (run .gap p line)) (some (run .gap p (line ++ ['\r']))) := by
  by_cases hrest : line.dropWhile p = []
  · have hall : ∀ c ∈ line, p c = true := List.dropWhile_eq_nil_iff.mp hrest
    have hall' : ∀ c ∈ line ++ ['\r'], p c = true := by
      intro c hc
      rcases List.mem_append.mp hc with hc | hc
      · exact hall c hc
      · rwa [List.mem_singleton.mp hc]
    rw [run, run, hrest, List.takeWhile_eq_self_iff.mpr hall,
      List.takeWhile_eq_self_iff.mpr hall', List.dropWhile_eq_nil_iff.mpr hall']
    exact .gap
  · obtain ⟨htake, hdrop⟩ := takeWhile_append_of_rest hrest ['\r']
    rw [run, run, htake, hdrop]
    exact .inside fun _ => hrest

theorem literal_of_unclosed {quote : Char} {cs : List Char}
    (h : ∀ after, (quotedBody quote cs).2 ≠ quote :: after) :
    literal quote cs =
      ⟨.quoted (quotedBody quote cs).1 false, quote :: (quotedBody quote cs).1,
        (quotedBody quote cs).2⟩ := by
  unfold literal
  generalize quotedBody quote cs = p at h
  obtain ⟨body, rest⟩ := p
  cases rest with
  | nil => rfl
  | cons c after =>
    have hc : c ≠ quote := fun hc => h after (by rw [hc])
    simp [hc]

theorem literal_beforeReturn {quote : Char} (hslash : quote ≠ '\\') (hquote : '\r' ≠ quote)
    {cs : List Char} (hline : '\n' ∉ cs) (line : List Char) :
    BeforeReturn line (some (literal quote cs)) (some (literal quote (cs ++ ['\r']))) := by
  by_cases hclosed : ∃ after, (quotedBody quote cs).2 = quote :: after
  · obtain ⟨after, hafter⟩ := hclosed
    have hbody : quotedBody quote cs = ((quotedBody quote cs).1, quote :: after) := by
      rw [← hafter]
    rw [literal, literal, quotedBody_of_closed hslash hbody, hbody]
    simp only [List.cons_append, if_true]
    exact .inside (by simp)
  · have hopen : ∀ after, (quotedBody quote cs).2 ≠ quote :: after := fun after hafter =>
      hclosed ⟨after, hafter⟩
    have hend := quotedBody_of_unclosed hquote hline hopen
    rw [literal_of_unclosed hopen, literal_of_unclosed fun after => by simp [hend]]
    exact .unclosed ..

theorem readBy_beforeReturn {c : Char} {cs : List Char} (hfeed : '\n' ∉ c :: cs)
    (hreturn : '\r' ∉ c :: cs) :
    BeforeReturn (c :: cs) (readBy c cs) (readBy c (cs ++ ['\r'])) := by
  have hend : AtLineEnd ['\r'] := atLineEnd_cons (by decide) []
  unfold readBy
  rw [← List.cons_append, word_append_end hend, number_append_end hend,
    sign?_append_end hend (List.cons_ne_nil c cs)]
  split
  · exact run_beforeReturn (by decide) (c :: cs)
  split
  · exact run_beforeReturn (by decide) (c :: cs)
  split
  · exact .inside (by simp [word])
  split
  · exact .inside (by simp [number])
  split
  next hquote =>
    have hslash : c ≠ '\\' := by
      rintro rfl
      exact absurd hquote (by decide)
    have hc : '\r' ≠ c := by
      rintro rfl
      exact hreturn List.mem_cons_self
    exact literal_beforeReturn hslash hc (fun hmem => hfeed (List.mem_cons_of_mem c hmem)) _
  next =>
    cases hsign : sign? (c :: cs) with
    | none => exact .none
    | some l =>
      obtain ⟨-, kind, hform⟩ := sign?_lineFeed hsign
      exact .inside (by simp [hform])

/-- The head of a line that is more than its end, in front of a line feed and in front of a
    carriage return and a line feed. -/
theorem read_beforeReturn {line : List Char} (hfeed : '\n' ∉ line) (hreturn : '\r' ∉ line)
    (hempty : line ≠ []) (hslash : line ≠ ['\\']) (rest rest' : List Char) :
    BeforeReturn line (read line) (read (line ++ ['\r'])) ∧
      read (line ++ '\n' :: rest) = (read line).map (·.before ('\n' :: rest)) ∧
      read (line ++ '\r' :: '\n' :: rest') =
        (read (line ++ ['\r'])).map (·.before ('\n' :: rest')) := by
  have hform : endForm? line = none := by
    fun_cases endForm? line with
    | case5 => rfl
    | _ => simp_all
  have hform' : endForm? (line ++ ['\r']) = none := by
    unfold endForm?
    split <;> simp_all [List.append_eq_cons_iff]
  have hfeed' : '\n' ∉ line ++ ['\r'] := by simpa using hfeed
  refine ⟨?_, ?_, ?_⟩
  · obtain ⟨c, cs, rfl⟩ := List.exists_cons_of_ne_nil hempty
    rw [List.cons_append] at hfeed' ⊢
    rw [read_eq_readBy_of_line hfeed, read_eq_readBy_of_line hfeed']
    exact readBy_beforeReturn hfeed hreturn
  · rw [read_line hfeed, hform]
  · rw [List.append_cons, read_line hfeed', hform']

end Lexeme

/-! ### Texts -/

/-- The text with a carriage return before every line feed. -/
def withReturns (text : List Char) : List Char :=
  text.flatMap fun c => if c = '\n' then ['\r', '\n'] else [c]

theorem withReturns_of_line {line : List Char} (h : '\n' ∉ line) : withReturns line = line := by
  induction line with
  | nil => rfl
  | cons c cs ih =>
    have hc : c ≠ '\n' := fun hc => h (by simp [hc])
    have hcs : '\n' ∉ cs := fun hmem => h (List.mem_cons_of_mem c hmem)
    have ih := ih hcs
    simp_all [withReturns]

theorem withReturns_append_lineFeed {line : List Char} (h : '\n' ∉ line) (text : List Char) :
    withReturns (line ++ '\n' :: text) = line ++ '\r' :: '\n' :: withReturns text := by
  have hline := withReturns_of_line h
  simp_all [withReturns]

/-- A text is a line, or it goes on behind the line feed that ends its first line. -/
theorem line_or_more (text : List Char) : '\n' ∉ text ∨
    ∃ line more, text = line ++ '\n' :: more ∧ '\n' ∉ line := by
  by_cases h : '\n' ∈ text
  · exact .inr (List.eq_append_cons_of_mem h)
  · exact .inl h

/-! ### Places and tokens -/

/-- The places are on the same line, the second one `n` columns further to the right. -/
def Beside (n : Nat) (p p' : Place) : Prop :=
  p.line = p'.line ∧
    ∃ column, p.offset = p.lineStart + column ∧ p'.offset = p'.lineStart + column + n

/-- The positions are on the same line, the second one `n` columns further to the right. -/
def PositionBeside (n : Nat) (a b : Position) : Prop := a.line = b.line ∧ b.column = a.column + n

section

variable {p p' : Place} {n : Nat}

theorem Beside.position (h : Beside n p p') : PositionBeside n p.position p'.position := by
  obtain ⟨hline, column, hoffset, hoffset'⟩ := h
  refine ⟨hline, ?_⟩
  simp only [Place.position, Place.positionAt]
  omega

theorem Beside.advance (h : Beside 0 p p') (bytes more : Nat) :
    Beside more (p.advance bytes) (p'.advance (bytes + more)) := by
  obtain ⟨hline, column, hoffset, hoffset'⟩ := h
  refine ⟨hline, column + bytes, ?_, ?_⟩
  · simp only [Place.advance]
    omega
  · simp only [Place.advance]
    omega

theorem newLine_column (p : Place) : p.newLine.position.column = 1 := by
  simp [Place.newLine, Place.position, Place.positionAt]

/-- Lines begin level. -/
theorem beside_newLine (h : p.line = p'.line) : Beside 0 p.newLine p'.newLine :=
  ⟨congrArg (· + 1) h, 0, rfl, rfl⟩

theorem carried_beside : Scan.Carried (Beside 0) (PositionBeside 0) :=
  ⟨Beside.position, fun bytes h => h.advance bytes 0, fun h => beside_newLine h.1⟩

end

/-- How many columns a token moves to the right: the end of a line moves by one, if it stands
    behind blanks or a comment.  Then it does not start a line, and it does not start where the
    token before it stops. -/
def pushed (previous : Option Token) (t : Token) : Nat :=
  if t.kind = .newline ∧ t.value ≠ "" ∧ t.span.start.column ≠ 1 ∧
    previous.any (·.span.stop ≠ t.span.start) = true then 1 else 0

theorem pushed_eq_zero {previous : Option Token} {t : Token}
    (h : t.kind ≠ .newline ∨ t.value = "") : pushed previous t = 0 := by
  refine if_neg fun hpushed => ?_
  rcases h with h | h
  · exact h hpushed.1
  · exact hpushed.2.1 h

/-- The tokens say the same, and the second starts on the same line, as far to the right as it
    is pushed behind `previous`. -/
structure Moved (previous : Option Token) (t t' : Token) : Prop where
  kind : t.kind = t'.kind
  value : t.value = t'.value
  start : PositionBeside (pushed previous t) t.span.start t'.span.start

/-- All tokens say the same and are moved, each behind the one before it. -/
inductive AllMoved : Option Token → List Token → List Token → Prop where
  | nil (previous : Option Token) : AllMoved previous [] []
  | cons {previous : Option Token} {t t' : Token} {ts ts' : List Token} (h : Moved previous t t')
      (hs : AllMoved (some t) ts ts') : AllMoved previous (t :: ts) (t' :: ts')

/-- The last token, which is `previous` if there are none. -/
def lastOf (previous : Option Token) (ts : List Token) : Option Token := ts.getLast?.or previous

section

variable {previous : Option Token} {ts ts' us us' : List Token}

theorem lastOf_cons (t : Token) : lastOf previous (t :: ts) = lastOf (some t) ts := by
  cases ts with
  | nil => rfl
  | cons u us => simp [lastOf, List.getLast?_cons]

theorem mem_lastOf {p : Token} (h : p ∈ lastOf previous ts) : p ∈ ts ∨ p ∈ previous := by
  unfold lastOf at h
  cases hlast : ts.getLast? with
  | none =>
    rw [hlast] at h
    exact .inr h
  | some u =>
    rw [hlast] at h
    cases h
    exact .inl (List.mem_of_getLast? hlast)

theorem isSome_lastOf (h : previous.isSome = true ∨ ts ≠ []) :
    (lastOf previous ts).isSome = true := by
  unfold lastOf
  cases hlast : ts.getLast? with
  | none =>
    rcases h with h | h
    · exact h
    · exact absurd (List.getLast?_eq_none_iff.mp hlast) h
  | some u => rfl

theorem AllMoved.append (h : AllMoved previous ts ts') (h' : AllMoved (lastOf previous ts) us us') :
    AllMoved previous (ts ++ us) (ts' ++ us') := by
  induction h with
  | nil => exact h'
  | cons h _ ih =>
    rw [lastOf_cons] at h'
    exact .cons h (ih h')

theorem allMoved_of_alike (h : List.Forall₂ (Token.Alike (PositionBeside 0)) ts ts')
    (hkind : ∀ t ∈ ts, t.kind ≠ .newline ∨ t.value = "") : AllMoved previous ts ts' := by
  induction h generalizing previous with
  | nil => exact .nil _
  | @cons t t' _ _ ht _ ih =>
    refine .cons ⟨ht.kind, ht.value, ?_⟩ (ih fun u hu => hkind u (List.mem_cons_of_mem t hu))
    rw [pushed_eq_zero (hkind t List.mem_cons_self)]
    exact ht.span

theorem AllMoved.length_eq (h : AllMoved previous ts ts') : ts.length = ts'.length := by
  induction h with
  | nil => rfl
  | cons _ _ ih => exact congrArg (· + 1) ih

/-- The token before the one with the given index. -/
def tokenBefore (ts : List Token) : Nat → Option Token
  | 0 => none
  | i + 1 => ts[i]?

theorem AllMoved.getElem? (h : AllMoved previous ts ts') {i : Nat} {t t' : Token}
    (ht : ts[i]? = some t) (ht' : ts'[i]? = some t') :
    Moved (if i = 0 then previous else tokenBefore ts i) t t' := by
  induction h generalizing i with
  | nil => cases ht
  | cons h _ ih =>
    cases i with
    | zero =>
      cases ht
      cases ht'
      exact h
    | succ i =>
      have hnext := ih ht ht'
      cases i with
      | zero => exact hnext
      | succ i => exact hnext

theorem if_zero_tokenBefore (ts : List Token) (i : Nat) :
    (if i = 0 then none else tokenBefore ts i) = tokenBefore ts i := by
  cases i with
  | zero => rfl
  | succ i => rfl

end

/-! ### One scan -/

namespace Scan

variable {s s' t : Scan} {ts : List Token} {previous : Option Token}

/-- What is left after a step is the end of what was there. -/
theorem step_suffix (h : s.step = .ok (ts, t)) : t.rest <:+ s.rest := by
  have hmove := s.step_move
  rw [h] at hmove
  cases hmove with
  | blank => exact List.dropWhile_suffix _
  | measured _ _ hnest =>
    rw [(nest_rest hnest).1]
    exact List.dropWhile_suffix _
  | skipped _ hread | ended _ hread | emitted _ _ hread =>
    exact ⟨_, (Lexeme.read_append hread).1⟩

/-- The last token stops at the place reached or before it, and a line that is busy has one. -/
structure Trails (previous : Option Token) (s : Scan) : Prop where
  stop : ∀ p ∈ previous, p.span.stop.offset ≤ s.place.offset
  known : s.busy = true → previous.isSome = true

theorem Trails.step (h : s.Trails previous) (hstep : s.step = .ok (ts, t)) :
    t.Trails (lastOf previous ts) := by
  suffices hts : s.place.offset ≤ t.place.offset ∧
      (∀ u ∈ ts, u.span.stop.offset ≤ t.place.offset) ∧
      (t.busy = true → s.busy = true ∨ ts ≠ []) by
    obtain ⟨hle, hstop, hbusy⟩ := hts
    constructor
    · intro p hp
      rcases mem_lastOf hp with hp | hp
      · exact hstop p hp
      · exact (h.stop p hp).trans hle
    · intro ht
      exact isSome_lastOf ((hbusy ht).imp_left h.known)
  have hmove := s.step_move
  rw [hstep] at hmove
  cases hmove with
  | blank => exact ⟨Nat.le_add_right _ _, by simp, .inl⟩
  | measured _ _ hnest =>
    rcases nest_ok hnest with ⟨-, rfl, rfl⟩ | ⟨-, -, rfl, rfl⟩
    · refine ⟨Nat.le_add_right _ _, fun u hu => ?_, .inl⟩
      rw [List.mem_singleton.mp hu]
      exact Nat.le_refl _
    · refine ⟨Nat.le_add_right _ _, fun u hu => ?_, .inl⟩
      rw [List.eq_of_mem_replicate hu]
      exact Nat.le_refl _
  | skipped _ _ _ _ _ hplace => exact ⟨hplace ▸ Nat.le_add_right _ _, by simp, .inl⟩
  | ended =>
    refine ⟨Nat.le_add_right _ _, fun u hu => ?_, fun hbusy => ?_⟩
    · rw [eq_newline_of_mem_endLine hu]
      exact Nat.le_refl _
    · exact .inl (Bool.and_eq_true_iff.mp hbusy).1
  | emitted =>
    refine ⟨Nat.le_add_right _ _, fun u hu => ?_, fun _ => .inr (by simp)⟩
    rw [List.mem_singleton.mp hu]
    exact Nat.le_refl _

/-- A step that does not end a line gives no token for the end of a line. -/
theorem step_kind (h : s.step = .ok (ts, t))
    (hform : ¬ s.AtLine → ∀ l, Lexeme.read s.rest = some l → l.form ≠ .lineEnd) :
    ∀ u ∈ ts, u.kind ≠ .newline := by
  have hmove := s.step_move
  rw [h] at hmove
  intro u hu
  cases hmove with
  | blank | skipped => cases hu
  | measured _ _ hnest =>
    rcases nest_ok hnest with ⟨-, rfl, -⟩ | ⟨-, -, rfl, -⟩
    · rw [List.mem_singleton.mp hu]
      exact Kind.noConfusion
    · rw [List.eq_of_mem_replicate hu]
      exact Kind.noConfusion
  | ended hline hread _ hlineEnd => exact absurd hlineEnd (hform hline _ hread)
  | @emitted l kind _ _ hread _ hkind =>
    rw [List.mem_singleton.mp hu]
    have hlayout := Lexeme.read_not_layout hread hkind
    rintro rfl
    cases hlayout

/-- A lexeme that is neither a gap nor the end of a line becomes a token that stops where the
    scan goes on. -/
theorem stepOver_stop {l : Lexeme} (h : s.stepOver l = .ok (ts, t)) (hends : ¬ l.endsLine) :
    t.rest = l.rest ∧ (l.form ≠ .gap → ∃ u, ts = [u] ∧ u.span.stop = t.place.position) := by
  obtain ⟨form, text, rest⟩ := l
  cases form with
  | joint => exact absurd (.inl rfl) hends
  | lineEnd => exact absurd (.inr rfl) hends
  | gap =>
    cases h
    exact ⟨rfl, absurd rfl⟩
  | plain kind =>
    cases h
    exact ⟨rfl, fun _ => ⟨_, rfl, rfl⟩⟩
  | quoted body closed =>
    simp only [stepOver, emitLiteral] at h
    split at h
    · split at h
      · cases h
        exact ⟨rfl, fun _ => ⟨_, rfl, rfl⟩⟩
      · cases h
    · cases h

/-! ### Two scans in step -/

/-- The second scan goes through the text with carriage returns.  The scans are level, unless
    blanks or a comment have just been taken at the end of a line. -/
inductive Returned (previous : Option Token) (s s' : Scan) : Prop where
  | level (halike : s.Alike (Beside 0) s') (hrest : s'.rest = withReturns s.rest)
      (hclose : s.busy = true → s.rest.head? = some '\n' →
        s.place.position.column = 1 ∨ ∃ p ∈ previous, p.span.stop = s.place.position)
  | behind {text : List Char} (halike : s.Alike (Beside 1) s') (hrest : s.rest = '\n' :: text)
      (hrest' : s'.rest = '\n' :: withReturns text) (hfresh : s.fresh = false)
      (hcolumn : s.place.position.column ≠ 1)
      (hgap : ∀ p ∈ previous, p.span.stop.offset < s.place.offset)

/-- Both steps give tokens that say the same and keep the scans in step, or both refuse with
    errors of the same name at the same line and column. -/
inductive StepReturned (previous : Option Token) :
    Except Diagnostic (List Token × Scan) → Except Diagnostic (List Token × Scan) → Prop where
  | ok {ts ts' : List Token} {t t' : Scan} (tokens : AllMoved previous ts ts')
      (next : Returned (lastOf previous ts) t t') :
      StepReturned previous (.ok (ts, t)) (.ok (ts', t'))
  | error {d d' : Diagnostic} (name : d.cause.name = d'.cause.name)
      (position : PositionBeside 0 d.position d'.position) :
      StepReturned previous (.error d) (.error d')

/-- A line ends with a token that is pushed as far as the second scan is ahead. -/
theorem endLine_returned {n : Nat} (halike : s.Alike (Beside n) s') {text text' rest : List Char}
    (hpushed : s.busy = true → pushed previous (s.token .newline ['\\', 'n'] text) = n) :
    StepReturned previous (.ok (s.endLine text rest))
      (.ok (s'.endLine text' (withReturns rest))) := by
  refine .ok ?_ (.level (halike.afterLine (beside_newLine halike.place.1)) rfl fun _ _ => .inl ?_)
  · rw [← halike.depth, ← halike.busy]
    split
    next hline =>
      refine .cons ⟨rfl, rfl, ?_⟩ (.nil _)
      rw [hpushed hline.2]
      exact halike.place.position
    next => exact .nil _
  · exact newLine_column _

/-- Steps that end no line keep level scans level, if a token has been taken or the rest of the
    line does not begin with its end. -/
theorem StepAlike.returned {x y : Except Diagnostic (List Token × Scan)}
    (h : StepAlike (Beside 0) (PositionBeside 0) (fun r r' => r' = withReturns r) x y)
    (hkind : ∀ ts t, x = .ok (ts, t) → ∀ u ∈ ts, u.kind ≠ .newline)
    (hclose : ∀ ts t, x = .ok (ts, t) → t.busy = true → t.rest.head? = some '\n' →
      t.place.position.column = 1 ∨ ∃ p ∈ lastOf previous ts, p.span.stop = t.place.position) :
    StepReturned previous x y := by
  cases h with
  | error why => exact .error (congrArg Cause.name why.cause) why.position
  | @ok ts ts' t t' tokens next rest =>
    exact .ok (allMoved_of_alike tokens fun u hu => .inl (hkind ts t rfl u hu))
      (.level next rest (hclose ts t rfl))

theorem not_lineEnd_of_line {line : List Char} (hline : '\n' ∉ line) {l : Lexeme}
    (hread : Lexeme.read line = some l) : ¬ l.endsLine := by
  rcases Lexeme.read_lineFeed hread with ⟨-, feed, htext, -⟩ | ⟨hends, -⟩
  · refine absurd ?_ hline
    rw [← (Lexeme.read_append hread).1, htext]
    simp
  · exact hends

/-- A text without a line feed is the same with carriage returns. -/
theorem step_lastLine (halike : s.Alike (Beside 0) s') (hrest : s'.rest = s.rest)
    (hline : '\n' ∉ s.rest) : StepReturned previous s.step s'.step := by
  have hsame := halike.step carried_beside hrest.symm
  generalize hstep : s.step = x, s'.step = y at hsame
  cases hsame with
  | error why => exact .error (congrArg Cause.name why.cause) why.position
  | @ok ts ts' t t' tokens next rest =>
    have hline' : '\n' ∉ t.rest := fun hmem => hline ((step_suffix hstep).mem hmem)
    have hkind := step_kind hstep fun _ l hread hform =>
      not_lineEnd_of_line hline hread (.inr hform)
    refine .ok (allMoved_of_alike tokens fun u hu => .inl (hkind u hu)) (.level next ?_ ?_)
    · rw [withReturns_of_line hline', rest]
    · intro _ hhead
      exact absurd (List.mem_of_mem_head? hhead) hline'

theorem step_busy_of_atLine (hat : s.AtLine) (h : s.step = .ok (ts, t)) : t.busy = s.busy := by
  have hmove := s.step_move
  rw [h] at hmove
  cases hmove with
  | blank => rfl
  | measured _ _ hnest => rcases nest_ok hnest with ⟨-, -, rfl⟩ | ⟨-, -, -, rfl⟩ <;> rfl
  | skipped hline | ended hline | emitted _ hline => exact absurd hat hline

section

variable {line text : List Char} (halike : s.Alike (Beside 0) s') (hline : '\n' ∉ line)
  (hrest : s.rest = line ++ '\n' :: text)
  (hrest' : s'.rest = line ++ '\r' :: '\n' :: withReturns text)

include halike hline hrest hrest'

/-- A fresh line is measured up to where it ends at most. -/
theorem step_freshLine (hat : s.AtLine) (hsettled : s.Settled) :
    StepReturned previous s.step s'.step := by
  have hdrop : '\n' ∉ line.dropWhile isLeading := fun hmem =>
    hline ((List.dropWhile_suffix _).mem hmem)
  have hboth : StepAlike (Beside 0) (PositionBeside 0) (fun r r' => r' = withReturns r)
      s.measureLine s'.measureLine :=
    halike.measureLine_upTo_end carried_beside hrest hrest'
      (Lexeme.atLineEnd_cons (by decide) _) (Lexeme.atLineEnd_cons (by decide) _)
      (withReturns_append_lineFeed hdrop text).symm
  rw [← step_of_atLine hat, ← step_of_atLine (halike.atLine.mp hat)] at hboth
  refine hboth.returned (fun ts t hstep => step_kind hstep fun hinside => absurd hat hinside) ?_
  intro ts t hstep hbusy _
  rw [step_busy_of_atLine hat hstep, (hsettled hat.1).2.1] at hbusy
  cases hbusy

/-- Inside a line, blanks or a comment up to its end take the carriage return, and anything else
    is the same lexeme. -/
theorem step_withinLine (hat : ¬ s.AtLine) (hfresh : s.fresh = false) (htrails : s.Trails previous)
    (hreturn : '\r' ∉ line) (hempty : line ≠ []) (hslash : line ≠ ['\\']) :
    StepReturned previous s.step s'.step := by
  have hat' : ¬ s'.AtLine := fun h => hat (halike.atLine.mpr h)
  obtain ⟨hboth, hread, hread'⟩ :=
    Lexeme.read_beforeReturn hline hreturn hempty hslash text (withReturns text)
  rw [← hrest] at hread
  rw [← hrest'] at hread'
  generalize hlexeme : Lexeme.read line = x, Lexeme.read (line ++ ['\r']) = y at *
  cases hboth with
  | none =>
    rw [step_of_not_atLine hat, step_of_not_atLine hat']
    unfold takeLexeme
    rw [hread, hread']
    exact .error rfl halike.place.position
  | @inside l hgap =>
    have hends := not_lineEnd_of_line hline hlexeme
    have hsuffix : l.rest <:+ line := ⟨_, (Lexeme.read_append hlexeme).1⟩
    have hfeed : '\n' ∉ l.rest := fun hmem => hline (hsuffix.mem hmem)
    have hstep := step_of_read hat hread
    have hsame : StepAlike (Beside 0) (PositionBeside 0) (fun r r' => r' = withReturns r)
        (s.stepOver (l.before ('\n' :: text))) s'.step := by
      rw [step_of_read hat' hread']
      refine halike.stepOver carried_beside rfl rfl ?_
      change (l.rest ++ ['\r']) ++ '\n' :: withReturns text = withReturns (l.rest ++ '\n' :: text)
      rw [withReturns_append_lineFeed hfeed, List.append_assoc, List.singleton_append]
    rw [← hstep] at hsame
    refine hsame.returned (fun ts t hok => step_kind hok fun _ l' hl' hform => ?_) ?_
    · rw [hread] at hl'
      cases hl'
      exact hends (.inr hform)
    · intro ts t hok _ hhead
      rw [hstep] at hok
      obtain ⟨htext, hstop⟩ := stepOver_stop hok hends
      by_cases hform : l.form = .gap
      · -- behind a gap inside the line stands a character of the line
        obtain ⟨c, cs, hcs⟩ := List.exists_cons_of_ne_nil (hgap hform)
        rw [htext] at hhead
        change (l.rest ++ '\n' :: text).head? = some '\n' at hhead
        rw [hcs] at hhead hfeed
        cases hhead
        exact absurd List.mem_cons_self hfeed
      · obtain ⟨u, rfl, hu⟩ := hstop hform
        exact .inr ⟨u, rfl, hu⟩
  | gap =>
    have hlength : 0 < Text.byteLength line := Text.byteLength_pos hempty
    rw [step_of_read hat hread, step_of_read hat' hread']
    refine .ok (.nil _) (.behind ⟨?_, halike.blocks, halike.depth, halike.fresh, halike.busy⟩
      rfl rfl hfresh ?_ ?_)
    · change Beside 1 (s.place.advance _) (s'.place.advance (Text.byteLength (line ++ ['\r'])))
      rw [Text.byteLength_append]
      exact halike.place.advance _ 1
    · obtain ⟨-, column, hoffset, -⟩ := halike.place
      change s.place.offset + Text.byteLength line - s.place.lineStart + 1 ≠ 1
      omega
    · intro p hp
      exact Nat.lt_of_le_of_lt (htrails.stop p hp) (Nat.lt_add_of_pos_right hlength)
  | unclosed =>
    rw [step_of_read hat hread, step_of_read hat' hread']
    exact .error rfl halike.place.position

end

/-- What the line ends with decides how far its end is pushed. -/
theorem Returned.lineEnd (h : Returned previous s s') (hat : ¬ s.AtLine) {text : List Char}
    (hrest : s.rest = '\n' :: text) (htrails : s.Trails previous) :
    StepReturned previous s.step s'.step := by
  have hread : Lexeme.read s.rest = some ⟨.lineEnd, ['\n'], text⟩ := by
    rw [hrest]
    rfl
  rw [step_of_read hat hread]
  cases h with
  | level halike hrest' hclose =>
    have hat' : ¬ s'.AtLine := fun h => hat (halike.atLine.mpr h)
    have hread' : Lexeme.read s'.rest = some ⟨.lineEnd, ['\r', '\n'], withReturns text⟩ := by
      rw [hrest', hrest]
      rfl
    rw [step_of_read hat' hread']
    refine endLine_returned halike fun hbusy => if_neg ?_
    rintro ⟨-, -, hcolumn, hprevious⟩
    rcases hclose hbusy (by rw [hrest, List.head?_cons]) with hone | ⟨p, hp, hstop⟩
    · exact hcolumn hone
    · obtain rfl : previous = some p := hp
      exact of_decide_eq_true hprevious hstop
  | @behind text' halike hfeed hrest' _ hcolumn hgap =>
    rw [hrest] at hfeed
    obtain rfl : text = text' := List.tail_eq_of_cons_eq hfeed
    have hat' : ¬ s'.AtLine := fun h => hat (halike.atLine.mpr h)
    have hread' : Lexeme.read s'.rest = some ⟨.lineEnd, ['\n'], withReturns text⟩ := by
      rw [hrest']
      rfl
    rw [step_of_read hat' hread']
    have hvalue : String.ofList ['\\', 'n'] ≠ "" := by decide
    refine endLine_returned halike fun hbusy => if_pos ⟨rfl, hvalue, hcolumn, ?_⟩
    obtain ⟨p, rfl⟩ := Option.isSome_iff_exists.mp (htrails.known hbusy)
    refine decide_eq_true fun hstop => ?_
    exact absurd (congrArg Position.offset hstop) (Nat.ne_of_lt (hgap p rfl))

/-- A backslash joins a line to the next one, whichever way it ends. -/
theorem step_joined (halike : s.Alike (Beside 0) s') (hat : ¬ s.AtLine) {text : List Char}
    (hrest : s.rest = '\\' :: '\n' :: text)
    (hrest' : s'.rest = '\\' :: '\r' :: '\n' :: withReturns text) :
    StepReturned previous s.step s'.step := by
  have hat' : ¬ s'.AtLine := fun h => hat (halike.atLine.mpr h)
  have hread : Lexeme.read s.rest = some ⟨.joint, ['\\', '\n'], text⟩ := by
    rw [hrest]
    rfl
  have hread' : Lexeme.read s'.rest = some ⟨.joint, ['\\', '\r', '\n'], withReturns text⟩ := by
    rw [hrest']
    rfl
  rw [step_of_read hat hread, step_of_read hat' hread']
  refine .ok (.nil _) (.level ?_ rfl fun _ _ => .inl (newLine_column _))
  exact ⟨beside_newLine halike.place.1, halike.blocks, halike.depth, halike.fresh, halike.busy⟩

/-- One step keeps the scans in step. -/
theorem Returned.step (h : Returned previous s s') (hsettled : s.Settled)
    (htrails : s.Trails previous) (hreturn : '\r' ∉ s.rest) :
    StepReturned previous s.step s'.step := by
  have hfresh : ¬ s.AtLine → s.fresh = false := fun hat =>
    Bool.eq_false_iff.mpr fun hfresh => hat ⟨hfresh, (hsettled hfresh).1⟩
  cases h with
  | @behind text halike hrest hrest' hinside hcolumn hgap =>
    have hat : ¬ s.AtLine := fun hat => absurd hat.1 (by simp [hinside])
    exact Returned.lineEnd (.behind halike hrest hrest' hinside hcolumn hgap) hat hrest htrails
  | level halike hrest hclose =>
    rcases line_or_more s.rest with hlast | ⟨line, text, htext, hline⟩
    · rw [withReturns_of_line hlast] at hrest
      exact step_lastLine halike hrest hlast
    have hrest' := hrest
    rw [htext, withReturns_append_lineFeed hline] at hrest'
    by_cases hat : s.AtLine
    · exact step_freshLine halike hline htext hrest' hat hsettled
    by_cases hempty : line = []
    · subst hempty
      exact Returned.lineEnd (.level halike hrest hclose) hat htext htrails
    by_cases hslash : line = ['\\']
    · subst hslash
      exact step_joined halike hat htext hrest'
    · refine step_withinLine halike hline htext hrest' hat (hfresh hat) htrails ?_ hempty hslash
      exact fun hmem => hreturn (by simp [htext, hmem])

/-! ### Whole scans -/

/-- Both scans give tokens that say the same, or both refuse with errors of the same name at the
    same line and column. -/
inductive TokensReturned (previous : Option Token) :
    Except Diagnostic (List Token) → Except Diagnostic (List Token) → Prop where
  | ok {ts ts' : List Token} (tokens : AllMoved previous ts ts') :
      TokensReturned previous (.ok ts) (.ok ts')
  | error {d d' : Diagnostic} (name : d.cause.name = d'.cause.name)
      (position : PositionBeside 0 d.position d'.position) :
      TokensReturned previous (.error d) (.error d')

theorem Returned.finish (h : Returned previous s s') (hend : s.rest = []) :
    TokensReturned previous s.tokens s'.tokens := by
  cases h with
  | behind _ hrest =>
    rw [hend] at hrest
    cases hrest
  | level halike hrest =>
    rw [hend] at hrest
    rw [tokens_of_end hend, tokens_of_end hrest]
    refine .ok (allMoved_of_alike (halike.finish carried_beside) fun t ht => .inr ?_)
    obtain ⟨kind, -, rfl⟩ := mem_finish ht
    rfl

theorem Returned.rest_ne_nil (h : Returned previous s s') (hrest : s.rest ≠ []) :
    s'.rest ≠ [] := by
  cases h with
  | behind _ _ hrest' => simp [hrest']
  | level _ hrest' =>
    obtain ⟨c, cs, hcs⟩ := List.exists_cons_of_ne_nil hrest
    rw [hrest', hcs, withReturns, List.flatMap_cons]
    split <;> simp

/-- Scans that are in step give tokens that say the same up to the end of the text. -/
theorem Returned.tokens (h : Returned previous s s') (hsettled : s.Settled)
    (htrails : s.Trails previous) (hreturn : '\r' ∉ s.rest) :
    TokensReturned previous s.tokens s'.tokens := by
  induction hweight : s.weight using Nat.strongRecOn generalizing s s' previous with
  | ind weight ih =>
    by_cases hend : s.rest = []
    · exact h.finish hend
    have hboth := h.step hsettled htrails hreturn
    generalize hstep : s.step = x, hstep' : s'.step = y at hboth
    cases hboth with
    | error name position =>
      rw [tokens_of_refused hend hstep, tokens_of_refused (h.rest_ne_nil hend) hstep']
      exact .error name position
    | @ok ts ts' t t' tokens next =>
      have hmore := ih t.weight (hweight ▸ step_weight hstep) next (hsettled.step hstep)
        (htrails.step hstep) (fun hmem => hreturn ((step_suffix hstep).mem hmem)) rfl
      rw [tokens_of_step hend hstep, tokens_of_step (h.rest_ne_nil hend) hstep']
      generalize t.tokens = u, t'.tokens = u' at hmore
      cases hmore with
      | error name position => exact .error name position
      | ok more => exact .ok (tokens.append more)

theorem returned_start (text : List Char) :
    Returned none (start text) (start (withReturns text)) :=
  .level ⟨⟨rfl, 0, rfl, rfl⟩, rfl, rfl, rfl, rfl⟩ rfl nofun

end Scan

/-- Whether lines end with a line feed or with a carriage return and a line feed makes no
    difference to the tokens and where they start, or to the error there is; only the end of a
    line that has blanks or a comment before it is pushed one column to the right. -/
theorem ofSource_withReturns (source : String) (hreturn : '\r' ∉ source.toList) :
    (∃ ts ts', ofSource source = .ok ts ∧
      ofSource (String.ofList (withReturns source.toList)) = .ok ts' ∧ ts.length = ts'.length ∧
      ∀ (i : Nat) (t t' : Token), ts[i]? = some t → ts'[i]? = some t' →
        t'.kind = t.kind ∧ t'.value = t.value ∧ t'.span.start.line = t.span.start.line ∧
          t'.span.start.column = t.span.start.column + pushed (tokenBefore ts i) t) ∨
    (∃ d d', ofSource source = .error d ∧
      ofSource (String.ofList (withReturns source.toList)) = .error d' ∧
      d'.cause.name = d.cause.name ∧ d'.position.line = d.position.line ∧
      d'.position.column = d.position.column) := by
  have hboth := (Scan.returned_start source.toList).tokens (Scan.settled_start _)
    ⟨nofun, nofun⟩ hreturn
  rw [ofSource, ofSource, String.toList_ofList]
  generalize (Scan.start source.toList).tokens = x,
    (Scan.start (withReturns source.toList)).tokens = y at hboth
  cases hboth with
  | error name position =>
    exact .inr ⟨_, _, rfl, rfl, name.symm, position.1.symm, position.2⟩
  | ok tokens =>
    refine .inl ⟨_, _, rfl, rfl, tokens.length_eq, fun i t t' ht ht' => ?_⟩
    have hmoved := tokens.getElem? ht ht'
    rw [if_zero_tokenBefore] at hmoved
    exact ⟨hmoved.kind.symm, hmoved.value.symm, hmoved.start.1.symm, hmoved.start.2⟩

/-- Lines that end behind a comment, with a joint, behind a blank and inside parentheses. -/
def gapsAtEnds : String := "if a: # ä\n  b \\\n \n  c(\n 'd' )\n"

theorem ofSource_gapsAtEnds_withReturns :
    '\r' ∉ gapsAtEnds.toList ∧
    ∃ ts ts', ofSource gapsAtEnds = .ok ts ∧
      ofSource (String.ofList (withReturns gapsAtEnds.toList)) = .ok ts' ∧
      ts.length = ts'.length ∧
      ∀ (i : Nat) (t t' : Token), ts[i]? = some t → ts'[i]? = some t' →
        t'.kind = t.kind ∧ t'.value = t.value ∧ t'.span.start.line = t.span.start.line ∧
          t'.span.start.column = t.span.start.column + pushed (tokenBefore ts i) t := by
  have hreturn : '\r' ∉ gapsAtEnds.toList := by decide
  have hok : (ofSource gapsAtEnds).isOk = true := by decide +kernel
  refine ⟨hreturn, ?_⟩
  rcases ofSource_withReturns gapsAtEnds hreturn with hboth | ⟨d, d', hd, -⟩
  · exact hboth
  · rw [hd] at hok
    cases hok

/-- Behind a blank the end of the line does not keep its column. -/
theorem newline_pushed_behind_blank :
    String.ofList (withReturns "x \n".toList) = "x \r\n" ∧
    ofSource "x \n" = .ok [⟨.identifier, "x", ⟨⟨0, 1, 1⟩, ⟨1, 1, 2⟩⟩⟩,
      ⟨.newline, "\\n", ⟨⟨2, 1, 3⟩, ⟨3, 1, 4⟩⟩⟩, ⟨.eof, "", ⟨⟨3, 2, 1⟩, ⟨3, 2, 1⟩⟩⟩] ∧
    ofSource "x \r\n" = .ok [⟨.identifier, "x", ⟨⟨0, 1, 1⟩, ⟨1, 1, 2⟩⟩⟩,
      ⟨.newline, "\\n", ⟨⟨3, 1, 4⟩, ⟨4, 1, 5⟩⟩⟩, ⟨.eof, "", ⟨⟨4, 2, 1⟩, ⟨4, 2, 1⟩⟩⟩] := by
  decide +kernel

end Offside.Token
