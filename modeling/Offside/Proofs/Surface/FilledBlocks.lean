/-
  Offside/Proofs/Surface/FilledBlocks.lean
  ========================================
  **Blocks without a statement.**  A block behind an indentation may be read from nothing at
  all: the reader takes what stands between the opening of a block and its closing, and does
  not ask whether there is something.  So every block of a program has a statement exactly if
  no opening stands directly before a closing (`Opened`), which is a matter of the scan.

  The scan measures a line only if something stands on it, and what stands there is nearly
  always a token.  The exception is a joint: a backslash at the end of a line of blanks is no
  token, but it is not nothing either, and the line opens a block if it is wide enough.  The
  joined line may then end without a token, as in `emptyBody`.  Where no line begins with a
  joint (`BareJoint`), every block has a statement.
-/
import Mathlib.Data.List.TakeWhile
import Offside.Proofs.Surface.Accept
import Offside.Proofs.Token.Located
import Offside.Proofs.Token.Stream

namespace Offside

/-- No opening of a block stands directly before a closing. -/
def Opened (ks : List Kind) : Prop := ks.IsChain fun k k' => ¬ (k = .indent ∧ k' = .dedent)

/-- Something behind which no block has just been opened may go on with anything. -/
theorem opened_append {ks ks' : List Kind} (h : ks.getLast? ≠ some .indent) :
    Opened (ks ++ ks') ↔ Opened ks ∧ Opened ks' := by
  rw [Opened, List.isChain_append, ← Opened, ← Opened]
  refine ⟨fun ⟨hks, hks', _⟩ => ⟨hks, hks'⟩, fun ⟨hks, hks'⟩ => ⟨hks, hks', ?_⟩⟩
  rintro k hk k' _ ⟨rfl, -⟩
  exact h hk

theorem opened_of_not_mem {ks : List Kind} (h : .indent ∉ ks) : Opened ks := by
  induction ks with
  | nil => exact .nil
  | cons k ks ih =>
    obtain ⟨hk, hks⟩ := not_or.mp (List.mem_cons.not.mp h)
    refine List.isChain_cons.mpr ⟨?_, ih hks⟩
    rintro k' _ ⟨rfl, -⟩
    exact hk rfl

theorem getLast?_ne_of_not_mem {ks : List Kind} (h : .indent ∉ ks) :
    ks.getLast? ≠ some .indent := fun hlast => h (List.mem_of_getLast? hlast)

theorem getLast?_append_ne {ks ks' : List Kind} (h : ks.getLast? ≠ some .indent)
    (h' : ks'.getLast? ≠ some .indent) : (ks ++ ks').getLast? ≠ some .indent := by
  rw [List.getLast?_append]
  cases hlast : ks'.getLast? with
  | none => exact h
  | some k =>
    rw [hlast] at h'
    exact h'

@[simp] theorem opened_singleton (k : Kind) : Opened [k] := .singleton k

@[simp] theorem opened_cons_cons {k k' : Kind} {ks : List Kind} :
    Opened (k :: k' :: ks) ↔ ¬ (k = .indent ∧ k' = .dedent) ∧ Opened (k' :: ks) :=
  List.isChain_cons_cons

namespace Surface

/-! ### The blocks of a program -/

mutual

/-- The blocks in a statement, at any depth. -/
def Stmt.blocks : Stmt → List (Block Stmt)
  | .ifThen _ body _ => body.blocks
  | .ifElse _ body orElse _ => body.blocks ++ orElse.blocks
  | .whileDo _ body _ => body.blocks
  | .assign _ _ _ | .perform _ _ | .ret _ _ | .pass _ | .brk _ | .cont _ => []

/-- A block and the blocks in it. -/
def Block.blocks : Block Stmt → List (Block Stmt)
  | ⟨body, span⟩ => ⟨body, span⟩ :: blocksOf body

def blocksOf : List Stmt → List (Block Stmt)
  | [] => []
  | s :: ss => s.blocks ++ blocksOf ss

end

/-- The blocks of a program, at any depth. -/
def Program.blocks (p : Program) : List (Block Stmt) := p.functions.flatMap (·.body.blocks)

mutual

theorem Stmt.blocks_bare : ∀ s : Stmt, s.bare.blocks = s.blocks.map Block.bare
  | .ifThen _ body _ => by rw [Stmt.bare, Stmt.blocks, Stmt.blocks, body.blocks_bare]
  | .ifElse _ body orElse _ => by
    rw [Stmt.bare, Stmt.blocks, Stmt.blocks, body.blocks_bare, orElse.blocks_bare, List.map_append]
  | .whileDo _ body _ => by rw [Stmt.bare, Stmt.blocks, Stmt.blocks, body.blocks_bare]
  | .assign _ _ _ | .perform _ _ | .ret _ _ | .pass _ | .brk _ | .cont _ => rfl

theorem Block.blocks_bare : ∀ b : Block Stmt, b.bare.blocks = b.blocks.map Block.bare
  | ⟨body, _⟩ => by rw [Block.bare, Block.blocks, Block.blocks, blocksOf_bare, List.map_cons]; rfl

theorem blocksOf_bare : ∀ ss : List Stmt, blocksOf (bareStmts ss) = (blocksOf ss).map Block.bare
  | [] => rfl
  | s :: ss => by
    rw [bareStmts, blocksOf, blocksOf, s.blocks_bare, blocksOf_bare ss, List.map_append]

end

/-- Holds of blocks that all have a statement. -/
def Filled (bs : List (Block Stmt)) : Prop := ∀ b ∈ bs, b.body ≠ []

@[simp] theorem filled_nil : Filled [] := by
  intro b hb
  cases hb

@[simp] theorem filled_cons {b : Block Stmt} {bs : List (Block Stmt)} :
    Filled (b :: bs) ↔ b.body ≠ [] ∧ Filled bs := List.forall_mem_cons

@[simp] theorem filled_append {bs bs' : List (Block Stmt)} :
    Filled (bs ++ bs') ↔ Filled bs ∧ Filled bs' := List.forall_mem_append

theorem bareStmts_eq_nil {ss : List Stmt} : bareStmts ss = [] ↔ ss = [] := by
  cases ss <;> simp [bareStmts]

theorem filled_bare (p : Program) : Filled p.bare.blocks ↔ Filled p.blocks := by
  have hblocks : p.bare.blocks = p.blocks.map Block.bare := by
    simp only [Program.blocks, Program.bare, List.flatMap_map, List.map_flatMap]
    exact congrArg (p.functions.flatMap ·) (funext fun f => f.body.blocks_bare)
  rw [hblocks, Filled, List.forall_mem_map]
  refine forall₂_congr fun b _ => ?_
  obtain ⟨body, span⟩ := b
  exact not_congr bareStmts_eq_nil

/-! ### Derivations -/

namespace Sentence

/-- The kinds that spellings have. -/
def kinds (w : List Spelling) : List Kind := w.map Spelling.kind

/-- What lies between `u` and `r` opens no block. -/
def Flat (u r : List Spelling) : Prop := ∃ w, u = w ++ r ∧ .indent ∉ kinds w

/-- What lies between `u` and `r` has not just opened a block, and it opens none in vain
    exactly if the given blocks have statements. -/
def Opens (u r : List Spelling) (bs : List (Block Stmt)) : Prop :=
  ∃ w, u = w ++ r ∧ (kinds w).getLast? ≠ some .indent ∧ (Filled bs ↔ Opened (kinds w))

section Combinators

variable {u u₁ r : List Spelling} {bs bs' : List (Block Stmt)}

theorem Flat.refl (r : List Spelling) : Flat r r := ⟨[], rfl, by simp [kinds]⟩

theorem Flat.cons {k : Kind} (v : String) (hk : k ≠ .indent) (h : Flat u r) :
    Flat (⟨k, v⟩ :: u) r := by
  obtain ⟨w, rfl, hw⟩ := h
  refine ⟨⟨k, v⟩ :: w, rfl, ?_⟩
  simpa [kinds, hk.symm] using hw

theorem Flat.trans (h : Flat u u₁) (h' : Flat u₁ r) : Flat u r := by
  obtain ⟨w, rfl, hw⟩ := h
  obtain ⟨w', rfl, hw'⟩ := h'
  refine ⟨w ++ w', (List.append_assoc ..).symm, ?_⟩
  rw [kinds, List.map_append, List.mem_append]
  exact not_or.mpr ⟨hw, hw'⟩

theorem Flat.opens (h : Flat u r) : Opens u r [] := by
  obtain ⟨w, rfl, hw⟩ := h
  refine ⟨w, rfl, getLast?_ne_of_not_mem hw, ?_⟩
  simp [opened_of_not_mem hw]

theorem Opens.seq (h : Opens u u₁ bs) (h' : Opens u₁ r bs') : Opens u r (bs ++ bs') := by
  obtain ⟨w, rfl, hlast, hw⟩ := h
  obtain ⟨w', rfl, hlast', hw'⟩ := h'
  have hkinds : kinds (w ++ w') = kinds w ++ kinds w' := List.map_append
  refine ⟨w ++ w', (List.append_assoc ..).symm, ?_, ?_⟩
  · rw [hkinds]
    exact getLast?_append_ne hlast hlast'
  · rw [hkinds, opened_append hlast, filled_append, hw, hw']

theorem Flat.seq (h : Flat u u₁) (h' : Opens u₁ r bs) : Opens u r bs := h.opens.seq h'

theorem Opens.flat (h : Opens u u₁ bs) (h' : Flat u₁ r) : Opens u r bs := by
  have hseq := h.seq h'.opens
  rwa [List.append_nil] at hseq

theorem Opens.cons {k : Kind} (v : String) (hk : k ≠ .indent) (h : Opens u r bs) :
    Opens (⟨k, v⟩ :: u) r bs := ((Flat.refl u).cons v hk).seq h

/-- A block that is not read from an indentation has a statement. -/
theorem Opens.within (h : Opens u r bs) (s : Stmt) :
    Opens u r (⟨[s], .nowhere⟩ :: bs) := by
  obtain ⟨w, rfl, hlast, hw⟩ := h
  exact ⟨w, rfl, hlast, by simpa using hw⟩

/-- A block with a first statement, which does not begin with a closing. -/
theorem Opens.indented {v₁ v₂ v₃ v₄ : String} (h : Opens u (⟨.dedent, v₄⟩ :: r) bs)
    (hu : nextKind u ≠ .dedent) {b : Block Stmt} (hb : b.body ≠ []) :
    Opens (⟨.colon, v₁⟩ :: ⟨.newline, v₂⟩ :: ⟨.indent, v₃⟩ :: u) r (b :: bs) := by
  obtain ⟨w, rfl, hlast, hw⟩ := h
  cases w with
  | nil => exact absurd rfl hu
  | cons s w =>
    refine ⟨⟨.colon, v₁⟩ :: ⟨.newline, v₂⟩ :: ⟨.indent, v₃⟩ :: s :: w ++ [⟨.dedent, v₄⟩],
      by simp, ?_, ?_⟩
    · rw [kinds, List.map_append, List.map_singleton, List.getLast?_concat]
      simp
    have hsplit : Opened (kinds (s :: w) ++ [.dedent]) ↔ _ := opened_append hlast
    have hs : s.kind ≠ .dedent := hu
    simp only [kinds, List.map_cons, List.map_append, List.map_nil, List.cons_append,
      opened_cons_cons, filled_cons] at hsplit hw ⊢
    rw [hsplit, hw]
    simp [hb, hs]

/-- A block that closes where it opens. -/
theorem opens_hollow (v₁ v₂ v₃ v₄ : String) {b : Block Stmt} (hb : b.body = []) :
    Opens (⟨.colon, v₁⟩ :: ⟨.newline, v₂⟩ :: ⟨.indent, v₃⟩ :: ⟨.dedent, v₄⟩ :: r) r [b] :=
  ⟨[⟨.colon, v₁⟩, ⟨.newline, v₂⟩, ⟨.indent, v₃⟩, ⟨.dedent, v₄⟩], rfl, by simp [kinds],
    by simp [kinds, hb]⟩

end Combinators

theorem Expression.flat {u r : List Spelling} {e : Expr} (h : Expression u r e) : Flat u r := by
  obtain ⟨w, rfl, hphrase, -⟩ := expression_iff.mp h
  refine ⟨w, rfl, fun hmem => ?_⟩
  obtain ⟨s, hs, hkind⟩ := List.mem_map.mp hmem
  have hinline := inline_phrase hphrase s hs
  rw [hkind] at hinline
  cases hinline

theorem LineEnd.flat {u r : List Spelling} (h : LineEnd u r) : Flat u r := by
  cases h with
  | newline v => exact (Flat.refl r).cons v (by decide)
  | before => exact .refl u

/-- Statements are read from nothing, or from something that does not begin with a closing. -/
theorem Statements.first {u r : List Spelling} {ss : List Stmt} (h : Statements u r ss) :
    (ss = [] ∧ u = r) ∨ (ss ≠ [] ∧ nextKind u ≠ .dedent) := by
  cases h with
  | nil => exact .inl ⟨rfl, rfl⟩
  | cons h => exact .inr ⟨List.cons_ne_nil _ _, h.nextKind_ne rfl rfl⟩

mutual

theorem Statement.opens : ∀ {u r : List Spelling} {s : Stmt}, Statement u r s →
    Opens u r s.blocks
  | _, _, _, .conditional v h => h.opens.cons v (by decide)
  | _, _, _, .whileDo v he hb => (he.flat.seq hb.opens).cons v (by decide)
  | _, _, _, .ret v hend => (hend.flat.cons v (by decide)).opens
  | _, _, _, .retValue v he hend => ((he.flat.trans hend.flat).cons v (by decide)).opens
  | _, _, _, .pass v hend => (hend.flat.cons v (by decide)).opens
  | _, _, _, .brk v hend => (hend.flat.cons v (by decide)).opens
  | _, _, _, .cont v hend => (hend.flat.cons v (by decide)).opens
  | _, _, _, .assign v htarget he hend =>
    (htarget.flat.trans ((he.flat.trans hend.flat).cons v (by decide))).opens
  | _, _, _, .perform he hend => (he.flat.trans hend.flat).opens

theorem Conditional.opens : ∀ {u r : List Spelling} {s : Stmt}, Conditional u r s →
    Opens u r s.blocks
  | _, _, _, .branch he hb ho => by
    obtain ⟨bs, hbs, hblocks⟩ := ho.opens
    rw [hblocks]
    exact he.flat.seq (hb.opens.seq hbs)

/-- What goes on behind a condition and its block adds the blocks that it reads. -/
theorem Otherwise.opens : ∀ {e : Expr} {b : Block Stmt} {u r : List Spelling} {s : Stmt},
    Otherwise e b u r s → ∃ bs, Opens u r bs ∧ s.blocks = b.blocks ++ bs
  | _, _, _, _, _, .none e b r => ⟨[], (Flat.refl r).opens, (List.append_nil _).symm⟩
  | _, _, _, _, _, .elif (s := s) e b v h =>
    ⟨⟨[s], .nowhere⟩ :: s.blocks, (h.opens.within s).cons v (by decide), by
      simp [Stmt.blocks, Block.blocks, blocksOf]⟩
  | _, _, _, _, _, .orElse e b v h => ⟨_, h.opens.cons v (by decide), rfl⟩

theorem Suite.opens : ∀ {u r : List Spelling} {b : Block Stmt}, Suite u r b →
    Opens u r b.blocks
  | _, _, _, .line (s := s) v _ h => by
    have hblocks : Block.blocks ⟨[s], .nowhere⟩ = ⟨[s], .nowhere⟩ :: s.blocks := by
      simp [Block.blocks, blocksOf]
    rw [hblocks]
    exact (h.opens.within s).cons v (by decide)
  | _, _, _, .indented v₁ v₂ v₃ v₄ h => by
    have hbody := h.opens
    rcases h.first with ⟨rfl, rfl⟩ | ⟨hss, hu⟩
    · exact opens_hollow v₁ v₂ v₃ v₄ rfl
    · exact hbody.indented hu hss

theorem Statements.opens : ∀ {u r : List Spelling} {ss : List Stmt}, Statements u r ss →
    Opens u r (blocksOf ss)
  | _, _, _, .nil r => (Flat.refl r).opens
  | _, _, _, .cons h hs => h.opens.seq hs.opens

end

/-! ### Imports and functions -/

theorem NamedType.flat {u r : List Spelling} {t : TypeExpr} (h : NamedType u r t) : Flat u r := by
  obtain ⟨name⟩ := h
  exact (Flat.refl r).cons name (by decide)

theorem Result.flat {u r : List Spelling} {t : Option TypeExpr} (h : Result u r t) :
    Flat u r := by
  cases h with
  | none => exact .refl u
  | arrow v h => exact h.flat.cons v (by decide)

theorem Param.flat {u r : List Spelling} {p : Parameter} (h : Param u r p) : Flat u r := by
  obtain ⟨name, v, h⟩ := h
  exact (h.flat.cons v (by decide)).cons name (by decide)

theorem Listed.flat {α : Type} {M : List Spelling → List Spelling → α → Prop}
    {u r : List Spelling} {xs : List α} (h : Listed M u r xs)
    (hM : ∀ {u r x}, M u r x → Flat u r) : Flat u r := by
  induction h with
  | nil r => exact .refl r
  | last h => exact hM h
  | cons v h _ ih => exact (hM h).trans (ih.cons v (by decide))

theorem Declared.flat {u r : List Spelling} {signature : Option ImportSignature}
    (h : Declared u r signature) : Flat u r := by
  cases h with
  | none => exact .refl u
  | types v v' hts ht =>
    exact ((hts.flat NamedType.flat).trans (ht.flat.cons v' (by decide))).cons v (by decide)

theorem Names.flat {module : String} {u r : List Spelling} {is : List Import}
    (h : Names module u r is) : Flat u r := by
  induction h with
  | last name h => exact h.flat.cons name (by decide)
  | cons name v h _ ih => exact (h.flat.trans (ih.cons v (by decide))).cons name (by decide)

theorem ImportLine.flat {u r : List Spelling} {is : List Import} (h : ImportLine u r is) :
    Flat u r := by
  obtain ⟨v, module, v', h, hend⟩ := h
  have hnames := (h.flat.trans hend.flat).cons v' (k := .importWord) (by decide)
  exact (hnames.cons module (by decide)).cons v (by decide)

theorem Definition.opens {u r : List Spelling} {f : Function} (h : Definition u r f) :
    Opens u r f.body.blocks := by
  obtain ⟨v, name, v', v'', hps, ht, hb⟩ := h
  have hresult := (ht.flat.cons v'' (k := .closeParen) (by decide)).seq hb.opens
  have hparams := ((hps.flat Param.flat).seq hresult).cons v' (k := .openParen) (by decide)
  exact (hparams.cons name (by decide)).cons v (by decide)

theorem Items.opens {u r : List Spelling} {p : Program} (h : Items u r p) :
    Opens u r p.blocks := by
  induction h with
  | nil r => exact (Flat.refl r).opens
  | newline v _ ih => exact ih.cons v (by decide)
  | imports hi _ ih => exact hi.flat.seq ih
  | function hf _ ih => exact hf.opens.seq ih

end Sentence

end Surface

/-! ### The scan -/

namespace Token

/-- Holds of a text with a line that begins with a joint. -/
def BareJoint (text : List Char) : Prop :=
  ∃ before leading after, (before = [] ∨ before.getLast? = some '\n') ∧
    (∀ c ∈ leading, Scan.isLeading c = true) ∧
    (text = before ++ leading ++ '\\' :: '\n' :: after ∨
      text = before ++ leading ++ '\\' :: '\r' :: '\n' :: after)

namespace Lexeme

theorem readBy_kind? {c : Char} {cs : List Char} {l : Lexeme} (h : readBy c cs = some l)
    (hgap : isGap c = false) (hcomment : c ≠ '#') : l.kind? ≠ none := by
  unfold readBy at h
  rw [if_neg (by simp [hgap]), if_neg hcomment] at h
  split at h
  · cases h
    exact Option.some_ne_none _
  split at h
  · cases h
    exact Option.some_ne_none _
  split at h
  · cases h
    rw [literal_kind?]
    exact Option.some_ne_none _
  · unfold sign? at h
    split at h <;> cases h <;> exact Option.some_ne_none _

/-- What a measured line begins with is a token or a joint. -/
theorem read_measured {cs : List Char} {l : Lexeme} (h : read cs = some l)
    (hempty : Scan.isEmptyLine cs = false) (hleading : ∀ c ∈ cs.head?, Scan.isLeading c = false) :
    l.kind? ≠ none ∨
      ∃ after, cs = '\\' :: '\n' :: after ∨ cs = '\\' :: '\r' :: '\n' :: after := by
  unfold read at h
  split at h
  · cases h
  next after => exact .inr ⟨after, .inl rfl⟩
  next after => exact .inr ⟨after, .inr rfl⟩
  · cases hempty
  · cases hempty
  next c cs _ _ _ _ =>
    have hc := hleading c rfl
    simp only [Scan.isEmptyLine, Bool.or_eq_false_iff, decide_eq_false_iff_not] at hempty
    simp only [Scan.isLeading, Bool.or_eq_false_iff, decide_eq_false_iff_not] at hc
    exact .inl (readBy_kind? h (by simp [isGap, hc, hempty]) hempty.2)

end Lexeme

namespace Scan

variable {s s' : Scan} {source : List Char} {ks : List Kind} {ts : List Token}

/-- The scan has given tokens of the given kinds, and if the last has opened a block, a
    token comes next.  A fresh line is one of the text. -/
structure Opening (source : List Char) (ks : List Kind) (s : Scan) : Prop where
  opened : Opened ks
  reached : ∃ before, source = before ++ s.rest ∧
    (s.fresh = true → before = [] ∨ before.getLast? = some '\n')
  token : ks.getLast? = some .indent → s.fresh = false ∧ s.rest ≠ [] ∧
    ∀ l, Lexeme.read s.rest = some l → l.kind? ≠ none

theorem opening_start (text : List Char) : (start text).Opening text [] :=
  ⟨.nil, ⟨[], rfl, fun _ => .inl rfl⟩, fun h => by cases h⟩

/-- Where no block has just been opened, tokens that open none may follow. -/
theorem Opening.append (h : s.Opening source ks) (hlast : ks.getLast? ≠ some .indent)
    {vs : List Kind} (hvs : .indent ∉ vs) {before : List Char} (hrest : source = before ++ s'.rest)
    (hfresh : s'.fresh = true → before = [] ∨ before.getLast? = some '\n') :
    s'.Opening source (ks ++ vs) := by
  refine ⟨?_, ⟨before, hrest, hfresh⟩, fun hindent => absurd hindent ?_⟩
  · rw [opened_append hlast]
    exact ⟨h.opened, opened_of_not_mem hvs⟩
  · exact getLast?_append_ne hlast (getLast?_ne_of_not_mem hvs)

/-- A line that is measured begins with a token, unless it begins with a joint. -/
theorem read_afterLeading (hjoint : ¬ BareJoint source) {before : List Char}
    (hsource : source = before ++ s.rest) (hline : before = [] ∨ before.getLast? = some '\n')
    (hempty : isEmptyLine (s.rest.dropWhile isLeading) = false) {l : Lexeme}
    (hread : Lexeme.read (s.rest.dropWhile isLeading) = some l) : l.kind? ≠ none := by
  have hleading : ∀ c ∈ (s.rest.dropWhile isLeading).head?, isLeading c = false := by
    intro c hc
    have hnot := List.head?_dropWhile_not isLeading s.rest
    rw [hc] at hnot
    exact hnot
  rcases Lexeme.read_measured hread hempty hleading with hkind | ⟨after, hafter⟩
  · exact hkind
  · refine absurd ⟨before, s.rest.takeWhile isLeading, after, hline,
      fun c hc => List.mem_takeWhile_imp hc, ?_⟩ hjoint
    have hsplit : source = before ++ s.rest.takeWhile isLeading ++ s.rest.dropWhile isLeading := by
      rw [hsource, List.append_assoc, List.takeWhile_append_dropWhile]
    rcases hafter with hafter | hafter
    · exact .inl (hafter ▸ hsplit)
    · exact .inr (hafter ▸ hsplit)

theorem Opening.step (h : s.Opening source ks) (hs : s.Streams ks) (hjoint : ¬ BareJoint source)
    (hstep : s.step = .ok (ts, s')) : s'.Opening source (ks ++ ts.map Token.kind) := by
  obtain ⟨before, hsource, hbefore⟩ := h.reached
  have hleading : source = before ++ s.rest.takeWhile isLeading ++ s.afterLeading.rest := by
    rw [hsource, List.append_assoc]
    exact congrArg (before ++ ·) List.takeWhile_append_dropWhile.symm
  have hlexeme : ∀ {l}, Lexeme.read s.rest = some l → source = before ++ l.text ++ l.rest := by
    intro l hread
    rw [hsource, List.append_assoc, (Lexeme.read_append hread).1]
  -- a block is never open without a token on a line that is fresh, nor before what is skipped
  have hlast : s.fresh = true → ks.getLast? ≠ some .indent := by
    intro hfresh hindent
    rw [(h.token hindent).1] at hfresh
    cases hfresh
  have hquiet : ∀ {l}, Lexeme.read s.rest = some l → l.kind? = none →
      ks.getLast? ≠ some .indent := fun hread hkind hindent =>
    (h.token hindent).2.2 _ hread hkind
  have hinside : ¬ s.AtLine → s.fresh ≠ true := fun hline hfresh =>
    hline ⟨hfresh, (hs.fresh hfresh).1⟩
  have hmove := s.step_move
  rw [hstep] at hmove
  cases hmove with
  | blank hline =>
    exact h.append (hlast hline.1) List.not_mem_nil hleading fun hfresh => by cases hfresh
  | measured hline hempty hnest =>
    rcases nest_ok hnest with ⟨-, rfl, rfl⟩ | ⟨-, -, rfl, rfl⟩
    · refine ⟨(opened_append (hlast hline.1)).mpr ⟨h.opened, opened_singleton _⟩,
        ⟨_, hleading, fun hfresh => by cases hfresh⟩, fun _ => ⟨rfl, fun hnil => ?_, ?_⟩⟩
      · have hempty' : isEmptyLine s.afterLeading.rest = false := hempty
        rw [hnil] at hempty'
        cases hempty'
      · exact fun l hread => read_afterLeading hjoint hsource (hbefore hline.1) hempty hread
    · refine h.append (hlast hline.1) ?_ hleading fun hfresh => by cases hfresh
      rw [List.map_replicate]
      intro hmem
      cases List.eq_of_mem_replicate hmem
  | skipped hline hread _ hkind =>
    exact h.append (hquiet hread hkind) List.not_mem_nil (hlexeme hread)
      fun hfresh => absurd hfresh (hinside hline)
  | @ended l hline hread _ hform =>
    have hkind : l.kind? = none := by rw [Lexeme.kind?, hform]
    refine h.append (hquiet hread hkind) ?_ (hlexeme hread) fun _ => .inr ?_
    · intro hmem
      obtain ⟨t, ht, hindent⟩ := List.mem_map.mp hmem
      rw [eq_newline_of_mem_endLine ht] at hindent
      cases hindent
    · rcases Lexeme.read_lineFeed hread with ⟨-, line, htext, -⟩ | ⟨hends, -⟩
      · rw [htext, ← List.append_assoc, List.getLast?_concat]
      · exact absurd (Or.inr hform) hends
  | @emitted l kind value hline hread _ hkind =>
    have hcontent : kind.isLayout = false := Lexeme.read_not_layout hread hkind
    refine ⟨h.opened.append (opened_singleton _) ?_, ⟨_, hlexeme hread, ?_⟩, ?_⟩
    · rintro _ - k hk ⟨-, rfl⟩
      obtain rfl : kind = .dedent := Option.some.inj hk
      cases hcontent
    · exact fun hfresh => absurd hfresh (hinside hline)
    · intro hindent
      rw [List.map_singleton, List.getLast?_concat] at hindent
      obtain rfl : kind = .indent := Option.some.inj hindent
      cases hcontent

theorem Opening.runs (h : s.Opening source ks) (hs : s.Streams ks) (hjoint : ¬ BareJoint source)
    (hruns : s.Runs ts s') : s'.Opening source (ks ++ ts.map Token.kind) := by
  induction hruns generalizing ks with
  | refl => simpa using h
  | step _ hstep _ ih => simpa using ih (h.step hs hjoint hstep) (hs.step hstep)

theorem indent_not_mem_finish (s : Scan) : .indent ∉ s.finish.map Token.kind := by
  rw [finish_kinds]
  cases s.busy <;> simp [List.mem_replicate]

theorem Opening.finish (h : s.Opening source ks) (hrest : s.rest = []) :
    Opened (ks ++ s.finish.map Token.kind) := by
  have hlast : ks.getLast? ≠ some .indent := fun hindent => (h.token hindent).2.1 hrest
  rw [opened_append hlast]
  exact ⟨h.opened, opened_of_not_mem s.indent_not_mem_finish⟩

end Scan

/-- Where no line begins with a joint, a block that opens has something in it. -/
theorem opened_of_ofSource {source : String} {ts : List Token} (h : ofSource source = .ok ts)
    (hjoint : ¬ BareJoint source.toList) : Opened (ts.map Token.kind) := by
  obtain ⟨us, s, hruns, hrest, rfl⟩ := Scan.exists_runs h
  have hopening := (Scan.opening_start source.toList).runs (Scan.streams_start _) hjoint hruns
  rw [List.map_append]
  exact hopening.finish hrest

theorem Stream.eof_not_mem {ks : List Kind} {blocks depth : Nat} {busy : Bool}
    (h : Stream ks blocks depth busy) : .eof ∉ ks := by
  induction h with
  | nil => exact List.not_mem_nil
  | indent _ ih | dedent _ ih | newline _ ih => simpa using ih
  | token _ hk ih =>
    rw [List.mem_append, List.mem_singleton]
    rintro (hmem | rfl)
    · exact ih hmem
    · cases hk

/-- The end of the input is the last token of a text and no other. -/
theorem exists_beforeEof {source : String} {ts : List Token} (h : ofSource source = .ok ts) :
    ∃ us last, ts = us ++ [last] ∧ last.kind = .eof ∧ ∀ t ∈ us, t.kind ≠ .eof := by
  obtain ⟨us, s, hruns, -, rfl⟩ := Scan.exists_runs h
  have hstream := ((Scan.streams_start source.toList).runs hruns).stream
  refine ⟨us ++ ((if s.busy then [s.mark .newline] else []) ++
    List.replicate s.blocks.length (s.mark .dedent)), s.mark .eof, ?_, rfl, fun t ht heof => ?_⟩
  · rw [Scan.finish, List.append_assoc us]
  rw [List.mem_append, List.mem_append] at ht
  rcases ht with ht | ht | ht
  · exact hstream.eof_not_mem (heof ▸ List.mem_map_of_mem ht)
  · split at ht
    · rw [List.mem_singleton.mp ht] at heof
      cases heof
    · cases ht
  · rw [List.eq_of_mem_replicate ht] at heof
    cases heof

end Token

namespace Surface

open Sentence

/-- What is read from a text is all that stands before the end of the input. -/
theorem Program.items_of_ofTokens {us : List Token} {last : Token} (hlast : last.kind = .eof)
    (hus : ∀ t ∈ us, t.kind ≠ .eof) {p : Program}
    (hp : Program.ofTokens (us ++ [last]) = .ok p) : Items (us.map Token.spelling) [] p.bare := by
  obtain ⟨its, hits, rfl⟩ := Program.ofTokens_eq_ok.mp hp
  obtain ⟨r, hr, hitems⟩ := items_takes hits
  have hspellings : (Cursor.ofTokens (us ++ [last])).spellings = us.map Token.spelling := by
    apply Cursor.spellings_ofTokens (v := last.value)
    rw [List.map_append, List.map_singleton, Token.spelling, hlast]
  rw [hspellings] at hitems
  obtain ⟨w, hw, -, -⟩ := hitems.confined
  cases r with
  | nil => exact hitems
  | cons s r =>
    have hmem : s ∈ us.map Token.spelling := by
      rw [hw]
      simp
    obtain ⟨t, ht, rfl⟩ := List.mem_map.mp hmem
    exact absurd hr (hus t ht)

/-- Every block of a program has a statement exactly if no opening of a block stands directly
    before a closing, and so it is unless a line of the text begins with a joint. -/
theorem Program.ofTokens_filled {source : String} {ts : List Token}
    (h : Token.ofSource source = .ok ts) {p : Program} (hp : Program.ofTokens ts = .ok p) :
    ((∀ b ∈ p.blocks, b.body ≠ []) ↔ Opened (ts.map Token.kind)) ∧
      (¬ Token.BareJoint source.toList → ∀ b ∈ p.blocks, b.body ≠ []) := by
  have hiff : Filled p.blocks ↔ Opened (ts.map Token.kind) := by
    obtain ⟨us, last, rfl, heof, hus⟩ := Token.exists_beforeEof h
    obtain ⟨w, hw, hlast, hopened⟩ := (Program.items_of_ofTokens heof hus hp).opens
    obtain rfl : us.map Token.spelling = w := by rw [hw, List.append_nil]
    have hkinds : kinds (us.map Token.spelling) = us.map Token.kind := by
      rw [kinds, List.map_map]
      rfl
    rw [hkinds] at hlast hopened
    rw [← filled_bare, hopened, List.map_append, opened_append hlast]
    simp
  exact ⟨hiff, fun hjoint => hiff.mpr (Token.opened_of_ofSource h hjoint)⟩

/-- The tokens of a text and how many statements the blocks of its program have. -/
def blockSizes? (source : String) : Option (List Kind × List Nat) := do
  let ts ← (Token.ofSource source).toOption
  let p ← (Program.ofTokens ts).toOption
  some (ts.map Token.kind, p.blocks.map (·.body.length))

theorem exists_of_blockSizes? {source : String} {ks : List Kind} {ns : List Nat}
    (h : blockSizes? source = some (ks, ns)) :
    ∃ ts p, Token.ofSource source = .ok ts ∧ Program.ofTokens ts = .ok p ∧
      ts.map Token.kind = ks ∧ p.blocks.map (·.body.length) = ns := by
  unfold blockSizes? at h
  cases hts : Token.ofSource source with
  | error d => simp [hts, Except.toOption] at h
  | ok ts =>
    cases hp : Program.ofTokens ts with
    | error d => simp [hts, hp, Except.toOption] at h
    | ok p =>
      simp only [hts, hp, Except.toOption, Option.bind_eq_bind, Option.bind_some,
        Option.some.injEq, Prod.mk.injEq] at h
      exact ⟨ts, p, rfl, hp, h.1, h.2⟩

/-- A block that a joint opens, with a statement on the line behind it. -/
def joinedBody : String := "def f():\n while 1:\n  \\\n  pass\n"

theorem joinedBody_filled : ∃ ts p, Token.ofSource joinedBody = .ok ts ∧
    Program.ofTokens ts = .ok p ∧ p.blocks.length = 2 ∧ ∀ b ∈ p.blocks, b.body ≠ [] := by
  have hsizes : blockSizes? joinedBody = some
      ([.defWord, .identifier, .openParen, .closeParen, .colon, .newline, .indent, .whileWord,
        .integer, .colon, .newline, .indent, .passWord, .newline, .dedent, .dedent, .eof],
        [1, 1]) := by decide +kernel
  obtain ⟨ts, p, hts, hp, hkinds, hlengths⟩ := exists_of_blockSizes? hsizes
  have hcount : p.blocks.length = 2 := by simpa using congrArg List.length hlengths
  refine ⟨ts, p, hts, hp, hcount, (Program.ofTokens_filled hts hp).1.mpr ?_⟩
  rw [hkinds]
  simp

/-- A block that a joint opens, with nothing behind it. -/
def emptyBody : String := "def f():\n \\\n"

theorem emptyBody_hollow : ∃ ts p, Token.ofSource emptyBody = .ok ts ∧
    Program.ofTokens ts = .ok p ∧ ∃ b ∈ p.blocks, b.body = [] := by
  have hsizes : blockSizes? emptyBody = some
      ([.defWord, .identifier, .openParen, .closeParen, .colon, .newline, .indent, .dedent, .eof],
        [0]) := by decide +kernel
  obtain ⟨ts, p, hts, hp, -, hlengths⟩ := exists_of_blockSizes? hsizes
  obtain ⟨b, hb, hbody⟩ := List.map_eq_singleton_iff.mp hlengths
  refine ⟨ts, p, hts, hp, b, ?_, List.eq_nil_of_length_eq_zero hbody⟩
  rw [hb]
  exact List.mem_singleton_self b

end Surface
end Offside
