/-
  Offside/Proofs/Surface/Sentence.lean
  ====================================
  **The grammar of programs.**  There is a relation for each nonterminal, with a rule for each
  production.  It holds between the spellings ahead, those left behind the construct, and the
  tree of the construct without its spans; so the rest of one construct is where the next one
  begins.  No rule prefers one way to go on to another: that a reader which never goes back
  still finds every derivation is proved elsewhere.

  Expressions come in through their reader.  `Expression` holds between spellings, rest and
  tree if the reader goes from the one to the other and gives the tree, and it is told apart
  by phrases and what may stand behind them (`expression_iff`).

  What a construct derives from never has the end of the input in it, and of what is left
  only the kind of the first token counts (`Confined`).  So a derivation from a part of the
  input is one from the whole, as long as the same kind of token comes next.
-/
import Offside.Proofs.Surface.Taken
import Offside.Proofs.Token.Move

namespace Offside.Surface

namespace Sentence

/-! ### Lines and expressions -/

/-- The expression reader goes from `u` to `r` and gives the tree `e`. -/
def Expression (u r : List Spelling) (e : Expr) : Prop :=
  ∀ c : Cursor, c.spellings = u → (expr .standard .lowest c).Gives (·.bare = e) r

/-- A line ends with a newline, or without one before the end of the input or of a block. -/
inductive LineEnd : List Spelling → List Spelling → Prop where
  | newline (v : String) (r : List Spelling) : LineEnd (⟨.newline, v⟩ :: r) r
  | before {r : List Spelling} (h : nextKind r = .eof ∨ nextKind r = .dedent) : LineEnd r r

/-! ### Statements -/

mutual

inductive Statement : List Spelling → List Spelling → Stmt → Prop where
  | conditional {u r : List Spelling} {s : Stmt} (v : String) (h : Conditional u r s) :
      Statement (⟨.ifWord, v⟩ :: u) r s
  | whileDo {u u₁ r : List Spelling} {e : Expr} {b : Block Stmt} (v : String)
      (he : Expression u u₁ e) (hb : Suite u₁ r b) :
      Statement (⟨.whileWord, v⟩ :: u) r (.whileDo e b .nowhere)
  | ret {u r : List Spelling} (v : String) (hend : LineEnd u r) :
      Statement (⟨.returnWord, v⟩ :: u) r (.ret none .nowhere)
  | retValue {u u₁ r : List Spelling} {e : Expr} (v : String) (he : Expression u u₁ e)
      (hend : LineEnd u₁ r) : Statement (⟨.returnWord, v⟩ :: u) r (.ret (some e) .nowhere)
  | pass {u r : List Spelling} (v : String) (hend : LineEnd u r) :
      Statement (⟨.passWord, v⟩ :: u) r (.pass .nowhere)
  | brk {u r : List Spelling} (v : String) (hend : LineEnd u r) :
      Statement (⟨.breakWord, v⟩ :: u) r (.brk .nowhere)
  | cont {u r : List Spelling} (v : String) (hend : LineEnd u r) :
      Statement (⟨.continueWord, v⟩ :: u) r (.cont .nowhere)
  | assign {u u₁ u₂ r : List Spelling} {target : String} {e : Expr} (v : String)
      (htarget : Expression u (⟨.assignment, v⟩ :: u₁) (.symbol target .nowhere))
      (he : Expression u₁ u₂ e) (hend : LineEnd u₂ r) :
      Statement u r (.assign target e .nowhere)
  | perform {u u₁ r : List Spelling} {callee : String} {args : List Expr}
      (he : Expression u u₁ (.call callee args .nowhere)) (hend : LineEnd u₁ r) :
      Statement u r (.perform (.call callee args .nowhere) .nowhere)

/-- A condition, its block and what is done otherwise, behind `if` or `elif`. -/
inductive Conditional : List Spelling → List Spelling → Stmt → Prop where
  | branch {u u₁ u₂ r : List Spelling} {e : Expr} {b : Block Stmt} {s : Stmt}
      (he : Expression u u₁ e) (hb : Suite u₁ u₂ b) (ho : Otherwise e b u₂ r s) :
      Conditional u r s

/-- What goes on behind a condition and its block, and the statement they make together. -/
inductive Otherwise : Expr → Block Stmt → List Spelling → List Spelling → Stmt → Prop where
  | none (e : Expr) (b : Block Stmt) (r : List Spelling) :
      Otherwise e b r r (.ifThen e b .nowhere)
  | elif {u r : List Spelling} {s : Stmt} (e : Expr) (b : Block Stmt) (v : String)
      (h : Conditional u r s) :
      Otherwise e b (⟨.elifWord, v⟩ :: u) r (.ifElse e b ⟨[s], .nowhere⟩ .nowhere)
  | orElse {u r : List Spelling} {b' : Block Stmt} (e : Expr) (b : Block Stmt) (v : String)
      (h : Suite u r b') :
      Otherwise e b (⟨.elseWord, v⟩ :: u) r (.ifElse e b b' .nowhere)

/-- A block from its colon on. -/
inductive Suite : List Spelling → List Spelling → Block Stmt → Prop where
  | line {u r : List Spelling} {s : Stmt} (v : String)
      (hfirst : nextKind u ∉ [.newline, .ifWord, .whileWord, .defWord]) (h : Statement u r s) :
      Suite (⟨.colon, v⟩ :: u) r ⟨[s], .nowhere⟩
  | indented {u r : List Spelling} {ss : List Stmt} (v₁ v₂ v₃ v₄ : String)
      (h : Statements u (⟨.dedent, v₄⟩ :: r) ss) :
      Suite (⟨.colon, v₁⟩ :: ⟨.newline, v₂⟩ :: ⟨.indent, v₃⟩ :: u) r ⟨ss, .nowhere⟩

inductive Statements : List Spelling → List Spelling → List Stmt → Prop where
  | nil (r : List Spelling) : Statements r r []
  | cons {u u₁ r : List Spelling} {s : Stmt} {ss : List Stmt} (h : Statement u u₁ s)
      (hs : Statements u₁ r ss) : Statements u r (s :: ss)

end

/-! ### Imports and functions -/

inductive NamedType : List Spelling → List Spelling → TypeExpr → Prop where
  | name (name : String) (r : List Spelling) :
      NamedType (⟨.identifier, name⟩ :: r) r ⟨name, .nowhere⟩

inductive Result : List Spelling → List Spelling → Option TypeExpr → Prop where
  | none (r : List Spelling) : Result r r none
  | arrow {u r : List Spelling} {t : TypeExpr} (v : String) (h : NamedType u r t) :
      Result (⟨.arrow, v⟩ :: u) r (some t)

/-- Members separated by commas.  A comma may stand behind the last. -/
inductive Listed {α : Type} (M : List Spelling → List Spelling → α → Prop) :
    List Spelling → List Spelling → List α → Prop where
  | nil (r : List Spelling) : Listed M r r []
  | last {u r : List Spelling} {x : α} (h : M u r x) : Listed M u r [x]
  | cons {u u₁ r : List Spelling} {x : α} {xs : List α} (v : String)
      (h : M u (⟨.comma, v⟩ :: u₁) x) (hs : Listed M u₁ r xs) : Listed M u r (x :: xs)

/-- The types of an imported function, which may be left out. -/
inductive Declared : List Spelling → List Spelling → Option ImportSignature → Prop where
  | none (r : List Spelling) : Declared r r none
  | types {u u₁ r : List Spelling} {ts : List TypeExpr} {t : Option TypeExpr} (v v' : String)
      (hts : Listed NamedType u (⟨.closeParen, v'⟩ :: u₁) ts) (ht : Result u₁ r t) :
      Declared (⟨.openParen, v⟩ :: u) r (some ⟨ts, t⟩)

inductive Names (module : String) : List Spelling → List Spelling → List Import → Prop where
  | last {u r : List Spelling} {signature : Option ImportSignature} (name : String)
      (h : Declared u r signature) :
      Names module (⟨.identifier, name⟩ :: u) r [⟨module, name, signature, .nowhere⟩]
  | cons {u u₁ r : List Spelling} {signature : Option ImportSignature} {is : List Import}
      (name v : String) (h : Declared u (⟨.comma, v⟩ :: u₁) signature)
      (hs : Names module u₁ r is) :
      Names module (⟨.identifier, name⟩ :: u) r (⟨module, name, signature, .nowhere⟩ :: is)

inductive ImportLine : List Spelling → List Spelling → List Import → Prop where
  | line {u u₁ r : List Spelling} {is : List Import} (v module v' : String)
      (h : Names module u u₁ is) (hend : LineEnd u₁ r) :
      ImportLine (⟨.fromWord, v⟩ :: ⟨.identifier, module⟩ :: ⟨.importWord, v'⟩ :: u) r is

inductive Param : List Spelling → List Spelling → Parameter → Prop where
  | typed {u r : List Spelling} {t : TypeExpr} (name v : String) (h : NamedType u r t) :
      Param (⟨.identifier, name⟩ :: ⟨.colon, v⟩ :: u) r ⟨name, t, .nowhere⟩

inductive Definition : List Spelling → List Spelling → Function → Prop where
  | function {u u₁ u₂ r : List Spelling} {ps : List Parameter} {t : Option TypeExpr}
      {b : Block Stmt} (v name v' v'' : String)
      (hps : Listed Param u (⟨.closeParen, v''⟩ :: u₁) ps) (ht : Result u₁ u₂ t)
      (hb : Suite u₂ r b) :
      Definition (⟨.defWord, v⟩ :: ⟨.identifier, name⟩ :: ⟨.openParen, v'⟩ :: u) r
        ⟨name, ps, t, b, .nowhere⟩

/-- The imports and the functions of a program, each in the order in which they come. -/
inductive Items : List Spelling → List Spelling → Program → Prop where
  | nil (r : List Spelling) : Items r r ⟨[], []⟩
  | newline {u r : List Spelling} {p : Program} (v : String) (h : Items u r p) :
      Items (⟨.newline, v⟩ :: u) r p
  | imports {u u₁ r : List Spelling} {is : List Import} {p : Program} (hi : ImportLine u u₁ is)
      (h : Items u₁ r p) : Items u r ⟨is ++ p.imports, p.functions⟩
  | function {u u₁ r : List Spelling} {f : Function} {p : Program} (hf : Definition u u₁ f)
      (h : Items u₁ r p) : Items u r ⟨p.imports, f :: p.functions⟩

/-! ### What expressions derive from -/

section Expressions

variable {u r : List Spelling} {e : Expr}

/-- A cursor before the given spellings. -/
def cursorAt (u : List Spelling) : Cursor :=
  ⟨none, u.map fun s => ⟨s.kind, s.value, .nowhere⟩, ⟨"", .nowhere⟩⟩

theorem spellings_cursorAt (u : List Spelling) : (cursorAt u).spellings = u := by
  rw [cursorAt, Cursor.spellings, List.map_map]
  exact List.map_id u

/-- The reader takes a phrase, up to a token with which no expression goes on. -/
theorem expression_iff : Expression u r e ↔
    ∃ w, u = w ++ r ∧ Phrase Strength.lowest.rank w e ∧
      Loose Strength.lowest.rank (nextKind r) := by
  constructor
  · intro h
    obtain ⟨e', c, shorter, hdone, rfl, rfl⟩ := h (cursorAt u) (spellings_cursorAt u)
    obtain ⟨w, hpast, hphrase, hloose⟩ := expr_takes .lowest (by decide) _ e' c shorter hdone
    rw [Cursor.kind_eq] at hloose
    exact ⟨w, (spellings_cursorAt u).symm.trans hpast.spellings, hphrase, hloose⟩
  · rintro ⟨w, rfl, hphrase, hloose⟩ c hc
    exact hphrase.reads (Nat.le_refl _) hc hloose.stops
      fun e' c₁ he' hc₁ => climb_gives he' hc₁ hloose

theorem Expression.head_ne_none (h : Expression u r e) :
    Grammar.standard.head (nextKind u) ≠ none := by
  obtain ⟨w, rfl, hphrase, -⟩ := expression_iff.mp h
  obtain ⟨s, w', rfl, hs, -⟩ := hphrase.exists_cons
  exact hs

end Expressions

/-! ### Derivations see one token further -/

/-- Holds of spellings that do not have the end of the input among them. -/
def Inside (w : List Spelling) : Prop := ∀ s ∈ w, s.kind ≠ .eof

@[simp] theorem inside_nil : Inside [] := by
  intro s hs
  cases hs

@[simp] theorem inside_cons {s : Spelling} {w : List Spelling} :
    Inside (s :: w) ↔ s.kind ≠ .eof ∧ Inside w := List.forall_mem_cons

@[simp] theorem inside_append {w w' : List Spelling} :
    Inside (w ++ w') ↔ Inside w ∧ Inside w' := List.forall_mem_append

/-- There is one place where the end of the input first comes. -/
theorem Inside.unique {w w' r r' : List Spelling} (hw : Inside w) (hw' : Inside w')
    (hr : nextKind r = .eof) (hr' : nextKind r' = .eof) (h : w ++ r = w' ++ r') : w = w' := by
  induction w generalizing w' with
  | nil =>
    cases w' with
    | nil => rfl
    | cons s w' =>
      rw [List.nil_append] at h
      rw [h] at hr
      exact absurd hr (inside_cons.mp hw').1
  | cons s w ih =>
    cases w' with
    | nil =>
      rw [List.nil_append] at h
      rw [← h] at hr'
      exact absurd hr' (inside_cons.mp hw).1
    | cons s' w' =>
      obtain ⟨rfl, htail⟩ : s = s' ∧ w ++ r = w' ++ r' := List.cons.inj h
      rw [ih (inside_cons.mp hw).2 (inside_cons.mp hw').2 htail]

/-- Holds of spellings that say nothing about the layout. -/
def Inline (w : List Spelling) : Prop := ∀ s ∈ w, s.kind.isLayout = false

@[simp] theorem inline_nil : Inline [] := by
  intro s hs
  cases hs

@[simp] theorem inline_cons {s : Spelling} {w : List Spelling} :
    Inline (s :: w) ↔ s.kind.isLayout = false ∧ Inline w := List.forall_mem_cons

@[simp] theorem inline_append {w w' : List Spelling} :
    Inline (w ++ w') ↔ Inline w ∧ Inline w' := List.forall_mem_append

theorem Inline.inside {w : List Spelling} (h : Inline w) : Inside w := by
  intro s hs heof
  have hlayout := h s hs
  rw [heof] at hlayout
  cases hlayout

theorem inline_name : ∀ {w : List Spelling} {name : String}, NamePhrase w name → Inline w
  | _, _, .name _ => by simp [Kind.isLayout]
  | _, _, .group _ _ h => by simp [inline_name h, Kind.isLayout]

mutual

theorem inline_phrase : ∀ {n : Nat} {w : List Spelling} {e : Expr}, Phrase n w e → Inline w
  | _, _, _, .number _ _ => by simp [Kind.isLayout]
  | _, _, _, .float _ _ => by simp [Kind.isLayout]
  | _, _, _, .symbol _ _ => by simp [Kind.isLayout]
  | _, _, _, .group _ _ _ h => by simp [inline_phrase h, Kind.isLayout]
  | _, _, _, .call _ _ _ hname hargs => by
    simp [inline_name hname, inline_phrases hargs, Kind.isLayout]
  | _, _, _, .ord _ _ _ _ hname => by simp [inline_name hname, Kind.isLayout]
  | _, _, _, .negative _ _ _ => by simp [Kind.isLayout]
  | _, _, _, .minus _ _ _ h => by simp [inline_phrase h, Kind.isLayout]
  | _, _, _, .binary op _ _ hl hr => by
    have hop : op.kind.isLayout = false := by cases op <;> rfl
    simp [inline_phrase hl, inline_phrase hr, hop]
  | _, _, _, .compare op _ _ hl hr => by
    have hop : op.kind.isLayout = false := by cases op <;> rfl
    simp [inline_phrase hl, inline_phrase hr, hop]
  | _, _, _, .logic op _ _ hl hr => by
    have hop : op.kind.isLayout = false := by cases op <;> rfl
    simp [inline_phrase hl, inline_phrase hr, hop]

theorem inline_phrases : ∀ {ws : List Spelling} {es : List Expr}, Phrases ws es → Inline ws
  | _, _, .nil => inline_nil
  | _, _, .last h => inline_phrase h
  | _, _, .cons _ h hs => by simp [inline_phrase h, inline_phrases hs, Kind.isLayout]

end

/-- What lies between `u` and `r` does not have the end of the input in it, and `R` holds of
    it before everything that begins with the same kind of token as `r`. -/
def Confined (R : List Spelling → List Spelling → Prop) (u r : List Spelling) : Prop :=
  ∃ w, u = w ++ r ∧ Inside w ∧ ∀ r', nextKind r' = nextKind r → R (w ++ r') r'

theorem nextKind_append {r r' : List Spelling} (h : nextKind r' = nextKind r)
    (w : List Spelling) : nextKind (w ++ r') = nextKind (w ++ r) := by
  cases w with
  | nil => exact h
  | cons s w => rfl

namespace Confined

variable {R S : List Spelling → List Spelling → Prop} {u u₁ r : List Spelling}

/-- Nothing is taken, on account of the token that is next. -/
theorem here (h : ∀ r', nextKind r' = nextKind r → R r' r') : Confined R r r :=
  ⟨[], rfl, inside_nil, h⟩

theorem token (k : Kind) (v : String) (hk : k ≠ .eof) :
    Confined (fun u r => u = ⟨k, v⟩ :: r) (⟨k, v⟩ :: r) r :=
  ⟨[⟨k, v⟩], rfl, by simpa using hk, fun _ _ => rfl⟩

theorem imp (h : Confined R u r) (hS : ∀ u' r', nextKind u' = nextKind u → R u' r' → S u' r') :
    Confined S u r := by
  obtain ⟨w, rfl, hw, hR⟩ := h
  exact ⟨w, rfl, hw, fun r' hr' => hS _ _ (nextKind_append hr' w) (hR r' hr')⟩

theorem seq (h : Confined R u u₁) (h' : Confined S u₁ r) :
    Confined (fun u r => ∃ u₁, R u u₁ ∧ S u₁ r) u r := by
  obtain ⟨w, rfl, hw, hR⟩ := h
  obtain ⟨w', rfl, hw', hS⟩ := h'
  refine ⟨w ++ w', (List.append_assoc ..).symm, inside_append.mpr ⟨hw, hw'⟩, fun r' hr' => ?_⟩
  rw [List.append_assoc]
  exact ⟨w' ++ r', hR _ (nextKind_append hr' w'), hS r' hr'⟩

/-- A token before the rest. -/
theorem cons {k : Kind} {v : String} (h : Confined R u r) (hk : k ≠ .eof)
    (hS : ∀ u' r', nextKind u' = nextKind u → R u' r' → S (⟨k, v⟩ :: u') r') :
    Confined S (⟨k, v⟩ :: u) r := by
  obtain ⟨w, rfl, hw, hR⟩ := h
  refine ⟨⟨k, v⟩ :: w, rfl, inside_cons.mpr ⟨hk, hw⟩, fun r' hr' => ?_⟩
  exact hS _ _ (nextKind_append hr' w) (hR r' hr')

end Confined

theorem Expression.confined {u r : List Spelling} {e : Expr} (h : Expression u r e) :
    Confined (Expression · · e) u r := by
  obtain ⟨w, rfl, hphrase, hloose⟩ := expression_iff.mp h
  refine ⟨w, rfl, (inline_phrase hphrase).inside, fun r' hr' => ?_⟩
  refine expression_iff.mpr ⟨w, rfl, hphrase, ?_⟩
  rwa [hr']

theorem LineEnd.confined {u r : List Spelling} (h : LineEnd u r) : Confined LineEnd u r := by
  cases h with
  | newline v =>
    refine (Confined.token .newline v (by decide)).imp ?_
    rintro _ r' - rfl
    exact .newline v r'
  | before h => exact .here fun r' hr' => .before (hr' ▸ h)

mutual

theorem Statement.confined : ∀ {u r : List Spelling} {s : Stmt}, Statement u r s →
    Confined (Statement · · s) u r
  | _, _, _, .conditional v h =>
    h.confined.cons (by decide) fun _ _ _ h => .conditional v h
  | _, _, _, .whileDo v he hb =>
    (he.confined.seq hb.confined).cons (by decide) fun _ _ _ ⟨_, he, hb⟩ => .whileDo v he hb
  | _, _, _, .ret v hend => hend.confined.cons (by decide) fun _ _ _ hend => .ret v hend
  | _, _, _, .retValue v he hend =>
    (he.confined.seq hend.confined).cons (by decide) fun _ _ _ ⟨_, he, hend⟩ =>
      .retValue v he hend
  | _, _, _, .pass v hend => hend.confined.cons (by decide) fun _ _ _ hend => .pass v hend
  | _, _, _, .brk v hend => hend.confined.cons (by decide) fun _ _ _ hend => .brk v hend
  | _, _, _, .cont v hend => hend.confined.cons (by decide) fun _ _ _ hend => .cont v hend
  | _, _, _, .assign v htarget he hend => by
    have hvalue := he.confined.seq hend.confined
    refine (htarget.confined.seq ((Confined.token .assignment v (by decide)).seq hvalue)).imp ?_
    rintro _ _ - ⟨_, htarget, _, rfl, _, he, hend⟩
    exact .assign v htarget he hend
  | _, _, _, .perform he hend =>
    (he.confined.seq hend.confined).imp fun _ _ _ ⟨_, he, hend⟩ => .perform he hend

theorem Conditional.confined : ∀ {u r : List Spelling} {s : Stmt}, Conditional u r s →
    Confined (Conditional · · s) u r
  | _, _, _, .branch he hb ho =>
    (he.confined.seq (hb.confined.seq ho.confined)).imp fun _ _ _ ⟨_, he, _, hb, ho⟩ =>
      .branch he hb ho

theorem Otherwise.confined : ∀ {e : Expr} {b : Block Stmt} {u r : List Spelling} {s : Stmt},
    Otherwise e b u r s → Confined (Otherwise e b · · s) u r
  | _, _, _, _, _, .none e b _ => .here fun r' _ => .none e b r'
  | _, _, _, _, _, .elif e b v h => h.confined.cons (by decide) fun _ _ _ h => .elif e b v h
  | _, _, _, _, _, .orElse e b v h => h.confined.cons (by decide) fun _ _ _ h => .orElse e b v h

theorem Suite.confined : ∀ {u r : List Spelling} {b : Block Stmt}, Suite u r b →
    Confined (Suite · · b) u r
  | _, _, _, .line v hfirst h =>
    h.confined.cons (by decide) fun _ _ hnext h => .line v (hnext ▸ hfirst) h
  | _, _, _, .indented v₁ v₂ v₃ v₄ h => by
    have hbody := h.confined.seq (.token .dedent v₄ (by decide))
    have hopen := (Confined.token .newline v₂ (by decide)).seq
      ((Confined.token .indent v₃ (by decide)).seq hbody)
    refine hopen.cons (by decide) ?_
    rintro _ _ - ⟨_, rfl, _, rfl, _, h, rfl⟩
    exact .indented v₁ v₂ v₃ v₄ h

theorem Statements.confined : ∀ {u r : List Spelling} {ss : List Stmt}, Statements u r ss →
    Confined (Statements · · ss) u r
  | _, _, _, .nil _ => .here fun r' _ => .nil r'
  | _, _, _, .cons h hs => (h.confined.seq hs.confined).imp fun _ _ _ ⟨_, h, hs⟩ => .cons h hs

end

theorem NamedType.confined {u r : List Spelling} {t : TypeExpr} (h : NamedType u r t) :
    Confined (NamedType · · t) u r := by
  obtain ⟨name⟩ := h
  refine (Confined.token .identifier name (by decide)).imp ?_
  rintro _ r' - rfl
  exact .name name r'

theorem Result.confined {u r : List Spelling} {t : Option TypeExpr} (h : Result u r t) :
    Confined (Result · · t) u r := by
  cases h with
  | none => exact .here fun r' _ => .none r'
  | arrow v h => exact h.confined.cons (by decide) fun _ _ _ h => .arrow v h

theorem Listed.confined {α : Type} {M : List Spelling → List Spelling → α → Prop}
    {u r : List Spelling} {xs : List α} (h : Listed M u r xs)
    (hM : ∀ u r x, M u r x → Confined (M · · x) u r) : Confined (Listed M · · xs) u r := by
  induction h with
  | nil => exact .here fun r' _ => .nil r'
  | last h => exact (hM _ _ _ h).imp fun _ _ _ h => .last h
  | cons v h _ ih =>
    refine ((hM _ _ _ h).seq ((Confined.token .comma v (by decide)).seq ih)).imp ?_
    rintro _ _ - ⟨_, h, _, rfl, hs⟩
    exact .cons v h hs

theorem Declared.confined {u r : List Spelling} {signature : Option ImportSignature}
    (h : Declared u r signature) : Confined (Declared · · signature) u r := by
  cases h with
  | none => exact .here fun r' _ => .none r'
  | types v v' hts ht =>
    have hresult := (Confined.token .closeParen v' (by decide)).seq ht.confined
    refine ((hts.confined fun _ _ _ => NamedType.confined).seq hresult).cons (by decide) ?_
    rintro _ _ - ⟨_, hts, _, rfl, ht⟩
    exact .types v v' hts ht

theorem Names.confined {module : String} {u r : List Spelling} {is : List Import}
    (h : Names module u r is) : Confined (Names module · · is) u r := by
  induction h with
  | last name h => exact h.confined.cons (by decide) fun _ _ _ h => .last name h
  | cons name v h _ ih =>
    refine (h.confined.seq ((Confined.token .comma v (by decide)).seq ih)).cons (by decide) ?_
    rintro _ _ - ⟨_, h, _, rfl, hs⟩
    exact .cons name v h hs

theorem ImportLine.confined {u r : List Spelling} {is : List Import} (h : ImportLine u r is) :
    Confined (ImportLine · · is) u r := by
  obtain ⟨v, module, v', h, hend⟩ := h
  have hnames := (Confined.token .importWord v' (by decide)).seq (h.confined.seq hend.confined)
  refine ((Confined.token .identifier module (by decide)).seq hnames).cons (by decide) ?_
  rintro _ _ - ⟨_, rfl, _, rfl, _, h, hend⟩
  exact .line v module v' h hend

theorem Param.confined {u r : List Spelling} {p : Parameter} (h : Param u r p) :
    Confined (Param · · p) u r := by
  obtain ⟨name, v, h⟩ := h
  refine ((Confined.token .colon v (by decide)).seq h.confined).cons (by decide) ?_
  rintro _ _ - ⟨_, rfl, h⟩
  exact .typed name v h

theorem Definition.confined {u r : List Spelling} {f : Function} (h : Definition u r f) :
    Confined (Definition · · f) u r := by
  obtain ⟨v, name, v', v'', hps, ht, hb⟩ := h
  have hbody := (Confined.token .closeParen v'' (by decide)).seq (ht.confined.seq hb.confined)
  have hparams := (Confined.token .openParen v' (by decide)).seq
    ((hps.confined fun _ _ _ => Param.confined).seq hbody)
  refine ((Confined.token .identifier name (by decide)).seq hparams).cons (by decide) ?_
  rintro _ _ - ⟨_, rfl, _, rfl, _, hps, _, rfl, _, ht, hb⟩
  exact .function v name v' v'' hps ht hb

theorem Items.confined {u r : List Spelling} {p : Program} (h : Items u r p) :
    Confined (Items · · p) u r := by
  induction h with
  | nil => exact .here fun r' _ => .nil r'
  | newline v _ ih => exact ih.cons (by decide) fun _ _ _ h => .newline v h
  | imports hi _ ih => exact (hi.confined.seq ih).imp fun _ _ _ ⟨_, hi, h⟩ => .imports hi h
  | function hf _ ih => exact (hf.confined.seq ih).imp fun _ _ _ ⟨_, hf, h⟩ => .function hf h

end Sentence

end Offside.Surface
