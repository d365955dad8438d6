/-
  Offside/Proofs/Surface/RoundTrip.lean
  =====================================
  **Writing and reading back a program.**  The definitions of a program are read back one by
  one from the lines that are written for them, and the text of a printable program is
  scanned into the tokens of these lines.  So a program that has been written down, scanned
  and read is the program it was, spans apart.
-/
import Offside.Proofs.Surface.ReadBack

namespace Offside.Surface

open Token

/-! ### Lists in parentheses -/

/-- What follows the first row of a list. -/
def afterFirst : List (List Piece) → List Spelling
  | [] => []
  | ps :: rows => ⟨.comma, ","⟩ :: spellingsOf (listed (ps :: rows))

theorem spellingsOf_listed_cons (ps : List Piece) (rows : List (List Piece)) :
    spellingsOf (listed (ps :: rows)) = spellingsOf ps ++ afterFirst rows := by
  cases rows with
  | nil => rw [listed, afterFirst, List.append_nil]
  | cons qs rows =>
    rw [listed, spellingsOf_spaced, spellingsOf_append, List.append_assoc]
    rfl

section

variable {c : Cursor} {r : List Spelling} {v : String}

theorem separator_gives {rows : List (List Piece)}
    (hc : c.spellings = afterFirst rows ++ ⟨.closeParen, v⟩ :: r) (expected : Expected) :
    (c.separator expected).Gives (fun _ => True)
      (spellingsOf (listed rows) ++ ⟨.closeParen, v⟩ :: r) := by
  cases rows with
  | nil => exact Cursor.separator_close hc expected
  | cons ps rows => exact Cursor.separator_comma hc expected

/-! ### Types and signatures -/

theorem typeExpr_gives {t : TypeExpr} (hc : c.spellings = spellingsOf t.pieces ++ r) :
    (typeExpr .standard c).Gives (·.bare = t.bare) r := by
  have hkind : c.kind = .identifier := Cursor.kind_of hc
  have htype : Grammar.standard.type c.kind = true := by
    rw [hkind]
    rfl
  rw [typeExpr, if_pos htype, typeName, dif_pos hkind]
  apply Reading.gives_done _ (Cursor.advance_of hc)
  rw [TypeExpr.bare, TypeExpr.bare, Cursor.value_of hc]

theorem importTypes_gives {ts : List TypeExpr}
    (hc : c.spellings = spellingsOf (listed (ts.map TypeExpr.pieces)) ++ ⟨.closeParen, v⟩ :: r) :
    (importTypes .standard c).Gives (·.map TypeExpr.bare = ts.map TypeExpr.bare)
      (⟨.closeParen, v⟩ :: r) := by
  induction ts generalizing c with
  | nil =>
    rw [importTypes, if_pos (Cursor.kind_of hc)]
    exact Reading.gives_pure rfl hc
  | cons t ts ih =>
    rw [List.map_cons, spellingsOf_listed_cons, List.append_assoc] at hc
    have hkind : c.kind = .identifier := Cursor.kind_of hc
    rw [importTypes, if_neg (by rw [hkind]; decide)]
    refine ((typeExpr_gives hc).andThen ?_).weaken _
    intro t' c₁ _ ht' hc₁
    refine (separator_gives hc₁ _).andThen ?_
    intro _ c₂ _ _ hc₂
    refine (ih hc₂).andThen ?_
    intro ts' c₃ _ hts' hc₃
    apply Reading.gives_pure _ hc₃
    rw [List.map_cons, List.map_cons, ht', hts']

theorem parameters_gives {ps : List Parameter}
    (hc : c.spellings = spellingsOf (listed (ps.map Parameter.pieces)) ++ ⟨.closeParen, v⟩ :: r) :
    (parameters .standard c).Gives (·.map Parameter.bare = ps.map Parameter.bare)
      (⟨.closeParen, v⟩ :: r) := by
  induction ps generalizing c with
  | nil =>
    rw [parameters, dif_pos (Cursor.kind_of hc)]
    exact Reading.gives_pure rfl hc
  | cons p ps ih =>
    rw [List.map_cons, spellingsOf_listed_cons, Parameter.pieces, spellingsOf_spaced,
      List.append_assoc, List.append_assoc] at hc
    have hkind : c.kind = .identifier := Cursor.kind_of hc
    rw [parameters, dif_neg (by rw [hkind]; decide)]
    refine (Cursor.expectAs_gives hc _).andThen ?_
    intro name c₁ _ hname hc₁
    refine (Cursor.expectAs_gives hc₁ _).andThen ?_
    intro _ c₂ _ _ hc₂
    refine ((typeExpr_gives hc₂).andThen ?_).weaken _
    intro type c₃ _ htype hc₃
    refine (separator_gives hc₃ _).andThen ?_
    intro _ c₄ _ _ hc₄
    refine (ih hc₄).andThen ?_
    intro ps' c₅ _ hps' hc₅
    apply Reading.gives_pure _ hc₅
    rw [List.map_cons, List.map_cons, hps', Parameter.bare, Parameter.bare, htype, hname]

/-- An arrow and a result type, if there is one. -/
def resultSpellings : Option TypeExpr → List Spelling
  | some t => ⟨.arrow, "->"⟩ :: spellingsOf t.pieces
  | none => []

theorem spellingsOf_signature (name : List Piece) (params : List (List Piece))
    (result : Option TypeExpr) :
    spellingsOf (signaturePieces name params result) =
      spellingsOf name ++ ⟨.openParen, "("⟩ ::
        (spellingsOf (listed params) ++ ⟨.closeParen, ")"⟩ :: resultSpellings result) := by
  cases result with
  | none => rw [signaturePieces, spellingsOf_applied, resultSpellings]
  | some t =>
    rw [signaturePieces, spellingsOf_spaced, spellingsOf_applied, spellingsOf_spaced]
    simp only [List.append_assoc, List.cons_append, List.nil_append]
    rfl

theorem resultType_gives {result : Option TypeExpr} (hc : c.spellings = resultSpellings result ++ r)
    (hr : nextKind r ≠ .arrow) :
    (resultType .standard c).Gives (·.map TypeExpr.bare = result.map TypeExpr.bare) r := by
  cases result with
  | none =>
    have hkind : c.kind ≠ .arrow := by
      rw [Cursor.kind_eq, hc]
      exact hr
    rw [resultType, if_neg hkind]
    exact Reading.gives_pure rfl hc
  | some t =>
    rw [resultType, if_pos (Cursor.kind_of hc)]
    refine ((typeExpr_gives (Cursor.advance_of hc)).andThen ?_).weaken _
    intro t' c₁ _ ht' hc₁
    apply Reading.gives_pure _ hc₁
    rw [Option.map_some, Option.map_some, ht']

/-! ### Imports and functions -/

def importSpellings : Option ImportSignature → List Spelling
  | some s => ⟨.openParen, "("⟩ :: (spellingsOf (listed (s.params.map TypeExpr.pieces)) ++
      ⟨.closeParen, ")"⟩ :: resultSpellings s.result)
  | none => []

theorem Import.spellingsOf_item (i : Import) :
    spellingsOf i.item = ⟨.identifier, i.name⟩ :: importSpellings i.signature := by
  rw [Import.item]
  split
  next s hs =>
    rw [spellingsOf_signature, hs]
    rfl
  next hs =>
    rw [hs]
    rfl

theorem importSignature_gives {signature : Option ImportSignature}
    (hc : c.spellings = importSpellings signature ++ r) (hopen : nextKind r ≠ .openParen)
    (harrow : nextKind r ≠ .arrow) :
    (importSignature .standard c).Gives
      (·.map ImportSignature.bare = signature.map ImportSignature.bare) r := by
  cases signature with
  | none =>
    have hkind : c.kind ≠ .openParen := by
      rw [Cursor.kind_eq, hc]
      exact hopen
    rw [importSignature, if_neg hkind]
    exact Reading.gives_pure rfl hc
  | some s =>
    rw [importSpellings, List.cons_append, List.append_assoc, List.cons_append] at hc
    rw [importSignature, if_pos (Cursor.kind_of hc)]
    refine ((importTypes_gives (Cursor.advance_of hc)).andThen ?_).weaken _
    intro params c₁ _ hparams hc₁
    refine (Cursor.expect_gives hc₁).andThen ?_
    intro _ c₂ _ _ hc₂
    refine (resultType_gives hc₂ harrow).andThen ?_
    intro result c₃ _ hresult hc₃
    apply Reading.gives_pure _ hc₃
    simp only [Option.map_some, ImportSignature.bare, hparams, hresult]

theorem importLine_gives {i : Import} {ls : List Line}
    (hc : c.spellings = layout 0 (i.line :: ls)) :
    (importLine .standard c).Gives (·.map Import.bare = [i.bare]) (layout 0 ls) := by
  rw [Import.line, layout_level, spellingsOf_spaced, spellingsOf_spaced, spellingsOf_spaced,
    i.spellingsOf_item] at hc
  simp only [List.append_assoc, List.cons_append] at hc
  rw [importLine]
  refine (Cursor.expectFirst_gives hc).andThen ?_
  intro _ c₁ _ _ hc₁
  refine (Cursor.expectAs_gives hc₁ _).andThen ?_
  intro module c₂ _ hmodule hc₂
  refine (Cursor.expect_gives hc₂).andThen ?_
  intro _ c₃ _ _ hc₃
  have hnames : (importedNames .standard module.value c₃).Gives (·.map Import.bare = [i.bare])
      (⟨.newline, "\\n"⟩ :: layout 0 ls) := by
    rw [importedNames]
    refine (Cursor.expectAs_gives hc₃ _).andThen ?_
    intro name c₄ _ hname hc₄
    refine (importSignature_gives hc₄ Kind.noConfusion Kind.noConfusion).andThen ?_
    intro signature c₅ _ hsignature hc₅
    dsimp only
    rw [dif_neg (by rw [Cursor.kind_of hc₅]; decide)]
    apply Reading.gives_pure _ hc₅
    simp only [List.map_cons, List.map_nil, Import.bare, hname, hmodule, hsignature]
  refine hnames.andThen ?_
  intro imports c₄ _ himports hc₄
  refine (Cursor.endOfLine_gives hc₄).andThen ?_
  intro _ c₅ _ _ hc₅
  exact Reading.gives_pure himports hc₅

theorem functionDef_gives {f : Function} (h : f.isPrintable = true) {chained : Bool}
    {more : List Line} (hmore : ∀ l ∈ more.head?, l.level = 0)
    (hc : c.spellings = layout 0 (f.lines chained ++ more)) :
    (functionDef .standard c).Gives (·.bare = f.bare) (layout 0 more) := by
  simp only [Function.isPrintable, Bool.and_eq_true] at h
  obtain ⟨hne, hstmts⟩ := Block.isPrintable_iff.mp h.2
  rw [Function.lines, List.cons_append, layout_level, spellingsOf_spaced, spellingsOf_append,
    spellingsOf_signature] at hc
  simp only [List.append_assoc, List.cons_append] at hc
  rw [functionDef]
  refine (Cursor.expectFirst_gives hc).andThen ?_
  intro _ c₁ _ _ hc₁
  refine (Cursor.expectAs_gives hc₁ _).andThen ?_
  intro name c₂ _ hname hc₂
  refine (Cursor.expect_gives hc₂).andThen ?_
  intro _ c₃ _ _ hc₃
  refine (parameters_gives hc₃).andThen ?_
  intro params c₄ _ hparams hc₄
  refine (Cursor.expect_gives hc₄).andThen ?_
  intro _ c₅ _ _ hc₅
  refine (resultType_gives hc₅ Kind.noConfusion).andThen ?_
  intro result c₆ _ hresult hc₆
  refine (block_gives hne (fun s hs => Stmt.readsBack (hstmts s hs))
    (fun l hl => Nat.le_of_eq (hmore l hl)) hc₆).andThen ?_
  intro body c₇ _ hbody hc₇
  apply Reading.gives_pure _ hc₇
  simp only [Function.bare, hname, hparams, hresult, hbody]

/-! ### Programs -/

theorem items_import {P : List Import → Prop} {w : List Spelling}
    (hc : c.spellings = ⟨.fromWord, v⟩ :: w) (h : (importLine .standard c).Gives P r) :
    ∃ line rest, P line ∧ rest.spellings = r ∧ items .standard c =
      (.imports line :: (items .standard rest).1, (items .standard rest).2) := by
  obtain ⟨line, rest, shorter, hread, hP, hrest⟩ := h
  have hkind : c.kind = .fromWord := Cursor.kind_of hc
  refine ⟨line, rest, hP, hrest, ?_⟩
  rw [items, dif_neg (by rw [hkind]; decide), if_neg (by rw [hkind]; decide), if_pos hkind, hread]

theorem items_function {P : Function → Prop} {w : List Spelling}
    (hc : c.spellings = ⟨.defWord, v⟩ :: w) (h : (functionDef .standard c).Gives P r) :
    ∃ definition rest, P definition ∧ rest.spellings = r ∧ items .standard c =
      (.function definition :: (items .standard rest).1, (items .standard rest).2) := by
  obtain ⟨definition, rest, shorter, hread, hP, hrest⟩ := h
  have hkind : c.kind = .defWord := Cursor.kind_of hc
  refine ⟨definition, rest, hP, hrest, ?_⟩
  rw [items, dif_neg (by rw [hkind]; decide), if_neg (by rw [hkind]; decide),
    if_neg (by rw [hkind]; decide), if_pos hkind, hread]

variable {chained : Bool} {fs : List Function}

theorem head_functionLines {l : Line} (hl : l ∈ (fs.flatMap (Function.lines chained)).head?) :
    l.level = 0 := by
  cases fs with
  | nil => cases hl
  | cons f fs =>
    cases hl
    rfl

theorem items_functions (h : ∀ f ∈ fs, f.isPrintable = true)
    (hc : c.spellings = layout 0 (fs.flatMap (Function.lines chained))) :
    ∃ its, items .standard c = (its, none) ∧
      (Program.ofItems its).bare = ⟨[], fs.map Function.bare⟩ := by
  induction fs generalizing c with
  | nil =>
    have hkind : c.kind = .eof := by
      rw [Cursor.kind_eq, hc]
      rfl
    refine ⟨[], ?_, rfl⟩
    rw [items, dif_pos hkind]
  | cons f fs ih =>
    rw [List.flatMap_cons] at hc
    have hdefinition := functionDef_gives (h f List.mem_cons_self) (fun l => head_functionLines) hc
    obtain ⟨definition, rest, hdef, hrest, hitems⟩ := items_function hc hdefinition
    obtain ⟨its, hits, hbare⟩ := ih (fun f' hf' => h f' (List.mem_cons_of_mem f hf')) hrest
    refine ⟨.function definition :: its, by rw [hitems, hits], ?_⟩
    simp only [Program.bare, Program.ofItems, Program.mk.injEq] at hbare
    simp [Program.bare, Program.ofItems, Item.importList, Item.functionList, hdef, hbare]

theorem items_program {is : List Import} (h : ∀ f ∈ fs, f.isPrintable = true)
    (hc : c.spellings = layout 0 (is.map Import.line ++ fs.flatMap (Function.lines chained))) :
    ∃ its, items .standard c = (its, none) ∧
      (Program.ofItems its).bare = ⟨is.map Import.bare, fs.map Function.bare⟩ := by
  induction is generalizing c with
  | nil => exact items_functions h hc
  | cons i is ih =>
    rw [List.map_cons, List.cons_append] at hc
    obtain ⟨line, rest, hline, hrest, hitems⟩ := items_import hc (importLine_gives hc)
    obtain ⟨its, hits, hbare⟩ := ih hrest
    refine ⟨.imports line :: its, by rw [hitems, hits], ?_⟩
    simp only [Program.bare, Program.ofItems, Program.mk.injEq] at hbare
    simp [Program.bare, Program.ofItems, Item.importList, Item.functionList, hline, hbare]

theorem Cursor.spellings_ofTokens {ts : List Token} {w : List Spelling} {v : String}
    (h : ts.map Token.spelling = w ++ [⟨.eof, v⟩]) : (Cursor.ofTokens ts).spellings = w := by
  obtain ⟨ts, us, rfl, hts, hus⟩ := List.map_eq_append_iff.mp h
  obtain ⟨t, rfl, ht⟩ := List.map_eq_singleton_iff.mp hus
  have hkind : t.kind = .eof := congrArg Spelling.kind ht
  rw [ofTokens, List.getLast?_concat]
  dsimp only
  rw [if_pos hkind, List.dropLast_concat]
  exact hts

end

/-- A printable program is read back from its text. -/
theorem Program.ofTokens_print {p : Program} (h : p.isPrintable = true) (chained : Bool) :
    ∃ ts q, Token.ofSource (p.print chained) = .ok ts ∧ Program.ofTokens ts = .ok q ∧
      q.bare = p.bare := by
  obtain ⟨ts, hscan, hspellings⟩ := ofSource_lines (Program.wellLaid_lines h chained)
  have hfunctions : ∀ f ∈ p.functions, f.isPrintable = true := by
    rw [Program.isPrintable, Bool.and_eq_true, List.all_eq_true, List.all_eq_true] at h
    exact h.2
  obtain ⟨its, hitems, hbare⟩ := items_program hfunctions (Cursor.spellings_ofTokens hspellings)
  refine ⟨ts, Program.ofItems its, hscan, ?_, hbare⟩
  rw [Program.ofTokens, itemsOf, hitems]

/-- A program with the literals and operators that are hard to write.  It goes on with `elif`
    if it is chained, and with an `if` inside `else` if it is not.

        from env import emit(int, float) -> int
        from env import tick
        def main(a: int, b: float) -> int:
            if -(4) > -2147483648 and (a and b):
                a = a - (ord('\'') - -a)
            elif b == -0.0…0:
                emit(ord('\n'), -0.1…0)
            return a
-/
def hardToWrite : Program where
  imports := [
    ⟨"env", "emit",
      some ⟨[⟨"int", .nowhere⟩, ⟨"float", .nowhere⟩], some ⟨"int", .nowhere⟩⟩, .nowhere⟩,
    ⟨"env", "tick", none, .nowhere⟩]
  functions := [
    { name := "main"
      params := [⟨"a", ⟨"int", .nowhere⟩, .nowhere⟩, ⟨"b", ⟨"float", .nowhere⟩, .nowhere⟩]
      result := some ⟨"int", .nowhere⟩
      body := ⟨[
        .ifElse
          (.logic .and (.compare .gt (.negate (.number 4 .nowhere) .nowhere)
            (.number Int32.minValue .nowhere) .nowhere)
            (.logic .and (.symbol "a" .nowhere) (.symbol "b" .nowhere) .nowhere) .nowhere)
          ⟨[.assign "a" (.binary .sub (.symbol "a" .nowhere)
            (.binary .sub (.char '\'' .nowhere) (.negate (.symbol "a" .nowhere) .nowhere) .nowhere)
            .nowhere) .nowhere], .nowhere⟩
          ⟨[.ifThen (.compare .eq (.symbol "b" .nowhere)
            (.float ⟨0x8000000000000000⟩ .nowhere) .nowhere)
            ⟨[.perform (.call "emit" [.char '\n' .nowhere,
              .float ⟨0xBFB999999999999A⟩ .nowhere] .nowhere) .nowhere], .nowhere⟩ .nowhere],
            .nowhere⟩ .nowhere,
        .ret (some (.symbol "a" .nowhere)) .nowhere], .nowhere⟩
      span := .nowhere }]

theorem hardToWrite_printed : hardToWrite.isPrintable = true ∧
    ∃ ts q, Token.ofSource (hardToWrite.print true) = .ok ts ∧ Program.ofTokens ts = .ok q ∧
      q.bare = hardToWrite.bare :=
  ⟨by decide, Program.ofTokens_print (by decide) true⟩

end Offside.Surface
