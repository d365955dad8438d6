/-
  Offside/Proofs/Surface/Accept.lean
  ==================================
  **Which token lists are programs.**  Reading succeeds on a token list that ends in the end
  of the input exactly if the tokens before the first end of the input derive from the grammar
  of programs, and then the program read is the one derived (`Program.ofTokens_iff`).

  The lists of imported types and of parameters are read alike, with their own member and
  their own complaint: behind a member the reader goes on with `readFurther`.
-/
import Offside.Proofs.Surface.Recognise

namespace Offside.Surface

open Sentence

/-! ### Lists in parentheses -/

/-- Reads what separates the members of a list and the members behind `x`. -/
def readFurther {α : Type} (read : (c : Cursor) → Reading (List α) (c.left + 1))
    (expected : Expected) (x : α) (c : Cursor) : Reading (List α) (c.left + 1) :=
  (c.separator expected).andThen fun _ c₁ _ =>
    (read c₁).andThen fun xs c₂ _ => .pure (x :: xs) c₂

theorem importTypes_eq (g : Grammar) {c : Cursor} (h : c.kind ≠ .closeParen) :
    importTypes g c = ((typeExpr g c).andThen fun t c₁ _ =>
      readFurther (importTypes g) .importSignatureEnd t c₁).weaken c.left_le_succ := by
  rw [importTypes, if_neg h]
  rfl

theorem parameters_eq (g : Grammar) {c : Cursor} (h : c.kind ≠ .closeParen) :
    parameters g c = (c.expectAs .identifier .parameterName).andThen fun name c₁ _ =>
      (c₁.expectAs .colon .parameterType).andThen fun _ c₂ _ =>
        ((typeExpr g c₂).andThen fun type c₃ _ =>
          readFurther (parameters g) .parameterEnd
            ⟨name.value, type, name.span.cover type.span⟩ c₃).weaken c₂.left_le_succ := by
  rw [parameters, dif_neg h]
  rfl

section Lists

variable {α : Type} {read : (c : Cursor) → Reading (List α) (c.left + 1)} {bare : α → α}
  {M : List Spelling → List Spelling → α → Prop} {c : Cursor} {x : α}

theorem readFurther_takes {u : List Spelling} (expected : Expected)
    (hclose : ∀ c : Cursor, c.kind = .closeParen → read c = .pure [] c)
    (hread : ∀ c' : Cursor, c'.left < c.left + 1 → (read c').Takes c' fun _ xs c'' =>
      Listed M c'.spellings c''.spellings (xs.map bare))
    (hx : M u c.spellings (bare x)) :
    (readFurther read expected x c).Takes c fun _ xs c' =>
      Listed M u c'.spellings (xs.map bare) := by
  refine (separator_takes c expected).andThen ?_
  rintro w _ c₁ shorter hpast (⟨v, rfl⟩ | ⟨rfl, hclose₁⟩)
  · refine (hread c₁ shorter).andThen ?_
    intro _ xs c₂ _ _ hxs
    apply Reading.takes_pure
    rw [hpast.spellings] at hx
    exact .cons v hx hxs
  · rw [hclose c₁ hclose₁]
    apply Reading.takes_pure
    rw [hpast.spellings] at hx
    exact .last hx

theorem readFurther_last {r : List Spelling} (expected : Expected)
    (hclose : ∀ c : Cursor, c.kind = .closeParen → read c = .pure [] c)
    (hr : nextKind r = .closeParen) (hc : c.spellings = r) :
    (readFurther read expected x c).Gives (·.map bare = [bare x]) r := by
  have hkind : c.kind = .closeParen := by rwa [Cursor.kind_eq, hc]
  rw [readFurther, Cursor.separator, if_neg (by rw [hkind]; decide), if_pos hkind]
  refine (Reading.gives_pure (P := fun _ => True) trivial hc).andThen ?_
  intro _ c₁ _ _ hc₁
  rw [hclose c₁ (by rwa [Cursor.kind_eq, hc₁])]
  exact Reading.gives_pure rfl hc₁

theorem readFurther_cons {u r : List Spelling} {v : String} {xs : List α} (expected : Expected)
    (hc : c.spellings = ⟨.comma, v⟩ :: u)
    (hread : ∀ c' : Cursor, c'.spellings = u → (read c').Gives (·.map bare = xs) r) :
    (readFurther read expected x c).Gives (·.map bare = bare x :: xs) r := by
  refine (Cursor.separator_comma hc expected).andThen ?_
  intro _ c₁ _ _ hc₁
  refine (hread c₁ hc₁).andThen ?_
  intro ys c₂ _ hys hc₂
  apply Reading.gives_pure _ hc₂
  rw [List.map_cons, hys]

end Lists

theorem importTypes_close (c : Cursor) (h : c.kind = .closeParen) :
    importTypes .standard c = .pure [] c := by
  rw [importTypes, if_pos h]

theorem parameters_close (c : Cursor) (h : c.kind = .closeParen) :
    parameters .standard c = .pure [] c := by
  rw [parameters, dif_pos h]

/-! ### What is read as an import or a function -/

theorem typeExpr_takes (c : Cursor) : (typeExpr .standard c).Takes c fun _ t c' =>
    NamedType c.spellings c'.spellings t.bare := by
  rw [typeExpr]
  split
  · rw [typeName]
    by_cases hkind : c.kind = .identifier
    · rw [dif_pos hkind, Cursor.spellings_of_kind hkind (by decide)]
      exact Reading.takes_done (Cursor.past_of_kind hkind (by decide)) (.name _ _)
    · rw [dif_neg hkind]
      exact Reading.takes_stuck
  · exact Reading.takes_stuck

theorem resultType_takes (c : Cursor) : (resultType .standard c).Takes c fun _ t c' =>
    Result c.spellings c'.spellings (t.map TypeExpr.bare) := by
  rw [resultType]
  by_cases harrow : c.kind = .arrow
  · rw [if_pos harrow, Cursor.spellings_of_kind harrow (by decide)]
    refine (Reading.Takes.behind (Cursor.past_of_kind harrow (by decide)) ?_).weaken _
    refine (typeExpr_takes c.advance).andThen ?_
    intro _ t c₁ _ _ ht
    exact Reading.takes_pure (.arrow _ ht)
  · rw [if_neg harrow]
    exact Reading.takes_pure (.none _)

theorem importTypes_takes (c : Cursor) : (importTypes .standard c).Takes c fun _ ts c' =>
    Listed NamedType c.spellings c'.spellings (ts.map TypeExpr.bare) := by
  by_cases hclose : c.kind = .closeParen
  · rw [importTypes_close c hclose]
    exact Reading.takes_pure (.nil _)
  · rw [importTypes_eq .standard hclose]
    refine ((typeExpr_takes c).andThen ?_).weaken _
    intro _ t c₁ _ _ ht
    exact readFurther_takes _ importTypes_close (fun c' _ => importTypes_takes c') ht
termination_by c.left

theorem importSignature_takes (c : Cursor) : (importSignature .standard c).Takes c fun _ s c' =>
    Declared c.spellings c'.spellings (s.map ImportSignature.bare) := by
  rw [importSignature]
  by_cases hopen : c.kind = .openParen
  · rw [if_pos hopen, Cursor.spellings_of_kind hopen (by decide)]
    refine (Reading.Takes.behind (Cursor.past_of_kind hopen (by decide)) ?_).weaken _
    refine (importTypes_takes c.advance).andThen ?_
    intro _ params c₁ _ _ hparams
    refine (expectAs_takes c₁ (by decide) _).andThen ?_
    intro _ close c₂ _ _ hc₁
    refine (resultType_takes c₂).andThen ?_
    intro _ result c₃ _ _ hresult
    apply Reading.takes_pure
    rw [hc₁] at hparams
    exact .types _ _ hparams hresult
  · rw [if_neg hopen]
    exact Reading.takes_pure (.none _)

theorem importedNames_takes (module : String) (c : Cursor) :
    (importedNames .standard module c).Takes c fun _ is c' =>
      Names module c.spellings c'.spellings (is.map Import.bare) := by
  rw [importedNames]
  refine (expectAs_takes c (by decide) _).andThen ?_
  intro _ name c₁ _ _ hc
  rw [hc]
  refine (importSignature_takes c₁).andThen ?_
  intro _ signature c₂ _ _ hsignature
  dsimp only
  by_cases hcomma : c₂.kind = .comma
  · have hleft := Cursor.left_pos_of_kind hcomma (by decide)
    rw [dif_pos hcomma]
    refine (Reading.Takes.behind (Cursor.past_of_kind hcomma (by decide)) ?_).weaken _
    refine (importedNames_takes module c₂.advance).andThen ?_
    intro _ more c₃ _ _ hmore
    apply Reading.takes_pure
    rw [Cursor.spellings_of_kind hcomma (by decide)] at hsignature
    exact .cons _ _ hsignature hmore
  · rw [dif_neg hcomma]
    exact Reading.takes_pure (.last _ hsignature)
termination_by c.left
decreasing_by
  simp only [Cursor.advance_left] at *
  omega

theorem importLine_takes (c : Cursor) : (importLine .standard c).Takes c fun _ is c' =>
    ImportLine c.spellings c'.spellings (is.map Import.bare) := by
  rw [importLine]
  refine (expectFirst_takes c (by decide)).andThen ?_
  intro _ _ c₁ _ _ hc
  refine (expectAs_takes c₁ (by decide) _).andThen ?_
  intro _ module c₂ _ _ hc₁
  refine (expectAs_takes c₂ (by decide) _).andThen ?_
  intro _ _ c₃ _ _ hc₂
  refine (importedNames_takes module.value c₃).andThen ?_
  intro _ imports c₄ _ _ himports
  refine (endOfLine_takes c₄).andThen ?_
  intro _ _ c₅ _ _ hend
  apply Reading.takes_pure
  rw [hc, hc₁, hc₂]
  exact .line _ _ _ himports hend

theorem parameters_takes (c : Cursor) : (parameters .standard c).Takes c fun _ ps c' =>
    Listed Param c.spellings c'.spellings (ps.map Parameter.bare) := by
  by_cases hclose : c.kind = .closeParen
  · rw [parameters_close c hclose]
    exact Reading.takes_pure (.nil _)
  · rw [parameters_eq .standard hclose]
    refine (expectAs_takes c (by decide) _).andThen ?_
    intro _ name c₁ _ _ hc
    refine (expectAs_takes c₁ (by decide) _).andThen ?_
    intro _ _ c₂ _ _ hc₁
    rw [hc, hc₁]
    refine ((typeExpr_takes c₂).andThen ?_).weaken _
    intro _ type c₃ _ _ htype
    exact readFurther_takes _ parameters_close (fun c' _ => parameters_takes c')
      (.typed _ _ htype)
termination_by c.left
decreasing_by omega

theorem functionDef_takes (c : Cursor) : (functionDef .standard c).Takes c fun _ f c' =>
    Definition c.spellings c'.spellings f.bare := by
  rw [functionDef]
  refine (expectFirst_takes c (by decide)).andThen ?_
  intro _ _ c₁ _ _ hc
  refine (expectAs_takes c₁ (by decide) _).andThen ?_
  intro _ name c₂ _ _ hc₁
  refine (expectAs_takes c₂ (by decide) _).andThen ?_
  intro _ _ c₃ _ _ hc₂
  refine (parameters_takes c₃).andThen ?_
  intro _ params c₄ _ _ hparams
  refine (expectAs_takes c₄ (by decide) _).andThen ?_
  intro _ _ c₅ _ _ hc₄
  refine (resultType_takes c₅).andThen ?_
  intro _ result c₆ _ _ hresult
  refine (block_takes c₆).andThen ?_
  intro _ body c₇ _ _ hbody
  apply Reading.takes_pure
  rw [hc₄] at hparams
  rw [hc, hc₁, hc₂]
  exact .function _ _ _ _ hparams hresult hbody

theorem bare_ofItems_imports (line : List Import) (its : List Item) :
    (Program.ofItems (.imports line :: its)).bare =
      ⟨line.map Import.bare ++ (Program.ofItems its).bare.imports,
        (Program.ofItems its).bare.functions⟩ := by
  simp [Program.ofItems, Program.bare, Item.importList, Item.functionList]

theorem bare_ofItems_function (f : Function) (its : List Item) :
    (Program.ofItems (.function f :: its)).bare =
      ⟨(Program.ofItems its).bare.imports, f.bare :: (Program.ofItems its).bare.functions⟩ := by
  simp [Program.ofItems, Program.bare, Item.importList, Item.functionList]

/-- What is read up to the end of the input is a program of the grammar. -/
theorem items_takes {c : Cursor} {its : List Item} (h : items .standard c = (its, none)) :
    ∃ r, nextKind r = .eof ∧ Items c.spellings r (Program.ofItems its).bare := by
  fun_induction items Grammar.standard c generalizing its with
  | case1 c heof =>
    cases h
    rw [Cursor.kind_eq] at heof
    exact ⟨_, heof, .nil _⟩
  | case2 c _ hnewline ih =>
    obtain ⟨r, hr, hderived⟩ := ih h
    rw [Cursor.spellings_of_kind hnewline (by decide)]
    exact ⟨r, hr, .newline _ hderived⟩
  | case3 | case5 | case7 => cases h
  | case4 c _ _ _ line rest shorter hline more failure hmore ih =>
    cases h
    obtain ⟨r, hr, hderived⟩ := ih hmore
    obtain ⟨-, -, himports⟩ := importLine_takes c line rest shorter hline
    rw [bare_ofItems_imports]
    exact ⟨r, hr, .imports himports hderived⟩
  | case6 c _ _ _ _ f rest shorter hf more failure hmore ih =>
    cases h
    obtain ⟨r, hr, hderived⟩ := ih hmore
    obtain ⟨-, -, hdefinition⟩ := functionDef_takes c f rest shorter hf
    rw [bare_ofItems_function]
    exact ⟨r, hr, .function hdefinition hderived⟩

/-! ### Imports and functions are read -/

namespace Sentence

theorem NamedType.nextKind_eq {u r : List Spelling} {t : TypeExpr} (h : NamedType u r t) :
    nextKind u = .identifier := by
  obtain ⟨name⟩ := h
  rfl

theorem NamedType.gives {u r : List Spelling} {t : TypeExpr} (h : NamedType u r t) {c : Cursor}
    (hc : c.spellings = u) : (typeExpr .standard c).Gives (·.bare = t) r := by
  obtain ⟨name⟩ := h
  exact typeExpr_gives (t := ⟨name, .nowhere⟩) hc

theorem Result.gives {u r : List Spelling} {t : Option TypeExpr} (h : Result u r t)
    (hr : nextKind r ≠ .arrow) {c : Cursor} (hc : c.spellings = u) :
    (resultType .standard c).Gives (·.map TypeExpr.bare = t) r := by
  cases h with
  | none =>
    have hkind : c.kind ≠ .arrow := by rwa [Cursor.kind_eq, hc]
    rw [resultType, if_neg hkind]
    exact Reading.gives_pure rfl hc
  | arrow v h =>
    rw [resultType, if_pos (Cursor.kind_of hc)]
    refine ((h.gives (Cursor.advance_of hc)).andThen ?_).weaken _
    intro t c₁ _ ht hc₁
    apply Reading.gives_pure _ hc₁
    rw [Option.map_some, ht]

/-- A list is read up to its closing parenthesis if each member is, together with what is
    read further behind it. -/
theorem Listed.gives {α : Type} {read : (c : Cursor) → Reading (List α) (c.left + 1)}
    {bare : α → α} {M : List Spelling → List Spelling → α → Prop} {expected : Expected}
    (hclose : ∀ c : Cursor, c.kind = .closeParen → read c = .pure [] c)
    (hmember : ∀ {u r r' : List Spelling} {x : α} {Q : List α → Prop} {c : Cursor}, M u r x →
      c.spellings = u → (∀ x' c', bare x' = x → c'.spellings = r →
        (readFurther read expected x' c').Gives Q r') → (read c).Gives Q r')
    {u r : List Spelling} {xs : List α} (h : Listed M u r xs) (hr : nextKind r = .closeParen)
    {c : Cursor} (hc : c.spellings = u) : (read c).Gives (·.map bare = xs) r := by
  induction h generalizing c with
  | nil =>
    rw [hclose c (by rwa [Cursor.kind_eq, hc])]
    exact Reading.gives_pure rfl hc
  | last h =>
    refine hmember h hc ?_
    rintro x' c' rfl hc'
    exact readFurther_last _ hclose hr hc'
  | cons v h _ ih =>
    refine hmember h hc ?_
    rintro x' c' rfl hc'
    exact readFurther_cons _ hc' fun c'' hc'' => ih hr hc''

theorem NamedType.further_gives {u r r' : List Spelling} {t : TypeExpr}
    {Q : List TypeExpr → Prop} {c : Cursor} (h : NamedType u r t) (hc : c.spellings = u)
    (hfurther : ∀ (t' : TypeExpr) (c' : Cursor), t'.bare = t → c'.spellings = r →
      (readFurther (importTypes .standard) .importSignatureEnd t' c').Gives Q r') :
    (importTypes .standard c).Gives Q r' := by
  have hkind : c.kind = .identifier := by rw [Cursor.kind_eq, hc, h.nextKind_eq]
  rw [importTypes_eq .standard (by rw [hkind]; decide)]
  refine ((h.gives hc).andThen ?_).weaken _
  intro t' c₁ _ ht' hc₁
  exact hfurther t' c₁ ht' hc₁

theorem Param.further_gives {u r r' : List Spelling} {p : Parameter}
    {Q : List Parameter → Prop} {c : Cursor} (h : Param u r p) (hc : c.spellings = u)
    (hfurther : ∀ (p' : Parameter) (c' : Cursor), p'.bare = p → c'.spellings = r →
      (readFurther (parameters .standard) .parameterEnd p' c').Gives Q r') :
    (parameters .standard c).Gives Q r' := by
  obtain ⟨name, v, ht⟩ := h
  have hkind : c.kind = .identifier := Cursor.kind_of hc
  rw [parameters_eq .standard (by rw [hkind]; decide)]
  refine (Cursor.expectAs_gives hc _).andThen ?_
  intro name c₁ _ hname hc₁
  refine (Cursor.expectAs_gives hc₁ _).andThen ?_
  intro _ c₂ _ _ hc₂
  refine ((ht.gives hc₂).andThen ?_).weaken _
  intro type c₃ _ htype hc₃
  apply hfurther _ c₃ _ hc₃
  rw [Parameter.bare, hname, htype]

theorem Declared.gives {u r : List Spelling} {signature : Option ImportSignature}
    (h : Declared u r signature) (hopen : nextKind r ≠ .openParen) (harrow : nextKind r ≠ .arrow)
    {c : Cursor} (hc : c.spellings = u) :
    (importSignature .standard c).Gives (·.map ImportSignature.bare = signature) r := by
  cases h with
  | none =>
    have hkind : c.kind ≠ .openParen := by rwa [Cursor.kind_eq, hc]
    rw [importSignature, if_neg hkind]
    exact Reading.gives_pure rfl hc
  | types v v' hts ht =>
    rw [importSignature, if_pos (Cursor.kind_of hc)]
    have hparams := hts.gives importTypes_close NamedType.further_gives rfl (Cursor.advance_of hc)
    refine (hparams.andThen ?_).weaken _
    intro params c₁ _ hparams hc₁
    refine (Cursor.expect_gives hc₁).andThen ?_
    intro _ c₂ _ _ hc₂
    refine (ht.gives harrow hc₂).andThen ?_
    intro result c₃ _ hresult hc₃
    apply Reading.gives_pure _ hc₃
    rw [Option.map_some, ImportSignature.bare, hparams, hresult]

theorem Names.gives {module : String} {u r r' : List Spelling} {is : List Import}
    (h : Names module u r is) (hend : LineEnd r r') {c : Cursor} (hc : c.spellings = u) :
    (importedNames .standard module c).Gives (·.map Import.bare = is) r := by
  induction h generalizing c with
  | last name h =>
    rw [importedNames]
    refine (Cursor.expectAs_gives hc _).andThen ?_
    intro name c₁ _ hname hc₁
    refine (h.gives (hend.nextKind_ne (by decide)) (hend.nextKind_ne (by decide)) hc₁).andThen ?_
    intro signature c₂ _ hsignature hc₂
    have hkind : c₂.kind ≠ .comma := by
      rw [Cursor.kind_eq, hc₂]
      exact hend.nextKind_ne (by decide)
    dsimp only
    rw [dif_neg hkind]
    apply Reading.gives_pure _ hc₂
    rw [List.map_singleton, Import.bare, hname, hsignature]
  | cons name v h _ ih =>
    rw [importedNames]
    refine (Cursor.expectAs_gives hc _).andThen ?_
    intro name c₁ _ hname hc₁
    refine (h.gives Kind.noConfusion Kind.noConfusion hc₁).andThen ?_
    intro signature c₂ _ hsignature hc₂
    dsimp only
    rw [dif_pos (Cursor.kind_of hc₂)]
    refine ((ih hend (Cursor.advance_of hc₂)).andThen ?_).weaken _
    intro more c₃ _ hmore hc₃
    apply Reading.gives_pure _ hc₃
    rw [List.map_cons, Import.bare, hname, hsignature, hmore]

theorem ImportLine.gives {u r : List Spelling} {is : List Import} (h : ImportLine u r is)
    {c : Cursor} (hc : c.spellings = u) :
    (importLine .standard c).Gives (·.map Import.bare = is) r := by
  obtain ⟨v, module, v', hnames, hend⟩ := h
  rw [importLine]
  refine (Cursor.expectFirst_gives hc).andThen ?_
  intro _ c₁ _ _ hc₁
  refine (Cursor.expectAs_gives hc₁ _).andThen ?_
  rintro module c₂ _ rfl hc₂
  refine (Cursor.expect_gives hc₂).andThen ?_
  intro _ c₃ _ _ hc₃
  refine (hnames.gives hend hc₃).andThen ?_
  intro imports c₄ _ himports hc₄
  refine (hend.gives hc₄).andThen ?_
  intro _ c₅ _ _ hc₅
  exact Reading.gives_pure himports hc₅

theorem Definition.gives {u r : List Spelling} {f : Function} (h : Definition u r f)
    {c : Cursor} (hc : c.spellings = u) : (functionDef .standard c).Gives (·.bare = f) r := by
  obtain ⟨v, name, v', v'', hps, ht, hb⟩ := h
  rw [functionDef]
  refine (Cursor.expectFirst_gives hc).andThen ?_
  intro _ c₁ _ _ hc₁
  refine (Cursor.expectAs_gives hc₁ _).andThen ?_
  intro name c₂ _ hname hc₂
  refine (Cursor.expect_gives hc₂).andThen ?_
  intro _ c₃ _ _ hc₃
  refine (hps.gives parameters_close Param.further_gives rfl hc₃).andThen ?_
  intro params c₄ _ hparams hc₄
  refine (Cursor.expect_gives hc₄).andThen ?_
  intro _ c₅ _ _ hc₅
  refine (ht.gives (by rw [hb.nextKind_eq]; decide) hc₅).andThen ?_
  intro result c₆ _ hresult hc₆
  refine (hb.gives hc₆).andThen ?_
  intro body c₇ _ hbody hc₇
  apply Reading.gives_pure _ hc₇
  simp only [Function.bare, hname, hparams, hresult, hbody]

/-- A program of the grammar is read, if the end of the input comes next. -/
theorem Items.gives {u r : List Spelling} {p : Program} (h : Items u r p)
    (hr : nextKind r = .eof) {c : Cursor} (hc : c.spellings = u) :
    ∃ its, items .standard c = (its, none) ∧ (Program.ofItems its).bare = p := by
  induction h generalizing c with
  | nil =>
    rw [items, dif_pos (by rwa [Cursor.kind_eq, hc])]
    exact ⟨[], rfl, rfl⟩
  | newline v _ ih =>
    have hkind : c.kind = .newline := Cursor.kind_of hc
    rw [items, dif_neg (by rw [hkind]; decide), if_pos hkind]
    exact ih hr (Cursor.advance_of hc)
  | imports hi _ ih =>
    have hline := hi.gives hc
    obtain ⟨v, module, v', -, -⟩ := hi
    obtain ⟨line, rest, hbare, hrest, hitems⟩ := items_import hc hline
    obtain ⟨its, hits, rfl⟩ := ih hr hrest
    refine ⟨.imports line :: its, by rw [hitems, hits], ?_⟩
    rw [bare_ofItems_imports, hbare]
  | function hf _ ih =>
    have hdefinition := hf.gives hc
    obtain ⟨v, name, v', v'', -, -, -⟩ := hf
    obtain ⟨f, rest, hbare, hrest, hitems⟩ := items_function hc hdefinition
    obtain ⟨its, hits, rfl⟩ := ih hr hrest
    refine ⟨.function f :: its, by rw [hitems, hits], ?_⟩
    rw [bare_ofItems_function, hbare]

end Sentence

/-! ### Token lists -/

/-- What the tokens before the first end of the input say. -/
def beforeEnd (tokens : List Token) : List Spelling :=
  (tokens.takeWhile (·.kind ≠ .eof)).map Token.spelling

theorem inside_beforeEnd (tokens : List Token) : Inside (beforeEnd tokens) := by
  intro s hs
  obtain ⟨t, ht, rfl⟩ := List.mem_map.mp hs
  have hall := List.all_takeWhile (p := fun t : Token => decide (t.kind ≠ .eof)) (l := tokens)
  exact of_decide_eq_true (List.all_eq_true.mp hall t ht)

/-- The spellings ahead of a reader go on behind those before the first end of the input
    with an end of the input, or there are no more. -/
theorem exists_behind {tokens : List Token} (h : tokens.getLast?.map Token.kind = some .eof) :
    ∃ r, nextKind r = .eof ∧ (Cursor.ofTokens tokens).spellings = beforeEnd tokens ++ r := by
  obtain ⟨last, hlast, heof⟩ := Option.map_eq_some_iff.mp h
  obtain ⟨ts, rfl⟩ := List.getLast?_eq_some_iff.mp hlast
  have hspellings : (Cursor.ofTokens (ts ++ [last])).spellings = ts.map Token.spelling := by
    apply Cursor.spellings_ofTokens (v := last.value)
    rw [List.map_append, List.map_singleton, Token.spelling, heof]
  rw [hspellings]
  clear hspellings hlast h
  induction ts with
  | nil =>
    refine ⟨[], rfl, ?_⟩
    simp [beforeEnd, heof]
  | cons t ts ih =>
    by_cases ht : t.kind = .eof
    · refine ⟨(t :: ts).map Token.spelling, ht, ?_⟩
      simp [beforeEnd, ht]
    · obtain ⟨r, hr, hts⟩ := ih
      refine ⟨r, hr, ?_⟩
      rw [List.map_cons, hts]
      simp [beforeEnd, ht]

theorem Program.ofTokens_eq_ok {tokens : List Token} {p : Program} :
    Program.ofTokens tokens = .ok p ↔
      ∃ its, items .standard (Cursor.ofTokens tokens) = (its, none) ∧ Program.ofItems its = p := by
  rw [Program.ofTokens, itemsOf]
  rcases items .standard (Cursor.ofTokens tokens) with ⟨its, _ | why⟩
  · simp
  · simp

/-- Reading succeeds on a token list with the end of the input at its end exactly if the
    tokens before the first end of the input derive from the grammar, and the program read
    is, without its spans, the one derived. -/
theorem Program.ofTokens_iff {tokens : List Token}
    (h : tokens.getLast?.map Token.kind = some .eof) (p : Program) :
    (∃ q, Program.ofTokens tokens = .ok q ∧ q.bare = p) ↔ Items (beforeEnd tokens) [] p := by
  obtain ⟨r, hr, hspellings⟩ := exists_behind h
  constructor
  · rintro ⟨q, hq, rfl⟩
    obtain ⟨its, hits, rfl⟩ := Program.ofTokens_eq_ok.mp hq
    obtain ⟨r', hr', hderived⟩ := items_takes hits
    obtain ⟨w, hw, hinside, hconfined⟩ := hderived.confined
    have heq : w = beforeEnd tokens :=
      hinside.unique (inside_beforeEnd tokens) hr' hr (hw.symm.trans hspellings)
    rw [← heq, ← List.append_nil w]
    exact hconfined [] hr'.symm
  · intro hderived
    obtain ⟨w, hw, -, hconfined⟩ := hderived.confined
    rw [List.append_nil] at hw
    rw [hw] at hspellings
    obtain ⟨its, hits, hbare⟩ := (hconfined r hr).gives hr hspellings
    exact ⟨_, Program.ofTokens_eq_ok.mpr ⟨its, hits, rfl⟩, hbare⟩

/-- A program without its last line end, and more tokens behind the end of the input. -/
def endsTwice : List Token :=
  [⟨.fromWord, "from", .nowhere⟩, ⟨.identifier, "m", .nowhere⟩, ⟨.importWord, "import", .nowhere⟩,
    ⟨.identifier, "f", .nowhere⟩, ⟨.openParen, "(", .nowhere⟩, ⟨.identifier, "int", .nowhere⟩,
    ⟨.comma, ",", .nowhere⟩, ⟨.closeParen, ")", .nowhere⟩, ⟨.comma, ",", .nowhere⟩,
    ⟨.identifier, "g", .nowhere⟩, ⟨.newline, "", .nowhere⟩,
    ⟨.defWord, "def", .nowhere⟩, ⟨.identifier, "h", .nowhere⟩, ⟨.openParen, "(", .nowhere⟩,
    ⟨.identifier, "x", .nowhere⟩, ⟨.colon, ":", .nowhere⟩, ⟨.identifier, "int", .nowhere⟩,
    ⟨.closeParen, ")", .nowhere⟩, ⟨.colon, ":", .nowhere⟩, ⟨.newline, "", .nowhere⟩,
    ⟨.indent, "", .nowhere⟩, ⟨.ifWord, "if", .nowhere⟩, ⟨.identifier, "x", .nowhere⟩,
    ⟨.colon, ":", .nowhere⟩, ⟨.passWord, "pass", .nowhere⟩, ⟨.newline, "", .nowhere⟩,
    ⟨.elifWord, "elif", .nowhere⟩, ⟨.openParen, "(", .nowhere⟩, ⟨.identifier, "x", .nowhere⟩,
    ⟨.closeParen, ")", .nowhere⟩, ⟨.colon, ":", .nowhere⟩, ⟨.returnWord, "return", .nowhere⟩,
    ⟨.dedent, "", .nowhere⟩, ⟨.eof, "", .nowhere⟩, ⟨.defWord, "def", .nowhere⟩,
    ⟨.eof, "", .nowhere⟩]

/-- The function in `endsTwice`. -/
def branching : Function :=
  ⟨"h", [⟨"x", ⟨"int", .nowhere⟩, .nowhere⟩], none,
    ⟨[.ifElse (.symbol "x" .nowhere) ⟨[.pass .nowhere], .nowhere⟩
      ⟨[.ifThen (.symbol "x" .nowhere) ⟨[.ret none .nowhere], .nowhere⟩ .nowhere], .nowhere⟩
      .nowhere], .nowhere⟩, .nowhere⟩

/-- The program in `endsTwice`. -/
def importsAndBranches : Program :=
  ⟨[⟨"m", "f", some ⟨[⟨"int", .nowhere⟩], none⟩, .nowhere⟩, ⟨"m", "g", none, .nowhere⟩],
    [branching]⟩

theorem endsTwice_derived : Items (beforeEnd endsTwice) [] importsAndBranches := by
  have hx : ∀ r, Expression (⟨.identifier, "x"⟩ :: ⟨.colon, ":"⟩ :: r) (⟨.colon, ":"⟩ :: r)
      (.symbol "x" .nowhere) := fun r =>
    expression_iff.mpr ⟨[⟨.identifier, "x"⟩], rfl, .symbol _ _, loose_of_none rfl⟩
  have hparens : ∀ r, Expression (⟨.openParen, "("⟩ :: ⟨.identifier, "x"⟩ ::
      ⟨.closeParen, ")"⟩ :: ⟨.colon, ":"⟩ :: r) (⟨.colon, ":"⟩ :: r) (.symbol "x" .nowhere) :=
    fun r => expression_iff.mpr ⟨_, rfl, .group _ "(" ")" (.symbol _ "x"), loose_of_none rfl⟩
  have hreturn : Suite [⟨.colon, ":"⟩, ⟨.returnWord, "return"⟩, ⟨.dedent, ""⟩] [⟨.dedent, ""⟩]
      ⟨[.ret none .nowhere], .nowhere⟩ := .line _ (by decide) (.ret _ (.before (.inr rfl)))
  have hpass : ∀ r, Suite (⟨.colon, ":"⟩ :: ⟨.passWord, "pass"⟩ :: ⟨.newline, ""⟩ :: r) r
      ⟨[.pass .nowhere], .nowhere⟩ := fun r => .line _ (by simp) (.pass _ (.newline _ _))
  have hlast := Conditional.branch (hparens _) hreturn (.none _ _ _)
  have hbranch := Conditional.branch (hx _) (hpass _) (.elif _ _ "elif" hlast)
  have hbody := Suite.indented ":" "" "" "" (.cons (.conditional "if" hbranch) (.nil _))
  refine .imports (p := ⟨[], [branching]⟩) (.line "from" "m" "import" (.cons "f" "," (.types "(" ")"
    (.cons "," (.name "int" _) (.nil _)) (.none _)) (.last "g" (.none _))) (.newline "" _)) ?_
  exact .function (p := ⟨[], []⟩) (.function "def" "h" "(" ")"
    (.last (.typed "x" ":" (.name "int" _))) (.none _) hbody) (.nil _)

theorem endsTwice_read : endsTwice.getLast?.map Token.kind = some .eof ∧
    Items (beforeEnd endsTwice) [] importsAndBranches ∧
    ∃ q, Program.ofTokens endsTwice = .ok q ∧ q.bare = importsAndBranches :=
  ⟨rfl, endsTwice_derived, (Program.ofTokens_iff rfl importsAndBranches).mpr endsTwice_derived⟩

end Offside.Surface
