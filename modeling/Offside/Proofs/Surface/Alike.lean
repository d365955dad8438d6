/-
  Offside/Proofs/Surface/Alike.lean
  =================================
  **Where tokens stand makes no difference to how they are read.**  Two token lists that say
  the same, token for token, are read in the same way, whatever their spans are.  The trees
  differ in nothing but spans, and if they cannot be read then for the same cause.

  More is true.  A reader never makes up a place where something starts: it takes it from
  one of the tokens.  So let `R` be any relation between positions.  If the starts of the
  tokens are related pairwise, then so are the starts of all parts of the two trees, and the
  positions at which the two readings fail.  `Alike R` says this of tokens, of trees and of
  the results of readers.  With the relation that always holds it is about two texts that say
  the same; with a relation that holds of a position and itself only if the position has some
  property, it is about one text, all of whose reported positions have that property.

  Where something stops is never looked at, and so nothing is said of it.
-/
import Mathlib.Data.List.Forall2
import Offside.Proofs.Surface.Spelling

namespace Offside

/-! ### Spans, tokens and results -/

/-- The spans start at related positions. -/
def Span.Alike (R : Position → Position → Prop) (a b : Span) : Prop := R a.start b.start

/-- The tokens say the same and start at related positions. -/
structure Token.Alike (R : Position → Position → Prop) (t t' : Token) : Prop where
  kind : t.kind = t'.kind
  value : t.value = t'.value
  span : t.span.Alike R t'.span

/-- The diagnostics have the same cause, at related positions. -/
structure Diagnostic.Alike (R : Position → Position → Prop) (d d' : Diagnostic) : Prop where
  cause : d.cause = d'.cause
  position : R d.position d'.position

/-- Both steps give values in `S`, or both refuse for the same cause. -/
inductive ResultAlike (R : Position → Position → Prop) {α β : Type} (S : α → β → Prop) :
    Except Diagnostic α → Except Diagnostic β → Prop where
  | ok {a : α} {b : β} (value : S a b) : ResultAlike R S (.ok a) (.ok b)
  | error {d d' : Diagnostic} (why : d.Alike R d') : ResultAlike R S (.error d) (.error d')

theorem ResultAlike.bind {R : Position → Position → Prop} {α β γ δ : Type} {S : α → β → Prop}
    {T : γ → δ → Prop} {x : Except Diagnostic α} {y : Except Diagnostic β}
    (h : ResultAlike R S x y) {next : α → Except Diagnostic γ} {next' : β → Except Diagnostic δ}
    (hnext : ∀ a b, S a b → ResultAlike R T (next a) (next' b)) :
    ResultAlike R T (x >>= next) (y >>= next') := by
  cases h with
  | ok value => exact hnext _ _ value
  | error why => exact .error why

theorem Token.Alike.text {R : Position → Position → Prop} {t t' : Token} (h : t.Alike R t') :
    t.text = t'.text := by
  rw [Token.text, Token.text, h.kind, h.value]

/-! ### Lists -/

theorem forall₂_getElem? {α β : Type} {S : α → β → Prop} {xs : List α} {ys : List β}
    (h : List.Forall₂ S xs ys) (index : Nat) : Option.Rel S xs[index]? ys[index]? := by
  induction h generalizing index with
  | nil => exact .none
  | cons hxy _ ih =>
    cases index with
    | zero => exact .some hxy
    | succ index => exact ih index

theorem forall₂_modify {α β : Type} {S : α → β → Prop} {xs : List α} {ys : List β}
    (h : List.Forall₂ S xs ys) (index : Nat) {f : α → α} {g : β → β}
    (hfg : ∀ x y, S x y → S (f x) (g y)) :
    List.Forall₂ S (xs.modify index f) (ys.modify index g) := by
  induction h generalizing index with
  | nil =>
    rw [List.modify_nil, List.modify_nil]
    exact .nil
  | cons hxy hrest ih =>
    cases index with
    | zero => exact .cons (hfg _ _ hxy) hrest
    | succ index => exact .cons hxy (ih index)

namespace Surface

open Number

/-! ### Trees -/

/-- The annotations name the same type. -/
structure TypeExpr.Alike (R : Position → Position → Prop) (a b : TypeExpr) : Prop where
  name : a.name = b.name
  span : a.span.Alike R b.span

mutual

/-- The expressions differ in their spans alone, which start at related positions. -/
inductive Expr.Alike (R : Position → Position → Prop) : Expr → Expr → Prop where
  | number (value : Int32) {s s' : Span} (hs : s.Alike R s') :
      Expr.Alike R (.number value s) (.number value s')
  | float (value : Binary64) {s s' : Span} (hs : s.Alike R s') :
      Expr.Alike R (.float value s) (.float value s')
  | char (value : Char) {s s' : Span} (hs : s.Alike R s') :
      Expr.Alike R (.char value s) (.char value s')
  | symbol (name : String) {s s' : Span} (hs : s.Alike R s') :
      Expr.Alike R (.symbol name s) (.symbol name s')
  | binary (op : BinaryOp) {l l' r r' : Expr} {s s' : Span} (hl : l.Alike R l')
      (hr : r.Alike R r') (hs : s.Alike R s') :
      Expr.Alike R (.binary op l r s) (.binary op l' r' s')
  | compare (op : CompareOp) {l l' r r' : Expr} {s s' : Span} (hl : l.Alike R l')
      (hr : r.Alike R r') (hs : s.Alike R s') :
      Expr.Alike R (.compare op l r s) (.compare op l' r' s')
  | logic (op : BoolOp) {l l' r r' : Expr} {s s' : Span} (hl : l.Alike R l')
      (hr : r.Alike R r') (hs : s.Alike R s') :
      Expr.Alike R (.logic op l r s) (.logic op l' r' s')
  | negate {e e' : Expr} {s s' : Span} (he : e.Alike R e') (hs : s.Alike R s') :
      Expr.Alike R (.negate e s) (.negate e' s')
  | call (callee : String) {es es' : List Expr} {s s' : Span} (hes : ExprsAlike R es es')
      (hs : s.Alike R s') : Expr.Alike R (.call callee es s) (.call callee es' s')

inductive ExprsAlike (R : Position → Position → Prop) : List Expr → List Expr → Prop where
  | nil : ExprsAlike R [] []
  | cons {e e' : Expr} {es es' : List Expr} (he : e.Alike R e') (hes : ExprsAlike R es es') :
      ExprsAlike R (e :: es) (e' :: es')

end

mutual

/-- The statements differ in their spans alone. -/
inductive Stmt.Alike (R : Position → Position → Prop) : Stmt → Stmt → Prop where
  | assign (target : String) {e e' : Expr} {s s' : Span} (he : e.Alike R e')
      (hs : s.Alike R s') : Stmt.Alike R (.assign target e s) (.assign target e' s')
  | perform {e e' : Expr} {s s' : Span} (he : e.Alike R e') (hs : s.Alike R s') :
      Stmt.Alike R (.perform e s) (.perform e' s')
  | ifThen {e e' : Expr} {b b' : Block Stmt} {s s' : Span} (he : e.Alike R e')
      (hb : BlockAlike R b b') (hs : s.Alike R s') :
      Stmt.Alike R (.ifThen e b s) (.ifThen e' b' s')
  | ifElse {e e' : Expr} {b b' o o' : Block Stmt} {s s' : Span} (he : e.Alike R e')
      (hb : BlockAlike R b b') (ho : BlockAlike R o o') (hs : s.Alike R s') :
      Stmt.Alike R (.ifElse e b o s) (.ifElse e' b' o' s')
  | whileDo {e e' : Expr} {b b' : Block Stmt} {s s' : Span} (he : e.Alike R e')
      (hb : BlockAlike R b b') (hs : s.Alike R s') :
      Stmt.Alike R (.whileDo e b s) (.whileDo e' b' s')
  | retNone {s s' : Span} (hs : s.Alike R s') : Stmt.Alike R (.ret none s) (.ret none s')
  | ret {e e' : Expr} {s s' : Span} (he : e.Alike R e') (hs : s.Alike R s') :
      Stmt.Alike R (.ret (some e) s) (.ret (some e') s')
  | pass {s s' : Span} (hs : s.Alike R s') : Stmt.Alike R (.pass s) (.pass s')
  | brk {s s' : Span} (hs : s.Alike R s') : Stmt.Alike R (.brk s) (.brk s')
  | cont {s s' : Span} (hs : s.Alike R s') : Stmt.Alike R (.cont s) (.cont s')

inductive BlockAlike (R : Position → Position → Prop) : Block Stmt → Block Stmt → Prop where
  | intro {ss ss' : List Stmt} {s s' : Span} (hss : StmtsAlike R ss ss') :
      BlockAlike R ⟨ss, s⟩ ⟨ss', s'⟩

inductive StmtsAlike (R : Position → Position → Prop) : List Stmt → List Stmt → Prop where
  | nil : StmtsAlike R [] []
  | cons {s s' : Stmt} {ss ss' : List Stmt} (hs : s.Alike R s') (hss : StmtsAlike R ss ss') :
      StmtsAlike R (s :: ss) (s' :: ss')

end

structure ImportSignature.Alike (R : Position → Position → Prop) (a b : ImportSignature) :
    Prop where
  params : List.Forall₂ (TypeExpr.Alike R) a.params b.params
  result : Option.Rel (TypeExpr.Alike R) a.result b.result

structure Import.Alike (R : Position → Position → Prop) (i j : Import) : Prop where
  module : i.module = j.module
  name : i.name = j.name
  signature : Option.Rel (ImportSignature.Alike R) i.signature j.signature
  span : i.span.Alike R j.span

structure Parameter.Alike (R : Position → Position → Prop) (q q' : Parameter) : Prop where
  name : q.name = q'.name
  type : q.type.Alike R q'.type
  span : q.span.Alike R q'.span

structure Function.Alike (R : Position → Position → Prop) (f f' : Function) : Prop where
  name : f.name = f'.name
  params : List.Forall₂ (Parameter.Alike R) f.params f'.params
  result : Option.Rel (TypeExpr.Alike R) f.result f'.result
  body : BlockAlike R f.body f'.body
  span : f.span.Alike R f'.span

/-- The programs differ in their spans alone, which start at related positions. -/
structure Program.Alike (R : Position → Position → Prop) (p p' : Program) : Prop where
  imports : List.Forall₂ (Import.Alike R) p.imports p'.imports
  functions : List.Forall₂ (Function.Alike R) p.functions p'.functions

variable {R : Position → Position → Prop}

theorem Expr.Alike.span {e e' : Expr} (h : e.Alike R e') : e.span.Alike R e'.span := by
  cases h with
  | number _ hs | float _ hs | char _ hs | symbol _ hs | binary _ _ _ hs | compare _ _ _ hs
  | logic _ _ _ hs | negate _ hs | call _ _ hs => exact hs

/-! ### Cursors -/

/-- The same is ahead of the cursors. -/
structure Cursor.Alike (R : Position → Position → Prop) (c c' : Cursor) : Prop where
  ahead : List.Forall₂ (Token.Alike R) c.ahead c'.ahead
  inputEnd : c.inputEnd.token.Alike R c'.inputEnd.token

namespace Cursor.Alike

variable {c c' : Cursor}

theorem current (h : c.Alike R c') : c.current.Alike R c'.current := by
  obtain ⟨previous, ahead, inputEnd⟩ := c
  obtain ⟨previous', ahead', inputEnd'⟩ := c'
  obtain ⟨hahead, hend⟩ := h
  cases hahead with
  | nil => exact hend
  | cons ht _ => exact ht

theorem kind (h : c.Alike R c') : c.kind = c'.kind := h.current.kind

theorem position (h : c.Alike R c') : R c.position c'.position := h.current.span

theorem advance (h : c.Alike R c') : c.advance.Alike R c'.advance := by
  obtain ⟨previous, ahead, inputEnd⟩ := c
  obtain ⟨previous', ahead', inputEnd'⟩ := c'
  obtain ⟨hahead, hend⟩ := h
  cases hahead with
  | nil => exact ⟨.nil, hend⟩
  | cons _ hts => exact ⟨hts, hend⟩

theorem left (h : c.Alike R c') : c.left = c'.left := h.ahead.length_eq

theorem peek (h : c.Alike R c') : c.peek = c'.peek := by
  obtain ⟨previous, ahead, inputEnd⟩ := c
  obtain ⟨previous', ahead', inputEnd'⟩ := c'
  obtain ⟨hahead, -⟩ := h
  cases hahead with
  | nil => rfl
  | cons _ hts =>
    cases hts with
    | nil => rfl
    | cons ht _ => exact ht.kind

theorem unexpected (h : c.Alike R c') (expected : Expected) :
    (c.unexpected expected).Alike R (c'.unexpected expected) := by
  refine ⟨?_, h.position⟩
  rw [Cursor.unexpected, Cursor.unexpected, h.current.text]

end Cursor.Alike

/-- The same is ahead of the first tokens, if where the input ends is related as well. -/
theorem Cursor.ofTokens_alike {ts ts' : List Token} (h : List.Forall₂ (Token.Alike R) ts ts')
    (hend : (Cursor.ofTokens ts).inputEnd.span.Alike R (Cursor.ofTokens ts').inputEnd.span) :
    (Cursor.ofTokens ts).Alike R (Cursor.ofTokens ts') := by
  have hlast : Option.Rel (Token.Alike R) ts.getLast? ts'.getLast? := by
    rw [List.getLast?_eq_getElem?, List.getLast?_eq_getElem?, ← h.length_eq]
    exact forall₂_getElem? h _
  have hinit : List.Forall₂ (Token.Alike R) ts.dropLast ts'.dropLast := by
    rw [List.dropLast_eq_take, List.dropLast_eq_take, ← h.length_eq]
    exact List.forall₂_take _ h
  unfold Cursor.ofTokens at hend ⊢
  generalize ts.getLast? = x, ts'.getLast? = y at hlast hend
  cases hlast with
  | none => exact ⟨.nil, rfl, rfl, hend⟩
  | @some t t' ht =>
    dsimp only at hend ⊢
    rw [← ht.kind] at hend ⊢
    by_cases heof : t.kind = .eof
    · rw [if_pos heof, if_pos heof]
      exact ⟨hinit, rfl, ht.value, ht.span⟩
    · rw [if_neg heof, if_neg heof] at hend ⊢
      exact ⟨h, rfl, rfl, hend⟩

/-! ### Readings -/

/-- Both readings give values in `S` with the same ahead, or both fail for the same cause. -/
inductive Reading.Alike (R : Position → Position → Prop) {α β : Type} (S : α → β → Prop)
    {m n : Nat} : Reading α m → Reading β n → Prop where
  | done {a : α} {b : β} {c c' : Cursor} {hc : c.left < m} {hc' : c'.left < n} (value : S a b)
      (rest : c.Alike R c') : Reading.Alike R S (.done a c hc) (.done b c' hc')
  | stuck {d d' : Diagnostic} {c c' : Cursor} (why : d.Alike R d') :
      Reading.Alike R S (.stuck d c) (.stuck d' c')

namespace Reading.Alike

variable {α β γ δ : Type} {S : α → β → Prop} {T : γ → δ → Prop} {m n m' n' : Nat}

theorem pure {a : α} {b : β} {c c' : Cursor} (value : S a b) (rest : c.Alike R c') :
    Reading.Alike R S (Reading.pure a c) (Reading.pure b c') := .done value rest

theorem weaken {x : Reading α m} {y : Reading β n} (h : x.Alike R S y) (hm : m ≤ m')
    (hn : n ≤ n') : (x.weaken hm).Alike R S (y.weaken hn) := by
  cases h with
  | done value rest => exact .done value rest
  | stuck why => exact .stuck why

/-- Two sequences are alike if the second readers are, behind values that correspond. -/
theorem andThen {x : Reading α m} {y : Reading β n} (h : x.Alike R S y)
    {next : (value : α) → (c : Cursor) → c.left < m → Reading γ (c.left + 1)}
    {next' : (value : β) → (c : Cursor) → c.left < n → Reading δ (c.left + 1)}
    (hnext : ∀ a b c c' hc hc', S a b → c.Alike R c' →
      (next a c hc).Alike R T (next' b c' hc')) :
    (x.andThen next).Alike R T (y.andThen next') := by
  cases h with
  | done value rest =>
    rename_i hc hc'
    exact (hnext _ _ _ _ hc hc' value rest).weaken hc hc'
  | stuck why => exact .stuck why

/-- Two readings by cases are alike if they are in each case. -/
theorem dite {p q : Prop} [Decidable p] [Decidable q] (hpq : p ↔ q) {x : p → Reading α m}
    {x' : ¬ p → Reading α m} {y : q → Reading β n} {y' : ¬ q → Reading β n}
    (hthen : ∀ hp hq, (x hp).Alike R S (y hq)) (helse : ∀ hp hq, (x' hp).Alike R S (y' hq)) :
    Reading.Alike R S (if h : p then x h else x' h) (if h : q then y h else y' h) := by
  by_cases hp : p
  · rw [dif_pos hp, dif_pos (hpq.mp hp)]
    exact hthen hp _
  · rw [dif_neg hp, dif_neg (fun hq => hp (hpq.mpr hq))]
    exact helse hp _

theorem ite {p q : Prop} [Decidable p] [Decidable q] (hpq : p ↔ q) {x x' : Reading α m}
    {y y' : Reading β n} (hthen : p → x.Alike R S y) (helse : ¬ p → x'.Alike R S y') :
    Reading.Alike R S (if p then x else x') (if q then y else y') :=
  dite hpq (fun hp _ => hthen hp) (fun hp _ => helse hp)

end Reading.Alike

end Surface
end Offside
