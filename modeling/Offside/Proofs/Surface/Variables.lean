/-
  Offside/Proofs/Surface/Variables.lean
  =====================================
  **The variables of a function**, as they can be read off its text.  What a body does to
  variables is the list of its accesses in the order in which they are written: the value of
  an assignment before its target, a condition before the branches, one branch before the
  other.  The variables of a function are its parameters and then every other name in the
  order of the first assignment to it.

  A body is initialised if every read of a name comes after a write to it or the name is
  that of a parameter.  Over a sequence this is decided part by part
  (`initialised_append`), what one part has written being known to the next.
-/
import Offside.Surface

namespace Offside.Surface

inductive Access where
  | read (name : String)
  | write (name : String)
deriving DecidableEq, Repr

mutual

def Expr.accesses : Expr → List Access
  | .number _ _ | .float _ _ | .char _ _ => []
  | .symbol name _ => [.read name]
  | .binary _ left right _ | .compare _ left right _ | .logic _ left right _ =>
    left.accesses ++ right.accesses
  | .negate operand _ => operand.accesses
  | .call _ arguments _ => exprAccesses arguments

def exprAccesses : List Expr → List Access
  | [] => []
  | e :: es => e.accesses ++ exprAccesses es

end

mutual

/-- What a statement does to variables, in the order in which it is written. -/
def Stmt.accesses : Stmt → List Access
  | .assign target value _ => value.accesses ++ [.write target]
  | .perform call _ => call.accesses
  | .ifThen condition body _ => condition.accesses ++ body.accesses
  | .ifElse condition body orElse _ =>
    condition.accesses ++ (body.accesses ++ orElse.accesses)
  | .whileDo condition body _ => condition.accesses ++ body.accesses
  | .ret (some value) _ => value.accesses
  | .ret none _ | .pass _ | .brk _ | .cont _ => []

def Block.accesses : Block Stmt → List Access
  | ⟨body, _⟩ => stmtAccesses body

def stmtAccesses : List Stmt → List Access
  | [] => []
  | s :: ss => s.accesses ++ stmtAccesses ss

end

theorem Block.accesses_eq (b : Block Stmt) : b.accesses = stmtAccesses b.body := by
  cases b
  rw [Block.accesses]

/-! ### Names that are written -/

def Access.written? : Access → Option String
  | .read _ => none
  | .write name => some name

def written (as : List Access) : List String := as.filterMap Access.written?

@[simp] theorem written_nil : written [] = [] := rfl

@[simp] theorem written_append (as bs : List Access) :
    written (as ++ bs) = written as ++ written bs := List.filterMap_append

theorem mem_written {name : String} {as : List Access} :
    name ∈ written as ↔ .write name ∈ as := by
  rw [written, List.mem_filterMap]
  constructor
  · rintro ⟨a, ha, h⟩
    cases a with
    | read _ => cases h
    | write x =>
      obtain rfl : x = name := Option.some.inj h
      exact ha
  · intro h
    exact ⟨.write name, h, rfl⟩

mutual

@[simp] theorem written_expr (e : Expr) : written e.accesses = [] := by
  cases e with
  | number _ _ | float _ _ | char _ _ | symbol _ _ => rfl
  | binary _ left right _ | compare _ left right _ | logic _ left right _ =>
    rw [Expr.accesses, written_append, written_expr left, written_expr right]
    rfl
  | negate operand _ => rw [Expr.accesses, written_expr operand]
  | call _ arguments _ => rw [Expr.accesses, written_exprs arguments]

theorem written_exprs (es : List Expr) : written (exprAccesses es) = [] := by
  cases es with
  | nil => rfl
  | cons e es =>
    rw [exprAccesses, written_append, written_expr e, written_exprs es]
    rfl

end

/-- The names of the parameters and then those of the other variables, each at its first
    assignment. -/
def Function.varNames (f : Function) : List String :=
  (f.params.map (·.name) ++ written f.body.accesses).eraseDups

theorem eraseDups_concat (xs : List String) (x : String) :
    (xs ++ [x]).eraseDups = if x ∈ xs then xs.eraseDups else xs.eraseDups ++ [x] := by
  rw [List.eraseDups_append]
  by_cases h : x ∈ xs
  · simp [List.removeAll, h]
  · simp [List.removeAll, List.eraseDups_cons, h]

theorem eraseDups_of_nodup {xs : List String} (h : xs.Nodup) : xs.eraseDups = xs := by
  induction xs with
  | nil => rfl
  | cons x xs ih =>
    obtain ⟨hx, hxs⟩ := List.nodup_cons.mp h
    have hfilter : xs.filter (fun y => !y == x) = xs := by
      rw [List.filter_eq_self]
      rintro y hy
      have hne : y ≠ x := fun heq => hx (heq ▸ hy)
      simpa using hne
    rw [List.eraseDups_cons, hfilter, ih hxs]

theorem eraseDups_prefix (xs ys : List String) : xs.eraseDups <+: (xs ++ ys).eraseDups := by
  rw [List.eraseDups_append]
  exact List.prefix_append _ _

/-! ### Names that are read -/

/-- Every name that is read is known or was written before. -/
def Initialised (known : List String) (as : List Access) : Prop :=
  ∀ before name after, as = before ++ .read name :: after →
    name ∈ known ∨ .write name ∈ before

theorem initialised_nil (known : List String) : Initialised known [] := by
  intro before name after h
  simp at h

theorem initialised_read {known : List String} {name : String} :
    Initialised known [.read name] ↔ name ∈ known := by
  constructor
  · intro h
    rcases h [] name [] rfl with hknown | hwrite
    · exact hknown
    · cases hwrite
  · intro hknown before x after h
    cases before with
    | nil =>
      obtain ⟨rfl, -⟩ : name = x ∧ after = [] := by simpa using h
      exact .inl hknown
    | cons a before => simp at h

theorem initialised_write (known : List String) (name : String) :
    Initialised known [.write name] := by
  intro before x after h
  cases before with
  | nil => simp at h
  | cons a before => simp at h

theorem initialised_append {known : List String} {as bs : List Access} :
    Initialised known (as ++ bs) ↔
      Initialised known as ∧ Initialised (known ++ written as) bs := by
  constructor
  · intro h
    constructor
    · intro before name after has
      exact h before name (after ++ bs) (by rw [has]; simp)
    · intro before name after hbs
      rcases h (as ++ before) name after (by rw [hbs]; simp) with hknown | hwrite
      · exact .inl (List.mem_append_left _ hknown)
      · rcases List.mem_append.mp hwrite with hwrite | hwrite
        · exact .inl (List.mem_append_right _ (mem_written.mpr hwrite))
        · exact .inr hwrite
  · rintro ⟨has, hbs⟩ before name after h
    -- the read stands in the second part, or it stands in the first
    rcases List.append_eq_append_iff.mp h with ⟨middle, rfl, hright⟩ | ⟨middle, rfl, hright⟩
    · rcases hbs middle name after hright with hknown | hwrite
      · rcases List.mem_append.mp hknown with hknown | hwritten
        · exact .inl hknown
        · exact .inr (List.mem_append_left _ (mem_written.mp hwritten))
      · exact .inr (List.mem_append_right _ hwrite)
    · cases middle with
      | nil =>
        rcases hbs [] name after hright.symm with hknown | hwrite
        · rcases List.mem_append.mp hknown with hknown | hwritten
          · exact .inl hknown
          · exact .inr (by simpa using mem_written.mp hwritten)
        · cases hwrite
      | cons a middle =>
        obtain ⟨rfl, -⟩ := List.cons.inj hright
        exact has before name middle rfl

/-! ### Bodies that always return -/

mutual

/-- Holds if every path through the statement ends in a `return`. -/
def Stmt.alwaysReturns : Stmt → Bool
  | .ret _ _ => true
  | .ifElse _ body orElse _ => body.alwaysReturns && orElse.alwaysReturns
  | .assign _ _ _ | .perform _ _ | .ifThen _ _ _ | .whileDo _ _ _ | .pass _ | .brk _ | .cont _ =>
    false

def Block.alwaysReturns : Block Stmt → Bool
  | ⟨body, _⟩ => someReturns body

def someReturns : List Stmt → Bool
  | [] => false
  | s :: ss => s.alwaysReturns || someReturns ss

end

theorem Block.alwaysReturns_eq (b : Block Stmt) : b.alwaysReturns = someReturns b.body := by
  cases b
  rw [Block.alwaysReturns]

end Offside.Surface
