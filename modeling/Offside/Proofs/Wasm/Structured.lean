/-
  Offside/Proofs/Wasm/Structured.lean
  ===================================
  **Structured code.**  A function body is a flat list of instructions in which `block`,
  `loop` and `if` stand before what they enclose and `end` behind it.  Its meaning is that
  of a tree: a sequence of `Node`s, each a plain instruction or a construct with the
  sequences it encloses.  `flattenAll` writes a tree down as a list.

  Not every list is a tree written down, and none is two: `structured?` reads a list from
  left to right, with what is still open on a stack, and finds the tree exactly if there is
  one (`structured?_eq_some_iff`).
-/
import Offside.Wasm.Instr

namespace Offside.Wasm

/-- An instruction that neither opens nor divides nor closes a construct. -/
inductive Plain where
  | unreachable
  | br (depth : UInt32)
  | brIf (depth : UInt32)
  | ret
  | call (index : UInt32)
  | drop
  | localGet (slot : UInt32)
  | localSet (slot : UInt32)
  | i32Const (value : Int32)
  | f64Const (value : Number.Binary64)
  | i32Eqz
  | f64Neg
  | compare (type : ValType) (op : CompareOp)
  | arith (type : ValType) (op : BinaryOp)
  | logic (op : BoolOp)
deriving DecidableEq, Repr

def Plain.instr : Plain → Instr
  | unreachable => .unreachable
  | br depth => .br depth
  | brIf depth => .brIf depth
  | ret => .ret
  | call index => .call index
  | drop => .drop
  | localGet slot => .localGet slot
  | localSet slot => .localSet slot
  | i32Const value => .i32Const value
  | f64Const value => .f64Const value
  | i32Eqz => .i32Eqz
  | f64Neg => .f64Neg
  | compare type op => .compare type op
  | arith type op => .arith type op
  | logic op => .logic op

def Instr.plain? : Instr → Option Plain
  | block | loop | ifThen | elseThen | endBlock => none
  | unreachable => some .unreachable
  | br depth => some (.br depth)
  | brIf depth => some (.brIf depth)
  | ret => some .ret
  | call index => some (.call index)
  | drop => some .drop
  | localGet slot => some (.localGet slot)
  | localSet slot => some (.localSet slot)
  | i32Const value => some (.i32Const value)
  | f64Const value => some (.f64Const value)
  | i32Eqz => some .i32Eqz
  | f64Neg => some .f64Neg
  | compare type op => some (.compare type op)
  | arith type op => some (.arith type op)
  | logic op => some (.logic op)

@[simp] theorem Plain.plain?_instr (i : Plain) : i.instr.plain? = some i := by
  cases i <;> rfl

theorem Instr.instr_of_plain? {i : Instr} {j : Plain} (h : i.plain? = some j) :
    j.instr = i := by
  cases i <;> simp [Instr.plain?] at h <;> subst h <;> rfl

/-- A plain instruction, or a construct with what it encloses. -/
inductive Node where
  | plain (i : Plain)
  | block (body : List Node)
  | loop (body : List Node)
  | ifThen (body : List Node)
  | ifElse (body orElse : List Node)

/-! ### Writing a tree down -/

mutual

/-- The instructions of a node. -/
def Node.flatten : Node → List Instr
  | .plain i => [i.instr]
  | .block body => .block :: (flattenAll body ++ [.endBlock])
  | .loop body => .loop :: (flattenAll body ++ [.endBlock])
  | .ifThen body => .ifThen :: (flattenAll body ++ [.endBlock])
  | .ifElse body orElse =>
    .ifThen :: (flattenAll body ++ .elseThen :: (flattenAll orElse ++ [.endBlock]))

/-- The instructions of a sequence. -/
def flattenAll : List Node → List Instr
  | [] => []
  | n :: ns => n.flatten ++ flattenAll ns

end

@[simp] theorem flattenAll_nil : flattenAll [] = [] := rfl

@[simp] theorem flattenAll_cons (n : Node) (ns : List Node) :
    flattenAll (n :: ns) = n.flatten ++ flattenAll ns := rfl

@[simp] theorem flattenAll_append (ns ms : List Node) :
    flattenAll (ns ++ ms) = flattenAll ns ++ flattenAll ms := by
  induction ns with
  | nil => rfl
  | cons n ns ih => simp [ih]

@[simp] theorem Node.flatten_plain (i : Plain) : (Node.plain i).flatten = [i.instr] := rfl

theorem flattenAll_singleton (n : Node) : flattenAll [n] = n.flatten := by simp

/-! ### Reading a list back -/

/-- A construct that is still open, with the sequence that stands before it and, from
    `else` on, its first branch. -/
inductive Opened where
  | block (before : List Node)
  | loop (before : List Node)
  | ifThen (before : List Node)
  | ifElse (before body : List Node)

/-- The sequence before a construct and, behind it, the construct itself, once all that it
    encloses is known. -/
def Opened.close (enclosed : List Node) : Opened → List Node
  | block before => before ++ [.block enclosed]
  | loop before => before ++ [.loop enclosed]
  | ifThen before => before ++ [.ifThen enclosed]
  | ifElse before body => before ++ [.ifElse body enclosed]

/-- Reads on, with the constructs that are open, the innermost first, and what has been
    read inside the innermost. -/
def readNodes : List Opened → List Node → List Instr → Option (List Node)
  | [], done, [] => some done
  | _ :: _, _, [] => none
  | os, done, i :: is =>
    match i.plain? with
    | some p => readNodes os (done ++ [.plain p]) is
    | none =>
      match i, os with
      | .block, os => readNodes (.block done :: os) [] is
      | .loop, os => readNodes (.loop done :: os) [] is
      | .ifThen, os => readNodes (.ifThen done :: os) [] is
      | .elseThen, .ifThen before :: os => readNodes (.ifElse before done :: os) [] is
      | .endBlock, o :: os => readNodes os (o.close done) is
      | _, _ => none

/-- The tree that a list writes down. -/
def structured? (code : List Instr) : Option (List Node) := readNodes [] [] code

mutual

/-- Reading a node that was written down adds it to what has been read. -/
theorem readNodes_flatten (n : Node) (os : List Opened) (done : List Node)
    (rest : List Instr) :
    readNodes os done (n.flatten ++ rest) = readNodes os (done ++ [n]) rest := by
  cases n with
  | plain i => cases i <;> simp [Node.flatten, readNodes, Plain.instr, Instr.plain?]
  | block body =>
    simp [Node.flatten, readNodes, Instr.plain?, readNodes_flattenAll body, Opened.close]
  | loop body =>
    simp [Node.flatten, readNodes, Instr.plain?, readNodes_flattenAll body, Opened.close]
  | ifThen body =>
    simp [Node.flatten, readNodes, Instr.plain?, readNodes_flattenAll body, Opened.close]
  | ifElse body orElse =>
    simp [Node.flatten, readNodes, Instr.plain?, readNodes_flattenAll body,
      readNodes_flattenAll orElse, Opened.close]

theorem readNodes_flattenAll (ns : List Node) (os : List Opened) (done : List Node)
    (rest : List Instr) :
    readNodes os done (flattenAll ns ++ rest) = readNodes os (done ++ ns) rest := by
  cases ns with
  | nil => simp
  | cons n ns =>
    rw [flattenAll_cons, List.append_assoc, readNodes_flatten n, readNodes_flattenAll ns]
    simp

end

theorem structured?_flattenAll (ns : List Node) : structured? (flattenAll ns) = some ns := by
  have h := readNodes_flattenAll ns [] [] []
  simpa [structured?, readNodes] using h

/-! ### What has been read is what was written -/

/-- The instructions from the start up to what the innermost open construct encloses. -/
def Opened.flatten : Opened → List Instr
  | block before => flattenAll before ++ [.block]
  | loop before => flattenAll before ++ [.loop]
  | ifThen before => flattenAll before ++ [.ifThen]
  | ifElse before body => flattenAll before ++ .ifThen :: (flattenAll body ++ [.elseThen])

/-- The instructions that opened the constructs, the outermost first. -/
def flattenOpened : List Opened → List Instr
  | [] => []
  | o :: os => flattenOpened os ++ o.flatten

theorem Opened.flattenAll_close (o : Opened) (done : List Node) :
    flattenAll (o.close done) = o.flatten ++ (flattenAll done ++ [.endBlock]) := by
  cases o <;> simp [Opened.close, Opened.flatten, Node.flatten]

theorem flattenAll_of_readNodes {os : List Opened} {done ns : List Node} {is : List Instr}
    (h : readNodes os done is = some ns) :
    flattenAll ns = flattenOpened os ++ (flattenAll done ++ is) := by
  fun_induction readNodes os done is with
  | case1 done =>
    obtain rfl := Option.some.inj h
    simp [flattenOpened]
  | case2 => cases h
  | case3 os done i is p hplain ih =>
    simp [ih h, Node.flatten, Instr.instr_of_plain? hplain]
  | case4 done is os _ ih => simp [ih h, flattenOpened, Opened.flatten]
  | case5 done is os _ ih => simp [ih h, flattenOpened, Opened.flatten]
  | case6 done is os _ ih => simp [ih h, flattenOpened, Opened.flatten]
  | case7 done is before os _ ih => simp [ih h, flattenOpened, Opened.flatten]
  | case8 done is o os _ ih => simp [ih h, flattenOpened, Opened.flattenAll_close]
  | case9 => simp_all

/-- Reading finds a tree exactly if the list is that tree written down. -/
theorem structured?_eq_some_iff {code : List Instr} {ns : List Node} :
    structured? code = some ns ↔ flattenAll ns = code := by
  constructor
  · intro h
    simpa [flattenOpened] using flattenAll_of_readNodes h
  · rintro rfl
    exact structured?_flattenAll ns

end Offside.Wasm
