import KiteCompiler.Ast.Node
import KiteCompiler.Ast.Reading.Malformed

/-!
# Reading the children of a node

Abstract syntax is read off a concrete tree from the leaves to the root: each node is decorated with its readings in
every `Role` in which the grammar is recursive, and the reading of a node uses those of the nodes below it. A `Reading`
goes through the children of one node from left to right.
-/

namespace KiteCompiler.Ast

/-- The roles in which a node can be read. -/
inductive Role where
  | type | annotationUse | elementValue | expr | stmt | member
  deriving DecidableEq, Repr

abbrev Role.category : Role → Category
  | type => .type
  | annotationUse => .annotationUse
  | elementValue | expr => .expr
  | stmt => .stmt
  | member => .member

abbrev Result (α : Type) := Except Malformed α

abbrev Readings := (r : Role) → Result (Ast r.category)

/-- A syntax tree whose nodes carry their readings. -/
abbrev Decorated := Tree (Cst.Label × Readings)

def Decorated.read (t : Decorated) (r : Role) : Result (Ast r.category) := t.label.2 r

/-- A node over decorated children. Its own readings are what is to be found out. -/
structure Branch where
  source : Cst.Label
  children : List Decorated

/-- A decorated node without its own readings. -/
def Decorated.branch (t : Decorated) : Branch := ⟨t.label.1, t.children⟩

instance : Coe Decorated Branch := ⟨Decorated.branch⟩

namespace Branch

def kind (t : Branch) : Cst.Kind := t.source.kind

def place (t : Branch) : Place := ⟨t.source.span.first.line, t.source.span.first.column⟩

/-- The bytes of the node's token, none if it has no token. -/
def literal (t : Branch) : Text := (t.source.token.map (·.text)).getD []

/-- The kind of the node's token, end of file if it has no token. -/
def tokenKind (t : Branch) : Token.Kind := (t.source.token.map (·.kind)).getD .eof

def fail {α : Type} (t : Branch) (cause : Malformed.Cause) : Result α := .error (.node t.source cause)

end Branch

def Decorated.kind (t : Decorated) : Cst.Kind := t.branch.kind

def Decorated.literal (t : Decorated) : Text := t.branch.literal

def Decorated.place (t : Decorated) : Place := t.branch.place

/-- The node whose children are read, and those that are left. -/
structure Cursor where
  node : Branch
  rest : List Decorated

/-- A step of going through the children of a node. The cursor is kept when a step fails. -/
abbrev Reading := ExceptT Malformed (StateM Cursor)

namespace Reading

def fail {α : Type} (t : Branch) (cause : Malformed.Cause) : Reading α := throw (.node t.source cause)

def node : Reading Branch := return (← get).node

def peek : Reading (Option Decorated) := return (← get).rest.head?

def skip : Reading Unit := modify fun c => { c with rest := c.rest.tail }

def next : Reading Decorated := do
  match ← peek with
  | none =>
    let c ← get
    fail c.node (.missingChild (c.node.children.length - c.rest.length))
  | some child =>
    if child.kind = .error then fail child .syntaxError
    skip
    return child

def optional (kinds : List Cst.Kind) : Reading (Option Decorated) := do
  match ← peek with
  | some child =>
    if kinds.contains child.kind then
      skip
      return some child
    return none
  | none => return none

def expect (kinds : List Cst.Kind) : Reading Decorated := do
  let child ← next
  if kinds.contains child.kind then return child
  fail child (.expectedIn kinds (← node).kind)

/-- The next children as far as they are of this kind. -/
def many (kind : Cst.Kind) : Reading (List Decorated) := do
  let c ← get
  let isOfKind (t : Decorated) : Bool := t.kind == kind
  set { c with rest := c.rest.dropWhile isOfKind }
  return c.rest.takeWhile isOfKind

/-- All children that are left, none of which may be an error. -/
def rest : Reading (List Decorated) := do
  let children := (← get).rest
  modify fun c => { c with rest := [] }
  match children.find? fun t : Decorated => t.kind == .error with
  | some child => fail child .syntaxError
  | none => return children

/-- There must be no more children. -/
def done : Reading Unit := do
  match ← peek with
  | some child => fail child (.unexpectedIn (← node).kind.name)
  | none => return ()

/-- Runs a reading and then checks that no children are left, also if the reading fails. -/
def thenDone {α : Type} (reading : Reading α) : Reading α := fun c =>
  let (result, c) := reading c
  match done c with
  | (.error e, c) => (.error e, c)
  | (.ok _, c) => (result, c)

/-- Reads the children of a node, which may be no error; children may be left. -/
def within {α : Type} (t : Branch) (reading : Reading α) : Result α :=
  if t.kind = .error then t.fail .syntaxError else (reading ⟨t, t.children⟩).1

/-- Reads all children of a node, which may be no error. -/
def whole {α : Type} (t : Branch) (reading : Reading α) : Result α :=
  within t do
    let a ← reading
    done
    return a

/-- The children of a node, none of which may be an error. -/
def children (t : Branch) : Result (List Decorated) := within t rest

def each {α : Type} (read : Branch → Result α) (ts : List Decorated) : Result (List α) :=
  ts.mapM fun t => read t.branch

def eachIn (r : Role) (ts : List Decorated) : Result (Ast (.list r.category)) := ofList <$> ts.mapM (·.read r)

end Reading

end KiteCompiler.Ast
