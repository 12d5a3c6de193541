import KiteCompiler.Grammar.State

/-!
# Repetition

The loops of the grammar. Each is bounded by the number of tokens left: a turn either takes a token or is the last one.
-/

namespace KiteCompiler.Grammar

/-- What a turn of a loop adds to the result, and what the next turn starts from; none if this turn was the last. -/
structure Turn (σ : Type) where
  added : List Cst
  next : Option σ

def Turn.last {σ : Type} (added : List Cst) : Turn σ := ⟨added, none⟩

/-- A turn after which the loop goes on. -/
def Turn.more {σ : Type} (added : List Cst) (state : σ) : Turn σ := ⟨added, some state⟩

/-- Takes turns, at most as many as the bound, until one is the last. -/
def repeatUpTo {σ : Type} (turn : σ → Parser (Turn σ)) : Nat → σ → Parser (List Cst)
  | 0, _ => pure []
  | bound + 1, state => do
    let t ← turn state
    match t.next with
    | some state => return t.added ++ (← repeatUpTo turn bound state)
    | none => return t.added

/-- Takes turns until one is the last. -/
def repeatFrom {σ : Type} (state : σ) (turn : σ → Parser (Turn σ)) : Parser (List Cst) := do
  repeatUpTo turn ((← get).remaining + 1) state

/-- Takes turns that need nothing from each other until one is the last. -/
def repeatTurns (turn : Parser (Turn Unit)) : Parser (List Cst) := repeatFrom () fun _ => turn

/-- Rebuilds a tree, at most as many times as the bound, until `turn` has nothing more to put around it. -/
def growUpTo (turn : Cst → Parser (Option Cst)) : Nat → Cst → Parser Cst
  | 0, t => pure t
  | bound + 1, t => do
    match ← turn t with
    | some t => growUpTo turn bound t
    | none => return t

/-- Rebuilds a tree until `turn` has nothing more to put around it. -/
def grow (t : Cst) (turn : Cst → Parser (Option Cst)) : Parser Cst := do growUpTo turn ((← get).remaining + 1) t

/-! ## Plain sequences -/

def optionalIf (condition : Parser Bool) (item : Parser Cst) : Parser (List Cst) := do
  if ← condition then return [← item] else return []

/-- Reads an item if the current token is of the given kind. -/
def optionalAt (k : Token.Kind) (item : Parser Cst) : Parser (List Cst) := optionalIf (check k) item

/-- An item, if the condition holds; otherwise the turn is the last one. -/
def whileTurn (condition : Parser Bool) (item : Parser Cst) : Parser (Turn Unit) := do
  if ← condition then return .more [← item] () else return .last []

/-- Reads items as long as the condition holds. -/
def manyWhile (condition : Parser Bool) (item : Parser Cst) : Parser (List Cst) :=
  repeatTurns (whileTurn condition item)

/-- Reads items as long as the current token is of the given kind. -/
def manyAt (k : Token.Kind) (item : Parser Cst) : Parser (List Cst) := manyWhile (check k) item

/-- An item and a separator that may follow it; the loop goes on behind a separator. -/
def itemTurn (separator : Token.Kind) (item : Parser Cst) : Parser (Turn Unit) := do
  let c ← item
  if ← check separator then
    skip
    return .more [c] ()
  return .last [c]

def separated (separator : Token.Kind) (item : Parser Cst) : Parser (List Cst) :=
  repeatTurns (itemTurn separator item)

/-- An item with a separator, unless `stop` is current. -/
def untilTurn (stop separator : Token.Kind) (item : Parser Cst) : Parser (Turn Unit) := do
  if ← checkAny [stop, .eof] then return .last []
  itemTurn separator item

/-- Items with separators between them up to `stop`; a separator may follow the last one. -/
def separatedUntil (stop separator : Token.Kind) (item : Parser Cst) : Parser (List Cst) :=
  repeatTurns (untilTurn stop separator item)

/-! ## Sequences that must get on -/

/-- Runs a part that ought to take a token. If it takes none, the current token is passed over as unexpected. The
result tells whether a token had been taken. -/
def guarded {α : Type} (part : Parser α) : Parser (α × Bool) := do
  let pos := (← get).pos
  let a ← part
  if (← get).pos = pos then
    unless ← check .eof do
      let _ ← reportHere .unexpected
      skip
    return (a, false)
  return (a, true)

/-- An item of a loop that ends when an item takes no token. -/
def guardedTurn (item : Parser Cst) : Parser (Turn Unit) := do
  let (c, moved) ← guarded item
  return if moved then .more [c] () else .last [c]

/-- An item, unless one of the given kinds is current. -/
def guardedUntilTurn (stops : List Token.Kind) (item : Parser Cst) : Parser (Turn Unit) := do
  if ← checkAny (.eof :: stops) then return .last []
  guardedTurn item

/-- Items up to one of the given kinds or the end of file. -/
def guardedUntil (stops : List Token.Kind) (item : Parser Cst) : Parser (List Cst) :=
  repeatTurns (guardedUntilTurn stops item)

/-- A semicolon or an item, unless one of the given kinds is current. -/
def declarationTurn (stops : List Token.Kind) (item : Parser Cst) : Parser (Turn Unit) := do
  if ← checkAny (.eof :: stops) then return .last []
  if ← check .semicolon then
    skip
    return .more [] ()
  guardedTurn item

/-- Items up to one of the given kinds or the end of file, with any number of semicolons between them. -/
def declarationsUntil (stops : List Token.Kind) (item : Parser Cst) : Parser (List Cst) :=
  repeatTurns (declarationTurn stops item)

end KiteCompiler.Grammar
