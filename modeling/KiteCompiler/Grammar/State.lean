import KiteCompiler.Cst.Basic

/-!
# The state of reading

The reader walks over the tokens of a source without its layout. It never stops at an error: it records the error and
goes on, so that a tree always results. Of errors in a row at the same place the first is recorded, since the others are
mostly consequences of it.
-/

namespace KiteCompiler.Grammar

/-- The tokens, the index of the current one, and the errors so far, the newest first. -/
structure State where
  tokens : Array Token
  pos : Nat := 0
  errors : List SyntaxError := []
  deriving Inhabited

abbrev Parser := StateM State

namespace State

/-- The current token; at the end this is the last one. -/
def current (s : State) : Token :=
  match s.tokens[s.pos]? with
  | some t => t
  | none => s.tokens.back?.getD ⟨.eof, [], ⟨{}, {}⟩⟩

/-- The token `n` places further on, the current one if there is none. -/
def ahead (s : State) (n : Nat) : Token := (s.tokens[s.pos + n]?).getD s.current

def remaining (s : State) : Nat := s.tokens.size - s.pos

/-- Where what was read so far ends: behind the token before the current one. -/
def lastEnd (s : State) : Position :=
  let last := if 0 < s.pos && s.pos ≤ s.tokens.size then s.tokens[s.pos - 1]? else s.tokens.back?
  (last.map (·.span.last)).getD {}

/-- Moves to the next token; the end of file is never passed. -/
def advance (s : State) : State :=
  if s.pos < s.tokens.size && s.current.kind != .eof then { s with pos := s.pos + 1 } else s

/-- Keeps an error unless the last one kept is at the same place. -/
def record (s : State) (e : SyntaxError) : State :=
  match s.errors with
  | last :: _ => if last.pos.offset = e.pos.offset then s else { s with errors := e :: s.errors }
  | [] => { s with errors := [e] }

/-- Takes the first byte of the current token away and leaves the rest as a token of kind `rest`. -/
def splitCurrent (s : State) (rest : Token.Kind) : State :=
  let t := s.current
  let start := t.span.first
  let rest : Token :=
    ⟨rest, t.text.drop 1, ⟨⟨start.offset + 1, start.line, start.column + 1⟩, t.span.last⟩⟩
  { s with tokens := s.tokens.setIfInBounds s.pos rest }

end State

/-! ## Looking at tokens -/

def peek : Parser Token := return (← get).current

def here : Parser Position := return (← peek).span.first

def check (k : Token.Kind) : Parser Bool := return (← peek).kind == k

def checkAhead (n : Nat) (k : Token.Kind) : Parser Bool := return ((← get).ahead n).kind == k

def checkAny (ks : List Token.Kind) : Parser Bool := return ks.contains (← peek).kind

def checkName : Parser Bool := return (← peek).kind.isName

/-- Can the token after the current one be used as a name? -/
def checkNameAhead : Parser Bool := return ((← get).ahead 1).kind.isName

/-- Runs `p` without moving on. Errors that `p` finds are kept. -/
def lookAhead {α : Type} (p : Parser α) : Parser α := do
  let pos := (← get).pos
  let a ← p
  modify fun s => { s with pos }
  return a

/-! ## Taking tokens -/

def next : Parser Token := do
  let t ← peek
  modify State.advance
  return t

def skip : Parser Unit := modify State.advance

/-- Records an error; the error is returned also when another one at its place has been recorded. -/
def report (cause : SyntaxError.Cause) (pos : Position) : Parser SyntaxError := do
  let e : SyntaxError := ⟨cause, pos⟩
  modify (·.record e)
  return e

/-- Records an error at the current token, which the cause speaks of. -/
def reportHere (cause : Token → SyntaxError.Cause) : Parser SyntaxError := do
  let t ← peek
  report (cause t) t.span.first

/-- Takes a token of this kind. If another one is current, this is an error and nothing is taken. -/
def expect (k : Token.Kind) : Parser Unit := do
  if ← check k then skip else let _ ← reportHere (.missing k)

/-- Takes turns, at most as many as the bound, until one has the result. -/
def searchUpTo {σ α : Type} (turn : σ → Parser (α ⊕ σ)) (otherwise : σ → α) : Nat → σ → Parser α
  | 0, state => pure (otherwise state)
  | bound + 1, state => turn state >>= Sum.elim pure (searchUpTo turn otherwise bound)

/-- Takes turns until one has the result. There are enough of them if each other turn takes a token. -/
def search {σ α : Type} (turn : σ → Parser (α ⊕ σ)) (otherwise : σ → α) (state : σ) : Parser α := do
  searchUpTo turn otherwise ((← get).remaining + 1) state

/-- A turn of the search for one of the given kinds. -/
def recoverTurn (ks : List Token.Kind) : Parser (Unit ⊕ Unit) := do
  if ← checkAny (.eof :: ks) then return .inl ()
  skip
  return .inr ()

/-- Passes over tokens up to one of the given kinds or the end. -/
def recover (ks : List Token.Kind) : Parser Unit := search (fun _ => recoverTurn ks) id ()

/-! ## Making nodes -/

/-- A node from `start` to the end of what was read, never ending before it starts. -/
def finish (kind : Cst.Kind) (start : Position) (children : List Cst) : Parser Cst := do
  let last := (← get).lastEnd
  let last := if last.offset < start.offset then start else last
  return .node { kind, span := ⟨start, last⟩ } children

/-- A node that starts at the current token; `parts` reads its children. -/
def node (kind : Cst.Kind) (parts : Parser (List Cst)) : Parser Cst := do
  let start ← here
  finish kind start (← parts)

/-- A node that starts where its first child, already read, starts; `parts` reads the others. -/
def nodeFrom (kind : Cst.Kind) (first : Cst) (parts : Parser (List Cst)) : Parser Cst := do
  finish kind first.span.first (first :: (← parts))

/-- Ends a node where reading has come to in the meantime. -/
def extend (t : Cst) : Parser Cst := do
  let t' ← finish t.kind t.span.first []
  return t.endingAt t'.span.last

/-- A node for the current token, which is taken. -/
def leaf (kind : Cst.Kind) : Parser Cst := do
  let t ← next
  return .node { kind, span := t.span, token := some t } []

/-- An error node in place of a construct; reading goes on at one of the kinds of `recovery`. -/
def errorNode (construct : Construct) (recovery : List Token.Kind) : Parser Cst := do
  let t ← peek
  let e ← reportHere (.missingConstruct construct)
  recover recovery
  return .node { kind := .error, span := t.span, error := some e } []

/-- A name. If none is current, an error node stands for it. -/
def identifier : Parser Cst := do
  if ← checkName then leaf .identifier
  else
    let t ← peek
    let e ← reportHere .missingIdentifier
    return .node { kind := .error, span := t.span, error := some e } []

end KiteCompiler.Grammar
