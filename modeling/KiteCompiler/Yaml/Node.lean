import KiteCompiler.Yaml.Token
import KiteCompiler.Yaml.Value

/-!
# YAML documents

The first document of a YAML text as a tree (`Node.parse`). An alias keeps the node that it stands for. The reader of a
document looks ahead two tokens and no further, so what is wrong behind the document does not matter.
-/

namespace KiteCompiler.Yaml

/-- A node of a document with the line that it starts in, counted from one, and its tag in short form. -/
inductive Node where
  | scalar (line : Nat) (tag text : Text)
  | sequence (line : Nat) (tag : Text) (items : List Node)
  | mapping (line : Nat) (tag : Text) (pairs : List (Node × Node))
  | reference (line : Nat) (name : Text) (target : Node)
  /-- What an alias inside of the node with its anchor stands for. -/
  | enclosing (line : Nat) (tag : Text) (isMapping : Bool)
  deriving Inhabited

def Node.line : Node → Nat
  | scalar line .. => line
  | sequence line .. => line
  | mapping line .. => line
  | reference line .. => line
  | enclosing line .. => line

/-- The tokens that are left, the anchors seen so far with the newest first, and the handles of tags. -/
structure Parsing where
  scanner : Scanner
  anchors : List (Text × Node)
  handles : List (Text × Text)

abbrev Parser := StateT Parsing (Except Problem)

namespace Parser

def peekLine : Parser (Token × Nat) := do
  let s ← get
  let (t, scanner) ← s.scanner.peek
  set { s with scanner }
  return t

def peek : Parser Token := return (← peekLine).1

def line : Parser Nat := return (← peekLine).2

def skip : Parser Unit := modify fun s => { s with scanner := s.scanner.skip }

/-- Passes the next token if it is the given one. -/
def accept (t : Token) : Parser Bool := do
  if (← peek) = t then
    skip
    return true
  else return false

/-- Fails at the next token in something that starts in a line. -/
def fail {α : Type} (fault : ParseFault) (start : Nat) : Parser α := do throw (.parsing fault start (← line))

/-- Passes the next token, which has to be the given one. -/
def expect (t : Token) (fault : ParseFault) (start : Nat) : Parser Unit := do
  if !(← accept t) then fail fault start

/-! ## Tags and anchors -/

def shortTag (t : Text) : Text :=
  match Text.dropStart? "tag:yaml.org,2002:" t with
  | some name => "!!" ++ name
  | none => t

/-- What stands before a node: its anchor and its tag. -/
structure Properties where
  anchor : Option Text
  tag : Option Text

def tagOf (start tagLine : Nat) (handle suffix : Text) : Parser Text := do
  if handle.isEmpty then return suffix
  match (← get).handles.lookup handle with
  | some begin => return begin ++ suffix
  | none => throw (.parsing .unknownHandle start tagLine)

/-- The anchor and tag before a node, in either order. The handle of the tag is looked up behind both. -/
def properties : Parser Properties := do
  let (t, start) ← peekLine
  match t with
  | .anchor a =>
    skip
    let (t, tagLine) ← peekLine
    match t with
    | .tag h s =>
      skip
      discard peek
      return ⟨some a, some (← tagOf start tagLine h s)⟩
    | _ => return ⟨some a, none⟩
  | .tag h s =>
    skip
    match ← peek with
    | .anchor a =>
      skip
      discard peek
      return ⟨some a, some (← tagOf start start h s)⟩
    | _ => return ⟨none, some (← tagOf start start h s)⟩
  | _ => return ⟨none, none⟩

/-- The tag of a node; a tag that says nothing counts as none. -/
def Properties.tagOr (p : Properties) (default : Text) : Text :=
  match p.tag with
  | some t => if t = Text.ofString "!" then default else shortTag t
  | none => default

def plainTag (t : Text) : Text := if t = Text.ofString "<<" then "!!merge" else (plainValue true t).tag

def scalarWith (p : Properties) (line : Nat) (isPlain : Bool) (t : Text) : Node :=
  .scalar (line + 1) (p.tagOr (if isPlain then plainTag t else "!!str")) t

def anchored (anchor : Option Text) (n : Node) : Parser Node := do
  match anchor with
  | some a => modify fun s => { s with anchors := (a, n) :: s.anchors }
  | none => pure ()
  return n

/-- A node that can have aliases of itself inside: `around` is what they stand for. -/
def anchoredAround (anchor : Option Text) (around : Node) (read : Parser Node) : Parser Node := do
  match anchor with
  | none => read
  | some a =>
    let earlier := (← get).anchors
    set { ← get with anchors := (a, around) :: earlier }
    let n ← read
    let anchors := (← get).anchors
    let later := anchors.take (anchors.length - earlier.length - 1)
    set { ← get with anchors := later ++ (a, n) :: earlier }
    return n

def nothing : Parser Node := return .scalar ((← line) + 1) "!!null" []

/-! ## Nodes -/

/-- Where a node stands: this says which forms it can have. -/
inductive Place where
  | flow | block | blockOrIndentless
  deriving DecidableEq, Repr

mutual

/-- A node. Every function from here on has `turns` turns. -/
def node : (turns : Nat) → Place → Parser Node
  | 0, _ => throw .tooDeep
  | turns + 1, place => do
    let (t, first) ← peekLine
    match t with
    | .reference a =>
      skip
      match (← get).anchors.lookup a with
      | some n => return .reference (first + 1) a n
      | none => throw (.unknownAnchor a)
    | _ =>
      let p ← properties
      let (t, start) ← peekLine
      let sequence (items : Parser (List Node)) : Parser Node :=
        let tag := p.tagOr "!!seq"
        anchoredAround p.anchor (.enclosing (first + 1) tag false) (return .sequence (first + 1) tag (← items))
      let mapping (pairs : Parser (List (Node × Node))) : Parser Node :=
        let tag := p.tagOr "!!map"
        anchoredAround p.anchor (.enclosing (first + 1) tag true) (return .mapping (first + 1) tag (← pairs))
      let absent : Parser Node := do
        if p.anchor.isNone && p.tag.isNone then fail .noContent first
        anchored p.anchor (scalarWith p first true [])
      match t with
      | .scalar t isPlain =>
        skip
        anchored p.anchor (scalarWith p first isPlain t)
      | .flowSequenceStart =>
        skip
        sequence (flowItems turns start true)
      | .flowMappingStart =>
        skip
        mapping (flowPairs turns start true)
      | .blockSequenceStart =>
        if place = .flow then absent
        else
          skip
          sequence (blockItems turns start)
      | .blockMappingStart =>
        if place = .flow then absent
        else
          skip
          mapping (blockPairs turns start)
      | .blockEntry => if place = .blockOrIndentless then sequence (indentlessItems turns) else absent
      | _ => absent

def nodeUnless : (turns : Nat) → Place → List Token → Parser Node
  | 0, _, _ => throw .tooDeep
  | turns + 1, place, ends => do
    if ends.contains (← peek) then nothing else node turns place

def blockItems : (turns start : Nat) → Parser (List Node)
  | 0, _ => throw .tooDeep
  | turns + 1, start => do
    if ← accept .blockEnd then return []
    expect .blockEntry .noDash start
    let n ← nodeUnless turns .block [.blockEntry, .blockEnd]
    return n :: (← blockItems turns start)

/-- The items of a sequence that is not indented further than the mapping around it. -/
def indentlessItems : (turns : Nat) → Parser (List Node)
  | 0 => throw .tooDeep
  | turns + 1 => do
    if ← accept .blockEntry then
      let n ← nodeUnless turns .block [.blockEntry, .key, .value, .blockEnd]
      return n :: (← indentlessItems turns)
    else return []

def blockPairs : (turns start : Nat) → Parser (List (Node × Node))
  | 0, _ => throw .tooDeep
  | turns + 1, start => do
    if ← accept .blockEnd then return []
    expect .key .noKey start
    let k ← nodeUnless turns .blockOrIndentless [.key, .value, .blockEnd]
    let v ← if ← accept .value then nodeUnless turns .blockOrIndentless [.key, .value, .blockEnd] else nothing
    return (k, v) :: (← blockPairs turns start)

/-- The items of a sequence in brackets that starts in a line. A pair among them is a mapping of its own. Where its key
should be, a token that cannot start one is passed over. -/
def flowItems : (turns start : Nat) → (first : Bool) → Parser (List Node)
  | 0, _, _ => throw .tooDeep
  | turns + 1, start, first => do
    if ← accept .flowSequenceEnd then return []
    if !first then expect .flowEntry .unclosedSequence start
    if ← accept .flowSequenceEnd then return []
    let here ← line
    let n ←
      if ← accept .key then do
        let k ←
          if [.value, .flowEntry, .flowSequenceEnd].contains (← peek) then do
            let k ← nothing
            skip
            pure k
          else node turns .flow
        let v ← if ← accept .value then nodeUnless turns .flow [.flowEntry, .flowSequenceEnd] else nothing
        pure (Node.mapping (here + 1) "!!map" [(k, v)])
      else node turns .flow
    return n :: (← flowItems turns start false)

/-- The pairs of a mapping in braces that starts in a line. -/
def flowPairs : (turns start : Nat) → (first : Bool) → Parser (List (Node × Node))
  | 0, _, _ => throw .tooDeep
  | turns + 1, start, first => do
    if ← accept .flowMappingEnd then return []
    if !first then expect .flowEntry .unclosedMapping start
    if ← accept .flowMappingEnd then return []
    let pair ←
      if ← accept .key then do
        let k ← nodeUnless turns .flow [.value, .flowEntry, .flowMappingEnd]
        let v ← if ← accept .value then nodeUnless turns .flow [.flowEntry, .flowMappingEnd] else nothing
        pure (k, v)
      else do
        let k ← node turns .flow
        pure (k, ← nothing)
    return pair :: (← flowPairs turns start false)

end

/-! ## Documents -/

/-- Lines with percent signs before a document. There is one version, and every handle is given once. -/
def directives : (turns : Nat) → (hasVersion : Bool) → Parser Unit
  | 0, _ => throw .tooDeep
  | turns + 1, hasVersion => do
    let (t, line) ← peekLine
    match t with
    | .version major minor =>
      if hasVersion then throw (.parsing .secondVersion 0 line)
      if major ≠ 1 || minor ≠ 1 then throw (.parsing .otherVersion 0 line)
      skip
      directives turns true
    | .tagHandle handle start =>
      if ((← get).handles.lookup handle).isSome then throw (.parsing .secondHandle 0 line)
      modify fun s => { s with handles := s.handles ++ [(handle, start)] }
      skip
      directives turns hasVersion
    | _ => return ()

/-- The handles that every document knows, unless it gives them another meaning. -/
def defaultHandles : List (Text × Text) := [("!", "!"), ("!!", "tag:yaml.org,2002:")]

def document (turns : Nat) : Parser (Option Node) := do
  let addDefaults : Parser Unit := modify fun s => { s with handles := s.handles ++ defaultHandles }
  match ← peek with
  | .streamEnd => return none
  | .version .. | .tagHandle .. | .documentStart =>
    directives turns false
    addDefaults
    expect .documentStart .noDocumentStart 0
    let n ← match ← peek with
      | .version .. | .tagHandle .. | .documentStart | .documentEnd | .streamEnd => nothing
      | _ => node turns .block
    discard (accept .documentEnd)
    return some n
  | _ =>
    addDefaults
    let n ← node turns .block
    discard (accept .documentEnd)
    return some n

end Parser

/-- The first document of a text, or no node if there is no document. -/
def Node.parse (t : Text) : Except Problem (Option Node) :=
  ((Parser.document (8 * t.length + 32)).run ⟨.start t, [], []⟩).map (·.1)

end KiteCompiler.Yaml
