import KiteCompiler.Ast.Reading.Cursor

/-!
# Reading names, annotations and types
-/

namespace KiteCompiler.Ast.Reading

/-! ## Names -/

def identifier (t : Branch) : Result Text :=
  if t.kind = .identifier then .ok t.literal else t.fail (.expected "identifier")

/-- A dotted name, which has at least one part. -/
def qualifiedName (t : Branch) : Result QualifiedName :=
  within t do
    let parts ← allParts (t.children.length + 1)
    if parts.isEmpty then fail t .emptyQualifiedName
    return ⟨t.place, parts⟩
where
  /-- The parts that are left, `bound` at most. -/
  allParts : Nat → Reading (List Text)
    | 0 => return []
    | bound + 1 => do
      if (← peek).isNone then return []
      let part ← identifier (← next)
      return part :: (← allParts bound)

/-! ## Annotations -/

def annotations (ts : List Decorated) : Result (Ast (.list .annotationUse)) :=
  eachIn .annotationUse ts

def leadingAnnotations : Reading (Ast (.list .annotationUse)) := do annotations (← many .annotationUse)

def elementValuePair (t : Branch) : Result (Ast .memberValue) :=
  if t.kind = .elementValuePair then
    whole t do
      let n ← identifier (← expect [.identifier])
      let value ← (← next).read .elementValue
      return .memberValue t.place n value
  else t.fail (.unexpectedIn "annotation")

/-- An annotation: with no value a marker, with names and values a normal one, with one value a single one. -/
def annotationUse (t : Branch) : Result (Ast .annotationUse) :=
  if t.kind = .annotationUse then
    within t do
      let q ← qualifiedName (← expect [.qualifiedName])
      match ← rest with
      | [] => return .marker t.place q
      | values@(first :: more) =>
        if first.kind = .elementValuePair then return .normal t.place q (ofList (← each elementValuePair values))
        else if more.isEmpty then return .single t.place q (← first.read .elementValue)
        else fail t (.annotationValues values.length)
  else t.fail (.expected "Annotation")

/-! ## Types -/

def dim (t : Branch) : Result (Ast .dim) :=
  if t.kind = .dim then do return .dim t.place (← annotations (← children t))
  else t.fail (.unexpectedIn "dimensions")

def dims (t : Branch) : Result (List (Ast .dim)) := do each dim (← children t)

def optionalDims : Reading (List (Ast .dim)) := do
  match ← optional [.dims] with
  | some t => dims t
  | none => return []

def wildcard (t : Branch) : Result (Ast .type) :=
  whole t do
    let annotations ← leadingAnnotations
    match ← optional [.operator] with
    | none => return .wildcard t.place annotations .absent .absent
    | some operator =>
      let bound ← (← expect [.type]).read .type
      if operator.literal = Text.ofString "extends" then return .wildcard t.place annotations (.present bound) .absent
      if operator.literal = Text.ofString "super" then return .wildcard t.place annotations .absent (.present bound)
      fail operator (.wildcardBound operator.literal)

def typeArgument (t : Decorated) : Result (Ast .type) :=
  match t.kind with
  | .type => t.read .type
  | .wildcard => wildcard t
  | _ => t.branch.fail (.unexpectedIn "type arguments")

def typeArguments (t : Branch) : Result (List (Ast .type)) := do (← children t).mapM typeArgument

def optionalTypeArguments : Reading (Ast (.list .type)) := do
  match ← optional [.typeArguments] with
  | some t => return ofList (← typeArguments t)
  | none => return .nil

/-- One segment of a class type behind `scope`. The last segment starts where the type starts, and gets the
annotations before the type. -/
def classTypeElement (whole? : Option (Place × List (Ast .annotationUse))) (scope : Ast (.option .classType))
    (t : Branch) : Result (Ast .classType) :=
  if t.kind = .classTypeElement then
    whole t do
      let annotations ← leadingAnnotations
      let n ← identifier (← expect [.identifier])
      let (arguments, diamond) ← match ← optional [.typeArguments] with
        | some t =>
          let arguments ← typeArguments t
          pure (arguments, arguments.isEmpty)
        | none => pure ([], false)
      match whole? with
      | some (place, outer) =>
        return .segment place scope (ofList (outer ++ annotations.toList)) n (ofList arguments) diamond
      | none => return .segment t.place scope annotations n (ofList arguments) diamond
  else t.fail (.unexpectedIn "class type")

/-- The segments of a class type that starts at `place`, behind those of `scope`. -/
def classTypeElements (place : Place) (outer : List (Ast .annotationUse)) (scope : Ast (.option .classType)) :
    Decorated → List Decorated → Result (Ast .classType)
  | last, [] => classTypeElement (some (place, outer)) scope last
  | t, next :: more => do
    let segment ← classTypeElement none scope t
    classTypeElements place outer (.present segment) next more

/-- A class type; `outer` are the annotations before it. -/
def classType (t : Branch) (outer : List (Ast .annotationUse)) : Result (Ast .classType) :=
  if t.kind = .classType then do
    match ← children t with
    | [] => t.fail .emptyClassType
    | first :: more => classTypeElements t.place outer .absent first more
  else t.fail (.expected "ClassType")

/-- A type. Annotations before it go to its element type. -/
def type (t : Branch) : Result (Ast .type) :=
  if t.kind = .type then
    whole t do
      let annotations ← leadingAnnotations
      let base ← expect [.primitiveType, .classType]
      let element : Ast .type ←
        if base.kind = .primitiveType then pure (.primitive t.place annotations base.literal)
        else pure (.classRef (← classType base annotations.toList))
      return element.withDims (← optionalDims)
  else t.fail (.expected "Type")

def classTypeList (t : Branch) : Result (List (Ast .classType)) := do
  let element (child : Branch) : Result (Ast .classType) :=
    if child.kind = .classType then classType child [] else child.fail (.unexpectedIn t.kind.name)
  each element (← children t)

def typeParameter (t : Branch) : Result (Ast .typeParameter) :=
  if t.kind = .typeParameter then
    whole t do
      let annotations ← leadingAnnotations
      let n ← identifier (← expect [.identifier])
      let bounds ← match ← optional [.typeBound] with
        | some bound => classTypeList bound
        | none => pure []
      return .typeParameter t.place annotations n (ofList bounds)
  else t.fail (.unexpectedIn "type parameters")

def optionalTypeParameters : Reading (Ast (.list .typeParameter)) := do
  match ← optional [.typeParameters] with
  | some t => return ofList (← each typeParameter (← children t))
  | none => return .nil

def exceptions (t : Branch) : Result (Ast (.list .exception)) := do
  return ofList ((← classTypeList t).map fun type => .exception type.place type)

end KiteCompiler.Ast.Reading
