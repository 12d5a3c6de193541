import KiteCompiler.Java.Basic
import KiteCompiler.Layout

/-!
# Java text

Java syntax as a document. Only two things are left to the width of the page: the arguments of a call and the parameters
of a method stand on one line or on a line each.
-/

namespace KiteCompiler

namespace Java

open Doc (margin newline text nest concat joined empty orEmpty)

/-- Annotations and modifiers before a declaration. -/
structure PrintedHeader where
  annotations : List Doc
  modifiers : List Text

/-- A declaration of variables without its semicolon. -/
structure PrintedVariables where
  header : PrintedHeader
  declared : Doc

@[reducible] def Category.Printed : Category → Type
  | list c => List c.Printed
  | option c => Option c.Printed
  | header => PrintedHeader
  | variableDecl => PrintedVariables
  | type | element | classType | typeParameter | dim | annotationUse | memberValue | expr | lambdaBody | arrayElements
  | level | stmt | block | resource | catchClause | switchGroup | switchLabel | declarator | parameter | member
  | typeDecl => Doc

def commas (ds : List Doc) : Doc := joined ", " ds

def annotationsBefore (as : List Doc) : Doc := concat (as.map (· ++ text " "))

/-- A part of a type that can have annotations; a blank stands before them. -/
def annotated (as : List Doc) (d : Doc) : Doc := if as.isEmpty then d else " " ++ annotationsBefore as ++ d

def modifiersBefore (ms : List Text) : Doc := concat (ms.map fun m => text (m ++ " "))

def PrintedHeader.inLine (h : PrintedHeader) : Doc := annotationsBefore h.annotations ++ modifiersBefore h.modifiers

/-- Annotations on lines of their own, then the start of a line with the modifiers. -/
def PrintedHeader.lines (h : PrintedHeader) : Doc :=
  concat (h.annotations.map fun a => margin ++ a ++ newline) ++ margin ++ modifiersBefore h.modifiers

def PrintedVariables.inLine (v : PrintedVariables) : Doc := v.header.inLine ++ v.declared

/-- A declaration with its annotations on lines of their own. -/
def PrintedVariables.onLines (v : PrintedVariables) : Doc := v.header.lines ++ v.declared

/-- A list in angle brackets, if it has elements. -/
def angled (ds : List Doc) : Doc := if ds.isEmpty then empty else "<" ++ commas ds ++ ">"

/-- A list in angle brackets with a blank behind it, if it has elements. -/
def angledBefore (ds : List Doc) : Doc := if ds.isEmpty then empty else angled ds ++ " "

def separatedBy (keyword separator : Text) (ds : List Doc) : Doc :=
  if ds.isEmpty then empty else text keyword ++ joined separator ds

def clause (keyword : Text) (ds : List Doc) : Doc := separatedBy keyword ", " ds

def parenthesized (ds : List Doc) : Doc := if ds.isEmpty then empty else "(" ++ commas ds ++ ")"

def resourceList (ds : List Doc) : Doc := if ds.isEmpty then empty else "(" ++ joined "; " ds ++ ") "

def part (keyword : Text) (d : Option Doc) : Doc := d.elim empty (text keyword ++ ·)

def scopeBefore (scope : Option Doc) : Doc := scope.elim empty (· ++ text ".")

def argumentList (ds : List Doc) : Doc := "(" ++ Doc.list 1 0 ds ++ ")"

def parameterList (ds : List Doc) : Doc := "(" ++ Doc.list 2 1 ds ++ ")"

def braced (lines : Doc) : Doc := "\x7b" ++ newline ++ (nest 1 lines ++ (margin ++ "\x7d"))

/-- Members of a class with a blank line between them, unless both are fields. -/
def spaced : List (Bool × Doc) → Doc
  | [] => empty
  | [(_, d)] => d
  | (f, d) :: (g, e) :: rest => d ++ (if f && g then empty else newline) ++ spaced ((g, e) :: rest)

def memberBlock (members : Java (.list .member)) (ds : List Doc) : Doc :=
  braced (spaced ((members.toList.map isField).zip ds))

def qualified (qualifier keyword : Text) : Doc :=
  text (if qualifier.isEmpty then keyword else qualifier ++ "." ++ keyword)

/-- A statement that ends with a semicolon. -/
def simple (d : Doc) : Doc := margin ++ d ++ ";"

def jump (keyword label : Text) : Doc := simple (text (if label.isEmpty then keyword else keyword ++ " " ++ label))

def lines (ds : List Doc) : Doc := ds.foldr (fun d rest => d ++ (newline ++ rest)) empty

/-- The body of a loop or branch: a block stays on the line, another statement goes to the next. -/
def body : Java .stmt → Doc → Doc
  | ofBlock _, d => " " ++ d
  | _, d => newline ++ nest 1 d

/-- A body and the keyword behind it, which stays on the line of a closing brace. -/
def bodyBefore (s : Java .stmt) (d : Doc) (keyword : Text) : Doc :=
  body s d ++
    match s with
    | ofBlock _ => " " ++ keyword
    | _ => newline ++ margin ++ text keyword

/-- What follows `else`; another `if` stays on the line. -/
def elseBody : Java .stmt → Doc → Doc
  | ifStmt .., d => " " ++ d
  | s, d => body s d

/-- Syntax as a document. Statements and members begin at the margin; a member also ends its line. -/
def print : {c : Category} → Java c → c.Printed
  | _, nil => []
  | _, cons a as => print a :: print as
  | _, absent => none
  | _, present a => some (print a)
  | _, type e dims => print e ++ concat (print dims)
  | _, primitive annotations n => annotationsBefore (print annotations) ++ text n
  | _, classRef t => (print t : Doc)
  | _, wildcard annotations upper lower =>
    annotationsBefore (print annotations) ++ "?" ++ part " extends " (print upper) ++ part " super " (print lower)
  | _, void => text "void"
  | _, intersection types => joined " & " (print types)
  | _, segment scope annotations n arguments diamond =>
    scopeBefore (print scope) ++ annotationsBefore (print annotations) ++ text n
      ++ (if diamond then text "<>" else angled (print arguments))
  | _, typeParameter annotations n bounds =>
    annotationsBefore (print annotations) ++ text n
      ++ separatedBy " extends " " & " (print bounds)
  | _, dim annotations => annotated (print annotations) (text "[]")
  | _, annotationUse n value pairs =>
    text ("@" ++ n) ++ parenthesized ((print value).elim (print pairs) ([·]))
  | _, memberValue n value => text (n ++ " = ") ++ print value
  | _, header annotations ms => ⟨print annotations, ms⟩
  | _, literal t => text t
  | _, name n => text n
  | _, access scope n => print scope ++ text ("." ++ n)
  | _, index a i => print a ++ "[" ++ print i ++ "]"
  | _, call scope typeArguments n arguments =>
    scopeBefore (print scope) ++ angled (print typeArguments) ++ text n ++ argumentList (print arguments)
  | _, methodRef scope typeArguments n => print scope ++ "::" ++ angled (print typeArguments) ++ text n
  | _, typeExpr t => (print t : Doc)
  | _, objectCreation scope typeArguments t arguments absent =>
    scopeBefore (print scope) ++ "new " ++ angledBefore (print typeArguments) ++ print t
      ++ argumentList (print arguments)
  | _, objectCreation scope typeArguments t arguments (present members) =>
    scopeBefore (print scope) ++ "new " ++ angledBefore (print typeArguments) ++ print t
      ++ argumentList (print arguments) ++ " " ++ memberBlock members (print members)
  | _, arrayCreation element levels elements =>
    "new " ++ print element ++ concat (print levels) ++ part " " (print elements)
  | _, level annotations length => annotated (print annotations) ("[" ++ orEmpty (print length) ++ "]")
  | _, arrayElements values => "\x7b" ++ commas (print values) ++ "\x7d"
  | _, ofArrayElements elements => (print elements : Doc)
  | _, ofAnnotationUse value => (print value : Doc)
  | _, lambda (cons (parameter _ _ _ _ n) nil) false b => text n ++ " -> " ++ print b
  | _, lambda parameters _ b => "(" ++ commas (print parameters) ++ ") -> " ++ print b
  | _, blockBody b => (print b : Doc)
  | _, exprBody e => (print e : Doc)
  | _, thisRef qualifier => qualified qualifier "this"
  | _, superRef qualifier => qualified qualifier "super"
  | _, classLiteral t => print t ++ ".class"
  | _, binary operator left right => print left ++ text (" " ++ operator ++ " ") ++ print right
  | _, unary operator true operand => print operand ++ text operator
  | _, unary operator false operand => text operator ++ print operand
  | _, assign operator target value => print target ++ text (" " ++ operator ++ " ") ++ print value
  | _, conditional condition yes no => print condition ++ " ? " ++ print yes ++ " : " ++ print no
  | _, cast t operand => "(" ++ print t ++ ") " ++ print operand
  | _, instanceOf operand t => print operand ++ " instanceof " ++ print t
  | _, enclosed inner => "(" ++ print inner ++ ")"
  | _, block statements => braced (lines (print statements))
  | _, ofBlock b => margin ++ print b
  | _, ofVariables declaration => simple (print declaration).inLine
  | _, emptyStmt => simple empty
  | _, exprStmt e => simple (print e)
  | _, ifStmt condition yes absent => margin ++ "if (" ++ print condition ++ ")" ++ body yes (print yes)
  | _, ifStmt condition yes (present no) =>
    margin ++ "if (" ++ print condition ++ ")" ++ bodyBefore yes (print yes) "else" ++ elseBody no (print no)
  | _, whileStmt condition b => margin ++ "while (" ++ print condition ++ ")" ++ body b (print b)
  | _, doStmt b condition =>
    margin ++ "do" ++ bodyBefore b (print b) "while" ++ " (" ++ print condition ++ ");"
  | _, forStmt declaration start condition step b =>
    let startPart := (print declaration).elim (commas (print start)) (·.inLine)
    margin ++ "for (" ++ startPart ++ ";" ++ part " " (print condition) ++ ";" ++ clause " " (print step) ++ ")"
      ++ body b (print b)
  | _, forEachStmt binder collection b =>
    margin ++ "for (" ++ print binder ++ " : " ++ print collection ++ ")" ++ body b (print b)
  | _, tryStmt resources b handlers cleanup =>
    margin ++ "try " ++ resourceList (print resources) ++ print b ++ concat (print handlers)
      ++ part " finally " (print cleanup)
  | _, switchStmt selector groups => margin ++ "switch (" ++ print selector ++ ") " ++ braced (concat (print groups))
  | _, synchronizedStmt lock b => margin ++ "synchronized (" ++ print lock ++ ") " ++ print b
  | _, labeledStmt label b => margin ++ text (label ++ ": ") ++ print b
  | _, breakStmt label => jump "break" label
  | _, continueStmt label => jump "continue" label
  | _, returnStmt value => simple ("return" ++ part " " (print value))
  | _, throwStmt e => simple ("throw " ++ print e)
  | _, assertStmt condition message => simple ("assert " ++ print condition ++ part " : " (print message))
  | _, constructorCall isThis scope typeArguments arguments =>
    simple (scopeBefore (print scope) ++ angled (print typeArguments) ++ (if isThis then "this" else "super")
      ++ argumentList (print arguments))
  | _, declaredResource h t n value => (print h).inLine ++ print t ++ text (" " ++ n ++ " = ") ++ print value
  | _, namedResource value => (print value : Doc)
  | _, catchClause h types n b =>
    " catch (" ++ (print h).inLine ++ joined " | " (print types) ++ text (" " ++ n ++ ") ") ++ print b
  | _, switchGroup labels statements => concat (print labels) ++ nest 1 (lines (print statements))
  | _, switchLabel value =>
    margin ++ (print value).elim (text "default") (text "case " ++ ·) ++ ":" ++ newline
  | _, declarator n value => text n ++ part " = " (print value)
  | _, variableDecl h t declarators => ⟨print h, print t ++ " " ++ commas (print declarators)⟩
  | _, parameter h t varargs varargAnnotations n =>
    let dots := if varargs then annotated (print varargAnnotations) (text "...") else empty
    (print h).inLine ++ (print t).elim empty (· ++ dots ++ " ") ++ text n
  | _, classDecl h n typeParameters base interfaces members =>
    (print h).lines ++ text ("class " ++ n) ++ angled (print typeParameters) ++ part " extends " (print base)
      ++ clause " implements " (print interfaces) ++ " " ++ memberBlock members (print members) ++ newline
  | _, interfaceDecl h n typeParameters bases members =>
    (print h).lines ++ text ("interface " ++ n) ++ angled (print typeParameters)
      ++ clause " extends " (print bases) ++ " " ++ memberBlock members (print members) ++ newline
  | _, annotationTypeDecl h n members =>
    (print h).lines ++ text ("@interface " ++ n ++ " ") ++ memberBlock members (print members) ++ newline
  | _, ofTypeDecl declaration => (print declaration : Doc)
  | _, ofField declaration => (print declaration).onLines ++ ";" ++ newline
  | _, methodDecl h typeParameters result n parameters exceptions b =>
    (print h).lines ++ angledBefore (print typeParameters) ++ print result ++ text (" " ++ n)
      ++ parameterList (print parameters) ++ clause " throws " (print exceptions)
      ++ (print b).elim (text ";") (text " " ++ ·) ++ newline
  | _, constructorDecl h typeParameters n parameters exceptions b =>
    (print h).lines ++ angledBefore (print typeParameters) ++ text n ++ parameterList (print parameters)
      ++ clause " throws " (print exceptions) ++ " " ++ print b ++ newline
  | _, initializerDecl isStatic b => margin ++ (if isStatic then "static " else "") ++ print b ++ newline
  | _, annotationMemberDecl h t n fallback =>
    (print h).lines ++ print t ++ text (" " ++ n ++ "()") ++ part " default " (print fallback) ++ ";" ++ newline

def Import.print (i : Import) : Doc :=
  text ("import " ++ (if i.isStatic then "static " else "") ++ i.name ++ (if i.onDemand then ".*" else "") ++ ";")
    ++ newline

def Package.print (p : Package) : Doc :=
  concat (p.annotations.print.map (· ++ newline)) ++ text ("package " ++ p.name ++ ";") ++ newline

/-- A Java file: package, imports and types with a blank line between them. -/
def Unit.print (u : Unit) : Doc :=
  let imports := if u.imports.isEmpty then [] else [concat (u.imports.map Import.print)]
  joined "\n" (u.package.toList.map Package.print ++ imports ++ u.types.map Java.print)

def pageWidth : Nat := 80

def Unit.text (u : Unit) : Text := u.print.page pageWidth

def exprText (e : Java .expr) : Text := e.print.line

end Java

end KiteCompiler
