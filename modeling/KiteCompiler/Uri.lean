import KiteCompiler.Path
import KiteCompiler.Text.Quoted

/-!
# File URIs

The path that a document is stored under. Only a URI with the scheme `file` is taken apart; every other text is a path
already. All parts of a URI have to be well formed, also those that do not matter for the path.
-/

namespace KiteCompiler

namespace Uri

inductive Cause where
  | control
  | userinfo
  | openBracket
  | port (found : Text)
  | escape (found : Text)
  | hostByte (found : Text)
  deriving DecidableEq, Repr

def Cause.text : Cause → Text
  | control => "net/url: invalid control character in URL"
  | userinfo => "net/url: invalid userinfo"
  | openBracket => "missing ']' in host"
  | port found => "invalid port " ++ Text.quoted found ++ " after host"
  | escape found => "invalid URL escape " ++ Text.quoted found
  | hostByte found => "invalid character " ++ Text.quoted found ++ " in host name"

structure Error where
  uri : Text
  cause : Cause
  deriving DecidableEq, Repr

def Error.message (e : Error) : Text := "parse " ++ Text.quoted e.uri ++ ": " ++ e.cause.text

/-! ## Escapes -/

def digit? (b : UInt8) : Option UInt8 :=
  if Text.byte '0' ≤ b && b ≤ Text.byte '9' then some (b - Text.byte '0')
  else if Text.byte 'a' ≤ b && b ≤ Text.byte 'f' then some (b - Text.byte 'a' + 10)
  else if Text.byte 'A' ≤ b && b ≤ Text.byte 'F' then some (b - Text.byte 'A' + 10)
  else none

/-- Which bytes a part of a URI may hold as they are, and which ones as escapes. -/
structure Alphabet where
  plain : UInt8 → Bool
  escaped : UInt8 → Bool

def isAlphanumeric (b : UInt8) : Bool :=
  (Text.byte 'a' ≤ b && b ≤ Text.byte 'z') || (Text.byte 'A' ≤ b && b ≤ Text.byte 'Z')
    || (Text.byte '0' ≤ b && b ≤ Text.byte '9')

def isHostByte (b : UInt8) : Bool := isAlphanumeric b || (Text.ofString "!$&'()*+,;=:[]<>\"-_.~").contains b

/-- Everything, as in paths. -/
def Alphabet.any : Alphabet := ⟨fun _ => true, fun _ => true⟩

/-- A host: escapes are for what is not ASCII, and for the percent sign. -/
def Alphabet.host : Alphabet := ⟨fun b => 0x80 ≤ b || isHostByte b, fun b => 0x80 ≤ b || b = Text.byte '%'⟩

def Alphabet.zone : Alphabet :=
  ⟨fun b => 0x80 ≤ b || isHostByte b, fun b => b = Text.byte '%' || b = Text.byte ' ' || isHostByte b⟩

/-- Reads the escapes of a part of a URI. -/
def unescape (alphabet : Alphabet) : Text → Except Cause Text
  | [] => .ok []
  | b :: rest =>
    if b = Text.byte '%' then
      match rest with
      | h :: l :: rest =>
        match digit? h, digit? l with
        | some high, some low =>
          let v := 16 * high + low
          if alphabet.escaped v then do return v :: (← unescape alphabet rest) else .error (.escape [b, h, l])
        | _, _ => .error (.escape [b, h, l])
      | short => .error (.escape (b :: short))
    else if alphabet.plain b then do return b :: (← unescape alphabet rest)
    else .error (.hostByte [b])

/-! ## Parts -/

/-- Is the text empty, or a colon and digits? -/
def isPort : Text → Bool
  | [] => true
  | b :: digits => b = Text.byte ':' && digits.all fun d => Text.byte '0' ≤ d && d ≤ Text.byte '9'

def splitBefore? (part : Text) : Text → Option (Text × Text)
  | [] => if part.isEmpty then some ([], []) else none
  | b :: rest =>
    if part.isPrefixOf (b :: rest) then some ([], b :: rest)
    else (splitBefore? part rest).map fun (before, after) => (b :: before, after)

def checkBracketed (host : Text) : Except Cause Unit :=
  match Text.beforeLast? (Text.byte ']') host with
  | none => .error .openBracket
  | some inside =>
    let behind := host.drop (inside.length + 1)
    if !isPort behind then .error (.port behind)
    else
      match splitBefore? "%25" inside with
      | some (address, zone) => do
        discard (unescape .host address)
        discard (unescape .zone zone)
        discard (unescape .host (host.drop inside.length))
      | none => do discard (unescape .host host)

def checkHost (host : Text) : Except Cause Unit :=
  if host.head? = some (Text.byte '[') then checkBracketed host
  else
    let behind := match Text.beforeLast? (Text.byte ':') host with
      | some before => host.drop before.length
      | none => []
    if !isPort behind then .error (.port behind) else do discard (unescape .host host)

def checkUser (user : Text) : Except Cause Unit := do
  if !user.all (fun b => isAlphanumeric b || (Text.ofString "-._:~!$&'()*+,;=%@").contains b) then throw .userinfo
  let (name, password) := Text.cut (Text.byte ':') user
  discard (unescape .any name)
  discard (unescape .any (password.getD []))

/-- Checks what stands between the slashes at the start and the path. -/
def checkAuthority (authority : Text) : Except Cause Unit :=
  match Text.beforeLast? (Text.byte '@') authority with
  | some user => do
    checkHost (authority.drop (user.length + 1))
    checkUser user
  | none => checkHost authority

def isFile (uri : Text) : Bool := (Text.ofString "file://").isPrefixOf uri

def decodePath (uri : Text) : Except Cause Text := do
  if uri.any (fun b => b < 0x20 || b = 0x7F) then throw .control
  let (rest, _) := Text.cut (Text.byte '?') (uri.drop (Text.ofString "file://").length)
  let authority := rest.takeWhile (· ≠ Path.separator)
  checkAuthority authority
  unescape .any (rest.drop authority.length)

def path (uri : Text) : Except Error Text :=
  if isFile uri then
    let (main, fragment) := Text.cut (Text.byte '#') uri
    match decodePath main with
    | .error cause => .error ⟨main, cause⟩
    | .ok p =>
      match unescape .any (fragment.getD []) with
      | .error cause => .error ⟨uri, cause⟩
      | .ok _ => .ok (Path.clean p)
  else .ok uri

end Uri

end KiteCompiler
