import KiteCompiler.Text.Basic

/-!
# Paths

Slash-separated file paths, handled as text only: nothing here looks at a disk.
-/

namespace KiteCompiler.Path

def separator : UInt8 := Text.byte '/'

def isAbsolute (p : Text) : Bool := p.head? == some separator

/-- The elements of a path that are neither empty nor `.`. -/
def elements (p : Text) : List Text := (Text.split separator p).filter fun e => e ≠ [] ∧ e ≠ Text.ofString "."

/-- Resolves `..` against the elements before it, which are given in reverse. At the root, `..` leads nowhere. -/
def resolveUp (rooted : Bool) : List Text → List Text → List Text
  | above, [] => above.reverse
  | above, e :: rest =>
    if e = Text.ofString ".." then
      match above with
      | last :: before =>
        if last = Text.ofString ".." then resolveUp rooted (e :: above) rest else resolveUp rooted before rest
      | [] => if rooted then resolveUp rooted [] rest else resolveUp rooted [e] rest
    else resolveUp rooted (e :: above) rest

/-- The shortest path that names the same place. -/
def clean (p : Text) : Text :=
  let rooted := isAbsolute p
  let body := Text.join "/" (resolveUp rooted [] (elements p))
  if rooted then "/" ++ body else if body.isEmpty then "." else body

/-- Parts that are not empty, joined by slashes and cleaned. -/
def join (parts : List Text) : Text :=
  match parts.filter (!·.isEmpty) with
  | [] => []
  | parts => clean (Text.join "/" parts)

def trimEnd (p : Text) : Text := (p.reverse.dropWhile (· = separator)).reverse

def base (p : Text) : Text :=
  if p.isEmpty then "."
  else
    let last := Text.afterLast separator (trimEnd p)
    if last.isEmpty then "/" else last

def dir (p : Text) : Text :=
  match Text.beforeLast? separator p with
  | some before => clean (before ++ "/")
  | none => "."

/-- The last element from its last dot on. -/
def extension (p : Text) : Text :=
  let last := Text.afterLast separator p
  match Text.beforeLast? (Text.byte '.') last with
  | some before => last.drop before.length
  | none => []

/-- The last element without its extension. -/
def stem (p : Text) : Text :=
  let b := base p
  b.take (b.length - (extension b).length)

/-- What is left of two lists after their longest common beginning. -/
def diverge : List Text → List Text → List Text × List Text
  | a :: as, b :: bs => if a = b then diverge as bs else (a :: as, b :: bs)
  | as, bs => (as, bs)

/-- The way from `start` to `target`. There is none if only one of them is absolute, or if `start` leads further up than
`target`. -/
def relative? (start target : Text) : Option Text :=
  let start := clean start
  let target := clean target
  if start = target then some "."
  else if isAbsolute start ≠ isAbsolute target then none
  else
    let (up, down) := diverge (elements start) ((Text.split separator target).filter (· ≠ []))
    if up.head? = some (Text.ofString "..") then none
    else some (Text.join "/" (up.map (fun _ => Text.ofString "..") ++ down))

def isWithin (directory p : Text) : Bool :=
  match relative? directory p with
  | some way => (Text.split separator way).head? ≠ some (Text.ofString "..")
  | none => false

end KiteCompiler.Path
