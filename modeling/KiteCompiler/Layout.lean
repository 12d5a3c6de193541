import KiteCompiler.Text.Basic

/-!
# Layout

Documents that are set into lines of bounded width. A document fixes every line break except those of its lists: a list
stays on one line if it fits there and otherwise has one item on each line. Whether it fits is decided by the length of
its items set without such breaks (`Doc.flatLength`).

The indentation is a parameter of `Doc.render`, so a document cannot leave it changed; what is passed on from one part
to the next is only the `Pen`.
-/

namespace KiteCompiler

/-- Where the next byte goes: the bytes before it on its line, and whether the margin of the line is still due. -/
structure Pen where
  column : Nat
  atLineStart : Bool
  deriving DecidableEq, Repr, Inhabited

namespace Pen

def start : Pen := ⟨0, true⟩

/-- The pen behind a margin of no width. -/
def inLine : Pen := ⟨0, false⟩

/-- The pen after `t`; what counts for the column is the text after the last line break in it. -/
def after (p : Pen) (t : Text) : Pen :=
  let tail := t.reverse.takeWhile (· != 10)
  { p with column := if tail.length < t.length then tail.length else p.column + t.length }

end Pen

inductive Doc where
  | text (t : Text)
  | newline
  /-- The indentation, if nothing stands on the line yet. -/
  | margin
  /-- The body with its indentation raised by some levels. -/
  | nest (levels : Nat) (body : Doc)
  | append (first second : Doc)
  /-- Items with commas between them. Broken into lines, they are indented by `hang` levels; `reserve` is the room kept
  free behind them. -/
  | list (hang reserve : Nat) (items : List Doc)
  deriving Inhabited

namespace Doc

instance : Append Doc := ⟨append⟩
instance : Coe Text Doc := ⟨text⟩
instance : Coe String Doc := ⟨fun s => text (Text.ofString s)⟩

def empty : Doc := text []

def concat (ds : List Doc) : Doc := ds.foldr append empty

def joined (separator : Text) : List Doc → Doc
  | [] => empty
  | [d] => d
  | d :: ds => d ++ text separator ++ joined separator ds

def orEmpty (d : Option Doc) : Doc := d.getD empty

def marginText (indent : Nat) : Text := List.replicate (4 * indent) 32

def setMargin (indent : Nat) (p : Pen) : Text × Pen :=
  if p.atLineStart then (marginText indent, { p.after (marginText indent) with atLineStart := false }) else ([], p)

mutual

/-- The document with every list on one line, however long it gets: what is measured is never broken, not even at a
million columns. -/
def flat (indent : Nat) : Doc → Pen → Text × Pen
  | text t, p => (t, p.after t)
  | newline, _ => ([10], Pen.start)
  | margin, p => setMargin indent p
  | nest levels body, p => flat (indent + levels) body p
  | append first second, p =>
    let (t, p) := flat indent first p
    let (u, p) := flat indent second p
    (t ++ u, p)
  | list _ _ items, p => flatItems indent items p

def flatItems (indent : Nat) : List Doc → Pen → Text × Pen
  | [], p => ([], p)
  | [d], p => flat indent d p
  | d :: ds, p =>
    let (t, p) := flat indent d p
    let (u, p) := flatItems indent ds (p.after ", ")
    (t ++ ", " ++ u, p)

end

/-- How long the document is without margin and line breaks of its lists. -/
def flatLength (d : Doc) : Nat := (flat 0 d Pen.inLine).1.length

/-- How long a list of documents is on one line. -/
def listLength (ds : List Doc) : Nat := (ds.map flatLength).foldl Nat.add 0 + 2 * (ds.length - 1)

/-- Is there a choice between one line and many, and is one line too short? -/
def breaks (width reserve : Nat) (items : List Doc) (p : Pen) : Bool :=
  2 ≤ items.length && width < p.column + listLength items + reserve

mutual

/-- Sets a document into lines of at most `width` bytes, as far as its lists allow that. -/
def render (width indent : Nat) : Doc → Pen → Text × Pen
  | text t, p => (t, p.after t)
  | newline, _ => ([10], Pen.start)
  | margin, p => setMargin indent p
  | nest levels body, p => render width (indent + levels) body p
  | append first second, p =>
    let (t, p) := render width indent first p
    let (u, p) := render width indent second p
    (t ++ u, p)
  | list hang reserve items, p =>
    if breaks width reserve items p then
      let (t, p) := renderLines width (indent + hang) items Pen.start
      let (u, p) := setMargin indent p
      (10 :: t ++ u, p)
    else renderItems width indent items p

def renderItems (width indent : Nat) : List Doc → Pen → Text × Pen
  | [], p => ([], p)
  | [d], p => render width indent d p
  | d :: ds, p =>
    let (t, p) := render width indent d p
    let (u, p) := renderItems width indent ds (p.after ", ")
    (t ++ ", " ++ u, p)

def renderLines (width indent : Nat) : List Doc → Pen → Text × Pen
  | [], p => ([], p)
  | d :: ds, p =>
    let (m, p) := setMargin indent p
    let (t, _) := render width indent d p
    let (u, p) := renderLines width indent ds Pen.start
    (m ++ t ++ (if ds.isEmpty then "\n" else ",\n") ++ u, p)

end

def page (width : Nat) (d : Doc) : Text := (render width 0 d Pen.start).1

/-- The document on one line, except for the line breaks that it fixes itself. -/
def line (d : Doc) : Text := (flat 0 d Pen.inLine).1

end Doc

end KiteCompiler
