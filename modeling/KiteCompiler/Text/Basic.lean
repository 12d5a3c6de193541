/-!
# Text

Source files are byte strings that need not be valid UTF-8, and columns, offsets and cuts count bytes. So every
text of the compiler is a list of bytes; a `String` is turned into its UTF-8 bytes by a coercion.
-/

namespace KiteCompiler

abbrev Text := List UInt8

namespace Text

def ofString (s : String) : Text := s.toUTF8.data.toList

instance : Coe String Text := ⟨ofString⟩

def byte (c : Char) : UInt8 := c.toNat.toUInt8

def toString? (t : Text) : Option String := String.fromUTF8? ⟨t.toArray⟩

def ofNat (n : Nat) : Text := toString n

/-- Decimal notation with a sign for negative numbers. -/
def ofInt (n : Int) : Text := toString n

/-- The digits of `n` in lower case hexadecimal, at least `width` of them. -/
def hex (width n : Nat) : Text :=
  let digits := Nat.toDigits 16 n
  String.ofList (List.replicate (width - digits.length) '0' ++ digits)

def spaces (n : Nat) : Text := List.replicate n (byte ' ')

def join (separator : Text) (parts : List Text) : Text := List.intercalate separator parts

/-- The pieces between the occurrences of `separator`; there is always at least one. -/
def split (separator : UInt8) : Text → List Text
  | [] => [[]]
  | b :: rest =>
    if b = separator then [] :: split separator rest
    else
      match split separator rest with
      | [] => [[b]]
      | piece :: pieces => (b :: piece) :: pieces

/-- What follows the last occurrence of `separator`, or the whole text. -/
def afterLast (separator : UInt8) (t : Text) : Text := (t.reverse.takeWhile (· ≠ separator)).reverse

/-- What stands before the last occurrence of `separator`, if it occurs. -/
def beforeLast? (separator : UInt8) (t : Text) : Option Text :=
  match t.reverse.dropWhile (· ≠ separator) with
  | [] => none
  | _ :: rest => some rest.reverse

/-- The text up to the first occurrence of `separator` and, if it occurs, what follows it. -/
def cut (separator : UInt8) (t : Text) : Text × Option Text :=
  match t.dropWhile (· ≠ separator) with
  | [] => (t, none)
  | _ :: rest => (t.takeWhile (· ≠ separator), some rest)

def dropStart? (start t : Text) : Option Text :=
  if start.isPrefixOf t then some (t.drop start.length) else none

/-- Every occurrence of one byte replaced by another. -/
def replace (old new : UInt8) (t : Text) : Text := t.map fun b => if b = old then new else b

/-- ASCII letters in lower case, everything else as it is. -/
def toLower (t : Text) : Text := t.map fun b => if byte 'A' ≤ b && b ≤ byte 'Z' then b + 32 else b

/-- Byte-wise dictionary order. -/
def precedes : Text → Text → Bool
  | [], _ => true
  | _ :: _, [] => false
  | a :: s, b :: t => if a = b then precedes s t else a < b

end Text

end KiteCompiler
