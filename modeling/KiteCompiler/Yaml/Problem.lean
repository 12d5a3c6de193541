import KiteCompiler.Yaml.Characters

/-!
# Problems of a YAML text

Why a text has no document. A problem is said to be where the thing started in which it was met, or where it was met if
that thing started in the first line.
-/

namespace KiteCompiler.Yaml

inductive ScanFault where
  | noColon
  | entryNotAllowed
  | keyNotAllowed
  | valueNotAllowed
  | noToken
  | noDirectiveName
  | directiveName
  | unknownDirective
  | noLineEnd
  | noVersionPoint
  | longVersion
  | noVersion
  | noBlank
  | noBlankOrBreak
  | noExclamation
  | noUri
  | noOctet
  | leadingOctet
  | trailingOctet
  | noName
  | noClosingBracket
  | zeroIndentation
  | tabForIndentation
  | documentMark
  | endOfText
  | unknownEscape
  | noHexadecimal
  | noCharacter
  | tabInIndentation
  deriving DecidableEq, Repr

def ScanFault.message : ScanFault → Text
  | noColon => "could not find expected ':'"
  | entryNotAllowed => "block sequence entries are not allowed in this context"
  | keyNotAllowed => "mapping keys are not allowed in this context"
  | valueNotAllowed => "mapping values are not allowed in this context"
  | noToken => "found character that cannot start any token"
  | noDirectiveName => "could not find expected directive name"
  | directiveName => "found unexpected non-alphabetical character"
  | unknownDirective => "found unknown directive name"
  | noLineEnd => "did not find expected comment or line break"
  | noVersionPoint => "did not find expected digit or '.' character"
  | longVersion => "found extremely long version number"
  | noVersion => "did not find expected version number"
  | noBlank => "did not find expected whitespace"
  | noBlankOrBreak => "did not find expected whitespace or line break"
  | noExclamation => "did not find expected '!'"
  | noUri => "did not find expected tag URI"
  | noOctet => "did not find URI escaped octet"
  | leadingOctet => "found an incorrect leading UTF-8 octet"
  | trailingOctet => "found an incorrect trailing UTF-8 octet"
  | noName => "did not find expected alphabetic or numeric character"
  | noClosingBracket => "did not find the expected '>'"
  | zeroIndentation => "found an indentation indicator equal to 0"
  | tabForIndentation => "found a tab character where an indentation space is expected"
  | documentMark => "found unexpected document indicator"
  | endOfText => "found unexpected end of stream"
  | unknownEscape => "found unknown escape character"
  | noHexadecimal => "did not find expected hexdecimal number"
  | noCharacter => "found invalid Unicode character escape code"
  | tabInIndentation => "found a tab character that violates indentation"

inductive ParseFault where
  | secondVersion
  | otherVersion
  | secondHandle
  | noDocumentStart
  | unknownHandle
  | noContent
  | noDash
  | noKey
  | unclosedSequence
  | unclosedMapping
  deriving DecidableEq, Repr

def ParseFault.message : ParseFault → Text
  | secondVersion => "found duplicate %YAML directive"
  | otherVersion => "found incompatible YAML document"
  | secondHandle => "found duplicate %TAG directive"
  | noDocumentStart => "did not find expected <document start>"
  | unknownHandle => "found undefined tag handle"
  | noContent => "did not find expected node content"
  | noDash => "did not find expected '-' indicator"
  | noKey => "did not find expected key"
  | unclosedSequence => "did not find expected ',' or ']'"
  | unclosedMapping => "did not find expected ',' or '\x7d'"

/-- What is wrong with a text. Lines are counted from zero; `start` is that of the thing in which the fault was met. -/
inductive Problem where
  | reading (fault : Characters.Fault)
  | scanning (fault : ScanFault) (start line : Nat)
  | parsing (fault : ParseFault) (start line : Nat)
  | unknownAnchor (name : Text)
  /-- A text is nested deeper than it is long. -/
  | tooDeep
  deriving DecidableEq, Repr

namespace Problem

/-- The line that is named, if it is not the first; `first` is the number of the first line. -/
def place (first start line : Nat) : Text :=
  let n := if start ≠ 0 then start else line
  if n = 0 then [] else "line " ++ Text.ofNat (n + first) ++ ": "

def message : Problem → Text
  | reading fault => fault.message
  | scanning fault start line => place 1 start line ++ fault.message
  | parsing fault start line => place 0 start line ++ fault.message
  | unknownAnchor name => "unknown anchor '" ++ name ++ "' referenced"
  | tooDeep => "exceeded max depth"

end Problem

end KiteCompiler.Yaml
