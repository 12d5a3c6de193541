import KiteCompiler.Text.Utf8
import KiteCompiler.Text.Cluster

/-!
# Display width

The number of terminal cells a text takes. The text is divided into grapheme clusters; a cluster takes the width of
its first character, and further characters add to it unless the first one is a pictograph, a flag half or a Hangul
leading consonant. A variation selector settles whether a pictograph is shown wide.
-/

namespace KiteCompiler.Text

/-- What the characters of the current cluster allow to follow. -/
inductive ClusterState where
  | any | cr | controlLf | jamoL | jamoLV | jamoLVT | leadingPart | pictograph | pictographJoiner
  | flagHalf | flagWhole
  deriving DecidableEq, Repr

/-- A break rule: the next state, whether a new cluster starts, and the rank of the rule (lower ranks win). -/
structure ClusterRule where
  next : ClusterState
  breaks : Bool
  rank : Nat

/-- The rule for one state and one class, where `any` and `other` stand for themselves only. -/
def clusterRule? : ClusterState → ClusterClass → Option ClusterRule
  | .any, .cr => some ⟨.cr, true, 50⟩
  | .any, .lf => some ⟨.controlLf, true, 50⟩
  | .any, .control => some ⟨.controlLf, true, 50⟩
  | .cr, .other => some ⟨.any, true, 40⟩
  | .controlLf, .other => some ⟨.any, true, 40⟩
  | .cr, .lf => some ⟨.controlLf, false, 30⟩
  | .any, .jamoL => some ⟨.jamoL, true, 9990⟩
  | .jamoL, .jamoL => some ⟨.jamoL, false, 60⟩
  | .jamoL, .jamoV => some ⟨.jamoLV, false, 60⟩
  | .jamoL, .syllableLV => some ⟨.jamoLV, false, 60⟩
  | .jamoL, .syllableLVT => some ⟨.jamoLVT, false, 60⟩
  | .any, .syllableLV => some ⟨.jamoLV, true, 9990⟩
  | .any, .jamoV => some ⟨.jamoLV, true, 9990⟩
  | .jamoLV, .jamoV => some ⟨.jamoLV, false, 70⟩
  | .jamoLV, .jamoT => some ⟨.jamoLVT, false, 70⟩
  | .any, .syllableLVT => some ⟨.jamoLVT, true, 9990⟩
  | .any, .jamoT => some ⟨.jamoLVT, true, 9990⟩
  | .jamoLVT, .jamoT => some ⟨.jamoLVT, false, 80⟩
  | .any, .extend => some ⟨.any, false, 90⟩
  | .any, .joiner => some ⟨.any, false, 90⟩
  | .any, .spacingMark => some ⟨.any, false, 91⟩
  | .any, .leadingPart => some ⟨.leadingPart, true, 9990⟩
  | .leadingPart, .other => some ⟨.any, false, 92⟩
  | .any, .pictographic => some ⟨.pictograph, true, 9990⟩
  | .pictograph, .extend => some ⟨.pictograph, false, 110⟩
  | .pictograph, .joiner => some ⟨.pictographJoiner, false, 110⟩
  | .pictographJoiner, .pictographic => some ⟨.pictograph, false, 110⟩
  | .any, .regionalIndicator => some ⟨.flagHalf, true, 9990⟩
  | .flagHalf, .regionalIndicator => some ⟨.flagWhole, false, 120⟩
  | .flagWhole, .regionalIndicator => some ⟨.flagHalf, true, 120⟩
  | _, _ => none

/-- The state after a character of class `c`, and whether that character starts a new cluster. When no rule names
both, the rule for the state alone and the rule for the class alone are weighed by rank. -/
def clusterStep (s : ClusterState) (c : ClusterClass) : ClusterState × Bool :=
  match clusterRule? s c with
  | some rule => (rule.next, rule.breaks)
  | none =>
    match clusterRule? s .other, clusterRule? .any c with
    | some byState, some byClass =>
      (byClass.next, if byState.rank < byClass.rank then byState.breaks else byClass.breaks)
    | some byState, none => (byState.next, byState.breaks)
    | none, some byClass => (byClass.next, byClass.breaks)
    | none, none => (.any, true)

def clusterStart (c : ClusterClass) : ClusterState :=
  match clusterRule? .any c with
  | some rule => rule.next
  | none => .any

/-- The cells of one character on its own. -/
def runeWidth (code : Nat) (c : ClusterClass) : Nat :=
  match c with
  | .control | .cr | .lf | .extend | .joiner => 0
  | .regionalIndicator => 2
  | .pictographic => if inRuns emojiPresentationRuns code then 2 else 1
  | _ =>
    if code = 0x2E3A then 3
    else if code = 0x2E3B then 4
    else if inRuns wideRuns code then 2
    else 1

/-- The width of the current cluster after one more character joined it. -/
def extendWidth (first : ClusterClass) (width code : Nat) (c : ClusterClass) : Nat :=
  if first = .pictographic then
    if code = 0xFE0E then 1 else if code = 0xFE0F then 2 else width
  else if first = .regionalIndicator || first = .jamoL then width
  else width + runeWidth code c

/-- Widths of the clusters that remain: `first` and `width` describe the cluster being read. -/
def clusterWidths (state : ClusterState) (first : ClusterClass) (width : Nat) : List (Rune × Text) → Nat
  | [] => width
  | (r, _) :: rest =>
    let c := clusterClass r.code
    let (next, breaks) := clusterStep state c
    if breaks then width + clusterWidths next c (runeWidth r.code c) rest
    else clusterWidths next first (extendWidth first width r.code c) rest

/-- The number of terminal cells the text takes. -/
def displayWidth (t : Text) : Nat :=
  match Rune.list t with
  | [] => 0
  | (r, _) :: rest =>
    let c := clusterClass r.code
    clusterWidths (clusterStart c) c (runeWidth r.code c) rest

end KiteCompiler.Text
