/-
  How deltas, conditions and effects are worded.

  The wording of an effect is the sentence an author writes for it: the restriction in
  its brackets, the base changes, then each block behind its condition.
-/
import CramSchool.Effect.Basic
import CramSchool.Text.Decimal

namespace CramSchool

open Text

namespace Marker

/-- Brackets around the roles that may play a card. -/
def restrictionOpen : Char := '【'
def restrictionClose : Char := '】'

/-- Brackets around a condition. -/
def conditionOpen : Char := '〈'
def conditionClose : Char := '〉'

/-- Stands between the items of a list of roles. -/
def separator : Char := '・'

/-- Stands between changes. -/
def comma : Char := '、'

/-- Ends a sentence. -/
def terminator : Char := '。'

end Marker

/-- The phrase for a change: `経理を14にする`, `体験+2`, `満足-1`. -/
def Delta.wording : Delta → List Char
  | .setTo stat value =>
    stat.label.toList ++ "を".toList ++ Decimal.written value.val ++ "にする".toList
  | .changeBy stat amount =>
    if amount.val < 0 then stat.label.toList ++ Decimal.written amount.val
    else stat.label.toList ++ '+' :: Decimal.written amount.val

def Delta.label (d : Delta) : String := String.ofList d.wording

/-- Role labels with separators between them. -/
def roleList (roles : List Role) : List Char :=
  [Marker.separator].intercalate (roles.map fun role => role.label.toList)

/-- The phrase for a condition: `室長・講師`, `満足8以上`, or the unknown text itself. -/
def Condition.wording : Condition → List Char
  | .role roles => roleList roles
  | .stat k threshold comparator =>
    k.label.toList ++ Decimal.written threshold.val ++ comparator.label.toList
  | .unknown raw => if raw = "" then "不明".toList else raw.toList

def Condition.label (c : Condition) : String := String.ofList c.wording

/-- Changes with commas between them and a terminator behind them. -/
def sentence (deltas : List Delta) : List Char :=
  [Marker.comma].intercalate (deltas.map Delta.wording) ++ [Marker.terminator]

/-- The restriction in its brackets; nothing if all roles may play the card. -/
def restrictionWording (roles : List Role) : List Char :=
  if roles.isEmpty then []
  else Marker.restrictionOpen :: roleList roles ++ [Marker.restrictionClose]

/-- The condition in its brackets and the changes behind it. -/
def Block.wording (b : Block) : List Char :=
  Marker.conditionOpen :: b.condition.wording ++ Marker.conditionClose :: sentence b.deltas

/-- The sentence an author writes for the effect. -/
def Effect.wording (e : Effect) : List Char :=
  restrictionWording e.restrictions ++ sentence e.base ++ (e.blocks.map Block.wording).flatten

end CramSchool
