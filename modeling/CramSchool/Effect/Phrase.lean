/-
  Phrases: the small patterns that changes and conditions are written in.

  A change is `<stat>を<number>にする`, `<stat>+<number>` or `<stat>-<number>`; a threshold is
  `<stat><number>以上` or `<stat><number>以下`. Everything else in a text is passed over, so
  reading never fails.
-/
import CramSchool.Effect.Wording
import CramSchool.Text.Blank
import CramSchool.Text.Pattern

namespace CramSchool

open Text

namespace Phrase

/-- The word for a stat. -/
def stat : Pattern Stat := Pattern.oneOf Stat.all fun stat => stat.label.toList

/-- The longest run of ASCII digits, at least one. -/
def number : Pattern Points := do
  let digits ← Pattern.run Char.isDigit
  if digits.isEmpty then Pattern.never else pure (Decimal.read digits)

/-- One of `+` and `-`, as a factor. -/
def sign : Pattern Int := do
  let plus ← Pattern.oneOf [true, false] fun plus => if plus then ['+'] else ['-']
  pure (if plus then 1 else -1)

def comparator : Pattern Comparator :=
  Pattern.oneOf Comparator.all fun comparator => comparator.label.toList

/-- A stat set to a value: `<stat>を<number>にする`. -/
def setTo : Pattern Delta := do
  let stat ← stat
  Pattern.word "を".toList
  let value ← number
  Pattern.word "にする".toList
  pure (.setTo stat value)

/-- A stat moved by an amount: `<stat>+<number>` or `<stat>-<number>`. -/
def changeBy : Pattern Delta := do
  let stat ← stat
  let sign ← sign
  let amount ← number
  pure (.changeBy stat (.saturate (sign * amount.val)))

/-- A stat at or beyond a value: `<stat><number>以上` or `<stat><number>以下`. -/
def threshold : Pattern Condition := do
  let stat ← stat
  let value ← number
  let comparator ← comparator
  pure (.stat stat value comparator)

end Phrase

/-- The changes a text asks for: the first `setTo` in it, if any, then every `changeBy` from
    left to right. -/
def deltasOf (text : List Char) : List Delta :=
  (Phrase.setTo.findFirst? text).toList ++ Phrase.changeBy.values text

/-- The roles named in a list, each once, in order of first appearance. Items that name no
    role are dropped. -/
def rolesOf (text : List Char) : List Role :=
  ((text.splitOn Marker.separator).filterMap fun item =>
    Enumerated.ofLabel? (String.ofList (trim item))).eraseDups

/-- The condition a text states: a list that names a role is a role condition, else the first
    threshold in the text counts. -/
def Condition.ofText (text : List Char) : Condition :=
  match rolesOf text with
  | [] => (Phrase.threshold.findFirst? text).getD (.unknown (String.ofList text))
  | first :: more => .role (first :: more)

end CramSchool
