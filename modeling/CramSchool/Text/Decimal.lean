/-
  Decimal numbers in texts.

  `written` prints a whole number, with `-` in front of a negative one. `read` takes a run
  of ASCII digits as a number of points, digit by digit, and stays at the upper end
  of the range once it is reached.
-/
import CramSchool.Points

namespace CramSchool.Text.Decimal

/-- The digits of `n`, behind a minus sign if it is negative. -/
def written (n : Int) : List Char :=
  if n < 0 then '-' :: Nat.toDigits 10 n.natAbs else Nat.toDigits 10 n.natAbs

/-- Value of one ASCII digit. -/
def digitValue (c : Char) : Int := c.toNat - '0'.toNat

/-- One more digit behind a number, each of the two steps stopped at the ends of
    the range. -/
def push (acc : Points) (c : Char) : Points :=
  (Points.saturate (acc.val * 10)).add (Points.saturate (digitValue c))

/-- The number that a run of digits stands for. -/
def read (digits : List Char) : Points := digits.foldl push 0

end CramSchool.Text.Decimal
