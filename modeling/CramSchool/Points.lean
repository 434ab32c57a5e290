/-
  Points: the whole numbers that stats, deltas and thresholds are counted in.

  A value lies in the signed 64-bit range. Arithmetic is done on `Int` and brought back
  by `saturate`, which stops at the two ends of the range. A number inside the
  range is unchanged by it (`saturate_val`).
-/

namespace CramSchool

/-- A whole number in the signed 64-bit range. -/
structure Points where
  val : Int
  least_le : -9223372036854775808 ≤ val
  le_greatest : val ≤ 9223372036854775807
deriving DecidableEq

namespace Points

/-- The number in the range closest to `n`. -/
def saturate (n : Int) : Points :=
  ⟨max (-9223372036854775808) (min n 9223372036854775807), by omega, by omega⟩

/-- The number itself, if it is in the range. -/
def ofInt? (n : Int) : Option Points :=
  if h : -9223372036854775808 ≤ n ∧ n ≤ 9223372036854775807 then some ⟨n, h.1, h.2⟩ else none

instance (n : Nat) : OfNat Points n := ⟨saturate n⟩

instance : Inhabited Points := ⟨0⟩

/-- Sum, stopped at the ends of the range. -/
def add (a b : Points) : Points := saturate (a.val + b.val)

@[ext]
theorem ext {a b : Points} (h : a.val = b.val) : a = b := by
  cases a; cases b; simp_all

theorem saturate_of_mem {n : Int} (h1 : -9223372036854775808 ≤ n)
    (h2 : n ≤ 9223372036854775807) : (saturate n).val = n := by
  unfold saturate
  simp only
  omega

@[simp]
theorem saturate_val (a : Points) : saturate a.val = a :=
  ext (saturate_of_mem a.least_le a.le_greatest)

theorem ofInt?_val (a : Points) : ofInt? a.val = some a := by
  unfold ofInt?
  rw [dif_pos ⟨a.least_le, a.le_greatest⟩]

end Points

end CramSchool
