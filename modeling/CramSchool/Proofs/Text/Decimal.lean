/-
  Numbers are read back from their digits.

  Reading stops at the upper end of the range after every digit. That comes to the same as stopping
  once at the end: a run of digits is read as the number it stands for or, if that is
  greater, as the greatest in the range (`val_read`).
-/
import CramSchool.Text.Decimal

namespace CramSchool.Text.Decimal

/-- One more digit behind a number that was stopped at the end of the range. -/
theorem val_push {acc : Points} {n : Nat} {c : Char} (hc : c.isDigit = true)
    (hacc : acc.val = min (n : Int) 9223372036854775807) :
    (push acc c).val = min ((10 * n + (c.toNat - '0'.toNat) : Nat) : Int) 9223372036854775807 := by
  have hdigit : 48 ≤ c.toNat ∧ c.toNat ≤ 57 := Char.isDigit_iff_toNat.mp hc
  have hzero : '0'.toNat = 48 := rfl
  simp only [push, Points.add, Points.saturate, digitValue, hzero]
  omega

theorem val_foldl_push {digits : List Char} (h : ∀ c ∈ digits, c.isDigit = true) {acc : Points}
    {n : Nat} (hacc : acc.val = min (n : Int) 9223372036854775807) :
    (digits.foldl push acc).val =
      min (Nat.ofDigitChars 10 digits n : Int) 9223372036854775807 := by
  induction digits generalizing acc n with
  | nil => exact hacc
  | cons c digits ih =>
      rw [List.foldl_cons, Nat.ofDigitChars_cons]
      have hpush := val_push (h c List.mem_cons_self) hacc
      exact ih (fun d hd => h d (List.mem_cons_of_mem c hd)) hpush

/-- The number that digits stand for, stopped at the end of the range. -/
theorem val_read {digits : List Char} (h : ∀ c ∈ digits, c.isDigit = true) :
    (read digits).val = min (Nat.ofDigitChars 10 digits 0 : Int) 9223372036854775807 :=
  val_foldl_push h rfl

/-- A run of digits and the number it stands for, or the greatest of the range if it is greater. -/
structure Numeral (digits : List Char) (v : Points) : Prop where
  nonempty : digits ≠ []
  isDigit : ∀ c ∈ digits, c.isDigit = true
  value : v.val = min (Nat.ofDigitChars 10 digits 0 : Int) 9223372036854775807

/-- Reading gives the number that a run of digits stands for. -/
theorem numeral_iff {digits : List Char} {v : Points} :
    Numeral digits v ↔ digits ≠ [] ∧ (∀ c ∈ digits, c.isDigit = true) ∧ v = read digits := by
  constructor
  · intro h
    exact ⟨h.nonempty, h.isDigit, Points.ext (h.value.trans (val_read h.isDigit).symm)⟩
  · rintro ⟨hne, hdigits, rfl⟩
    exact ⟨hne, hdigits, val_read hdigits⟩

theorem isDigit_of_mem_digits {n : Nat} {c : Char} (h : c ∈ Nat.toDigits 10 n) :
    c.isDigit = true := Nat.isDigit_of_mem_toDigits (by decide) (by decide) h

/-- A number in the range is read back from its digits. -/
theorem read_digits {v : Points} {n : Nat} (h : v.val = n) : read (Nat.toDigits 10 n) = v := by
  apply Points.ext
  rw [val_read fun _ => isDigit_of_mem_digits, Nat.ofDigitChars_ten_toDigits, ← h]
  exact Int.min_eq_left v.le_greatest

end CramSchool.Text.Decimal
