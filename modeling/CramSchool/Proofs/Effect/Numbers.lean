/-
  The numbers in a text.

  A number is the longest run of digits that begins at a place, and there is none only where no
  digit stands (`Phrase.number_eq_none_iff`). Its value stops at the end of the range twice with
  each digit, behind the multiplication and behind the addition, and still is what one stop at
  the end would give: the number that the whole run stands for, or the greatest in the range. Zeros
  in front of it count for nothing (`Numeral.zeros`).

  The least number in the range has no counterpart above zero, but the greatest has one below. So
  an amount can always be negated, and a change with a minus sign is exactly the negative of what
  its digits are read as (`Phrase.less_exact`).

  Main result: `Phrase.number_maximal_and_exact`.
-/
import CramSchool.Proofs.Effect.Scan

namespace CramSchool

open Text Pattern Decimal

namespace Text.Decimal

/-- Zeros in front do not change what digits stand for. -/
theorem ofDigitChars_zeros (n : Nat) (digits : List Char) :
    Nat.ofDigitChars 10 (List.replicate n '0' ++ digits) 0 = Nat.ofDigitChars 10 digits 0 := by
  induction n with
  | zero => rfl
  | succ n ih =>
      rw [List.replicate_succ, List.cons_append, Nat.ofDigitChars_cons]
      exact ih

theorem Numeral.zeros {digits : List Char} {v : Points} (h : Numeral digits v) (n : Nat) :
    Numeral (List.replicate n '0' ++ digits) v where
  nonempty := fun he => h.nonempty (List.append_eq_nil_iff.mp he).2
  isDigit := by
    refine List.forall_mem_append.mpr ⟨fun c hc => ?_, h.isDigit⟩
    rw [List.eq_of_mem_replicate hc]
    decide
  value := by
    rw [ofDigitChars_zeros]
    exact h.value

/-- What digits are read as can be negated. -/
theorem Numeral.exists_neg {digits : List Char} {v : Points} (h : Numeral digits v) :
    ∃ a : Points, a.val = -v.val := by
  have hvalue := h.value
  exact ⟨⟨-v.val, by omega, by omega⟩, rfl⟩

end Text.Decimal

namespace Phrase

/-- There is no number where no digit stands, and nowhere else. -/
theorem number_eq_none_iff {text : List Char} : number text = none ↔ NoDigitHead text := by
  unfold number
  rw [bind_apply, Pattern.bind, run]
  rcases text with _ | ⟨c, rest⟩
  · refine iff_of_true rfl fun c hc => ?_
    cases hc
  · by_cases hc : c.isDigit = true
    · rw [List.takeWhile_cons_of_pos hc]
      refine iff_of_false (fun hnone => ?_) fun h => absurd hc (by simp [h c rfl])
      cases hnone
    · rw [List.takeWhile_cons_of_neg hc]
      exact iff_of_true rfl (noDigitHead_cons (by simpa using hc) rest)

/-- A change with a minus sign is the negative of what its digits are read as. -/
theorem less_exact (k : Stat) {digits rest : List Char} {v : Points} (h : Numeral digits v)
    (hrest : NoDigitHead rest) :
    ∃ a, a.val = -v.val ∧
      Takes changeBy (k.label.toList ++ '-' :: digits) rest (.changeBy k a) := by
  obtain ⟨a, ha⟩ := h.exists_neg
  exact ⟨a, ha, exact_changeBy.takes (.less h ha hrest)⟩

/-- Numbers are read as far as they go and exactly, at every boundary of a text.

    At the boundary between `before` and `rest` there is no number if and only if no digit stands
    there. Otherwise the number takes all digits up to the first other character, and is what they
    stand for, or the greatest in the range if they stand for more; zeros in front do not count. By
    offsets the number ends one byte further for each digit.

    The amount of a change can be negated: no boundary of the text leads to a fault, and a change
    with a minus sign is exactly the negative of the number behind it. -/
theorem number_maximal_and_exact (before rest : List Char) :
    (number rest = none ↔ NoDigitHead rest) ∧
    (∀ v width, number rest = some (v, width) ↔
      ∃ digits behind, rest = digits ++ behind ∧ digits.length = width ∧
        Numeral digits v ∧ NoDigitHead behind) ∧
    (∀ digits v n, Numeral digits v → Numeral (List.replicate n '0' ++ digits) v) ∧
    Scan.number (before ++ rest) (byteSize before) =
      .ok ((number rest).map fun x => (x.1, byteSize before + x.2)) ∧
    Scan.changeBy (before ++ rest) (byteSize before) =
      .ok ((changeBy rest).map fun x => (x.1, byteSize before + byteSize (rest.take x.2))) ∧
    ∀ k digits v behind, rest = (k.label.toList ++ '-' :: digits) ++ behind → Numeral digits v →
      NoDigitHead behind → ∃ a width, a.val = -v.val ∧ changeBy rest = some (.changeBy k a, width) := by
  have hstands : Stands (before ++ rest) before.length (byteSize before) rest :=
    ⟨before, rfl, rfl, rfl⟩
  refine ⟨number_eq_none_iff, fun v width => ?_, fun digits v n h => h.zeros n, ?_,
    Scan.tracks_changeBy hstands, ?_⟩
  · rw [exact_number]
  · rw [Scan.tracks_number hstands]
    rcases hnumber : number rest with _ | ⟨v, width⟩
    · rfl
    · -- Each of the characters taken is a digit, so it is one byte.
      obtain ⟨digits, behind, rfl, rfl, hdigits, _⟩ := (exact_number _ _ _).mp hnumber
      have hsize := byteSize_eq_length fun c hc => Scan.utf8Size_eq_one (hdigits.isDigit c hc)
      rw [Option.map_some, Option.map_some, List.take_left, hsize]
  · rintro k digits v behind rfl h hbehind
    obtain ⟨a, ha, htakes⟩ := less_exact k h hbehind
    exact ⟨a, _, ha, htakes⟩

/-- A run of twenty digits behind a zero, read as the greatest number and negated. -/
example : changeBy "満足-099999999999999999999".toList =
    some (.changeBy .satisfaction (.saturate (-9223372036854775807)), 24) := by decide +kernel

end Phrase

end CramSchool
