/-
  The bytes of a text have no fault.

  Each character gives one whole sequence: a first byte and, in each of the ranges that must
  follow it, one byte (`exists_sequence`). The reader passes a whole sequence and is between
  sequences again (`faultFrom_sequence`), so it finds no fault (`firstFault_toUTF8`).
-/
import CramSchool.Text.Utf8
import Mathlib.Data.List.Forall2

namespace CramSchool.Text.Utf8

/-- A byte in a range. -/
def Within (range : UInt8 × UInt8) (b : UInt8) : Prop := range.1 ≤ b ∧ b ≤ range.2

/-! ## The reader passes whole sequences -/

theorem faultFrom_within {ranges : List (UInt8 × UInt8)} {tail : List UInt8}
    (h : List.Forall₂ Within ranges tail) (start seen : Nat) (rest : List UInt8) :
    faultFrom start seen ranges (tail ++ rest) = faultFrom start (seen + tail.length) [] rest := by
  induction h generalizing seen with
  | nil => rfl
  | @cons range b ranges tail hb _ ih =>
      rw [List.cons_append, faultFrom, if_pos (show range.1 ≤ b ∧ b ≤ range.2 from hb), ih,
        List.length_cons]
      congr 1
      omega

theorem faultFrom_sequence {first : UInt8} {ranges : List (UInt8 × UInt8)} {tail : List UInt8}
    (hfirst : following first = some ranges) (h : List.Forall₂ Within ranges tail)
    (start seen : Nat) (rest : List UInt8) :
    faultFrom start seen [] (first :: tail ++ rest) =
      faultFrom (start + seen) (1 + tail.length) [] rest := by
  rw [List.cons_append, faultFrom, hfirst]
  exact faultFrom_within h _ _ rest

/-! ## The bytes of a character are a whole sequence -/

theorem within_ofNat {n : Nat} (hn : n < 256) (low high : UInt8) :
    Within (low, high) (.ofNat n) ↔ low.toNat ≤ n ∧ n ≤ high.toNat := by
  have hnat : (UInt8.ofNat n).toNat = n := UInt8.toNat_ofNat_of_lt' hn
  unfold Within
  rw [UInt8.le_iff_toNat_le, UInt8.le_iff_toNat_le, hnat]

theorem within_continuation (n : Nat) : Within continuation (.ofNat (n % 0x40 + 0x80)) := by
  refine (within_ofNat (by omega) _ _).mpr ?_
  simp only [UInt8.reduceToNat]
  omega

theorem following_ofNat {n : Nat} (hn : n < 256) :
    following (.ofNat n) =
      if n < 0x80 then some []
      else if n < 0xC2 then none
      else if n < 0xE0 then some [continuation]
      else if n = 0xE0 then some [(0xA0, 0xBF), continuation]
      else if n = 0xED then some [(0x80, 0x9F), continuation]
      else if n < 0xF0 then some [continuation, continuation]
      else if n = 0xF0 then some [(0x90, 0xBF), continuation, continuation]
      else if n < 0xF4 then some [continuation, continuation, continuation]
      else if n = 0xF4 then some [(0x80, 0x8F), continuation, continuation]
      else none := by
  have hnat : (UInt8.ofNat n).toNat = n := UInt8.toNat_ofNat_of_lt' hn
  simp only [following, UInt8.lt_iff_toNat_lt, ← UInt8.toNat_inj, hnat, UInt8.reduceToNat]

/-- A first byte and the bytes that must follow it. -/
def Sequence (bytes : List UInt8) : Prop :=
  ∃ first tail ranges, bytes = first :: tail ∧ following first = some ranges ∧
    List.Forall₂ Within ranges tail

theorem sequence_one {v : Nat} (h : v ≤ 0x7F) : Sequence [.ofNat v] := by
  refine ⟨_, [], [], rfl, ?_, .nil⟩
  rw [following_ofNat (by omega), if_pos (by omega)]

theorem sequence_two {v : Nat} (hlow : 0x7F < v) (hhigh : v ≤ 0x7FF) :
    Sequence [.ofNat (v / 64 % 0x20 + 0xC0), .ofNat (v % 0x40 + 0x80)] := by
  refine ⟨_, _, [continuation], rfl, ?_, .cons (within_continuation v) .nil⟩
  rw [following_ofNat (by omega), if_neg (by omega), if_neg (by omega), if_pos (by omega)]

/-- The second byte is bounded below after the lowest first byte, against overlong forms, and
    above after the first byte of the surrogates. -/
theorem sequence_three {v : Nat} (hlow : 0x7FF < v) (hhigh : v ≤ 0xFFFF)
    (hvalid : v < 0xD800 ∨ 0xDFFF < v) :
    Sequence [.ofNat (v / 4096 % 0x10 + 0xE0), .ofNat (v / 64 % 0x40 + 0x80),
      .ofNat (v % 0x40 + 0x80)] := by
  have hlast := within_continuation v
  by_cases hfirst : v / 4096 = 0
  · refine ⟨_, _, [(0xA0, 0xBF), continuation], rfl, ?_, .cons ?_ (.cons hlast .nil)⟩
    · rw [following_ofNat (by omega), if_neg (by omega), if_neg (by omega), if_neg (by omega),
        if_pos (by omega)]
    · rw [within_ofNat (by omega)]
      simp only [UInt8.reduceToNat]
      omega
  · by_cases hsurrogate : v / 4096 = 13
    · refine ⟨_, _, [(0x80, 0x9F), continuation], rfl, ?_, .cons ?_ (.cons hlast .nil)⟩
      · rw [following_ofNat (by omega), if_neg (by omega), if_neg (by omega), if_neg (by omega),
          if_neg (by omega), if_pos (by omega)]
      · rw [within_ofNat (by omega)]
        simp only [UInt8.reduceToNat]
        omega
    · refine ⟨_, _, [continuation, continuation], rfl, ?_,
        .cons (within_continuation _) (.cons hlast .nil)⟩
      rw [following_ofNat (by omega), if_neg (by omega), if_neg (by omega), if_neg (by omega),
        if_neg (by omega), if_neg (by omega), if_pos (by omega)]

/-- The second byte is bounded below after the lowest first byte, against overlong forms, and
    above after the highest, where the code points end. -/
theorem sequence_four {v : Nat} (hlow : 0xFFFF < v) (hhigh : v < 0x110000) :
    Sequence [.ofNat (v / 262144 % 0x08 + 0xF0), .ofNat (v / 4096 % 0x40 + 0x80),
      .ofNat (v / 64 % 0x40 + 0x80), .ofNat (v % 0x40 + 0x80)] := by
  have hthird := within_continuation (v / 64)
  have hlast := within_continuation v
  by_cases hfirst : v / 262144 = 0
  · refine ⟨_, _, [(0x90, 0xBF), continuation, continuation], rfl, ?_,
      .cons ?_ (.cons hthird (.cons hlast .nil))⟩
    · rw [following_ofNat (by omega), if_neg (by omega), if_neg (by omega), if_neg (by omega),
        if_neg (by omega), if_neg (by omega), if_neg (by omega), if_pos (by omega)]
    · rw [within_ofNat (by omega)]
      simp only [UInt8.reduceToNat]
      omega
  · by_cases hend : v / 262144 = 4
    · refine ⟨_, _, [(0x80, 0x8F), continuation, continuation], rfl, ?_,
        .cons ?_ (.cons hthird (.cons hlast .nil))⟩
      · rw [following_ofNat (by omega), if_neg (by omega), if_neg (by omega), if_neg (by omega),
          if_neg (by omega), if_neg (by omega), if_neg (by omega), if_neg (by omega),
          if_neg (by omega), if_pos (by omega)]
      · rw [within_ofNat (by omega)]
        simp only [UInt8.reduceToNat]
        omega
    · refine ⟨_, _, [continuation, continuation, continuation], rfl, ?_,
        .cons (within_continuation _) (.cons hthird (.cons hlast .nil))⟩
      rw [following_ofNat (by omega), if_neg (by omega), if_neg (by omega), if_neg (by omega),
        if_neg (by omega), if_neg (by omega), if_neg (by omega), if_neg (by omega),
        if_pos (by omega)]

theorem sequence_utf8EncodeChar (c : Char) : Sequence (String.utf8EncodeChar c) := by
  have hvalid : c.val.toNat < 0xD800 ∨ 0xDFFF < c.val.toNat ∧ c.val.toNat < 0x110000 := c.valid
  unfold String.utf8EncodeChar
  dsimp only
  split
  · exact sequence_one (by assumption)
  · split
    · exact sequence_two (by omega) (by assumption)
    · split
      · exact sequence_three (by omega) (by assumption) (by omega)
      · exact sequence_four (by omega) (by omega)

/-! ## The bytes of a text -/

theorem faultFrom_flatMap (cs : List Char) (start seen : Nat) :
    faultFrom start seen [] (cs.flatMap String.utf8EncodeChar) = none := by
  induction cs generalizing start seen with
  | nil => rfl
  | cons c cs ih =>
      obtain ⟨first, tail, ranges, hbytes, hfirst, htail⟩ := sequence_utf8EncodeChar c
      rw [List.flatMap_cons, hbytes, faultFrom_sequence hfirst htail]
      exact ih _ _

theorem toList_loop (b : ByteArray) (i : Nat) (front : List UInt8) :
    ByteArray.toList.loop b i front = front.reverse ++ b.data.toList.drop i := by
  fun_induction ByteArray.toList.loop b i front with
  | case1 i front h ih =>
      have hi : i < b.data.toList.length := h
      have hget : b.get! i = b.data.toList[i] := by
        cases b
        exact getElem!_pos _ i h
      rw [ih, List.drop_eq_getElem_cons hi, hget, List.reverse_cons, List.append_assoc]
      rfl
  | case2 i front h =>
      have hi : b.data.toList.length ≤ i := Nat.not_lt.mp h
      rw [List.drop_eq_nil_of_le hi, List.append_nil]

theorem toList_eq_data (b : ByteArray) : b.toList = b.data.toList := toList_loop b 0 []

theorem toList_toUTF8 (text : String) :
    text.toUTF8.toList = text.toList.flatMap String.utf8EncodeChar := by
  have h : text.toByteArray = (text.toList.flatMap String.utf8EncodeChar).toByteArray := by
    rw [← List.utf8Encode, ← String.toByteArray_ofList, String.ofList_toList]
  rw [toList_eq_data, String.toUTF8_eq_toByteArray, h, List.toList_data_toByteArray]

theorem length_toUTF8 (text : String) : text.toUTF8.toList.length = text.utf8ByteSize := by
  rw [toList_eq_data, Array.length_toList, String.toUTF8_eq_toByteArray]
  exact String.size_toByteArray

theorem firstFault_toUTF8 (text : String) : firstFault text.toUTF8.toList = none := by
  rw [toList_toUTF8]
  exact faultFrom_flatMap text.toList 0 0

/-- The bytes of a text are the form of that text. -/
theorem fromUTF8?_toUTF8 (text : String) :
    String.fromUTF8? ⟨text.toUTF8.toList.toArray⟩ = some text := by
  have hbytes : (⟨text.toUTF8.toList.toArray⟩ : ByteArray) = text.toByteArray := by
    rw [toList_eq_data, Array.toArray_toList, String.toUTF8_eq_toByteArray]
  rw [hbytes, String.fromUTF8?, dif_pos text.isValidUTF8]
  rfl

end CramSchool.Text.Utf8
