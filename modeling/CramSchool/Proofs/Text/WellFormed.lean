/-
  Bytes without a fault are the bytes of a text.

  A first byte and the bytes that must follow it are the form of a character (`encodes_sequence`).
  Where the reader finds no fault the bytes fall into such sequences, so they are the form of
  a list of characters. With the other direction, that texts have no fault, this says which bytes
  are read as text (`firstFault_eq_none_iff`).
-/
import CramSchool.Proofs.Text.Utf8

namespace CramSchool.Text.Utf8

/-! ## Sequences are characters -/

/-- The bytes are the form of one character. -/
def Encodes (bytes : List UInt8) : Prop := ∃ c : Char, String.utf8EncodeChar c = bytes

theorem exists_char {v : Nat} (h : v.isValidChar) : ∃ c : Char, c.val.toNat = v :=
  ⟨Char.ofNatAux v h, rfl⟩

theorem ofNat_eq {n : Nat} {b : UInt8} (h : n = b.toNat) : UInt8.ofNat n = b := by
  rw [h, UInt8.ofNat_toNat]

theorem within_iff (low high b : UInt8) :
    Within (low, high) b ↔ low.toNat ≤ b.toNat ∧ b.toNat ≤ high.toNat := by
  unfold Within
  rw [UInt8.le_iff_toNat_le, UInt8.le_iff_toNat_le]

/-- The bits that a continuation byte carries. -/
theorem toNat_continuation {b : UInt8} (h : Within continuation b) :
    0x80 ≤ b.toNat ∧ b.toNat < 0xC0 := by
  obtain ⟨hlow, hhigh⟩ := (within_iff _ _ _).mp h
  simp only [UInt8.reduceToNat] at hlow hhigh
  omega

theorem encodes_one {a : UInt8} (ha : a.toNat < 0x80) : Encodes [a] := by
  obtain ⟨c, hc⟩ := exists_char (v := a.toNat) (.inl (by omega))
  refine ⟨c, ?_⟩
  unfold String.utf8EncodeChar
  rw [hc]
  dsimp only
  rw [if_pos (by omega), ofNat_eq rfl]

theorem encodes_two {a b : UInt8} (hlow : 0xC2 ≤ a.toNat) (hhigh : a.toNat < 0xE0)
    (hb : Within continuation b) : Encodes [a, b] := by
  have hb := toNat_continuation hb
  obtain ⟨c, hc⟩ := exists_char (v := (a.toNat - 0xC0) * 0x40 + (b.toNat - 0x80)) (.inl (by omega))
  refine ⟨c, ?_⟩
  unfold String.utf8EncodeChar
  rw [hc]
  dsimp only
  rw [if_neg (by omega), if_pos (by omega), ofNat_eq (b := a) (by omega),
    ofNat_eq (b := b) (by omega)]

/-- The bounds on the second byte keep overlong forms and surrogates out. -/
theorem encodes_three {a b c : UInt8} (hlow : 0xE0 ≤ a.toNat) (hhigh : a.toNat < 0xF0)
    (hb : Within continuation b) (hc : Within continuation c)
    (hfirst : a.toNat = 0xE0 → 0xA0 ≤ b.toNat) (hsurrogate : a.toNat = 0xED → b.toNat < 0xA0) :
    Encodes [a, b, c] := by
  have hb := toNat_continuation hb
  have hc := toNat_continuation hc
  obtain ⟨char, hchar⟩ := exists_char
    (v := (a.toNat - 0xE0) * 0x1000 + (b.toNat - 0x80) * 0x40 + (c.toNat - 0x80)) (by omega)
  refine ⟨char, ?_⟩
  unfold String.utf8EncodeChar
  rw [hchar]
  dsimp only
  rw [if_neg (by omega), if_neg (by omega), if_pos (by omega), ofNat_eq (b := a) (by omega),
    ofNat_eq (b := b) (by omega), ofNat_eq (b := c) (by omega)]

/-- The bounds on the second byte keep overlong forms and numbers behind the last code point
    out. -/
theorem encodes_four {a b c d : UInt8} (hlow : 0xF0 ≤ a.toNat) (hhigh : a.toNat ≤ 0xF4)
    (hb : Within continuation b) (hc : Within continuation c) (hd : Within continuation d)
    (hfirst : a.toNat = 0xF0 → 0x90 ≤ b.toNat) (hend : a.toNat = 0xF4 → b.toNat < 0x90) :
    Encodes [a, b, c, d] := by
  have hb := toNat_continuation hb
  have hc := toNat_continuation hc
  have hd := toNat_continuation hd
  obtain ⟨char, hchar⟩ := exists_char
    (v := (a.toNat - 0xF0) * 0x40000 + (b.toNat - 0x80) * 0x1000 + (c.toNat - 0x80) * 0x40 +
      (d.toNat - 0x80)) (.inr (by omega))
  refine ⟨char, ?_⟩
  unfold String.utf8EncodeChar
  rw [hchar]
  dsimp only
  rw [if_neg (by omega), if_neg (by omega), if_neg (by omega), ofNat_eq (b := a) (by omega),
    ofNat_eq (b := b) (by omega), ofNat_eq (b := c) (by omega), ofNat_eq (b := d) (by omega)]

theorem forall₂_one {r : UInt8 × UInt8} {tail : List UInt8} (h : List.Forall₂ Within [r] tail) :
    ∃ b, tail = [b] ∧ Within r b := by
  obtain ⟨b, rest, hb, hrest, rfl⟩ := List.forall₂_cons_left_iff.mp h
  exact ⟨b, by rw [List.forall₂_nil_left_iff.mp hrest], hb⟩

theorem forall₂_two {r s : UInt8 × UInt8} {tail : List UInt8}
    (h : List.Forall₂ Within [r, s] tail) : ∃ b c, tail = [b, c] ∧ Within r b ∧ Within s c := by
  obtain ⟨b, rest, hb, hrest, rfl⟩ := List.forall₂_cons_left_iff.mp h
  obtain ⟨c, rfl, hc⟩ := forall₂_one hrest
  exact ⟨b, c, rfl, hb, hc⟩

theorem forall₂_three {r s t : UInt8 × UInt8} {tail : List UInt8}
    (h : List.Forall₂ Within [r, s, t] tail) :
    ∃ b c d, tail = [b, c, d] ∧ Within r b ∧ Within s c ∧ Within t d := by
  obtain ⟨b, rest, hb, hrest, rfl⟩ := List.forall₂_cons_left_iff.mp h
  obtain ⟨c, d, rfl, hc, hd⟩ := forall₂_two hrest
  exact ⟨b, c, d, rfl, hb, hc, hd⟩

/-- A narrower range of second bytes. -/
theorem within_narrow {low high : UInt8} (hlow : 0x80 ≤ low.toNat) (hhigh : high.toNat ≤ 0xBF)
    {b : UInt8} (h : Within (low, high) b) :
    Within continuation b ∧ low.toNat ≤ b.toNat ∧ b.toNat ≤ high.toNat := by
  have hb := (within_iff _ _ _).mp h
  refine ⟨(within_iff _ _ _).mpr ?_, hb⟩
  simp only [UInt8.reduceToNat]
  omega

/-- A first byte with the bytes that must follow it is a character. One case for each row of
    the table of first bytes. -/
theorem encodes_sequence {bytes : List UInt8} (h : Sequence bytes) : Encodes bytes := by
  obtain ⟨first, tail, ranges, rfl, hfirst, htail⟩ := h
  have htable := following_ofNat first.toNat_lt
  rw [UInt8.ofNat_toNat] at htable
  rw [htable] at hfirst
  split at hfirst
  · cases hfirst
    cases htail
    exact encodes_one (by omega)
  split at hfirst
  · cases hfirst
  split at hfirst
  · cases hfirst
    obtain ⟨b, rfl, hb⟩ := forall₂_one htail
    exact encodes_two (by omega) (by omega) hb
  split at hfirst
  · cases hfirst
    obtain ⟨b, c, rfl, hb, hc⟩ := forall₂_two htail
    obtain ⟨hb, hlow, _⟩ := within_narrow (by decide) (by decide) hb
    exact encodes_three (by omega) (by omega) hb hc (fun _ => hlow) (by omega)
  split at hfirst
  · cases hfirst
    obtain ⟨b, c, rfl, hb, hc⟩ := forall₂_two htail
    obtain ⟨hb, _, hhigh⟩ := within_narrow (by decide) (by decide) hb
    exact encodes_three (by omega) (by omega) hb hc (by omega) fun _ => Nat.lt_succ_of_le hhigh
  split at hfirst
  · cases hfirst
    obtain ⟨b, c, rfl, hb, hc⟩ := forall₂_two htail
    exact encodes_three (by omega) (by omega) hb hc (by omega) (by omega)
  split at hfirst
  · cases hfirst
    obtain ⟨b, c, d, rfl, hb, hc, hd⟩ := forall₂_three htail
    obtain ⟨hb, hlow, _⟩ := within_narrow (by decide) (by decide) hb
    exact encodes_four (by omega) (by omega) hb hc hd (fun _ => hlow) (by omega)
  split at hfirst
  · cases hfirst
    obtain ⟨b, c, d, rfl, hb, hc, hd⟩ := forall₂_three htail
    exact encodes_four (by omega) (by omega) hb hc hd (by omega) (by omega)
  split at hfirst
  · cases hfirst
    obtain ⟨b, c, d, rfl, hb, hc, hd⟩ := forall₂_three htail
    obtain ⟨hb, _, hhigh⟩ := within_narrow (by decide) (by decide) hb
    exact encodes_four (by omega) (by omega) hb hc hd (by omega) fun _ => Nat.lt_succ_of_le hhigh
  · cases hfirst

/-! ## Bytes without a fault are texts -/

/-- Without a fault the bytes that are expected come first, and there is no fault behind them. -/
theorem exists_tail_of_faultFrom {ranges : List (UInt8 × UInt8)} {bytes : List UInt8}
    {start seen : Nat} (h : faultFrom start seen ranges bytes = none) :
    ∃ tail rest, bytes = tail ++ rest ∧ List.Forall₂ Within ranges tail ∧
      faultFrom start (seen + tail.length) [] rest = none := by
  induction ranges generalizing bytes seen with
  | nil => exact ⟨[], bytes, rfl, .nil, h⟩
  | cons range ranges ih =>
      cases bytes with
      | nil => cases h
      | cons b bytes =>
          rw [faultFrom] at h
          split at h
          · next hb =>
              obtain ⟨tail, rest, rfl, htail, hrest⟩ := ih h
              refine ⟨b :: tail, rest, rfl, .cons hb htail, ?_⟩
              rwa [List.length_cons, Nat.add_comm tail.length, ← Nat.add_assoc]
          · cases h

/-- Each sequence is a character; the induction is on the bytes behind it. -/
theorem exists_chars_of_faultFrom {bytes : List UInt8} {start seen : Nat}
    (h : faultFrom start seen [] bytes = none) :
    ∃ cs : List Char, cs.flatMap String.utf8EncodeChar = bytes := by
  induction hn : bytes.length using Nat.strongRecOn generalizing bytes start seen with
  | ind n ih =>
      cases bytes with
      | nil => exact ⟨[], rfl⟩
      | cons first bytes =>
          rw [faultFrom] at h
          split at h
          · next ranges hfirst =>
              obtain ⟨tail, rest, rfl, htail, hrest⟩ := exists_tail_of_faultFrom h
              obtain ⟨c, hc⟩ := encodes_sequence ⟨first, tail, ranges, rfl, hfirst, htail⟩
              have hlength : rest.length < n := by
                rw [← hn, List.length_cons, List.length_append]
                omega
              obtain ⟨cs, hcs⟩ := ih rest.length hlength hrest rfl
              exact ⟨c :: cs, by rw [List.flatMap_cons, hc, hcs, List.cons_append]⟩
          · cases h

/-- No fault is found exactly in the bytes of texts. -/
theorem firstFault_eq_none_iff (bytes : List UInt8) :
    firstFault bytes = none ↔ ∃ text : String, text.toUTF8.toList = bytes := by
  constructor
  · intro h
    obtain ⟨cs, hcs⟩ := exists_chars_of_faultFrom h
    exact ⟨String.ofList cs, by rw [toList_toUTF8, String.toList_ofList, hcs]⟩
  · rintro ⟨text, rfl⟩
    exact firstFault_toUTF8 text

end CramSchool.Text.Utf8
