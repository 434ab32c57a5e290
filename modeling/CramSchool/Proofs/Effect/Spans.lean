/-
  The restrictions and gates of a sentence, as the grammar says.

  `RestrictionAt` and `GateAt` say of a match that a restriction or a gate stands at its place of
  the sentence, in terms of the text in front of it and behind it. They are the matches of the
  two patterns (`occurs_restriction_iff`, `occurs_gate_iff`), so the restrictions and gates that
  a sentence is read to have are the leftmost ones that do not overlap.

  Blocks are opened by gates with effect text, and gates with or without are cut out for the base.
  The two searches go different ways through a sentence, but find the same gates with effect
  text (`spans_leftmost`).
-/
import CramSchool.Proofs.Effect.Gates
import CramSchool.Proofs.Text.Leftmost

namespace CramSchool

open Text Pattern

/-! ## Restrictions and gates of a text -/

/-- The match is of a restriction of the text: in its brackets stands at least one character, and
    no closing bracket. -/
structure RestrictionAt (text : List Char) (m : Match (List Char)) : Prop where
  nonempty : m.value ≠ []
  closed : Marker.restrictionClose ∉ m.value
  place : ∃ behind, m.At text (restrictionText m.value) behind

/-- The match is of a gate of the text with at least `least` characters of effect text. Its
    condition is at least one character and has no closing bracket in it; its effect text goes as
    far as there is neither a terminator nor an opening bracket. -/
structure GateAt (least : Nat) (text : List Char) (m : Match Gate) : Prop where
  least_le : least ≤ m.value.effect.length
  place : ∃ behind, m.value.Stands behind ∧ m.At text m.value.text behind

/-! ## What the patterns match -/

theorem bracketed_eq_some_iff {opening closing : Char} {text content : List Char} {width : Nat} :
    bracketed opening closing text = some (content, width) ↔
      content ≠ [] ∧ closing ∉ content ∧ width = content.length + 2 ∧
        ∃ rest, text = (opening :: content ++ [closing]) ++ rest := by
  constructor
  · intro h
    obtain hnone | ⟨inside, rest, hne, hclosing, rfl⟩ := bracketed_cases opening closing text
    · exact nomatch hnone.symm.trans h
    · have htakes := takes_bracketed opening hne hclosing rest
      obtain ⟨rfl, rfl⟩ := Prod.mk.inj (Option.some.inj (htakes.symm.trans h))
      exact ⟨hne, hclosing, by simp, rest, rfl⟩
  · rintro ⟨hne, hclosing, rfl, rest, rfl⟩
    have htakes := takes_bracketed opening hne hclosing rest
    unfold Takes at htakes
    rw [htakes]
    simp

theorem gate_eq_some_iff {least : Nat} {text : List Char} {g : Gate} {width : Nat} :
    gate least text = some (g, width) ↔
      least ≤ g.effect.length ∧ width = g.text.length ∧
        ∃ rest, g.Stands rest ∧ text = g.text ++ rest := by
  constructor
  · intro h
    obtain hnone | ⟨found, rest, hstands, rfl⟩ := gate_cases text
    · exact nomatch (bind_eq_none _ hnone).symm.trans h
    · have hleast : least ≤ found.effect.length :=
        Nat.le_of_not_lt fun hlt => nomatch (hstands.eq_none hlt).symm.trans h
      obtain ⟨rfl, rfl⟩ :=
        Prod.mk.inj (Option.some.inj ((hstands.takes hleast).symm.trans h))
      exact ⟨hleast, rfl, rest, hstands, rfl⟩
  · rintro ⟨hleast, rfl, rest, hstands, rfl⟩
    exact hstands.takes hleast

theorem consumes_restriction : Consumes restriction := by
  intro text content width h
  obtain ⟨_, _, rfl, rest, rfl⟩ := bracketed_eq_some_iff.mp h
  simp only [List.length_append, List.length_cons, List.length_nil]
  omega

theorem consumes_gate (least : Nat) : Consumes (gate least) := by
  intro text g width h
  obtain ⟨_, rfl, rest, _, rfl⟩ := gate_eq_some_iff.mp h
  rw [List.length_append]
  exact ⟨List.length_pos_iff.mpr g.text_ne_nil, Nat.le_add_right _ _⟩

/-! ## The grammar of sentences -/

theorem occurs_restriction_iff {text : List Char} {m : Match (List Char)} :
    restriction.Occurs text m ↔ RestrictionAt text m := by
  have hplace : ∀ behind, m.At text (restrictionText m.value) behind ↔
      text.drop m.start = restrictionText m.value ++ behind ∧
        (restrictionText m.value).length = m.width := fun behind =>
    at_iff_drop (restrictionText_ne_nil m.value)
  have hlength : (restrictionText m.value).length = m.value.length + 2 := by
    simp [restrictionText]
  unfold Occurs restriction
  rw [bracketed_eq_some_iff]
  constructor
  · intro ⟨hne, hclosed, hwidth, behind, hdrop⟩
    exact ⟨hne, hclosed, behind, (hplace behind).mpr ⟨hdrop, hlength.trans hwidth.symm⟩⟩
  · intro ⟨hne, hclosed, behind, hat⟩
    obtain ⟨hdrop, hwidth⟩ := (hplace behind).mp hat
    exact ⟨hne, hclosed, hwidth.symm.trans hlength, behind, hdrop⟩

theorem occurs_gate_iff {least : Nat} {text : List Char} {m : Match Gate} :
    (gate least).Occurs text m ↔ GateAt least text m := by
  unfold Occurs
  rw [gate_eq_some_iff]
  constructor
  · intro ⟨hleast, hwidth, behind, hstands, hdrop⟩
    exact ⟨hleast, behind, hstands,
      (at_iff_drop m.value.text_ne_nil).mpr ⟨hdrop, hwidth.symm⟩⟩
  · intro ⟨hleast, behind, hstands, hat⟩
    obtain ⟨hdrop, hwidth⟩ := (at_iff_drop m.value.text_ne_nil).mp hat
    exact ⟨hleast, hwidth.symm, behind, hstands, hdrop⟩

/-- The restrictions found in a text are the leftmost restrictions of the grammar that do not
    overlap. -/
theorem findAll_restriction_iff (text : List Char) (found : List (Match (List Char))) :
    restriction.findAll text = found ↔ Leftmost (RestrictionAt text) 0 found := by
  have hsame : restriction.Occurs text = RestrictionAt text :=
    funext fun _ => propext occurs_restriction_iff
  rw [findAll_eq_iff_leftmost consumes_restriction, hsame]

/-- So are the gates, for any least number of characters of effect text. -/
theorem findAll_gate_iff (least : Nat) (text : List Char) (found : List (Match Gate)) :
    (gate least).findAll text = found ↔ Leftmost (GateAt least text) 0 found := by
  have hsame : (gate least).Occurs text = GateAt least text :=
    funext fun _ => propext occurs_gate_iff
  rw [findAll_eq_iff_leftmost (consumes_gate least), hsame]

/-- A sentence has the restrictions and gates of the grammar. In every text the restrictions
    found are the leftmost non-overlapping pieces `【X】`, where `X` is at least one character and
    has no `】` in it. The gates that open blocks are the leftmost non-overlapping pieces `〈X〉E`,
    where `X` is at least one character and has no `〉` in it, and `E` is at least one character
    and goes up to the next `。` or `〈`. They are the gates that are cut out for the base, less
    those without effect text, which are found as the pieces `〈X〉E` where `E` may be empty. -/
theorem spans_leftmost (text : List Char) :
    (∀ found, restriction.findAll text = found ↔ Leftmost (RestrictionAt text) 0 found) ∧
      (∀ found, (gate 1).findAll text = found ↔ Leftmost (GateAt 1 text) 0 found) ∧
      (∀ found, (gate 0).findAll text = found ↔ Leftmost (GateAt 0 text) 0 found) ∧
      (gate 1).findAll text = ((gate 0).findAll text).filter fun m => m.value.effect ≠ [] :=
  ⟨findAll_restriction_iff text, findAll_gate_iff 1 text, findAll_gate_iff 0 text,
    findAll_gate_one text⟩

/-- Empty brackets open nothing. An opening bracket is part of a condition, but ends effect text. -/
example :
    let text := "〈〉〈自〈習〉体験+1〈学〉".toList
    ((gate 1).findAll text).map (fun m => (m.start, m.width)) = [(2, 9)] ∧
      ((gate 0).findAll text).map (fun m => (m.start, m.width)) = [(2, 9), (11, 3)] := by decide

end CramSchool
