/-
  Spans that are cut out of a text.

  `strip` copies a text without some spans: what stands in front of the first, then what stands
  between it and the second, and so on. It takes the spans as they come, and leads to a fault if
  one begins in front of the end of the one before, or at an offset that is no good.

  If the spans stand in the text one behind the other (`Laid`), there is no fault, and what is left
  are the characters outside the spans, each of them in its place (`Laid.strip`).
-/
import CramSchool.Proofs.Text.Offset

namespace CramSchool.Text

/-- The offsets between which a piece of a text stands. -/
structure Span where
  start : Nat
  stop : Nat
deriving DecidableEq

/-- The piece of the text. -/
def Span.slice (s : Span) (text : List Char) : Checked (List Char) := Text.slice text s.start s.stop

/-- The text from `cursor` on, with spans cut out one after the other. -/
def strip (text : List Char) : (cursor : Nat) → List Span → Checked (List Char)
  | cursor, [] => sliceFrom text cursor
  | cursor, s :: spans => do
    let kept ← slice text cursor s.start
    return kept ++ (← strip text s.stop spans)

/-- Whether the byte at an offset is in one of the spans. -/
def inSpans (spans : List Span) (offset : Nat) : Bool :=
  spans.any fun s => s.start ≤ offset && offset < s.stop

/-- The characters, from `offset` on, whose first bytes are in none of the spans. -/
def outsideSpans (spans : List Span) : (offset : Nat) → List Char → List Char
  | _, [] => []
  | offset, c :: rest =>
    if inSpans spans offset then outsideSpans spans (offset + c.utf8Size) rest
    else c :: outsideSpans spans (offset + c.utf8Size) rest

/-- The spans stand in the text, from `cursor` on, one behind the other. -/
inductive Laid (text : List Char) : (cursor : Nat) → List Span → Prop
  | nil {cursor : Nat} : Laid text cursor []
  | cons {cursor place place' : Nat} {s : Span} {spans : List Span} {behind behind' : List Char}
      (hcursor : cursor ≤ s.start) (hle : s.start ≤ s.stop)
      (hstart : Stands text place s.start behind) (hstop : Stands text place' s.stop behind')
      (hspans : Laid text s.stop spans) : Laid text cursor (s :: spans)

theorem outsideSpans_append (spans : List Span) (offset : Nat) (w rest : List Char) :
    outsideSpans spans offset (w ++ rest) =
      outsideSpans spans offset w ++ outsideSpans spans (offset + byteSize w) rest := by
  induction w generalizing offset with
  | nil => rfl
  | cons c w ih =>
      rw [List.cons_append, outsideSpans, outsideSpans, ih, byteSize_cons, ← Nat.add_assoc]
      split
      · rfl
      · rfl

/-- Text in which no span lies is left. -/
theorem outsideSpans_eq_self {spans : List Span} {offset : Nat} {w : List Char}
    (h : ∀ i, offset ≤ i → i < offset + byteSize w → inSpans spans i = false) :
    outsideSpans spans offset w = w := by
  induction w generalizing offset with
  | nil => rfl
  | cons c w ih =>
      have hpos := c.utf8Size_pos
      rw [byteSize_cons] at h
      rw [outsideSpans, h offset (Nat.le_refl _) (by omega)]
      exact congrArg (c :: ·) (ih fun i hi hlt => h i (by omega) (by omega))

/-- Text that lies in a span goes. -/
theorem outsideSpans_eq_nil {spans : List Span} {offset : Nat} {w : List Char}
    (h : ∀ i, offset ≤ i → i < offset + byteSize w → inSpans spans i = true) :
    outsideSpans spans offset w = [] := by
  induction w generalizing offset with
  | nil => rfl
  | cons c w ih =>
      have hpos := c.utf8Size_pos
      rw [byteSize_cons] at h
      rw [outsideSpans, h offset (Nat.le_refl _) (by omega)]
      exact ih fun i hi hlt => h i (by omega) (by omega)

/-- A span takes nothing away behind its end. -/
theorem outsideSpans_cons {s : Span} {offset : Nat} (h : s.stop ≤ offset) (spans : List Span)
    (w : List Char) : outsideSpans (s :: spans) offset w = outsideSpans spans offset w := by
  induction w generalizing offset with
  | nil => rfl
  | cons c w ih =>
      have hin : inSpans (s :: spans) offset = inSpans spans offset := by
        simp [inSpans, Nat.not_lt.mpr h]
      rw [outsideSpans, outsideSpans, hin, ih (Nat.le_add_right_of_le h)]

theorem Laid.inSpans_eq_false {text : List Char} {cursor : Nat} {spans : List Span}
    (h : Laid text cursor spans) {i : Nat} (hi : i < cursor) : inSpans spans i = false := by
  induction h with
  | nil => rfl
  | @cons cursor _ _ s spans _ _ hcursor hle _ _ _ ih =>
      have hrest := ih (by omega)
      unfold inSpans at hrest ⊢
      rw [List.any_cons, hrest, Bool.or_false]
      simp only [Bool.and_eq_false_iff, decide_eq_false_iff_not]
      omega

theorem Laid.le_start {text : List Char} {cursor : Nat} {spans : List Span}
    (h : Laid text cursor spans) : ∀ s ∈ spans, cursor ≤ s.start := by
  induction h with
  | nil => exact List.forall_mem_nil _
  | cons hcursor hle _ _ _ ih =>
      refine List.forall_mem_cons.mpr ⟨hcursor, fun t ht => ?_⟩
      exact Nat.le_trans hcursor (Nat.le_trans hle (ih t ht))

theorem Laid.pairwise {text : List Char} {cursor : Nat} {spans : List Span}
    (h : Laid text cursor spans) : spans.Pairwise fun s t => s.stop ≤ t.start := by
  induction h with
  | nil => exact .nil
  | cons _ _ _ _ hspans ih => exact .cons hspans.le_start ih

/-- Cutting the spans out goes without a fault, and leaves the characters outside them. -/
theorem Laid.strip {text behind : List Char} {place cursor : Nat} {spans : List Span}
    (h : Laid text cursor spans) (hstands : Stands text place cursor behind) :
    strip text cursor spans = .ok (outsideSpans spans cursor behind) := by
  induction h generalizing place behind with
  | nil =>
      rw [Text.strip, hstands.sliceFrom, outsideSpans_eq_self fun _ _ _ => rfl]
  | @cons cursor _ _ s spans _ _ hcursor hle hstart hstop hspans ih =>
      obtain ⟨kept, rfl, hkept⟩ := hstands.exists_append hstart hcursor
      obtain ⟨inside, rfl, hinside⟩ := hstart.exists_append hstop hle
      have hlaid : Laid text s.start (s :: spans) :=
        .cons (Nat.le_refl _) hle hstart hstop hspans
      have hbefore : outsideSpans (s :: spans) cursor kept = kept :=
        outsideSpans_eq_self fun i _ hlt => hlaid.inSpans_eq_false (by rwa [hkept])
      have hgone : outsideSpans (s :: spans) s.start inside = [] := by
        refine outsideSpans_eq_nil fun i hi hlt => ?_
        rw [← hinside] at hlt
        simp [inSpans, hi, hlt]
      rw [Text.strip, hkept, hstands.slice, Checked.ok_bind, ih hstop, Checked.ok_bind,
        outsideSpans_append, outsideSpans_append, ← hkept, hbefore, hgone, ← hinside,
        outsideSpans_cons (Nat.le_refl _)]
      rfl

end CramSchool.Text
