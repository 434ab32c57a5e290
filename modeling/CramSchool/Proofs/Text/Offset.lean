/-
  Texts by byte offsets.

  Elsewhere a place of a text is a number of characters, and there is nothing that can go wrong
  with it. Here a text is read by offsets, numbers of bytes from its start in UTF-8. A piece can be
  taken out of it only between two offsets that lie in the text and between two characters; all
  else is a `Fault`. So is a round of a loop that does not move on within the text (`loop`), and a
  number out of range.

  `Stands text place offset behind` says that an offset is good: so many characters and so many
  bytes stand in front of it, and `behind` is the text from there on. Good offsets are the valid
  positions of the text (`Stands.isValid`), pieces are taken between them without a fault
  (`Stands.sliceFrom`, `Stands.slice`), and going over a piece leads to the next one
  (`Stands.drop`).

  A `Probe` looks for a pattern at an offset. It tracks the pattern if at every good offset it
  finds, without a fault, what the pattern matches there, and the offset behind it (`Tracks`).
-/
import CramSchool.Proofs.Text.Leftmost

namespace CramSchool.Text

/-! ## Offsets -/

/-- Number of bytes that a text takes. -/
def byteSize : List Char → Nat
  | [] => 0
  | c :: rest => c.utf8Size + byteSize rest

@[simp]
theorem byteSize_nil : byteSize [] = 0 := rfl

@[simp]
theorem byteSize_cons (c : Char) (rest : List Char) :
    byteSize (c :: rest) = c.utf8Size + byteSize rest := rfl

@[simp]
theorem byteSize_append (w rest : List Char) :
    byteSize (w ++ rest) = byteSize w + byteSize rest := by
  induction w with
  | nil => simp
  | cons c w ih => simp [ih, Nat.add_assoc]

theorem byteSize_pos {w : List Char} (h : w ≠ []) : 0 < byteSize w := by
  cases w with
  | nil => exact absurd rfl h
  | cons c w => exact Nat.add_pos_left c.utf8Size_pos _

/-- Bytes of a run of ASCII characters. -/
theorem byteSize_eq_length {w : List Char} (h : ∀ c ∈ w, c.utf8Size = 1) :
    byteSize w = w.length := by
  induction w with
  | nil => rfl
  | cons c w ih =>
      rw [byteSize_cons, h c List.mem_cons_self, ih fun d hd => h d (List.mem_cons_of_mem c hd),
        List.length_cons, Nat.add_comm]

theorem byteSize_toList (text : String) : byteSize text.toList = text.utf8ByteSize := by
  have h : ∀ w : List Char, byteSize w = (String.ofList w).utf8ByteSize := by
    intro w
    induction w with
    | nil => simp
    | cons c w ih =>
        have hsplit : String.ofList (c :: w) = String.singleton c ++ String.ofList w := by
          rw [String.singleton_eq_ofList, ← String.ofList_append]
          rfl
        rw [byteSize_cons, ih, hsplit, String.utf8ByteSize_append, String.utf8ByteSize_singleton]
  rw [h, String.ofList_toList]

/-- Offset of a place. -/
def offsetAt (text : List Char) (place : Nat) : Nat := byteSize (text.take place)

/-! ## Faults -/

/-- What can go wrong in a scan. -/
inductive Fault where
  /-- An offset beyond the text or inside a character. -/
  | offBoundary (offset : Nat)
  /-- A piece that ends in front of its start. -/
  | reversed (start stop : Nat)
  /-- A round of a loop that does not move on within the text. -/
  | stuck (offset : Nat)
  /-- A number out of range. -/
  | overflow (value : Int)
deriving DecidableEq

abbrev Checked (α : Type) : Type := Except Fault α

@[simp]
theorem Checked.ok_bind {α β : Type} (a : α) (f : α → Checked β) :
    (Except.ok a : Checked α) >>= f = f a := rfl

/-- The text in front of an offset and the text behind it; none if the offset lies beyond the text
    or inside a character. -/
def splitAt? : (offset : Nat) → List Char → Option (List Char × List Char)
  | 0, text => some ([], text)
  | _ + 1, [] => none
  | n + 1, c :: rest =>
    if c.utf8Size ≤ n + 1 then
      (splitAt? (n + 1 - c.utf8Size) rest).map fun (before, behind) => (c :: before, behind)
    else none

/-- The text from an offset on. -/
def sliceFrom (text : List Char) (offset : Nat) : Checked (List Char) :=
  match splitAt? offset text with
  | some (_, behind) => .ok behind
  | none => .error (.offBoundary offset)

/-- The text between two offsets. -/
def slice (text : List Char) (start stop : Nat) : Checked (List Char) :=
  if stop < start then .error (.reversed start stop)
  else do
    match splitAt? (stop - start) (← sliceFrom text start) with
    | some (inside, _) => .ok inside
    | none => .error (.offBoundary stop)

/-- Offset of the first character of a class. -/
def offsetOf? (member : Char → Bool) : List Char → Option Nat
  | [] => none
  | c :: rest => if member c then some 0 else (offsetOf? member rest).map (c.utf8Size + ·)

theorem splitAt?_byteSize (before behind : List Char) :
    splitAt? (byteSize before) (before ++ behind) = some (before, behind) := by
  induction before with
  | nil => cases behind <;> rfl
  | cons c before ih =>
      have hpos := c.utf8Size_pos
      obtain ⟨n, hn⟩ : ∃ n, byteSize (c :: before) = n + 1 :=
        Nat.exists_eq_add_one.mpr (byteSize_pos (List.cons_ne_nil c before))
      have hrest : n + 1 - c.utf8Size = byteSize before := by
        rw [← hn, byteSize_cons, Nat.add_sub_cancel_left]
      rw [hn, List.cons_append, splitAt?, hrest, ih, if_pos]
      · rfl
      · rw [← hn, byteSize_cons]
        exact Nat.le_add_right _ _

theorem offsetOf?_eq_none {member : Char → Bool} {text : List Char}
    (h : ∀ c ∈ text, member c = false) : offsetOf? member text = none := by
  induction text with
  | nil => rfl
  | cons c rest ih =>
      rw [offsetOf?, h c List.mem_cons_self, ih fun d hd => h d (List.mem_cons_of_mem c hd)]
      rfl

theorem offsetOf?_append {member : Char → Bool} {before : List Char}
    (h : ∀ c ∈ before, member c = false) {c : Char} (hc : member c = true) (rest : List Char) :
    offsetOf? member (before ++ c :: rest) = some (byteSize before) := by
  induction before with
  | nil => exact if_pos hc
  | cons d before ih =>
      rw [List.cons_append, offsetOf?, h d List.mem_cons_self,
        ih fun e he => h e (List.mem_cons_of_mem d he)]
      rfl

/-- A text has no character of a class, or a first one. -/
theorem offsetOf?_cases (member : Char → Bool) (text : List Char) :
    ((∀ c ∈ text, member c = false) ∧ offsetOf? member text = none) ∨
      ∃ before c rest, text = before ++ c :: rest ∧ (∀ d ∈ before, member d = false) ∧
        member c = true ∧ offsetOf? member text = some (byteSize before) := by
  by_cases hnone : ∀ c ∈ text, member c = false
  · exact .inl ⟨hnone, offsetOf?_eq_none hnone⟩
  · have hfound : text.find? member ≠ none := fun he => hnone fun c hc => by
      simpa using List.find?_eq_none.mp he c hc
    obtain ⟨c, hc⟩ := Option.ne_none_iff_exists'.mp hfound
    obtain ⟨hmember, before, rest, rfl, hbefore⟩ := List.find?_eq_some_iff_append.mp hc
    have hothers : ∀ d ∈ before, member d = false := fun d hd => by simpa using hbefore d hd
    exact .inr ⟨before, c, rest, rfl, hothers, hmember, offsetOf?_append hothers hmember rest⟩

/-! ## Good offsets -/

/-- In front of the offset stand so many characters, of so many bytes, and `behind` is the text
    from there on. -/
def Stands (text : List Char) (place offset : Nat) (behind : List Char) : Prop :=
  ∃ before, text = before ++ behind ∧ before.length = place ∧ byteSize before = offset

theorem stands_zero (text : List Char) : Stands text 0 0 text := ⟨[], rfl, rfl, rfl⟩

section Stands

variable {text behind w : List Char} {place offset : Nat}

theorem Stands.drop (h : Stands text place offset (w ++ behind)) :
    Stands text (place + w.length) (offset + byteSize w) behind := by
  obtain ⟨before, rfl, rfl, rfl⟩ := h
  exact ⟨before ++ w, (List.append_assoc before w behind).symm, List.length_append,
    byteSize_append before w⟩

theorem Stands.tail {c : Char} (h : Stands text place offset (c :: behind)) :
    Stands text (place + 1) (offset + c.utf8Size) behind := Stands.drop (w := [c]) h

theorem Stands.offsetAt_eq (h : Stands text place offset behind) : offsetAt text place = offset := by
  obtain ⟨before, rfl, rfl, rfl⟩ := h
  unfold offsetAt
  rw [List.take_left]

theorem Stands.add_byteSize (h : Stands text place offset behind) :
    offset + byteSize behind = byteSize text := by
  obtain ⟨before, rfl, rfl, rfl⟩ := h
  exact (byteSize_append before behind).symm

theorem Stands.offset_le (h : Stands text place offset behind) : offset ≤ byteSize text :=
  Nat.le.intro h.add_byteSize

theorem stands_offsetAt (text : List Char) (place : Nat) :
    Stands text (min place text.length) (offsetAt text place) (text.drop place) :=
  ⟨text.take place, (List.take_append_drop place text).symm, List.length_take, rfl⟩

/-- The text from a good offset on. -/
theorem Stands.sliceFrom (h : Stands text place offset behind) :
    sliceFrom text offset = .ok behind := by
  obtain ⟨before, rfl, rfl, rfl⟩ := h
  unfold Text.sliceFrom
  rw [splitAt?_byteSize]

/-- The piece that stands at a good offset. -/
theorem Stands.slice (h : Stands text place offset (w ++ behind)) :
    slice text offset (offset + byteSize w) = .ok w := by
  unfold Text.slice
  rw [if_neg (Nat.not_lt.mpr (Nat.le_add_right _ _)), h.sliceFrom, Checked.ok_bind,
    Nat.add_sub_cancel_left, splitAt?_byteSize]

/-- The text between a good offset and one behind it. -/
theorem Stands.exists_append (h : Stands text place offset behind) {place' offset' : Nat}
    {behind' : List Char} (h' : Stands text place' offset' behind') (hle : offset ≤ offset') :
    ∃ w, behind = w ++ behind' ∧ offset' = offset + byteSize w := by
  obtain ⟨before, rfl, rfl, rfl⟩ := h
  obtain ⟨before', htext, rfl, rfl⟩ := h'
  obtain ⟨w, rfl, hbehind⟩ | ⟨w, rfl, rfl⟩ := List.append_eq_append_iff.mp htext
  · exact ⟨w, hbehind, byteSize_append before w⟩
  · -- The second offset does not lie in front of the first, so there is nothing between them.
    have hw : w = [] := Decidable.byContradiction fun hne => by
      have := byteSize_pos hne
      rw [byteSize_append] at hle
      omega
    subst hw
    exact ⟨[], rfl, by simp⟩

/-- A good offset is a valid position of the text. -/
theorem Stands.isValid {text : String} (h : Stands text.toList place offset behind) :
    String.Pos.Raw.IsValid text ⟨offset⟩ := by
  obtain ⟨before, htext, -, rfl⟩ := h
  refine String.Pos.Raw.isValid_iff_exists_append.mpr
    ⟨String.ofList before, String.ofList behind, ?_, ?_⟩
  · rw [← String.ofList_append, ← htext, String.ofList_toList]
  · have hsize := byteSize_toList (String.ofList before)
    rw [String.toList_ofList] at hsize
    exact congrArg String.Pos.Raw.mk hsize

end Stands

theorem offsetAt_mono (text : List Char) {i j : Nat} (h : i ≤ j) :
    offsetAt text i ≤ offsetAt text j := by
  obtain ⟨d, rfl⟩ := Nat.exists_eq_add_of_le h
  unfold offsetAt
  rw [List.take_add, byteSize_append]
  exact Nat.le_add_right _ _

/-- The piece between the offsets of two places. -/
theorem slice_offsetAt (text : List Char) {i j : Nat} (h : i ≤ j) :
    slice text (offsetAt text i) (offsetAt text j) = .ok ((text.drop i).take (j - i)) := by
  have hstands := stands_offsetAt text i
  rw [← List.take_append_drop (j - i) (text.drop i)] at hstands
  have hstop : offsetAt text j = offsetAt text i + byteSize ((text.drop i).take (j - i)) := by
    unfold offsetAt
    rw [← byteSize_append, ← List.take_add, Nat.add_sub_cancel' h]
  rw [hstop]
  exact hstands.slice

/-! ## Loops -/

variable {α β σ : Type}

/-- Goes through a text of `limit` bytes in rounds. A round ends the loop with an answer, or goes on
    with a new state at a later offset of the text. -/
def loop (limit : Nat) (round : σ → Nat → Checked (α ⊕ (σ × Nat))) (state : σ) (offset : Nat) :
    Checked α :=
  match round state offset with
  | .error fault => .error fault
  | .ok (.inl a) => .ok a
  | .ok (.inr (state', next)) =>
    if offset < next ∧ next ≤ limit then loop limit round state' next
    else .error (.stuck offset)
termination_by limit - offset

/-- What a round may come to: an answer that is right, or a later offset of the text, with the
    invariant kept. -/
inductive Advances (limit : Nat) (Inv : σ → Nat → Prop) (Right : α → Prop) (offset : Nat) :
    Checked (α ⊕ (σ × Nat)) → Prop
  | done {a : α} (h : Right a) : Advances limit Inv Right offset (.ok (.inl a))
  | next {state : σ} {next : Nat} (hlt : offset < next) (hle : next ≤ limit)
      (h : Inv state next) : Advances limit Inv Right offset (.ok (.inr (state, next)))

/-- If every round moves on and keeps the invariant, the loop ends with a right answer. -/
theorem loop_ok {limit : Nat} {round : σ → Nat → Checked (α ⊕ (σ × Nat))}
    (Inv : σ → Nat → Prop) (Right : α → Prop)
    (hround : ∀ state offset, Inv state offset →
      Advances limit Inv Right offset (round state offset))
    {state : σ} {offset : Nat} (h : Inv state offset) :
    ∃ a, loop limit round state offset = .ok a ∧ Right a := by
  fun_induction loop limit round state offset with
  | case1 state offset fault heq =>
      have hadvances := hround state offset h
      rw [heq] at hadvances
      cases hadvances
  | case2 state offset a heq =>
      have hadvances := hround state offset h
      rw [heq] at hadvances
      cases hadvances with
      | done hright => exact ⟨a, rfl, hright⟩
  | case3 state offset state' next heq _ ih =>
      have hadvances := hround state offset h
      rw [heq] at hadvances
      cases hadvances with
      | next _ _ hinv => exact ih hinv
  | case4 state offset state' next heq hstuck =>
      have hadvances := hround state offset h
      rw [heq] at hadvances
      cases hadvances with
      | next hlt hle _ => exact absurd ⟨hlt, hle⟩ hstuck

/-! ## Probes -/

/-- Looks for something at an offset of a text, and gives it with the offset behind it. -/
def Probe (α : Type) : Type := List Char → Nat → Checked (Option (α × Nat))

namespace Probe

/-- Takes nothing. -/
protected def pure (a : α) : Probe α := fun _ offset => .ok (some (a, offset))

/-- One probe, then another at the offset behind what it found. -/
protected def bind (q : Probe α) (next : α → Probe β) : Probe β := fun text offset => do
  match ← q text offset with
  | none => return none
  | some (a, behind) => next a text behind

instance : Monad Probe where
  pure := Probe.pure
  bind := Probe.bind

/-- The given word. -/
def word (w : List Char) : Probe Unit := fun text offset => do
  let behind ← sliceFrom text offset
  return if w.isPrefixOf behind then some ((), offset + byteSize w) else none

/-- The first of the values whose word stands there. -/
def oneOf (values : List α) (wordOf : α → List Char) : Probe α := fun text offset => do
  let behind ← sliceFrom text offset
  return (values.find? fun a => (wordOf a).isPrefixOf behind).map fun a =>
    (a, offset + byteSize (wordOf a))

/-- A value that is there if nothing goes wrong with it. -/
def lift (checked : Checked α) : Probe α := fun _ offset => do return some (← checked, offset)

end Probe

open Pattern

/-- At every good offset the probe finds what the pattern matches there. -/
def Tracks (q : Probe α) (p : Pattern α) : Prop :=
  ∀ ⦃text behind : List Char⦄ ⦃place offset : Nat⦄, Stands text place offset behind →
    q text offset =
      .ok ((p behind).map fun x => (x.1, offset + byteSize (behind.take x.2)))

theorem tracks_pure (a : α) : Tracks (pure a) (pure a) := fun _ _ _ _ _ => rfl

/-- In a sequence the second probe has to track the second pattern only for what the first may
    give. -/
theorem Tracks.bind_of {q : Probe α} {p : Pattern α} {f : α → Probe β} {g : α → Pattern β}
    {Q : α → Prop} (hq : Tracks q p) (hp : Gives Q p) (h : ∀ a, Q a → Tracks (f a) (g a)) :
    Tracks (q >>= f) (p >>= g) := by
  intro text behind place offset hstands
  show Probe.bind q f text offset = _
  rw [Probe.bind, hq hstands, Checked.ok_bind, bind_apply, Pattern.bind]
  cases hmatch : p behind with
  | none => rfl
  | some x =>
      obtain ⟨a, width⟩ := x
      have hbehind : Stands text (place + (behind.take width).length)
          (offset + byteSize (behind.take width)) (behind.drop width) := by
        rw [← List.take_append_drop width behind] at hstands
        exact hstands.drop
      show f a text (offset + byteSize (behind.take width)) = _
      rw [h a (hp _ _ _ hmatch) hbehind]
      dsimp only
      cases g a (behind.drop width) with
      | none => rfl
      | some y =>
          obtain ⟨b, more⟩ := y
          simp only [Option.map_some, List.take_add, byteSize_append, Nat.add_assoc]

theorem Tracks.bind {q : Probe α} {p : Pattern α} {f : α → Probe β} {g : α → Pattern β}
    (hq : Tracks q p) (h : ∀ a, Tracks (f a) (g a)) : Tracks (q >>= f) (p >>= g) :=
  hq.bind_of (fun _ _ _ _ => trivial) fun a _ => h a

theorem byteSize_take_of_isPrefixOf {w behind : List Char} (h : w.isPrefixOf behind = true) :
    byteSize (behind.take w.length) = byteSize w := by
  obtain ⟨rest, rfl⟩ := List.isPrefixOf_iff_prefix.mp h
  rw [List.take_left]

theorem tracks_word (w : List Char) : Tracks (Probe.word w) (word w) := by
  intro text behind place offset hstands
  unfold Probe.word word
  rw [hstands.sliceFrom, Checked.ok_bind]
  split
  · next h => rw [Option.map_some, byteSize_take_of_isPrefixOf h]; rfl
  · rfl

theorem tracks_oneOf (values : List α) (wordOf : α → List Char) :
    Tracks (Probe.oneOf values wordOf) (oneOf values wordOf) := by
  intro text behind place offset hstands
  unfold Probe.oneOf oneOf
  rw [hstands.sliceFrom, Checked.ok_bind]
  cases hfound : values.find? fun a => (wordOf a).isPrefixOf behind with
  | none => rfl
  | some a =>
      have hopens : (wordOf a).isPrefixOf behind = true :=
        List.find?_some (p := fun a => (wordOf a).isPrefixOf behind) hfound
      rw [Option.map_some, Option.map_some, Option.map_some, byteSize_take_of_isPrefixOf hopens]
      rfl

/-- A value with which nothing goes wrong. -/
theorem tracks_lift {checked : Checked α} {a : α} (h : checked = .ok a) :
    Tracks (Probe.lift checked) (pure a) := by
  subst h
  exact fun _ _ _ _ _ => rfl

end CramSchool.Text
