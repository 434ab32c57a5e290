/-
  The places of a text that matches cover.

  `outside` keeps the characters of a text at the places that are not covered. It takes no account
  of how the matches lie to each other, so the matches of several patterns can be taken out of
  one text at once.

  `Finds p w rest found`: with `rest` behind the piece `w`, the matches that begin in the piece are
  `found`, and they end in it. Then the places behind the piece are covered as in `rest` by itself
  (`Finds.covered_add`).

  A piece splits off (`Splits`) if no match of the pattern reaches from the piece into what
  stands behind it. Then piece and rest can be searched and cut each by itself (`Splits.finds`,
  `Splits.cut_append`). This holds of stable patterns, which match the same however the text
  goes on.
-/
import CramSchool.Proofs.Text.Pattern

namespace CramSchool.Text.Pattern

variable {α β : Type}

/-! ## Covered places -/

/-- Whether the character at a place belongs to the match. -/
def Match.covers (m : Match α) (place : Nat) : Bool := m.start ≤ place && place < m.stop

/-- Of two matches one begins inside the other. -/
def Match.Overlaps (m : Match α) (n : Match β) : Prop := n.covers m.start ∨ m.covers n.start

instance (m : Match α) (n : Match β) : Decidable (m.Overlaps n) :=
  inferInstanceAs (Decidable (_ ∨ _))

/-- Whether a match of the pattern covers a place of the text. -/
def covered (p : Pattern α) (text : List Char) (place : Nat) : Bool :=
  (p.findAll text).any fun m => m.covers place

/-- The characters of a text at the places that are not covered. -/
def outside (covered : Nat → Bool) (text : List Char) : List Char :=
  (text.zipIdx.filter fun x => !covered x.2).map Prod.fst

theorem outside_append (covered : Nat → Bool) (w rest : List Char) :
    outside covered (w ++ rest) =
      outside covered w ++ outside (fun i => covered (w.length + i)) rest := by
  have hrest : rest.zipIdx w.length = rest.zipIdx.map fun x => (x.1, w.length + x.2) :=
    List.zipIdx_eq_map_add
  unfold outside
  rw [List.zipIdx_append, List.filter_append, List.map_append, Nat.zero_add, hrest,
    List.filter_map, List.map_map]
  rfl

theorem outside_eq_nil {covered : Nat → Bool} {w : List Char}
    (h : ∀ i < w.length, covered i = true) : outside covered w = [] := by
  unfold outside
  rw [List.map_eq_nil_iff, List.filter_eq_nil_iff]
  intro x hx
  rw [h x.2 (List.snd_lt_of_mem_zipIdx hx)]
  simp

theorem covers_iff (m : Match α) (i : Nat) : m.covers i = true ↔ m.start ≤ i ∧ i < m.stop := by
  unfold Match.covers
  rw [Bool.and_eq_true, decide_eq_true_eq, decide_eq_true_eq]

@[simp]
theorem covers_shift (m : Match α) (d i : Nat) : (m.shift d).covers (d + i) = m.covers i := by
  rw [Bool.eq_iff_iff, covers_iff, covers_iff]
  simp only [Match.stop, Match.shift]
  omega

@[simp]
theorem overlaps_shift (m : Match α) (n : Match β) (d : Nat) :
    (m.shift d).Overlaps (n.shift d) ↔ m.Overlaps n := by
  unfold Match.Overlaps
  rw [← covers_shift m d, ← covers_shift n d, Nat.add_comm d, Nat.add_comm d]
  rfl

/-! ## Matches that begin in a piece -/

/-- With `rest` behind the piece, the matches that begin in the piece are `found`, and they end
    in it. -/
structure Finds (p : Pattern α) (w rest : List Char) (found : List (Match α)) : Prop where
  findAll : p.findAll (w ++ rest) = found ++ (p.findAll rest).map (Match.shift w.length)
  stop_le : ∀ m ∈ found, m.stop ≤ w.length

variable {p : Pattern α} {w rest : List Char} {found : List (Match α)}

theorem map_shift_zero (found : List (Match α)) : found.map (Match.shift 0) = found :=
  List.map_id found

theorem map_shift_shift (found : List (Match α)) (d e : Nat) :
    (found.map (Match.shift d)).map (Match.shift e) = found.map (Match.shift (d + e)) := by
  rw [List.map_map]
  refine List.map_congr_left fun m _ => ?_
  simp [Match.shift, Nat.add_assoc]

theorem finds_nil (p : Pattern α) (rest : List Char) : Finds p [] rest [] :=
  ⟨(map_shift_zero _).symm, List.forall_mem_nil _⟩

theorem finds_pass {c : Char} (h : p (c :: rest) = none) : Finds p [c] rest [] :=
  ⟨findAll_pass h, List.forall_mem_nil _⟩

theorem Takes.finds {a : α} (h : Takes p w rest a) (hw : w ≠ []) :
    Finds p w rest [⟨0, w.length, a⟩] :=
  ⟨findAll_takes h hw, List.forall_mem_singleton.mpr (Nat.le_of_eq (Nat.zero_add _))⟩

theorem Finds.append {u : List Char} {first more : List (Match α)}
    (hu : Finds p u (w ++ rest) first) (hw : Finds p w rest more) :
    Finds p (u ++ w) rest (first ++ more.map (Match.shift u.length)) := by
  refine ⟨?_, List.forall_mem_append.mpr ⟨fun m hm => ?_, fun m hm => ?_⟩⟩
  · rw [List.append_assoc, hu.findAll, hw.findAll, List.map_append, map_shift_shift,
      List.append_assoc, List.length_append, Nat.add_comm]
  · rw [List.length_append]
    exact Nat.le_add_right_of_le (hu.stop_le m hm)
  · obtain ⟨n, hn, rfl⟩ := List.mem_map.mp hm
    have := hw.stop_le n hn
    rw [List.length_append]
    simp only [Match.stop, Match.shift] at this ⊢
    omega

theorem Passes.finds (h : Passes p w rest) : Finds p w rest [] := by
  induction w with
  | nil => exact finds_nil p rest
  | cons c w ih => exact (finds_pass h.1).append (ih h.2)

/-- The places behind the piece are covered as in the text behind it. -/
theorem Finds.covered_add (h : Finds p w rest found) (i : Nat) :
    p.covered (w ++ rest) (w.length + i) = p.covered rest i := by
  have hfound : (found.any fun m => m.covers (w.length + i)) = false := by
    refine List.any_eq_false.mpr fun m hm => ?_
    have := h.stop_le m hm
    simp only [Match.covers, Bool.and_eq_true, decide_eq_true_eq]
    omega
  unfold covered
  rw [h.findAll, List.any_append, hfound, Bool.false_or, List.any_map]
  congr 1
  funext m
  exact covers_shift m w.length i

theorem Finds.shift_mem (h : Finds p w rest found) {m : Match α} (hm : m ∈ p.findAll rest) :
    m.shift w.length ∈ p.findAll (w ++ rest) := by
  rw [h.findAll]
  exact List.mem_append_right _ (List.mem_map_of_mem hm)

theorem covers_of_lt (a : α) {width i : Nat} (hi : i < width) :
    Match.covers ⟨0, width, a⟩ i = true := by
  rw [covers_iff]
  simp only [Match.stop]
  omega

theorem Takes.mem_findAll {a : α} (h : Takes p w rest a) (hw : w ≠ []) :
    ⟨0, w.length, a⟩ ∈ p.findAll (w ++ rest) := by
  rw [findAll_takes h hw]
  exact List.mem_cons_self

theorem Takes.covered {a : α} (h : Takes p w rest a) {i : Nat} (hi : i < w.length) :
    p.covered (w ++ rest) i = true := by
  have hw : w ≠ [] := List.ne_nil_of_length_pos (Nat.zero_lt_of_lt hi)
  exact List.any_eq_true.mpr ⟨_, h.mem_findAll hw, covers_of_lt a hi⟩

theorem covered_pass {c : Char} (h : p (c :: rest) = none) : p.covered (c :: rest) 0 = false := by
  unfold covered
  rw [findAll_pass h, List.any_map]
  refine List.any_eq_false.mpr fun m _ => ?_
  simp [Match.covers, Match.shift]

/-- A piece in which no match begins is passed. -/
theorem passes_of_findAll (h : ∀ m ∈ p.findAll (w ++ rest), w.length ≤ m.start) :
    Passes p w rest := by
  induction w with
  | nil => trivial
  | cons c w ih =>
      have hnone : p (c :: (w ++ rest)) = none := by
        cases hsome : p (c :: (w ++ rest)) with
        | none => rfl
        | some x =>
            have hfirst : ⟨0, x.2, x.1⟩ ∈ p.findAll (c :: (w ++ rest)) := by
              rw [findAll, findFrom, hsome]
              exact List.mem_cons_self
            exact absurd (h _ hfirst) (by simp)
      refine ⟨hnone, ih fun m hm => ?_⟩
      have hshift : m.shift 1 ∈ p.findAll (c :: (w ++ rest)) := by
        rw [findAll_pass hnone]
        exact List.mem_map_of_mem hm
      exact Nat.le_of_succ_le_succ (h _ hshift)

/-! ## Pieces that split off -/

/-- What the pattern matches at the head of a text, it matches however the text goes on. -/
def Stable (p : Pattern α) : Prop :=
  ∀ {text : List Char} {x : α × Nat} (rest : List Char), p text = some x →
    p (text ++ rest) = some x

theorem Takes.append (hp : Stable p) {a : α} {v : List Char} (h : Takes p v w a)
    (rest : List Char) : Takes p v (w ++ rest) a := by
  have hmore := hp rest h
  rwa [List.append_assoc] at hmore

/-- The piece is made of characters that are passed with `rest` behind it, and of smaller pieces
    that are taken. -/
inductive Splits (p : Pattern α) (rest : List Char) : List Char → Prop
  | nil : Splits p rest []
  | pass {c : Char} {w : List Char} (h : p (c :: (w ++ rest)) = none) (hw : Splits p rest w) :
      Splits p rest (c :: w)
  | take {v w : List Char} {a : α} (hv : v ≠ []) (h : Takes p v w a) (hw : Splits p rest w) :
      Splits p rest (v ++ w)

/-- A character that is passed with more text behind it is passed without. -/
theorem eq_none_of_append (hp : Stable p) {text : List Char} (h : p (text ++ rest) = none) :
    p text = none := by
  cases hsome : p text with
  | none => rfl
  | some x =>
      rw [hp rest hsome] at h
      cases h

theorem Splits.finds (hp : Stable p) (h : Splits p rest w) : Finds p w rest (p.findAll w) := by
  induction h with
  | nil => exact finds_nil p rest
  | @pass c w h _ ih =>
      rw [findAll_pass (eq_none_of_append hp h)]
      exact (finds_pass h).append ih
  | take hv h _ ih =>
      rw [findAll_takes h hv]
      exact ((h.append hp rest).finds hv).append ih

theorem Splits.cut_append (hp : Stable p) (h : Splits p rest w) :
    cut p (w ++ rest) = cut p w ++ cut p rest := by
  induction h with
  | nil => rfl
  | @pass c w h _ ih =>
      have hlong : Passes p [c] (w ++ rest) := ⟨h, trivial⟩
      have halone : Passes p [c] w := ⟨eq_none_of_append hp h, trivial⟩
      have hcut := cut_passes hlong
      rw [ih] at hcut
      have hone := cut_passes halone
      rw [List.singleton_append] at hone hcut
      rw [hone]
      exact hcut
  | @take v w a hv h _ ih =>
      rw [List.append_assoc, cut_takes (h.append hp rest) hv, cut_takes h hv, ih]

end CramSchool.Text.Pattern
