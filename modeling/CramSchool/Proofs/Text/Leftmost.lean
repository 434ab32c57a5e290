/-
  The leftmost matches of a text.

  `Leftmost Occurs place found` says what it is to take matches from the left, without saying how
  they are looked for: the first match found is the leftmost one that begins at `place` or behind
  it, the next is the leftmost one that begins where the first ends or behind it, and so on until
  no more begins. If at most one match begins at each place, there is only one such list
  (`Leftmost.unique`).

  A pattern that matches no empty piece finds exactly this list (`findAll_eq_iff_leftmost`). It
  goes through the text one place after the other and passes the places inside a match; since
  no match is empty, the places it passes are those that no further match may begin at.

  Where no match begins inside another, no match is lost that way: the list has all of them
  (`Leftmost.mem_iff`). Looking for the leftmost match alone (`IsLeftmost`) stops at the first of
  the list (`findFirst?_eq_some_iff`).
-/
import CramSchool.Proofs.Text.Pattern

namespace CramSchool.Text.Pattern

variable {α : Type}

/-! ## Matches taken from the left -/

/-- The list takes, from `place` on, the leftmost match each time that begins behind the one
    before. -/
inductive Leftmost (Occurs : Match α → Prop) : Nat → List (Match α) → Prop
  | nil {place : Nat} (hnone : ∀ n, Occurs n → n.start < place) : Leftmost Occurs place []
  | cons {place : Nat} {m : Match α} {found : List (Match α)} (h : Occurs m)
      (hplace : place ≤ m.start)
      (hleftmost : ∀ n, Occurs n → place ≤ n.start → m.start ≤ n.start)
      (hrest : Leftmost Occurs m.stop found) : Leftmost Occurs place (m :: found)

section Leftmost

variable {Occurs : Match α → Prop} {place : Nat} {found : List (Match α)}

/-- Where no match begins the search may as well begin one place later. -/
theorem Leftmost.of_succ (h : Leftmost Occurs (place + 1) found)
    (hnone : ∀ n, Occurs n → n.start ≠ place) : Leftmost Occurs place found := by
  have hbehind : ∀ n, Occurs n → place ≤ n.start → place + 1 ≤ n.start := by
    intro n hn hle
    have := hnone n hn
    omega
  cases h with
  | nil hlater =>
      refine .nil fun n hn => Nat.lt_of_not_le fun hle => ?_
      exact Nat.not_lt.mpr (hbehind n hn hle) (hlater n hn)
  | cons hm hplace hleftmost hrest =>
      exact .cons hm (Nat.le_of_succ_le hplace)
        (fun n hn hle => hleftmost n hn (hbehind n hn hle)) hrest

/-- There is one list of leftmost matches. -/
theorem Leftmost.unique (hsame : ∀ m n, Occurs m → Occurs n → m.start = n.start → m = n)
    {others : List (Match α)} (h : Leftmost Occurs place found)
    (hothers : Leftmost Occurs place others) : found = others := by
  induction h generalizing others with
  | nil hnone =>
      cases hothers with
      | nil _ => rfl
      | cons hn hplace _ _ => exact absurd (hnone _ hn) (Nat.not_lt.mpr hplace)
  | cons hm hplace hleftmost _ ih =>
      cases hothers with
      | nil hnone => exact absurd (hnone _ hm) (Nat.not_lt.mpr hplace)
      | cons hn hplace' hleftmost' hrest =>
          obtain rfl := hsame _ _ hm hn
            (Nat.le_antisymm (hleftmost _ hn hplace') (hleftmost' _ hm hplace))
          rw [ih hrest]

theorem Leftmost.occurs (h : Leftmost Occurs place found) : ∀ m ∈ found, Occurs m := by
  induction h with
  | nil => exact List.forall_mem_nil _
  | cons hm _ _ _ ih => exact List.forall_mem_cons.mpr ⟨hm, ih⟩

/-- Nothing is taken in front of the place where the search begins. -/
theorem Leftmost.le_start (h : Leftmost Occurs place found) : ∀ n ∈ found, place ≤ n.start := by
  induction h with
  | nil => exact List.forall_mem_nil _
  | @cons place m found _ hplace _ _ ih =>
      refine List.forall_mem_cons.mpr ⟨hplace, fun n hn => ?_⟩
      exact Nat.le_trans hplace (Nat.le_trans (Nat.le_add_right _ _) (ih n hn))

/-- The matches taken stand one behind the other. -/
theorem Leftmost.pairwise (h : Leftmost Occurs place found) :
    found.Pairwise fun m n => m.stop ≤ n.start := by
  induction h with
  | nil => exact .nil
  | cons _ _ _ hrest ih => exact .cons hrest.le_start ih

/-- Where no match begins inside another, every match is taken. -/
theorem Leftmost.mem_iff (hsame : ∀ m n, Occurs m → Occurs n → m.start = n.start → m = n)
    (hapart : ∀ m n, Occurs m → Occurs n → m.start < n.start → m.stop ≤ n.start)
    (h : Leftmost Occurs place found) {n : Match α} :
    n ∈ found ↔ Occurs n ∧ place ≤ n.start := by
  induction h with
  | nil hnone =>
      refine ⟨fun hn => absurd hn List.not_mem_nil, fun ⟨hn, hle⟩ => ?_⟩
      exact absurd (hnone n hn) (Nat.not_lt.mpr hle)
  | @cons place m found hm hplace hleftmost _ ih =>
      rw [List.mem_cons, ih]
      constructor
      · rintro (rfl | ⟨hn, hle⟩)
        · exact ⟨hm, hplace⟩
        · exact ⟨hn, Nat.le_trans hplace (Nat.le_trans (Nat.le_add_right _ _) hle)⟩
      · intro ⟨hn, hle⟩
        obtain hlt | heq := Nat.lt_or_eq_of_le (hleftmost n hn hle)
        · exact .inr ⟨hn, hapart m n hm hn hlt⟩
        · exact .inl (hsame n m hn hm heq.symm)

/-- Of all matches this is the leftmost. -/
structure IsLeftmost (Occurs : Match α → Prop) (m : Match α) : Prop where
  occurs : Occurs m
  le_start : ∀ n, Occurs n → m.start ≤ n.start

/-- The first match taken from the whole text is the leftmost of all. -/
theorem Leftmost.head?_eq_some_iff
    (hsame : ∀ m n, Occurs m → Occurs n → m.start = n.start → m = n)
    (h : Leftmost Occurs 0 found) {m : Match α} :
    found.head? = some m ↔ IsLeftmost Occurs m := by
  cases h with
  | nil hnone =>
      exact ⟨fun hm => (nomatch hm), fun hm => absurd (hnone m hm.occurs) (Nat.not_lt_zero _)⟩
  | @cons _ first _ hfirst _ hleftmost _ =>
      constructor
      · intro hm
        obtain rfl := Option.some.inj hm
        exact ⟨hfirst, fun n hn => hleftmost n hn (Nat.zero_le _)⟩
      · intro hm
        have hstart := Nat.le_antisymm (hleftmost m hm.occurs (Nat.zero_le _))
          (hm.le_start first hfirst)
        exact congrArg some (hsame first m hfirst hm.occurs hstart)

theorem Leftmost.eq_nil_iff (h : Leftmost Occurs 0 found) : found = [] ↔ ∀ m, ¬Occurs m := by
  cases h with
  | nil hnone =>
      exact ⟨fun _ m hm => absurd (hnone m hm) (Nat.not_lt_zero _), fun _ => rfl⟩
  | cons hm => exact ⟨fun he => (nomatch he), fun hnone => absurd hm (hnone _)⟩

end Leftmost

/-! ## The matches of a pattern -/

/-- The pattern matches at the start of `m` and gives its value and width. -/
def Occurs (p : Pattern α) (text : List Char) (m : Match α) : Prop :=
  p (text.drop m.start) = some (m.value, m.width)

theorem Occurs.unique {p : Pattern α} {text : List Char} {m n : Match α} (hm : p.Occurs text m)
    (hn : p.Occurs text n) (hstart : m.start = n.start) : m = n := by
  obtain ⟨start, width, value⟩ := m
  obtain ⟨_, _, _⟩ := n
  obtain rfl : start = _ := hstart
  obtain ⟨rfl, rfl⟩ := Prod.mk.inj (Option.some.inj (hm.symm.trans hn))
  rfl

/-- The piece `w` stands at the place of the match, with `behind` behind it. -/
def Match.At (m : Match α) (text w behind : List Char) : Prop :=
  ∃ before, text = before ++ w ++ behind ∧ before.length = m.start ∧ w.length = m.width

theorem at_iff_drop {m : Match α} {text w behind : List Char} (hw : w ≠ []) :
    m.At text w behind ↔ text.drop m.start = w ++ behind ∧ w.length = m.width := by
  constructor
  · intro ⟨before, htext, hstart, hwidth⟩
    refine ⟨?_, hwidth⟩
    rw [htext, List.append_assoc, ← hstart, List.drop_left]
  · intro ⟨hdrop, hwidth⟩
    have hle : m.start ≤ text.length := Nat.le_of_not_lt fun hlt => by
      rw [List.drop_eq_nil_of_le (Nat.le_of_lt hlt)] at hdrop
      exact hw (List.append_eq_nil_iff.mp hdrop.symm).1
    refine ⟨text.take m.start, ?_, List.length_take_of_le hle, hwidth⟩
    rw [List.append_assoc, ← hdrop, List.take_append_drop]

/-- Every match of the pattern takes something. -/
def Consumes (p : Pattern α) : Prop :=
  ∀ (text : List Char) (a : α) (width : Nat), p text = some (a, width) →
    0 < width ∧ width ≤ text.length

variable {p : Pattern α}

theorem Consumes.eq_none_of_nil (hp : Consumes p) : p [] = none := by
  cases h : p [] with
  | none => rfl
  | some x =>
      obtain ⟨hpos, hle⟩ := hp _ _ _ h
      exact absurd (Nat.lt_of_lt_of_le hpos hle) (Nat.lt_irrefl 0)

/-- What is matched is the head of the text. -/
theorem Consumes.takes_take (hp : Consumes p) {text : List Char} {a : α} {width : Nat}
    (h : p text = some (a, width)) :
    text.take width ≠ [] ∧ Takes p (text.take width) (text.drop width) a := by
  obtain ⟨hpos, hle⟩ := hp _ _ _ h
  have hlength : (text.take width).length = width := List.length_take_of_le hle
  refine ⟨List.ne_nil_of_length_pos (by rw [hlength]; exact hpos), ?_⟩
  unfold Takes
  rw [List.take_append_drop, h, hlength]

theorem drop_succ_of_drop {whole rest : List Char} {c : Char} {place : Nat}
    (h : whole.drop place = c :: rest) : whole.drop (place + 1) = rest := by
  rw [← List.tail_drop, h]
  rfl

/-- What is found behind `skip` characters are the leftmost matches from there on. -/
theorem leftmost_findFrom (hp : Consumes p) {whole text : List Char} {place skip : Nat}
    (htext : whole.drop place = text) :
    Leftmost (p.Occurs whole) (place + skip) (findFrom p place skip text) := by
  fun_induction findFrom p place skip text with
  | case1 place skip =>
      refine .nil fun n hn => Nat.lt_of_not_le fun hle => ?_
      have hend : whole.drop n.start = [] := by
        rw [List.drop_eq_nil_iff] at htext ⊢
        omega
      unfold Occurs at hn
      rw [hend, hp.eq_none_of_nil] at hn
      cases hn
  | case2 place skip c rest ih =>
      have hbehind := ih (drop_succ_of_drop htext)
      rwa [Nat.add_assoc, Nat.add_comm 1] at hbehind
  | case3 place c rest a width hmatch ih =>
      have hoccurs : p.Occurs whole ⟨place, width, a⟩ := by
        unfold Occurs
        rw [htext, hmatch]
      have hbehind := ih (drop_succ_of_drop htext)
      have hstop : place + 1 + (width - 1) = place + width := by
        have := (hp _ _ _ hmatch).1
        omega
      rw [hstop] at hbehind
      exact .cons hoccurs (Nat.le_refl _) (fun n _ hle => hle) hbehind
  | case4 place c rest hmiss ih =>
      refine (ih (drop_succ_of_drop htext)).of_succ fun n hn hstart => ?_
      unfold Occurs at hn
      rw [hstart, htext, hmiss] at hn
      cases hn

/-- What a pattern finds in a text is the list of leftmost matches. -/
theorem findAll_eq_iff_leftmost (hp : Consumes p) (text : List Char) (found : List (Match α)) :
    p.findAll text = found ↔ Leftmost (p.Occurs text) 0 found := by
  have hfound : Leftmost (p.Occurs text) (0 + 0) (findFrom p 0 0 text) := leftmost_findFrom hp rfl
  constructor
  · intro h
    exact h ▸ hfound
  · exact hfound.unique fun m n hm hn => hm.unique hn

theorem leftmost_findAll (hp : Consumes p) (text : List Char) :
    Leftmost (p.Occurs text) 0 (p.findAll text) := (findAll_eq_iff_leftmost hp text _).mp rfl

/-- What is found is in the order of the text, one match for each place. -/
theorem pairwise_start_findAll (hp : Consumes p) (text : List Char) :
    (p.findAll text).Pairwise fun m n => m.start < n.start := by
  have hleftmost := leftmost_findAll hp text
  refine hleftmost.pairwise.imp_of_mem fun {m n} hm _ hstop => ?_
  exact Nat.lt_of_lt_of_le (Nat.lt_add_of_pos_right (hp _ _ _ (hleftmost.occurs m hm)).1) hstop

/-! ## The leftmost match -/

/-- Looking for one match finds the first of all. -/
theorem findFirst?_eq_head? (p : Pattern α) (place : Nat) (text : List Char) :
    p.findFirst? text = (findFrom p place 0 text).head?.map Match.value := by
  fun_induction findFirst? p text generalizing place with
  | case1 => rfl
  | case2 c rest a width h =>
      rw [findFrom, h]
      rfl
  | case3 c rest h ih =>
      rw [findFrom, h]
      exact ih (place + 1)

theorem findFirst?_eq_some_iff (hp : Consumes p) {text : List Char} {a : α} :
    p.findFirst? text = some a ↔ ∃ m, IsLeftmost (p.Occurs text) m ∧ m.value = a := by
  have hhead : ∀ m, (p.findAll text).head? = some m ↔ IsLeftmost (p.Occurs text) m := fun m =>
    (leftmost_findAll hp text).head?_eq_some_iff fun m n hm hn => hm.unique hn
  rw [findFirst?_eq_head? p 0, Option.map_eq_some_iff]
  exact exists_congr fun m => and_congr_left fun _ => hhead m

theorem findFirst?_eq_none_iff (hp : Consumes p) {text : List Char} :
    p.findFirst? text = none ↔ ∀ m, ¬p.Occurs text m := by
  rw [findFirst?_eq_head? p 0, Option.map_eq_none_iff, List.head?_eq_none_iff]
  exact (leftmost_findAll hp text).eq_nil_iff

end CramSchool.Text.Pattern
