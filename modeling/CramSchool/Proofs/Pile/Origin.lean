/-
  Where the cards of a draw come from.

  Forced names are served one after the other. A name of which the pile has a card gets the first
  one, and the rest of the pile keeps its order (`exists_split_of_pull`). A name of which the
  pile has none gets a copy from the catalog, if there is one; the pile only loses cards, so it
  does not come to have one later. `Served` says so of the cards drawn and the pile left, and
  `exists_served` proves it by going through the names.

  What is still missing then is taken from the top. These cards are the end of the pile, the last
  one first, so the draw is `Served` all the same, with these cards among the taken ones
  (`Served.append_top`). That no card is lost or made up follows: the cards drawn and the
  cards left are those of the pile and the copies (`Served.perm_cards`, `perm_serve`).

  A draw serves cards if the machine has room for the number asked for, and stops the program if it
  has not (`draw_of_hasRoom`, `draw_of_shortage`).

  Main result: `Pile.draw_from_pile_and_catalog`.
-/
import CramSchool.Pile.Draw
import Mathlib.Data.List.Perm.Basic

namespace CramSchool

/-- The third list is made of the first two, each in its order. -/
inductive Interleaved {α : Type} : List α → List α → List α → Prop
  | nil : Interleaved [] [] []
  | left {x : α} {xs ys zs : List α} : Interleaved xs ys zs → Interleaved (x :: xs) ys (x :: zs)
  | right {y : α} {xs ys zs : List α} : Interleaved xs ys zs → Interleaved xs (y :: ys) (y :: zs)

namespace Interleaved

variable {α : Type} {xs ys zs : List α}

theorem perm (h : Interleaved xs ys zs) : zs.Perm (xs ++ ys) := by
  induction h with
  | nil => exact .refl []
  | left _ ih => exact ih.cons _
  | right _ ih => exact (ih.cons _).trans List.perm_middle.symm

theorem append_left (h : Interleaved xs ys zs) (more : List α) :
    Interleaved (xs ++ more) ys (zs ++ more) := by
  induction h with
  | nil =>
      induction more with
      | nil => exact .nil
      | cons x more ih => exact .left ih
  | left _ ih => exact .left ih
  | right _ ih => exact .right ih

end Interleaved

namespace Pile

/-! ## One forced name -/

/-- A card that is pulled is taken out of its place; the others stay in order. -/
theorem exists_split_of_pull {name : String} {pile others : List Card} {card : Card}
    (h : pull name pile = some (card, others)) :
    ∃ before behind, pile = before ++ card :: behind ∧ others = before ++ behind := by
  induction pile generalizing others with
  | nil => cases h
  | cons first rest ih =>
      rw [pull] at h
      split at h
      · obtain ⟨rfl, rfl⟩ := Prod.mk.inj (Option.some.inj h)
        exact ⟨[], rest, rfl, rfl⟩
      · obtain ⟨⟨found, left⟩, hpull, heq⟩ := Option.map_eq_some_iff.mp h
        obtain ⟨rfl, rfl⟩ := Prod.mk.inj heq
        obtain ⟨before, behind, rfl, rfl⟩ := ih hpull
        exact ⟨first :: before, behind, rfl, rfl⟩

theorem notMem_names_of_pull_eq_none {name : String} {pile : List Card}
    (h : pull name pile = none) : name ∉ pile.map Card.name := by
  induction pile with
  | nil => exact List.not_mem_nil
  | cons first rest ih =>
      rw [pull] at h
      split at h
      · exact nomatch h
      · next hname =>
          rw [List.map_cons, List.mem_cons, not_or]
          exact ⟨Ne.symm hname, ih (Option.map_eq_none_iff.mp h)⟩

/-! ## All forced names -/

/-- The cards drawn are cards taken out of the pile and copies from the catalog, each in their
    order. There is one copy for each name of `asked`, and the pile has no card of such a name
    left. -/
structure Served (catalog : Catalog) (asked : List String)
    (taken copies pile drawn left : List Card) : Prop where
  interleaved : Interleaved taken copies drawn
  perm_pile : (taken ++ left).Perm pile
  sublist_pile : left.Sublist pile
  found : asked.map catalog.find? = copies.map some
  absent : List.Disjoint (left.map Card.name) asked

namespace Served

variable {catalog : Catalog} {asked : List String} {taken copies pile drawn left : List Card}

theorem nothing (catalog : Catalog) (pile : List Card) :
    Served catalog [] [] [] pile [] pile where
  interleaved := .nil
  perm_pile := .refl pile
  sublist_pile := .refl pile
  found := rfl
  absent := List.disjoint_nil_right _

/-- One more name, served from the pile. -/
theorem pulled {name : String} {card : Card} {others : List Card}
    (hpull : pull name pile = some (card, others))
    (h : Served catalog asked taken copies others drawn left) :
    Served catalog asked (card :: taken) copies pile (card :: drawn) left := by
  obtain ⟨before, behind, rfl, rfl⟩ := exists_split_of_pull hpull
  have hothers : (before ++ behind).Sublist (before ++ card :: behind) :=
    (List.sublist_cons_self card behind).append_left before
  exact {
    interleaved := .left h.interleaved
    perm_pile := (h.perm_pile.cons card).trans List.perm_middle.symm
    sublist_pile := h.sublist_pile.trans hothers
    found := h.found
    absent := h.absent }

/-- One more name, served from the catalog. -/
theorem copied {name : String} {card : Card} (hpull : pull name pile = none)
    (hfind : catalog.find? name = some card)
    (h : Served catalog asked taken copies pile drawn left) :
    Served catalog (name :: asked) taken (card :: copies) pile (card :: drawn) left where
  interleaved := .right h.interleaved
  perm_pile := h.perm_pile
  sublist_pile := h.sublist_pile
  found := by rw [List.map_cons, List.map_cons, hfind, h.found]
  absent := by
    rw [List.disjoint_cons_right]
    have hleft : left.map Card.name ⊆ pile.map Card.name := (h.sublist_pile.map Card.name).subset
    exact ⟨fun hmem => notMem_names_of_pull_eq_none hpull (hleft hmem), h.absent⟩

/-- The end of the pile, drawn from the top. -/
theorem append_top {top : List Card}
    (h : Served catalog asked taken copies pile drawn (left ++ top)) :
    Served catalog asked (taken ++ top.reverse) copies pile (drawn ++ top.reverse) left where
  interleaved := h.interleaved.append_left top.reverse
  perm_pile := by
    have hturned : (top.reverse ++ left).Perm (left ++ top) :=
      ((List.reverse_perm top).append_right left).trans List.perm_append_comm
    rw [List.append_assoc]
    exact (hturned.append_left taken).trans h.perm_pile
  sublist_pile := (List.sublist_append_left left top).trans h.sublist_pile
  found := h.found
  absent := by
    have hleft : left.map Card.name ⊆ (left ++ top).map Card.name :=
      ((List.sublist_append_left left top).map Card.name).subset
    exact List.disjoint_of_subset_left hleft h.absent

theorem copies_eq (h : Served catalog asked taken copies pile drawn left) :
    copies = asked.filterMap catalog.find? := by
  have hcopies := congrArg (List.filterMap id) h.found
  rw [List.filterMap_map, List.filterMap_map] at hcopies
  exact (hcopies.trans (List.filterMap_some)).symm

/-- No card is lost, and only the copies are new. -/
theorem perm_cards (h : Served catalog asked taken copies pile drawn left) :
    (drawn ++ left).Perm (copies ++ pile) := by
  have hdrawn := (h.interleaved.perm.trans List.perm_append_comm).append_right left
  rw [List.append_assoc] at hdrawn
  exact hdrawn.trans (h.perm_pile.append_left copies)

end Served

theorem exists_served (catalog : Catalog) (count : Nat) (names : List String) (pile : List Card) :
    ∃ asked taken copies, asked.Sublist names ∧
      Served catalog asked taken copies pile (drawForced catalog count names pile).1
        (drawForced catalog count names pile).2 := by
  induction names generalizing count pile with
  | nil => exact ⟨[], [], [], List.nil_sublist _, .nothing catalog pile⟩
  | cons name names ih =>
      cases count with
      | zero => exact ⟨[], [], [], List.nil_sublist _, .nothing catalog pile⟩
      | succ count =>
          rw [drawForced]
          cases hpull : pull name pile with
          | some found =>
              obtain ⟨asked, taken, copies, hasked, h⟩ := ih count found.2
              exact ⟨asked, _, copies, hasked.cons name, h.pulled hpull⟩
          | none =>
              cases hfind : catalog.find? name with
              | some card =>
                  obtain ⟨asked, taken, copies, hasked, h⟩ := ih count pile
                  exact ⟨_, taken, _, hasked.cons_cons name, h.copied hpull hfind⟩
              | none =>
                  obtain ⟨asked, taken, copies, hasked, h⟩ := ih (count + 1) pile
                  exact ⟨asked, taken, copies, hasked.cons name, h⟩

theorem length_drawForced_le (catalog : Catalog) (count : Nat) (names : List String)
    (pile : List Card) : (drawForced catalog count names pile).1.length ≤ count := by
  induction names generalizing count pile with
  | nil => exact Nat.zero_le count
  | cons name names ih =>
      cases count with
      | zero => exact Nat.le_refl 0
      | succ count =>
          rw [drawForced]
          cases pull name pile with
          | some found => exact Nat.succ_le_succ (ih count found.2)
          | none =>
              cases catalog.find? name with
              | some card => exact Nat.succ_le_succ (ih count pile)
              | none => exact ih (count + 1) pile

/-! ## The top of the pile -/

/-- The cards drawn are the end of the pile, turned round. -/
theorem exists_top (count : Nat) (pile : List Card) :
    ∃ top, pile = (drawTop count pile).2 ++ top ∧ (drawTop count pile).1 = top.reverse ∧
      top.length = min count pile.length := by
  refine ⟨pile.drop (pile.length - count), (List.take_append_drop _ _).symm, rfl, ?_⟩
  rw [List.length_drop]
  omega

theorem perm_drawTop (count : Nat) (pile : List Card) :
    ((drawTop count pile).1 ++ (drawTop count pile).2).Perm pile := by
  obtain ⟨top, hpile, htop, _⟩ := exists_top count pile
  have hturned := (List.reverse_perm top).append_right (drawTop count pile).2
  rw [htop]
  exact (hturned.trans List.perm_append_comm).trans (.of_eq hpile.symm)

theorem length_drawTop (count : Nat) (pile : List Card) :
    (drawTop count pile).1.length = min count pile.length := by
  obtain ⟨top, _, htop, hlength⟩ := exists_top count pile
  rw [htop, List.length_reverse, hlength]

/-! ## All cards served -/

/-- Behind the forced part comes the end of the pile that it left. -/
theorem exists_serve_top (catalog : Catalog) (count : Nat) (forced : List String)
    (pile : List Card) :
    ∃ top,
      (drawForced catalog count forced pile).2 = (serve catalog count forced pile).2 ++ top ∧
      (serve catalog count forced pile).1 =
        (drawForced catalog count forced pile).1 ++ top.reverse ∧
      top.length = min (count - (drawForced catalog count forced pile).1.length)
        (drawForced catalog count forced pile).2.length := by
  obtain ⟨top, hpile, htop, hlength⟩ :=
    exists_top (count - (drawForced catalog count forced pile).1.length)
      (drawForced catalog count forced pile).2
  exact ⟨top, hpile, congrArg (_ ++ ·) htop, hlength⟩

theorem exists_served_serve (catalog : Catalog) (count : Nat) (forced : List String)
    (pile : List Card) :
    ∃ asked taken copies, asked.Sublist forced ∧
      Served catalog asked taken copies pile (serve catalog count forced pile).1
        (serve catalog count forced pile).2 := by
  obtain ⟨asked, taken, copies, hasked, hserved⟩ := exists_served catalog count forced pile
  obtain ⟨top, hpile, hdrawn, _⟩ := exists_serve_top catalog count forced pile
  rw [hpile] at hserved
  rw [hdrawn]
  exact ⟨asked, _, copies, hasked, hserved.append_top⟩

/-- The cards served and the cards left are those of the pile and copies for forced names. -/
theorem perm_serve (catalog : Catalog) (count : Nat) (forced : List String) (pile : List Card) :
    ∃ copies, copies.Sublist (forced.filterMap catalog.find?) ∧
      ((serve catalog count forced pile).1 ++ (serve catalog count forced pile).2).Perm
        (copies ++ pile) := by
  obtain ⟨asked, _, copies, hasked, hserved⟩ := exists_served_serve catalog count forced pile
  exact ⟨copies, hserved.copies_eq ▸ hasked.filterMap catalog.find?, hserved.perm_cards⟩

theorem perm_serve_nil (catalog : Catalog) (count : Nat) (pile : List Card) :
    ((serve catalog count [] pile).1 ++ (serve catalog count [] pile).2).Perm pile :=
  perm_drawTop count pile

theorem length_serve_nil (catalog : Catalog) (count : Nat) (pile : List Card) :
    (serve catalog count [] pile).1.length = min count pile.length := length_drawTop count pile

/-- As many cards are served as asked for, unless the pile runs out. -/
theorem length_serve (catalog : Catalog) (count : Nat) (forced : List String) (pile : List Card) :
    (serve catalog count forced pile).1.length ≤ count ∧
      ((serve catalog count forced pile).1.length = count ∨
        (serve catalog count forced pile).2 = []) := by
  have hforced := length_drawForced_le catalog count forced pile
  obtain ⟨top, hpile, hdrawn, htop⟩ := exists_serve_top catalog count forced pile
  have hleft := congrArg List.length hpile
  rw [List.length_append] at hleft
  rw [hdrawn, List.length_append, List.length_reverse, ← List.length_eq_zero_iff]
  omega

/-! ## Draws -/

section

variable {m : Machine} {count : Nat} (catalog : Catalog) (forced : List String) (pile : List Card)

/-- Where there is room, cards are served. -/
theorem draw_of_hasRoom (h : m.HasRoom count) :
    draw m catalog count forced pile = .ok (serve catalog count forced pile) := by
  unfold draw
  rw [Machine.makeRoom_of_hasRoom h]
  rfl

/-- Where there is none, the program stops before the first card. -/
theorem draw_of_shortage {shortage : Shortage} (h : m.cardShortage? count = some shortage) :
    draw m catalog count forced pile = .error (.noRoom shortage) := by
  unfold draw
  rw [Machine.makeRoom_of_shortage h]
  rfl

end

/-- A draw that the machine has room for loses no card and makes up none. It gives as many cards as
    are asked for, or else the pile is empty afterwards, and what is left of the pile is in order.
    The draw is made of cards taken out of the pile, which together with those left are the pile,
    and of copies, one for each of some forced names, of which no card is left in the pile. Behind
    the forced part come the cards from the end of the pile, the last one first. Without forced
    names there is nothing else.

    The room that counts is that for the number asked for, however few cards the pile has. Without
    it the program stops, and no machine has it for half of the numbers of 64 bits. -/
theorem draw_from_pile_and_catalog (m : Machine) (catalog : Catalog) (count : Nat)
    (forced : List String) (pile : List Card) :
    (m.HasRoom count → ∃ drawn left, draw m catalog count forced pile = .ok (drawn, left) ∧
      drawn.length ≤ count ∧
      left.Sublist pile ∧
      (∃ asked taken copies, asked.Sublist forced ∧
        Interleaved taken copies drawn ∧ (taken ++ left).Perm pile ∧
        asked.map catalog.find? = copies.map some ∧
        List.Disjoint (left.map Card.name) asked) ∧
      (drawn.length = count ∨ left = []) ∧
      (∃ top, (drawForced catalog count forced pile).2 = left ++ top ∧
        drawn = (drawForced catalog count forced pile).1 ++ top.reverse) ∧
      ∃ rest top, pile = rest ++ top ∧ top.length = min count pile.length ∧
        draw m catalog count [] pile = .ok (top.reverse, rest)) ∧
    (¬m.HasRoom count →
      ∃ shortage, draw m catalog count forced pile = .error (.noRoom shortage)) ∧
    (1 <<< 63 ≤ count → ¬m.HasRoom count) := by
  refine ⟨fun hroom => ?_, fun hnone => ?_, fun hcount hroom => ?_⟩
  · obtain ⟨hle, hlength⟩ := length_serve catalog count forced pile
    obtain ⟨asked, taken, copies, hasked, hserved⟩ := exists_served_serve catalog count forced pile
    obtain ⟨top, hpile, hdrawn, _⟩ := exists_serve_top catalog count forced pile
    obtain ⟨top', hpile', htop', hlength'⟩ := exists_top count pile
    refine ⟨_, _, draw_of_hasRoom catalog forced pile hroom, hle, hserved.sublist_pile,
      ⟨asked, taken, copies, hasked, hserved.interleaved, hserved.perm_pile, hserved.found,
        hserved.absent⟩, hlength, ⟨top, hpile, hdrawn⟩, _, top', hpile', hlength', ?_⟩
    rw [draw_of_hasRoom catalog [] pile hroom]
    exact congrArg Except.ok (Prod.ext htop' rfl)
  · obtain ⟨shortage, hshortage⟩ := Machine.not_hasRoom_iff.mp hnone
    exact ⟨shortage, draw_of_shortage catalog forced pile hshortage⟩
  · exact nomatch hroom.symm.trans (Machine.cardShortage?_of_le hcount)

/-- Three cards on a pile, the last one on top, and one that only the catalog has. -/
def lunchBreak : List Card × Catalog :=
  let card (name effect : String) : Card := ⟨.outreach, .n, name, "", effect, none⟩
  ([card "a" "", card "b" "", card "c" ""], .ofCards [card "a" "copy"])

/-- The name `a` is asked for twice, and the pile has one such card; `ghost` is nowhere. -/
theorem lunchBreak_from_pile_and_catalog :
    Machine.common.HasRoom 3 ∧
      ∃ drawn left,
        draw .common lunchBreak.2 3 ["a", "ghost", "a"] lunchBreak.1 = .ok (drawn, left) ∧
        drawn.map Card.effect = ["", "copy", ""] ∧ left.map Card.name = ["b"] ∧
        drawn.length ≤ 3 ∧ left.Sublist lunchBreak.1 := by
  have hroom : Machine.common.HasRoom 3 := by decide
  obtain ⟨hserved, _⟩ :=
    draw_from_pile_and_catalog .common lunchBreak.2 3 ["a", "ghost", "a"] lunchBreak.1
  obtain ⟨drawn, left, hdraw, hle, hsublist, _⟩ := hserved hroom
  have hcards : draw .common lunchBreak.2 3 ["a", "ghost", "a"] lunchBreak.1 =
      .ok (serve lunchBreak.2 3 ["a", "ghost", "a"] lunchBreak.1) :=
    draw_of_hasRoom _ _ _ hroom
  obtain ⟨rfl, rfl⟩ := Prod.mk.inj (Except.ok.inj (hcards.symm.trans hdraw))
  exact ⟨hroom, _, _, hdraw, by decide, by decide, hle, hsublist⟩

/-- Asked for as many cards as a number of 64 bits can ask for, the program stops, although there
    are only three. -/
theorem lunchBreak_overflows :
    draw .common lunchBreak.2 18446744073709551615 [] lunchBreak.1 =
      .error (.noRoom .uncountable) :=
  draw_of_shortage _ _ _ (Machine.cardShortage?_of_le (by decide))

end Pile

end CramSchool
