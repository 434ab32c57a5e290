/-
  The deck as it is listed for a deletion.

  The listing shows the deck by age: cards of an earlier turn first, cards of one turn in the
  order of the deck, and cards without a turn as those of turn 0. `Precedes` is that order. It
  settles for any two places which of them is listed first, so a list of places in this order is
  determined by which places it has (`Precedes.eq_of_perm`). Hence to leave out cards of the
  deck and then to list it is to leave out the same cards of the listing (`mergeSort_filter`),
  whatever places the cards that are left have moved to.

  So what is chosen in the listing is what is deleted, and the next listing is what was left
  unchosen (`Session.meeting_deletes_listed`).
-/
import CramSchool.Proofs.Session.Deletion
import Mathlib.Data.List.Sort

namespace CramSchool

/-! ## Sorting in which ties keep their places -/

/-- The smaller key comes first, and of two equal keys the one with the earlier place. -/
def Precedes {α : Type} (key : α → Nat) (a b : α × Nat) : Prop :=
  key a.1 < key b.1 ∨ key a.1 = key b.1 ∧ a.2 < b.2

section Precedes

variable {α : Type} {key : α → Nat} {xs ys : List (α × Nat)}

theorem Precedes.asymm {a b : α × Nat} (h : Precedes key a b) : ¬ Precedes key b a := by
  unfold Precedes at *
  omega

/-- A list in this order is determined by its elements. -/
theorem Precedes.eq_of_perm (hxs : xs.Pairwise (Precedes key)) (hys : ys.Pairwise (Precedes key))
    (h : xs.Perm ys) : xs = ys :=
  h.eq_of_pairwise (fun _ _ _ _ hab hba => absurd hba hab.asymm) hxs hys

theorem decide_key_trans {β : Type} (f : β → Nat) (a b c : β) (hab : decide (f a ≤ f b) = true)
    (hbc : decide (f b ≤ f c) = true) : decide (f a ≤ f c) = true :=
  decide_eq_true (Nat.le_trans (of_decide_eq_true hab) (of_decide_eq_true hbc))

theorem decide_key_total {β : Type} (f : β → Nat) (a b : β) :
    (decide (f a ≤ f b) || decide (f b ≤ f a)) = true := by
  rw [Bool.or_eq_true, decide_eq_true_iff, decide_eq_true_iff]
  exact Nat.le_total (f a) (f b)

/-- Sorting by a key leaves the elements of one key in the order in which they were. -/
theorem filter_mergeSort_key {β : Type} (f : β → Nat) (xs : List β) (n : Nat) :
    (xs.mergeSort fun a b => f a ≤ f b).filter (f · = n) = xs.filter (f · = n) := by
  have hsorted : (xs.filter (f · = n)).Pairwise fun a b => decide (f a ≤ f b) = true := by
    refine List.pairwise_of_forall_mem_list fun a ha b hb => ?_
    have hfa : f a = n := of_decide_eq_true (List.mem_filter.mp ha).2
    have hfb : f b = n := of_decide_eq_true (List.mem_filter.mp hb).2
    exact decide_eq_true (hfa.trans hfb.symm).le
  have hsublist := (List.sublist_mergeSort (decide_key_trans f) (decide_key_total f) hsorted
    List.filter_sublist).filter (f · = n)
  simp only [List.filter_filter, Bool.and_self] at hsublist
  exact (hsublist.eq_of_length ((List.mergeSort_perm _ _).filter _).length_eq.symm).symm

theorem pairwise_precedes_mergeSort (h : xs.Pairwise fun a b => a.2 < b.2) :
    (xs.mergeSort fun a b => key a.1 ≤ key b.1).Pairwise (Precedes key) := by
  refine List.pairwise_iff_forall_sublist.mpr fun {a b} hab => ?_
  have hsorted : (xs.mergeSort fun a b => key a.1 ≤ key b.1).Pairwise
      fun a b => decide (key a.1 ≤ key b.1) = true :=
    List.pairwise_mergeSort (decide_key_trans fun x : α × Nat => key x.1)
      (decide_key_total fun x : α × Nat => key x.1) xs
  have hle : key a.1 ≤ key b.1 :=
    of_decide_eq_true (List.pairwise_iff_forall_sublist.mp hsorted hab)
  obtain hlt | heq := Nat.lt_or_eq_of_le hle
  · exact .inl hlt
  · -- two of one key stand in the list before it is sorted as they stand in it afterwards
    have hboth := hab.filter (fun x => key x.1 = key b.1)
    rw [filter_mergeSort_key (fun x : α × Nat => key x.1)] at hboth
    simp only [heq, decide_true, List.filter_cons_of_pos, List.filter_nil] at hboth
    exact .inr ⟨heq, List.pairwise_iff_forall_sublist.mp h (hboth.trans List.filter_sublist)⟩

/-- The keys alone decide how elements with places are sorted. -/
theorem map_fst_mergeSort (xs : List (α × Nat)) :
    (xs.mergeSort fun a b => key a.1 ≤ key b.1).map Prod.fst =
      (xs.map Prod.fst).mergeSort fun a b => key a ≤ key b :=
  List.map_mergeSort (f := Prod.fst) (s := fun a b => key a ≤ key b) fun _ _ _ _ => rfl

/-- To leave out elements and to sort is to sort and to leave out the same elements. -/
theorem mergeSort_filter (h : xs.Pairwise fun a b => a.2 < b.2) (q : α × Nat → Bool) :
    (xs.filter q).mergeSort (fun a b => key a.1 ≤ key b.1) =
      (xs.mergeSort fun a b => key a.1 ≤ key b.1).filter q :=
  Precedes.eq_of_perm (pairwise_precedes_mergeSort (h.filter q))
    ((pairwise_precedes_mergeSort h).filter q)
    ((List.mergeSort_perm _ _).trans ((List.mergeSort_perm _ _).filter q).symm)

end Precedes

/-- The elements with their places are in the order of the places. -/
theorem pairwise_zipIdx {α : Type} (xs : List α) : xs.zipIdx.Pairwise fun a b => a.2 < b.2 := by
  refine List.pairwise_map.mp ?_
  rw [List.zipIdx_map_snd, ← List.range_eq_range']
  exact List.pairwise_lt_range

/-! ## The listing of a deck -/

namespace Player

/-- Turn that the card at a place of the deck is listed under. -/
def acquiredAt (p : Player) (i : Nat) : Nat := ((p.deck[i]?).map acquired).getD 0

/-- The card at the first place is of an earlier turn, or it is of the same turn and the place
    comes first in the deck. -/
def ListedBefore (p : Player) (i j : Nat) : Prop :=
  p.acquiredAt i < p.acquiredAt j ∨ p.acquiredAt i = p.acquiredAt j ∧ i < j

instance (p : Player) : DecidableRel p.ListedBefore :=
  fun _ _ => inferInstanceAs (Decidable (_ ∨ _))

/-- The cards of the deck as the listing shows them. -/
def listed (p : Player) : List Card := p.deckByAcquisition.filterMap (p.deck[·]?)

/-- Places in the deck of what is chosen in the listing. -/
def placesOf (p : Player) (chosen : List Nat) : List Nat :=
  chosen.filterMap (p.deckByAcquisition[·]?)

/-- The cards with their places in the deck, in the order of the listing. -/
def listing (p : Player) : List (Card × Nat) :=
  p.deck.zipIdx.mergeSort fun a b => acquired a.1 ≤ acquired b.1

variable {p : Player}

theorem pairwise_listing (p : Player) : p.listing.Pairwise (Precedes acquired) :=
  pairwise_precedes_mergeSort (pairwise_zipIdx p.deck)

theorem mem_listing_iff {x : Card × Nat} : x ∈ p.listing ↔ p.deck[x.2]? = some x.1 :=
  (List.mergeSort_perm _ _).mem_iff.trans List.mem_zipIdx_iff_getElem?

theorem deckByAcquisition_eq (p : Player) : p.deckByAcquisition = p.listing.map Prod.snd := rfl

/-- Every place of the deck is listed, and none twice. -/
theorem deckByAcquisition_perm (p : Player) :
    p.deckByAcquisition.Perm (List.range p.deck.length) := by
  rw [List.range_eq_range', ← List.zipIdx_map_snd]
  exact (List.mergeSort_perm _ _).map _

theorem nodup_deckByAcquisition (p : Player) : p.deckByAcquisition.Nodup :=
  (deckByAcquisition_perm p).nodup_iff.mpr List.nodup_range

theorem lt_of_mem_deckByAcquisition {i : Nat} (h : i ∈ p.deckByAcquisition) :
    i < p.deck.length := List.mem_range.mp ((deckByAcquisition_perm p).mem_iff.mp h)

/-- The listing is in the order of turns, and within a turn in the order of the deck. -/
theorem pairwise_deckByAcquisition (p : Player) :
    p.deckByAcquisition.Pairwise p.ListedBefore := by
  have hturn : ∀ x ∈ p.listing, p.acquiredAt x.2 = acquired x.1 := by
    intro x hx
    rw [acquiredAt, mem_listing_iff.mp hx]
    rfl
  rw [deckByAcquisition_eq]
  refine List.pairwise_map.mpr ((pairwise_listing p).imp_of_mem fun ha hb h => ?_)
  unfold ListedBefore
  rw [hturn _ ha, hturn _ hb]
  exact h

/-- No other list has every place of the deck in that order. -/
theorem deckByAcquisition_eq_of_perm {places : List Nat}
    (hperm : places.Perm (List.range p.deck.length))
    (hplaces : places.Pairwise p.ListedBefore) : p.deckByAcquisition = places := by
  refine ((deckByAcquisition_perm p).trans hperm.symm).eq_of_pairwise (fun i j _ _ hij hji => ?_)
    (pairwise_deckByAcquisition p) hplaces
  unfold ListedBefore at hij hji
  omega

theorem listed_eq (p : Player) : p.listed = p.listing.map Prod.fst := by
  have hcard : ∀ x ∈ p.listing, p.deck[x.2]? = some x.1 := fun x => mem_listing_iff.mp
  calc p.listed
      = p.listing.filterMap fun x => p.deck[x.2]? := List.filterMap_map
    _ = p.listing.filterMap fun x => some x.1 := List.filterMap_congr hcard
    _ = p.listing.map Prod.fst := congrFun List.filterMap_eq_map p.listing

/-- The listing of a deck is the deck in the order of turns. -/
theorem listed_eq_mergeSort (p : Player) :
    p.listed = p.deck.mergeSort fun a b => acquired a ≤ acquired b := by
  rw [listed_eq, listing, map_fst_mergeSort, List.zipIdx_map_fst]

/-! ## Deleting what is chosen in the listing -/

theorem mem_placesOf_iff {chosen : List Nat} {x : Card × Nat} {j : Nat}
    (h : p.listing[j]? = some x) : x.2 ∈ p.placesOf chosen ↔ j ∈ chosen := by
  have hj : p.deckByAcquisition[j]? = some x.2 := by
    rw [deckByAcquisition_eq, List.getElem?_map, h]
    rfl
  have hlt : j < p.deckByAcquisition.length := (List.getElem?_eq_some_iff.mp hj).1
  constructor
  · intro hmem
    obtain ⟨i, hi, hplace⟩ := List.mem_filterMap.mp hmem
    have hij := (List.getElem?_inj hlt (nodup_deckByAcquisition p)).mp (hj.trans hplace.symm)
    exact hij ▸ hi
  · exact fun hmem => List.mem_filterMap.mpr ⟨j, hmem, hj⟩

/-- The listing of the deck that is left is what is left of the listing. -/
theorem listed_of_deck_eq {q : Player} {chosen : List Nat}
    (h : q.deck = unselected p.deck (p.placesOf chosen)) :
    q.listed = unselected p.listed chosen := by
  have hkept : ∀ x ∈ p.listing.zipIdx,
      decide (x.1.2 ∉ p.placesOf chosen) = true ↔ x.2 ∉ chosen := fun x hx =>
    decide_eq_true_iff.trans (not_congr (mem_placesOf_iff (List.mem_zipIdx_iff_getElem?.mp hx)))
  calc q.listed
      = ((p.deck.zipIdx.filter fun x => x.2 ∉ p.placesOf chosen).map Prod.fst).mergeSort
          (fun a b => acquired a ≤ acquired b) := by rw [listed_eq_mergeSort, h, unselected]
    _ = ((p.deck.zipIdx.filter fun x => x.2 ∉ p.placesOf chosen).mergeSort
          fun a b => acquired a.1 ≤ acquired b.1).map Prod.fst := (map_fst_mergeSort _).symm
    _ = (p.listing.filter fun x => x.2 ∉ p.placesOf chosen).map Prod.fst := by
        rw [mergeSort_filter (pairwise_zipIdx p.deck), listing]
    _ = unselected p.listed chosen := by
        rw [filter_eq_unselected hkept, listed_eq, unselected_map]

theorem nodup_placesOf {chosen : List Nat} (h : chosen.Nodup) : (p.placesOf chosen).Nodup := by
  refine h.filterMap fun i j place hi hj => ?_
  have hlt : i < p.deckByAcquisition.length := (List.getElem?_eq_some_iff.mp hi).1
  exact (List.getElem?_inj hlt (nodup_deckByAcquisition p)).mp (hi.trans hj.symm)

theorem lt_of_mem_placesOf {chosen : List Nat} {i : Nat} (h : i ∈ p.placesOf chosen) :
    i < p.deck.length := by
  obtain ⟨j, _, hj⟩ := List.mem_filterMap.mp h
  exact lt_of_mem_deckByAcquisition (List.mem_of_getElem? hj)

end Player

theorem PerRole.present_eq_nil {α : Type} {p : PerRole (Option α)} (h : ∀ role, p.get role = none) :
    p.present = [] := by
  have hslots : p.toList = Role.all.map fun role => (role, none) :=
    List.map_congr_left fun role _ => by rw [h]
  unfold present occupied
  rw [hslots]
  rfl

namespace Session

/-- What is chosen in the listing may be deleted if it is no more than the quota. -/
theorem legalDeletions_placesOf {s : Session} {plan : TurnPlan} {chosen : List Nat}
    (hphase : s.phase = .meeting) (hplan : s.plan? = some plan) (hchosen : chosen.Nodup)
    (hquota : chosen.length ≤ plan.deleteQuota) :
    s.LegalDeletions (s.player.placesOf chosen) :=
  ⟨hphase, plan, hplan, (List.length_filterMap_le _ _).trans hquota,
    fun _ => Player.lt_of_mem_placesOf, Player.nodup_placesOf hchosen⟩

/-- The listing of a deck has every place of the deck once, ordered by the turn in which the card
    there was acquired, or 0, and places of one turn from the lower to the higher. So whatever is
    chosen in it, up to the quota, can be deleted in a meeting, provided that there is room for the
    next offer. If no card is in the hand or in a slot, the deck afterwards is listed as the cards
    that were not chosen, in the order in which they were listed. -/
theorem meeting_deletes_listed (p : Player) :
    p.deckByAcquisition.Perm (List.range p.deck.length) ∧
      p.deckByAcquisition.Pairwise p.ListedBefore ∧
      ∀ (s : Session) (plan : TurnPlan) (chosen : List Nat), s.Reachable → s.player = p →
        s.phase = .meeting → s.plan? = some plan → p.hand = [] →
        (∀ role, p.placed.get role = none) → chosen.Nodup → chosen.length ≤ plan.deleteQuota →
        ((∃ phase, (s.step (.confirmMeeting (p.placesOf chosen))).1 = .phase phase) ↔
          s.machine.HasRoom s.meetingDemand) ∧
        ∀ phase t, s.step (.confirmMeeting (p.placesOf chosen)) = (.phase phase, t) →
          t.player.listed = unselected p.listed chosen := by
  refine ⟨p.deckByAcquisition_perm, p.pairwise_deckByAcquisition, ?_⟩
  rintro s plan chosen hreachable rfl hphase hplan hhand hplaced hchosen hquota
  have hlegal := legalDeletions_placesOf hphase hplan hchosen hquota
  have hanswered := answered_confirmMeeting hreachable.sound (s.player.placesOf chosen)
  refine ⟨hanswered.accepted_iff.trans (and_iff_right hlegal), fun phase t hstep => ?_⟩
  obtain ⟨_, hmove⟩ := transition_of_confirmMeeting hreachable.sound hstep
  refine Player.listed_of_deck_eq ?_
  calc t.player.deck
      = eraseAll s.player.deck (s.player.placesOf chosen) ++ s.player.placed.present ++
          s.player.hand := congrArg Player.deck (hmove.player_of_meeting hphase)
    _ = unselected s.player.deck (s.player.placesOf chosen) := by
        rw [PerRole.present_eq_nil hplaced, hhand, List.append_nil, List.append_nil,
          eraseAll_eq (Player.nodup_placesOf hchosen)]

/-- A stored session in a meeting, with an empty hand. The card without a turn counts as one of
    turn 0, the two of turn 1 stand around those of turn 0. -/
def reviewing : Session :=
  { deliberating with
    player :=
      { Player.fresh with
        deck :=
          [⟨.academics, .sr, "合宿", "", "", some 1⟩, ⟨.reception, .r, "電話", "", "", some 0⟩,
            ⟨.outreach, .n, "体験会", "", "", none⟩, ⟨.academics, .n, "自習", "", "", some 1⟩] } }

/-- The last and the first card of the listing are deleted, and the two between them are listed as
    before, although they stand in the deck the other way round. -/
theorem reviewing_deletes_listed :
    reviewing.Reachable ∧ reviewing.player.deckByAcquisition = [1, 2, 0, 3] ∧ ∃ phase t,
      reviewing.step (.confirmMeeting [3, 1]) = (.phase phase, t) ∧
        t.player.listed.map Card.name = ["体験会", "合宿"] := by
  have hrestored : restore .common .empty .standard reviewing.snapshot = .ok reviewing := rfl
  have hreachable : reviewing.Reachable := Initial.reachable (.restored hrestored)
  have horder : reviewing.player.deckByAcquisition = [1, 2, 0, 3] :=
    Player.deckByAcquisition_eq_of_perm (by decide) (by decide)
  have hplaces : reviewing.player.placesOf [3, 0] = [3, 1] := by
    rw [Player.placesOf, horder]
    rfl
  have hslots : ∀ role, reviewing.player.placed.get role = none := fun role => by
    cases role <;> rfl
  obtain ⟨_, _, hmeeting⟩ := meeting_deletes_listed reviewing.player
  obtain ⟨haccepted, hlisted⟩ := hmeeting reviewing _ [3, 0] hreachable rfl rfl rfl rfl hslots
    (by decide) (by decide)
  rw [hplaces] at haccepted hlisted
  obtain ⟨phase, hphase⟩ := haccepted.mpr (by decide)
  have hstep : reviewing.step (.confirmMeeting [3, 1]) = (.phase phase, _) := Prod.ext hphase rfl
  refine ⟨hreachable, horder, phase, _, hstep, ?_⟩
  rw [hlisted _ _ hstep, Player.listed, horder]
  decide

end Session

end CramSchool
