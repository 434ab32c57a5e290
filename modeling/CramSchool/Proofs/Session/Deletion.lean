/-
  What a meeting takes out of the deck.

  The chosen cards are taken out one after the other, and each one that is gone moves the places
  behind it. Taken from the hindmost to the foremost they are nevertheless the cards at the
  places as they were chosen: what is taken out never moves what is still to be taken. So the
  deck that is left is `unselected`, which looks at the places all at once (`eraseAll_eq`), and
  the order in which the places are listed has no part in it (`confirmMeeting_of_perm`).

  Afterwards the cards of slots and hand lie on top of that deck (`meeting_deletes_selected`).
-/
import CramSchool.Proofs.Session.InRange
import CramSchool.Proofs.Session.Selection

namespace CramSchool

/-! ## The cards that are left -/

/-- The elements of a list at all places but the given ones, in their order. -/
def unselected {α : Type} (xs : List α) (places : List Nat) : List α :=
  (xs.zipIdx.filter fun x => x.2 ∉ places).map Prod.fst

section Unselected

variable {α : Type}

theorem unselected_nil (xs : List α) : unselected xs [] = xs := by
  have hall : xs.zipIdx.filter (fun x => x.2 ∉ ([] : List Nat)) = xs.zipIdx :=
    List.filter_eq_self.mpr fun x _ => by simp
  unfold unselected
  rw [hall, List.zipIdx_map_fst]

theorem unselected_map {β : Type} (f : α → β) (xs : List α) (places : List Nat) :
    unselected (xs.map f) places = (unselected xs places).map f := by
  unfold unselected
  rw [List.zipIdx_map, List.filter_map, List.map_map, List.map_map]
  rfl

/-- What is left out by what it is, is also left out by where it is. -/
theorem filter_eq_unselected {q : α → Bool} {xs : List α} {places : List Nat}
    (h : ∀ x ∈ xs.zipIdx, q x.1 = true ↔ x.2 ∉ places) : xs.filter q = unselected xs places := by
  have hplace : xs.zipIdx.filter (q ∘ Prod.fst) = xs.zipIdx.filter fun x => x.2 ∉ places :=
    List.filter_congr fun x hx => Bool.eq_iff_iff.mpr ((h x hx).trans decide_eq_true_iff.symm)
  unfold unselected
  rw [← hplace, ← List.filter_map, List.zipIdx_map_fst]

/-- Only which places are given counts, neither their order nor how often. -/
theorem unselected_congr {xs : List α} {places others : List Nat}
    (h : ∀ x ∈ xs.zipIdx, x.2 ∈ places ↔ x.2 ∈ others) :
    unselected xs places = unselected xs others := by
  unfold unselected
  rw [List.filter_congr fun x hx => decide_eq_decide.mpr (not_congr (h x hx))]

/-- Behind the last of the places everything is left. -/
theorem unselected_append {w : List α} {places : List Nat} (h : ∀ i ∈ places, i < w.length)
    (rest : List α) : unselected (w ++ rest) places = unselected w places ++ rest := by
  have hrest : (rest.zipIdx w.length).filter (fun x => x.2 ∉ places) = rest.zipIdx w.length := by
    refine List.filter_eq_self.mpr fun x hx => decide_eq_true fun hmem => ?_
    exact Nat.not_lt.mpr (List.le_snd_of_mem_zipIdx hx) (h x.2 hmem)
  unfold unselected
  rw [List.zipIdx_append, List.filter_append, List.map_append, Nat.zero_add, hrest,
    List.zipIdx_map_fst]

/-- The element behind `w` is at the place that is left out last. -/
theorem unselected_concat (w : List α) (a : α) (places : List Nat) :
    unselected (w ++ [a]) (w.length :: places) = unselected w places := by
  have hkept : w.zipIdx.filter (fun x => x.2 ∉ w.length :: places) =
      w.zipIdx.filter fun x => x.2 ∉ places := by
    refine List.filter_congr fun x hx => ?_
    have hlt : x.2 < w.length := List.snd_lt_of_mem_zipIdx hx
    have hne : x.2 ≠ w.length := Nat.ne_of_lt hlt
    simp [hne]
  unfold unselected
  rw [List.zipIdx_append, List.filter_append, List.map_append, hkept]
  simp

/-- Taking out the element at a place behind all others leaves the others where they were. -/
theorem unselected_eraseIdx {xs : List α} {i : Nat} {places : List Nat}
    (h : ∀ j ∈ places, j < i) : unselected (xs.eraseIdx i) places = unselected xs (i :: places) := by
  by_cases hi : i < xs.length
  · have hlength : (xs.take i).length = i := List.length_take_of_le (Nat.le_of_lt hi)
    have hsplit : xs = (xs.take i ++ [xs[i]]) ++ xs.drop (i + 1) := by
      rw [List.append_assoc, List.singleton_append, List.getElem_cons_drop, List.take_append_drop]
    have hfront : ∀ j ∈ places, j < (xs.take i).length := fun j hj => hlength.symm ▸ h j hj
    have hupto : ∀ j ∈ i :: places, j < (xs.take i ++ [xs[i]]).length := by
      rw [List.length_append, hlength]
      exact List.forall_mem_cons.mpr ⟨Nat.lt_succ_self i, fun j hj => Nat.lt_succ_of_lt (h j hj)⟩
    have hconcat := unselected_concat (xs.take i) xs[i] places
    rw [hlength] at hconcat
    calc unselected (xs.eraseIdx i) places
        = unselected (xs.take i) places ++ xs.drop (i + 1) := by
          rw [List.eraseIdx_eq_take_drop_succ, unselected_append hfront]
      _ = unselected ((xs.take i ++ [xs[i]]) ++ xs.drop (i + 1)) (i :: places) := by
          rw [unselected_append hupto, hconcat]
      _ = unselected xs (i :: places) := by rw [← hsplit]
  · rw [List.eraseIdx_of_length_le (Nat.not_lt.mp hi)]
    refine unselected_congr fun x hx => ?_
    have hlt : x.2 < xs.length := List.snd_lt_of_mem_zipIdx hx
    have hne : x.2 ≠ i := by omega
    simp [hne]

theorem foldl_eraseIdx_eq {xs : List α} {places : List Nat}
    (hsorted : places.Pairwise fun i j => j < i) :
    places.foldl List.eraseIdx xs = unselected xs places := by
  induction places generalizing xs with
  | nil => exact (unselected_nil xs).symm
  | cons i rest ih =>
      obtain ⟨hbefore, hrest⟩ := List.pairwise_cons.mp hsorted
      rw [List.foldl_cons, ih hrest, unselected_eraseIdx hbefore]

/-- Taking out elements at different places leaves those at all other places. -/
theorem eraseAll_eq {xs : List α} {places : List Nat} (hnodup : places.Nodup) :
    eraseAll xs places = unselected xs places := by
  unfold eraseAll
  rw [foldl_eraseIdx_eq (pairwise_lt_mergeSort hnodup)]
  exact unselected_congr fun x _ => (List.mergeSort_perm _ _).mem_iff

theorem eraseAll_of_perm {xs : List α} {places others : List Nat} (hnodup : places.Nodup)
    (h : others.Perm places) : eraseAll xs others = eraseAll xs places := by
  rw [eraseAll_eq hnodup, eraseAll_eq (h.nodup_iff.mpr hnodup)]
  exact unselected_congr fun x _ => h.mem_iff

end Unselected

namespace Session

/-! ## The meeting -/

/-- The end of a meeting returns all cards, and does nothing else with what the player owns. -/
theorem MeetingOver.player {s t : Session} (h : MeetingOver s t) :
    t.player = s.player.returnAll := by
  cases h with
  | last hlast => rfl
  | next hnext hplan hroom => rfl

theorem Transition.player_of_meeting {s t : Session} (h : Transition s t)
    (hphase : s.phase = .meeting) : t.player = s.player.returnAll := by
  cases h with
  | dismiss _ hover => exact hover.player
  | begin hstart => exact nomatch hphase.symm.trans hstart
  | play htraining => exact nomatch hphase.symm.trans htraining
  | meet haction => exact nomatch hphase.symm.trans haction
  | skip haction => exact nomatch hphase.symm.trans haction

/-- The checks of a choice do not look at its order. -/
theorem checkMeeting_of_perm {s : Session} {places others : List Nat}
    (hcheck : s.checkMeeting places = .ok ()) (h : others.Perm places) :
    s.checkMeeting others = .ok () := by
  obtain ⟨hphase, ⟨plan, hplan, hquota⟩, hselection⟩ := checkMeeting_eq_ok_iff.mp hcheck
  obtain ⟨hrange, hnodup⟩ := checkSelection_nil_eq_ok_iff.mp hselection
  refine checkMeeting_eq_ok_iff.mpr ⟨hphase, ⟨plan, hplan, h.length_eq ▸ hquota⟩, ?_⟩
  exact checkSelection_nil_eq_ok_iff.mpr
    ⟨fun i hi => hrange i (h.mem_iff.mp hi), h.nodup_iff.mpr hnodup⟩

theorem confirmMeeting_of_perm {s : Session} {places others : List Nat}
    (hcheck : s.checkMeeting places = .ok ()) (h : others.Perm places) :
    s.confirmMeeting others = s.confirmMeeting places := by
  obtain ⟨_, _, hselection⟩ := checkMeeting_eq_ok_iff.mp hcheck
  unfold confirmMeeting
  rw [hcheck, checkMeeting_of_perm hcheck h,
    eraseAll_of_perm (checkSelection_nil_eq_ok_iff.mp hselection).2 h]

/-- A choice that is accepted passes the checks, and the meeting is over. -/
theorem transition_of_confirmMeeting {s t : Session} (hs : s.Sound) {places : List Nat}
    {phase : Phase} (hstep : s.step (.confirmMeeting places) = (.phase phase, t)) :
    s.checkMeeting places = .ok () ∧ Transition (s.deleting places) t := by
  obtain ⟨hlegal, _⟩ :=
    (answered_confirmMeeting hs places).accepted_iff.mp ⟨phase, congrArg Prod.fst hstep⟩
  have hcheck := legalDeletions_iff.mp hlegal
  refine ⟨hcheck, ?_⟩
  rw [step] at hstep
  obtain ⟨u, hmove, _, heq⟩ | ⟨_, _, heq⟩ := (leads_confirmMeeting hs hcheck).settle_cases s .phase
  · obtain ⟨_, rfl⟩ := Prod.mk.inj (heq.symm.trans hstep)
    exact hmove
  · cases heq.symm.trans hstep

/-- A meeting deletes exactly the chosen cards. Of a choice that is accepted, in whatever order it
    lists the places, the cards there are gone, all others are kept in their order, and on top of
    them lie the cards of the slots in the order of roles and then those of the hand. Hand and
    slots are empty. The same places in another order lead to the same session. -/
theorem meeting_deletes_selected {s t : Session} (h : s.Reachable) {places : List Nat}
    {phase : Phase} (hstep : s.step (.confirmMeeting places) = (.phase phase, t)) :
    t.player.deck =
        unselected s.player.deck places ++ s.player.placed.present ++ s.player.hand ∧
      t.player.hand = [] ∧ (∀ role, t.player.placed.get role = none) ∧
      ∀ others, others.Perm places →
        s.step (.confirmMeeting others) = (.phase phase, t) := by
  obtain ⟨hcheck, hmove⟩ := transition_of_confirmMeeting h.sound hstep
  obtain ⟨hphase, _, hselection⟩ := checkMeeting_eq_ok_iff.mp hcheck
  obtain ⟨_, hnodup⟩ := checkSelection_nil_eq_ok_iff.mp hselection
  rw [hmove.player_of_meeting hphase]
  refine ⟨?_, rfl, fun role => by cases role <;> rfl, fun others hothers => ?_⟩
  · rw [← eraseAll_eq hnodup]
    rfl
  · rw [← hstep, step, step, confirmMeeting_of_perm hcheck hothers]

/-- A stored session in a meeting, with four cards in the deck and one each in slot and hand. -/
def deliberating : Session where
  machine := .common
  config := .standard
  catalog := .empty
  pools := .empty
  player :=
    { stats := .opening
      deck :=
        [⟨.outreach, .n, "体験会", "", "", none⟩, ⟨.reception, .r, "電話", "", "", some 0⟩,
          ⟨.reception, .r, "電話", "", "", some 0⟩, ⟨.academics, .sr, "合宿", "", "", some 1⟩]
      hand := [⟨.administration, .n, "清掃", "", "", none⟩]
      placed := ⟨none, some ⟨.academics, .n, "自習", "", "", none⟩, none⟩ }
  turn := 1
  phase := .meeting
  offer := none
  rng := ⟨42, 0⟩
  memo := .empty

/-- The first and the third card are deleted, whichever of the two is named first. -/
theorem deliberating_deletes_selected :
    deliberating.Reachable ∧ ∃ phase t,
      deliberating.step (.confirmMeeting [0, 2]) = (.phase phase, t) ∧
        t.player.deck.map Card.name = ["電話", "合宿", "自習", "清掃"] ∧ t.player.hand = [] ∧
        deliberating.step (.confirmMeeting [2, 0]) = (.phase phase, t) := by
  have hrestored : restore .common .empty .standard deliberating.snapshot = .ok deliberating := rfl
  have hreachable : deliberating.Reachable := Initial.reachable (.restored hrestored)
  have hlegal : deliberating.LegalDeletions [0, 2] := legalDeletions_iff.mpr rfl
  obtain ⟨phase, hphase⟩ := (answered_confirmMeeting hreachable.sound [0, 2]).accepted_iff.mpr
    ⟨hlegal, by decide⟩
  have hstep : deliberating.step (.confirmMeeting [0, 2]) = (.phase phase, _) :=
    Prod.ext hphase rfl
  obtain ⟨hdeck, hhand, _, hothers⟩ := meeting_deletes_selected hreachable hstep
  refine ⟨hreachable, phase, _, hstep, ?_, hhand, hothers [2, 0] (List.Perm.swap 0 2 [])⟩
  rw [hdeck]
  decide

end Session

end CramSchool
