/-
  Nothing runs out of range in a reachable session.

  An operation stops if the turn cannot be counted up in eight bits, or if a card of the offer is
  asked for at a place that has none. In a sound session it does neither: the only reason left
  is that there is no room for the cards to be drawn (`reachable_stays_in_range`). A deletion
  leaves alone what it does not find; here every place of the deck that passes the checks is found
  (`eraseAll?_eq`). The index of a loaded catalog stays among its cards
  (`Catalog.indexed_ofCards`).

  The other accesses need no invariant, since each is guarded where it is made: a card of the hand
  is taken only at a place that the hand has, a forced name from a pile at the place it was found
  at, and the deck is listed by the places that it has.

  Together with the invariant this says that what is checked when a stored session is taken up
  is enough for every run from there.
-/
import CramSchool.Proofs.Session.Step
import Mathlib.Data.List.Nodup

namespace CramSchool

/-! ## Checked accesses -/

/-- Takes the element at a place out of a list that reaches that far. -/
def eraseIdx? {α : Type} (xs : List α) (i : Nat) : Option (List α) :=
  if i < xs.length then some (xs.eraseIdx i) else none

/-- Takes out the elements at some places, the hindmost first; none if one of the places is
    behind the last element when its turn comes. -/
def eraseAll? {α : Type} (xs : List α) (places : List Nat) : Option (List α) :=
  (places.mergeSort fun i j => j ≤ i).foldlM eraseIdx? xs

/-- Places in descending order stay in range: each erasure takes one element away, and the
    places to come are all before it. -/
theorem foldlM_eraseIdx? {α : Type} {xs : List α} {places : List Nat}
    (hsorted : places.Pairwise fun i j => j < i) (h : ∀ i ∈ places, i < xs.length) :
    places.foldlM eraseIdx? xs = some (places.foldl List.eraseIdx xs) := by
  induction places generalizing xs with
  | nil => rfl
  | cons i rest ih =>
      have hi : i < xs.length := h i List.mem_cons_self
      obtain ⟨hbefore, hrest⟩ := List.pairwise_cons.mp hsorted
      rw [List.foldlM_cons, eraseIdx?, if_pos hi]
      refine ih hrest fun j hj => ?_
      have := hbefore j hj
      rw [List.length_eraseIdx_of_lt hi]
      omega

/-- Different places, sorted from the hindmost to the foremost, are strictly descending. -/
theorem pairwise_lt_mergeSort {places : List Nat} (hnodup : places.Nodup) :
    (places.mergeSort fun i j => j ≤ i).Pairwise fun i j => j < i := by
  have hle : (places.mergeSort fun i j => j ≤ i).Pairwise fun i j => j ≤ i := by
    refine (List.pairwise_mergeSort (fun a b c hab hbc => ?_) (fun a b => ?_) places).imp ?_
    · simp only [decide_eq_true_eq] at hab hbc ⊢
      omega
    · simp only [Bool.or_eq_true, decide_eq_true_eq]
      omega
    · intro a b hab
      simpa using hab
  have hne : (places.mergeSort fun i j => j ≤ i).Pairwise (· ≠ ·) :=
    (List.mergeSort_perm _ _).nodup_iff.mpr hnodup
  exact (hle.and hne).imp fun ⟨h1, h2⟩ => by omega

theorem eraseAll?_eq {α : Type} {xs : List α} {places : List Nat} (hnodup : places.Nodup)
    (h : ∀ i ∈ places, i < xs.length) : eraseAll? xs places = some (eraseAll xs places) :=
  foldlM_eraseIdx? (pairwise_lt_mergeSort hnodup) fun i hi =>
    h i ((List.mergeSort_perm _ _).mem_iff.mp hi)

/-! ## The index of the catalog -/

/-- Every position in the index is that of a card. -/
def Catalog.Indexed (k : Catalog) : Prop :=
  ∀ (name : String) (i : Nat), k.firstNamed[name]? = some i → i < k.cards.length

theorem Catalog.Indexed.register {k : Catalog} (h : k.Indexed) (card : Card) :
    (k.register card).Indexed := by
  intro name i hi
  have hlength : (k.register card).cards.length = k.cards.length + 1 :=
    List.length_append
  rw [hlength]
  change (k.firstNamed.insertIfNew card.name k.cards.length)[name]? = some i at hi
  rw [Std.TreeMap.getElem?_insertIfNew] at hi
  split at hi
  · have := Option.some.inj hi
    omega
  · have := h name i hi
    omega

/-- A catalog that was loaded card by card is indexed. -/
theorem Catalog.indexed_ofCards (cards : List Card) : (Catalog.ofCards cards).Indexed := by
  have hfold : ∀ k : Catalog, k.Indexed → (cards.foldl Catalog.register k).Indexed := by
    induction cards with
    | nil => exact fun k h => h
    | cons card cards ih => exact fun k h => ih (k.register card) (h.register card)
  refine hfold .empty ?_
  intro name i hi
  simp [Catalog.empty] at hi

/-! ## Nothing is out of range -/

namespace Session

/-- What is checked when a stored session is taken up is enough for ever after. In every session
    that a run reaches the turn is in the calendar or the game has ended, the stats are within
    their bounds and an offer is pending in training only. No operation on it is refused for
    its turn. None stops because the turn runs over or because it reaches for a card that is not
    there, but only for want of room for the cards that it asks for. A deletion that passes the
    checks finds all of its places, and the index of the catalog names places of cards. -/
theorem reachable_stays_in_range {s : Session} (h : s.Reachable) :
    (s.turn.toNat < turnCount ∨ s.turn.toNat = turnCount ∧ s.phase = .finished) ∧
      s.player.stats.Valid ∧ (s.offer.isSome → s.phase = .training) ∧
      (∀ op, (∀ turn, (s.step op).1 ≠ .refused (.turnOutOfRange turn)) ∧
        ∀ reason, (s.step op).1 = .stopped reason →
          ∃ shortage, reason = .noRoom shortage ∧
            s.machine.cardShortage? (s.asked op) = some shortage) ∧
      (∀ places, s.checkMeeting places = .ok () →
        eraseAll? s.player.deck places = some (eraseAll s.player.deck places)) ∧
      ∀ cards, s.catalog = .ofCards cards → s.catalog.Indexed := by
  have hs := h.sound
  refine ⟨hs.turn, hs.stats, hs.offer, fun op => ⟨(settles_step hs op).in_calendar, ?_⟩,
    fun places hcheck => ?_, fun cards hcatalog => ?_⟩
  · exact fun reason hreason => (carried_step hs op).shortage_of_stopped hreason
  · obtain ⟨_, _, hselection⟩ := checkMeeting_eq_ok_iff.mp hcheck
    obtain ⟨hrange, hnodup⟩ := checkSelection_nil_eq_ok_iff.mp hselection
    exact eraseAll?_eq hnodup hrange
  · rw [hcatalog]
    exact Catalog.indexed_ofCards cards

/-- A stored session in the last action phase, with a card placed and one in the hand. -/
def lastAction : Session where
  machine := .common
  config := .standard
  catalog := .empty
  pools := .empty
  player :=
    { stats := ⟨9, 9, 3, 15⟩
      deck := []
      hand := [⟨.outreach, .n, "体験会", "", "体験生徒数+2。", none⟩]
      placed := ⟨some ⟨.academics, .sr, "合宿", "", "満足度+1。", some 7⟩, none, none⟩ }
  turn := 7
  phase := .action
  offer := none
  rng := ⟨42, 0⟩
  memo := .empty

/-- From there the meeting is passed through and the turn is counted up for the last time. There is
    nothing to draw any more, so that does not stop. -/
theorem lastAction_stays_in_range :
    lastAction.Reachable ∧ lastAction.turn.toNat + 1 = turnCount ∧
      ∀ reason, (lastAction.step .confirmActions).1 ≠ .stopped reason := by
  have hrestored : restore .common .empty .standard lastAction.snapshot = .ok lastAction := rfl
  have hreachable : lastAction.Reachable := Initial.reachable (.restored hrestored)
  have hroom : lastAction.machine.cardShortage? (lastAction.asked .confirmActions) = none := rfl
  obtain ⟨_, _, _, hoperations, _⟩ := reachable_stays_in_range hreachable
  refine ⟨hreachable, rfl, fun reason hreason => ?_⟩
  obtain ⟨_, _, hshort⟩ := (hoperations .confirmActions).2 reason hreason
  rw [hroom] at hshort
  cases hshort

end Session

end CramSchool
