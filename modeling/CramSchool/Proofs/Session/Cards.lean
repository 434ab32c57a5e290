/-
  The player's cards are kept.

  The cards a player owns lie in deck, hand and slots (`Player.cards`). Every operation but a
  restart only moves them, except that a choice from the offer adds the chosen cards (`Gains`), a
  meeting removes the chosen ones (`Loses`), and drawing a hand adds a copy from the catalog for a
  forced name that the deck does not have. A card is compared as a whole, with its turn of
  acquisition (`cards_conserved`).
-/
import CramSchool.Proofs.Session.InRange

namespace CramSchool

/-! ## The turn on a card -/

/-- A card enters the deck as it is, with the turn on it unless it bears one already. -/
theorem Card.stamped_eq (card : Card) (turn : UInt8) :
    card.stamped turn = { card with acquiredTurn := some (card.acquiredTurn.getD turn) } := by
  obtain ⟨category, rarity, name, topEffect, effect, acquiredTurn⟩ := card
  cases acquiredTurn <;> rfl

/-! ## Slots -/

namespace PerRole

variable {α : Type}

theorem present_eq (p : PerRole (Option α)) :
    p.present = p.leader.toList ++ p.teacher.toList ++ p.staff.toList := by
  obtain ⟨leader, teacher, staff⟩ := p
  cases leader <;> cases teacher <;> cases staff <;> rfl

theorem present_replicate_none : (replicate none : PerRole (Option α)).present = [] := rfl

/-- A slot that is filled adds its card. -/
theorem perm_present_set_some {p : PerRole (Option α)} {role : Role} (h : p.get role = none)
    (a : α) : (p.set role (some a)).present.Perm (a :: p.present) := by
  obtain ⟨leader, teacher, staff⟩ := p
  cases role with
  | leader =>
      obtain rfl : leader = none := h
      rw [present_eq, present_eq]
      exact .refl _
  | teacher =>
      obtain rfl : teacher = none := h
      rw [present_eq, present_eq]
      cases leader with
      | none => exact .refl _
      | some b => exact .swap a b _
  | staff =>
      obtain rfl : staff = none := h
      rw [present_eq, present_eq]
      show (leader.toList ++ teacher.toList ++ [a]).Perm
        (a :: (leader.toList ++ teacher.toList ++ []))
      rw [List.append_nil]
      exact List.perm_append_singleton a _

/-- A slot that is emptied gives its card up. -/
theorem perm_present_set_none {p : PerRole (Option α)} {role : Role} {a : α}
    (h : p.get role = some a) : (a :: (p.set role none).present).Perm p.present := by
  have hempty : (p.set role none).get role = none := by cases role <;> rfl
  have hback : (p.set role none).set role (some a) = p := by
    obtain ⟨leader, teacher, staff⟩ := p
    cases role <;> exact congrArg _ h.symm
  have hfilled := perm_present_set_some hempty a
  rw [hback] at hfilled
  exact hfilled.symm

end PerRole

/-! ## Moves of cards -/

/-- The elements taken out of a list and those left are the elements of the list. Places in
    descending order are those of the list itself: each erasure leaves the places before it. -/
theorem perm_foldl_eraseIdx {α : Type} {xs : List α} {places : List Nat}
    (hsorted : places.Pairwise fun i j => j < i) (h : ∀ i ∈ places, i < xs.length) :
    (places.foldl List.eraseIdx xs ++ places.filterMap fun i => xs[i]?).Perm xs := by
  induction places generalizing xs with
  | nil => exact .of_eq (List.append_nil xs)
  | cons i rest ih =>
      have hi : i < xs.length := h i List.mem_cons_self
      obtain ⟨hbefore, hrest⟩ := List.pairwise_cons.mp hsorted
      have hkept : (rest.filterMap fun j => (xs.eraseIdx i)[j]?) =
          rest.filterMap fun j => xs[j]? :=
        List.filterMap_congr fun j hj => List.getElem?_eraseIdx_of_lt (hbefore j hj)
      have hrange : ∀ j ∈ rest, j < (xs.eraseIdx i).length := by
        intro j hj
        have := hbefore j hj
        rw [List.length_eraseIdx_of_lt hi]
        omega
      have hothers := ih hrest hrange
      rw [hkept] at hothers
      rw [List.foldl_cons, List.filterMap_cons, List.getElem?_eq_getElem hi]
      exact List.perm_middle.trans
        ((hothers.cons _).trans (List.getElem_cons_eraseIdx_perm hi))

/-- Erasing different places that are all in range takes out exactly the elements there. -/
theorem perm_eraseAll {cards doomed : List Card} {places : List Nat} (hnodup : places.Nodup)
    (hrange : ∀ i ∈ places, i < cards.length) (hdoomed : cardsAt? cards places = some doomed) :
    (eraseAll cards places ++ doomed).Perm cards := by
  have hperm : (places.mergeSort fun i j => j ≤ i).Perm places := List.mergeSort_perm _ _
  rw [cardsAt?_eq hrange] at hdoomed
  rw [← Option.some.inj hdoomed]
  have hfold := perm_foldl_eraseIdx (pairwise_lt_mergeSort hnodup) fun i hi =>
    hrange i (hperm.mem_iff.mp hi)
  exact ((hperm.filterMap _).symm.append_left _).trans hfold

namespace Player

theorem perm_cards_foldl_addToDeck (p : Player) (chosen : List Card) (turn : UInt8) :
    (chosen.foldl (fun p card => p.addToDeck card turn) p).cards.Perm
      (p.cards ++ chosen.map fun card => card.stamped turn) := by
  induction chosen generalizing p with
  | nil => exact .of_eq (List.append_nil _).symm
  | cons card chosen ih =>
      refine (ih (p.addToDeck card turn)).trans ?_
      rw [List.perm_iff_count]
      intro c
      simp only [addToDeck, cards, List.map_cons, List.count_append, List.count_cons,
        List.count_nil]
      omega

theorem perm_cards_shuffleDeck (p : Player) (g : Generator) :
    (p.shuffleDeck g).1.cards.Perm p.cards :=
  ((g.perm_shuffle p.deck).append_right p.hand).append_right p.placed.present

theorem perm_cards_returnAll (p : Player) : p.returnAll.cards.Perm p.cards := by
  rw [List.perm_iff_count]
  intro c
  simp only [returnAll, cards, PerRole.present_replicate_none, List.count_append, List.count_nil]
  omega

end Player

/-! ## Moves from phase to phase -/

namespace Session

theorem MeetingOver.perm_cards {s t : Session} (h : MeetingOver s t) :
    t.player.cards.Perm s.player.cards := by
  cases h with
  | last hlast => exact s.player.perm_cards_returnAll
  | next hnext hplan hroom => exact s.player.perm_cards_returnAll

/-- Cards served from the catalog for forced names of the hand, at most one for each name. -/
def Copies (s : Session) (copies : List Card) : Prop :=
  copies.Sublist (s.config.forced.hand.filterMap s.catalog.find?)

/-- A hand is dealt from the deck; on top come copies for forced names. -/
theorem perm_cards_dealt (s : Session) (count : Nat) :
    ∃ copies, s.Copies copies ∧ (s.dealt count).2.player.cards.Perm (s.player.cards ++ copies) := by
  obtain ⟨copies, hcopies, hperm⟩ :=
    Pile.perm_serve s.catalog count s.config.forced.hand s.player.deck
  refine ⟨copies, hcopies, ?_⟩
  rw [List.perm_iff_count] at hperm ⊢
  intro c
  have hcount := hperm c
  simp only [List.count_append] at hcount
  simp only [dealt, Player.cards, List.count_append]
  omega

theorem Transition.perm_cards {s t : Session} (h : Transition s t) :
    ∃ copies, s.Copies copies ∧ (copies ≠ [] → s.phase = .training ∧ t.phase = .action) ∧
      t.player.cards.Perm (s.player.cards ++ copies) := by
  have hnone : t.player.cards.Perm s.player.cards →
      ∃ copies, s.Copies copies ∧ (copies ≠ [] → s.phase = .training ∧ t.phase = .action) ∧
        t.player.cards.Perm (s.player.cards ++ copies) := fun hperm =>
    ⟨[], List.nil_sublist _, fun hne => absurd rfl hne, by rwa [List.append_nil]⟩
  cases h with
  | begin hphase hplan hroom => exact hnone (.refl _)
  | play hphase hoffer hroom =>
      obtain ⟨copies, hcopies, hperm⟩ := s.shuffled.perm_cards_dealt s.config.handSize.toNat
      exact ⟨copies, hcopies, fun _ => ⟨hphase, rfl⟩,
        hperm.trans ((s.player.perm_cards_shuffleDeck s.rng).append_right copies)⟩
  | meet hphase hplan hquota => exact hnone s.player.perm_cards_returnAll
  | skip hphase hplan hquota hover =>
      exact hnone (hover.perm_cards.trans s.player.perm_cards_returnAll)
  | dismiss hphase hover => exact hnone hover.perm_cards

/-! ## Operations -/

/-- The cards that an operation with this reply adds to those the player owns: the chosen cards of
    the offer, with the turn recorded on those that have none yet. -/
def Gains (s : Session) (op : Operation) (reply : Reply) (gained : List Card) : Prop :=
  match op, reply with
  | .confirmTraining picks, .phase _ =>
    ∃ offer chosen, s.offer = some offer ∧ cardsAt? offer picks = some chosen ∧
      gained = chosen.map fun card => card.stamped s.turn
  | _, _ => gained = []

theorem gains_cases {s : Session} {op : Operation} {reply : Reply} {gained : List Card}
    (h : s.Gains op reply gained) :
    gained = [] ∨ ∃ picks phase offer chosen, op = .confirmTraining picks ∧
      reply = .phase phase ∧ s.offer = some offer ∧ cardsAt? offer picks = some chosen ∧
      gained = chosen.map fun card => card.stamped s.turn := by
  unfold Gains at h
  split at h
  · next picks phase =>
      obtain ⟨offer, chosen, hoffer, hchosen, hgained⟩ := h
      exact .inr ⟨picks, phase, offer, chosen, rfl, rfl, hoffer, hchosen, hgained⟩
  · exact .inl h

/-- A card that is gained is one of the offer, in everything but the turn on it: that is the turn of
    the choice, unless the card on offer bears one. -/
theorem Gains.exists_offered {s : Session} {op : Operation} {reply : Reply} {gained : List Card}
    (h : s.Gains op reply gained) {card : Card} (hcard : card ∈ gained) :
    ∃ offer, s.offer = some offer ∧ ∃ offered ∈ offer,
      card = { offered with acquiredTurn := some (offered.acquiredTurn.getD s.turn) } := by
  obtain rfl | ⟨picks, phase, offer, chosen, _, _, hoffer, hchosen, rfl⟩ := gains_cases h
  · nomatch hcard
  · obtain ⟨offered, hoffered, rfl⟩ := List.mem_map.mp hcard
    exact ⟨offer, hoffer, offered, mem_of_cardsAt? hchosen offered hoffered, offered.stamped_eq _⟩

/-- The cards that an operation with this reply takes out of the game: the cards at the chosen
    places of the deck. -/
def Loses (s : Session) (op : Operation) (reply : Reply) (lost : List Card) : Prop :=
  match op, reply with
  | .confirmMeeting places, .phase _ => cardsAt? s.player.deck places = some lost
  | _, _ => lost = []

/-- Whether an operation that leads to `t` draws a hand: it is asked to, or it goes on from
    training to action. -/
def DrawsHand (s : Session) (op : Operation) (t : Session) : Prop :=
  (∃ count, op = .drawHand count) ∨ s.phase = .training ∧ t.phase = .action

/-- The cards before and after an operation, and what makes the difference between them. -/
structure CardsKept (s : Session) (op : Operation) (x : Reply × Session)
    (gained lost copies : List Card) : Prop where
  gains : s.Gains op x.1 gained
  loses : s.Loses op x.1 lost
  served : s.Copies copies
  draws : copies ≠ [] → s.DrawsHand op x.2
  perm : (x.2.player.cards ++ lost).Perm (s.player.cards ++ gained ++ copies)

/-- An operation that neither adds nor removes cards and draws no hand. -/
theorem CardsKept.of_perm {s : Session} {op : Operation} {x : Reply × Session}
    (hgains : s.Gains op x.1 []) (hloses : s.Loses op x.1 [])
    (h : x.2.player.cards.Perm s.player.cards) : CardsKept s op x [] [] [] :=
  ⟨hgains, hloses, List.nil_sublist _, fun hne => absurd rfl hne, by simpa using h⟩

/-- An operation that only moves on. -/
theorem CardsKept.of_transition {s u : Session} {op : Operation} {x : Reply × Session}
    (hgains : s.Gains op x.1 []) (hloses : s.Loses op x.1 []) (h : Transition u x.2)
    (hphase : u.phase = s.phase) (hcopies : ∀ copies, u.Copies copies → s.Copies copies)
    (hcards : u.player.cards = s.player.cards) :
    ∃ copies, CardsKept s op x [] [] copies := by
  obtain ⟨copies, hserved, hdraws, hperm⟩ := h.perm_cards
  rw [hphase] at hdraws
  rw [hcards] at hperm
  exact ⟨copies, hgains, hloses, hcopies copies hserved, fun hne => .inr (hdraws hne),
    by simpa using hperm⟩

theorem Carried.cardsKept {s : Session} {op : Operation} {x : Reply × Session}
    (h : Carried s op x) (hop : op ≠ .restart) :
    ∃ gained lost copies, CardsKept s op x gained lost copies := by
  cases h with
  | refused hr =>
      refine ⟨[], [], [], .of_perm ?_ ?_ (.refl _)⟩
      · cases op <;> rfl
      · cases op <;> rfl
  | stopped hshort =>
      refine ⟨[], [], [], .of_perm ?_ ?_ (.refl _)⟩
      · cases op <;> rfl
      · cases op <;> rfl
  | restart => exact absurd rfl hop
  | startGame hphase htransition =>
      exact ⟨[], [], CardsKept.of_transition rfl rfl htransition rfl (fun _ h => h) rfl⟩
  | advance htransition =>
      exact ⟨[], [], CardsKept.of_transition rfl rfl htransition rfl (fun _ h => h) rfl⟩
  | @confirmTraining picks offer chosen t hphase hoffer hcount hnodup hchosen htransition =>
      obtain ⟨copies, hcopies, hdraws, hperm⟩ := htransition.perm_cards
      refine ⟨chosen.map fun card => card.stamped s.turn, [], copies,
        ⟨offer, chosen, hoffer, hchosen, rfl⟩, rfl, hcopies, fun hne => .inr (hdraws hne), ?_⟩
      rw [List.append_nil]
      exact hperm.trans ((s.player.perm_cards_foldl_addToDeck chosen s.turn).append_right copies)
  | @placeCard i role card hphase hempty hcard =>
      refine ⟨[], [], [], .of_perm rfl rfl ?_⟩
      obtain ⟨hi, rfl⟩ := List.getElem?_eq_some_iff.mp hcard
      have hhand := List.getElem_cons_eraseIdx_perm hi
      have hslots := PerRole.perm_present_set_some hempty s.player.hand[i]
      rw [List.perm_iff_count] at hhand hslots ⊢
      intro c
      have hhand := hhand c
      have hslots := hslots c
      rw [List.count_cons] at hhand hslots
      simp only [placing, Player.cards, List.count_append]
      omega
  | @unplace role card hphase hcard =>
      refine ⟨[], [], [], .of_perm rfl rfl ?_⟩
      have hslots := PerRole.perm_present_set_none hcard
      rw [List.perm_iff_count] at hslots ⊢
      intro c
      have hslots := hslots c
      rw [List.count_cons] at hslots
      simp only [unplacing, Player.cards, List.count_append, List.count_cons, List.count_nil]
      omega
  | unplaceEmpty hphase hempty => exact ⟨[], [], [], .of_perm rfl rfl (.refl _)⟩
  | clearPlaced hphase =>
      refine ⟨[], [], [], .of_perm rfl rfl ?_⟩
      rw [List.perm_iff_count]
      intro c
      simp only [clearing, Player.cards, PerRole.present_replicate_none, List.count_append,
        List.count_nil]
      omega
  | previewHand i role => exact ⟨[], [], [], .of_perm rfl rfl (.refl _)⟩
  | resolvePlaced hphase hplan => exact ⟨[], [], [], .of_perm rfl rfl (.refl _)⟩
  | confirmActions hphase hplan htransition =>
      exact ⟨[], [], CardsKept.of_transition rfl rfl htransition rfl (fun _ h => h) rfl⟩
  | @confirmMeeting places plan doomed t hphase hplan hquota hnodup hdoomed htransition =>
      obtain ⟨copies, hcopies, hdraws, hperm⟩ := htransition.perm_cards
      refine ⟨[], doomed, copies, rfl, hdoomed, hcopies, fun hne => .inr (hdraws hne), ?_⟩
      have hdeck := perm_eraseAll hnodup (lt_of_cardsAt? hdoomed) hdoomed
      rw [List.perm_iff_count] at hperm hdeck ⊢
      intro c
      have hperm := hperm c
      have hdeck := hdeck c
      simp only [deleting, Player.cards, List.count_append] at hperm hdeck
      simp only [Player.cards, List.count_append, List.count_nil]
      omega
  | drawTraining rarity hroom => exact ⟨[], [], [], .of_perm rfl rfl (.refl _)⟩
  | @drawHand count hroom =>
      obtain ⟨copies, hcopies, hperm⟩ := s.perm_cards_dealt count
      refine ⟨[], [], copies, rfl, rfl, hcopies, fun _ => .inl ⟨count, rfl⟩, ?_⟩
      rw [List.append_nil, List.append_nil]
      exact hperm
  | deckByAcquisition => exact ⟨[], [], [], .of_perm rfl rfl (.refl _)⟩
  | plan => exact ⟨[], [], [], .of_perm rfl rfl (.refl _)⟩

end Session

end CramSchool
