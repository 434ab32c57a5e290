/-
  The turns recorded on cards are true.

  A card bears the turn on which it was drafted, or none if it was dealt at the start or is a copy
  served for a forced name. In a game over a catalog of unmarked cards nothing that is still to be
  drafted is marked (`Undrafted`), so a draft marks each of its cards with its own turn.

  How many cards bear a turn is bounded by the number of picks of that turn, because each turn has
  one draft and a draft takes at most that many cards. What carries this along a run is `Recorded`:
  the drafts of the turns before `Stage.drafted` are over, and no card bears a later turn. A
  choice from the offer is the only operation that marks cards. It finds its turn unused and ends
  the draft of that turn, and no stage but a restart leads back.

  Main result: `stamps_sound`.
-/
import CramSchool.Proofs.Session.Cards
import CramSchool.Proofs.Session.Progress

namespace CramSchool

/-! ## Cards without a turn -/

/-- No card of the list bears a turn. -/
def Unmarked (cards : List Card) : Prop := ∀ card ∈ cards, card.acquiredTurn = none

/-- Number of cards that bear a turn. -/
def markCount (turn : UInt8) (cards : List Card) : Nat :=
  cards.countP fun card => card.acquiredTurn = some turn

theorem Unmarked.markCount_eq_zero {cards : List Card} (h : Unmarked cards) (turn : UInt8) :
    markCount turn cards = 0 :=
  List.countP_eq_zero.mpr fun card hcard => by simp [h card hcard]

theorem markCount_append (turn : UInt8) (cards more : List Card) :
    markCount turn (cards ++ more) = markCount turn cards + markCount turn more :=
  List.countP_append

/-- A card without a turn takes on the turn it is drafted on. -/
theorem acquiredTurn_stamped {card : Card} (h : card.acquiredTurn = none) (turn : UInt8) :
    (card.stamped turn).acquiredTurn = some turn := by
  rw [Card.stamped_eq, h]
  rfl

/-- Drafted cards bear the turn of the draft and no other. -/
theorem markCount_stamped_le {cards : List Card} (h : Unmarked cards) (turn drafted : UInt8) :
    markCount turn (cards.map fun card => card.stamped drafted) ≤
      if turn = drafted then cards.length else 0 := by
  by_cases hturn : turn = drafted
  · rw [if_pos hturn, ← List.length_map (fun card : Card => card.stamped drafted)]
    exact List.countP_le_length
  · rw [if_neg hturn]
    refine Nat.le_of_eq (List.countP_eq_zero.mpr fun card hcard => ?_)
    obtain ⟨original, horiginal, rfl⟩ := List.mem_map.mp hcard
    rw [acquiredTurn_stamped (h original horiginal)]
    simpa using fun heq => hturn heq.symm

theorem Catalog.mem_cards_of_find? {k : Catalog} {name : String} {card : Card}
    (h : k.find? name = some card) : card ∈ k.cards := by
  unfold find? at h
  split at h
  · exact List.mem_of_getElem? h
  · exact nomatch h

/-- Copies served for forced names bear no turn. -/
theorem unmarked_copies {catalog : Catalog} (h : Unmarked catalog.cards) {names : List String}
    {copies : List Card} (hcopies : copies.Sublist (names.filterMap catalog.find?)) :
    Unmarked copies := by
  intro card hcard
  obtain ⟨name, _, hfind⟩ := List.mem_filterMap.mp (hcopies.subset hcard)
  exact h card (Catalog.mem_cards_of_find? hfind)

theorem Unmarked.serve {pile : List Card} (h : Unmarked pile) {catalog : Catalog}
    (hcatalog : Unmarked catalog.cards) (count : Nat) (forced : List String) :
    Unmarked (Pile.serve catalog count forced pile).1 ∧
      Unmarked (Pile.serve catalog count forced pile).2 := by
  obtain ⟨copies, hcopies, hperm⟩ := Pile.perm_serve catalog count forced pile
  have hall : Unmarked (copies ++ pile) :=
    List.forall_mem_append.mpr ⟨unmarked_copies hcatalog hcopies, h⟩
  exact List.forall_mem_append.mp fun card hcard => hall card (hperm.subset hcard)

theorem Catalog.unmarked_byRarity {k : Catalog} (h : Unmarked k.cards) (rarity : Rarity) :
    Unmarked (k.byRarity rarity) := fun card hcard => h card (List.mem_of_mem_filter hcard)

theorem Catalog.unmarked_starters {k : Catalog} (h : Unmarked k.cards) : Unmarked k.starters := by
  intro card hcard
  obtain ⟨original, horiginal, hcopy⟩ := List.mem_flatMap.mp hcard
  obtain rfl : card = original := by simpa using hcopy
  exact unmarked_byRarity h .n card horiginal

/-- The pools hold unmarked cards only. -/
def Pools.Unmarked (p : Pools) : Prop := ∀ rarity, CramSchool.Unmarked (p.get rarity)

theorem Pools.Unmarked.serve {p : Pools} (h : p.Unmarked) {catalog : Catalog}
    (hcatalog : CramSchool.Unmarked catalog.cards) (rarity : Rarity) (count : Nat)
    (forced : List String) :
    CramSchool.Unmarked (p.serve catalog rarity count forced).1 ∧
      (p.serve catalog rarity count forced).2.Unmarked := by
  obtain ⟨hserved, hleft⟩ := (h rarity).serve hcatalog count forced
  refine ⟨hserved, fun other => ?_⟩
  show CramSchool.Unmarked ((p.set rarity _).get other)
  rw [get_set]
  split
  · exact hleft
  · exact h other

namespace Session

/-! ## What is still to be drafted -/

/-- Nothing in the catalog, in the pools or on offer bears a turn. -/
structure Undrafted (s : Session) : Prop where
  catalog : Unmarked s.catalog.cards
  pools : s.pools.Unmarked
  offer : ∀ cards, s.offer = some cards → Unmarked cards

theorem Transition.undrafted {s t : Session} (h : Transition s t) (hs : s.Undrafted) :
    t.Undrafted := by
  have hcatalog : Unmarked t.catalog.cards := h.fixed.2.1.symm ▸ hs.catalog
  obtain ⟨hpools, hoffer, _⟩ | ⟨plan, cards, hdrafts⟩ := h.drafts
  · exact ⟨hcatalog, hpools ▸ hs.pools, hoffer ▸ hs.offer⟩
  · obtain ⟨hserved, hleft⟩ := hs.pools.serve hs.catalog plan.trainingRarity
      (s.config.offerSize t.turn) s.config.forced.training
    rw [← hdrafts.served] at hserved hleft
    refine ⟨hcatalog, hleft, fun offered hoffered => ?_⟩
    obtain rfl := Option.some.inj (hdrafts.offer.symm.trans hoffered)
    exact hserved

theorem undrafted_restart {s : Session} (h : Unmarked s.catalog.cards) : s.restart.Undrafted where
  catalog := h
  pools rarity card hcard :=
    Catalog.unmarked_byRarity h rarity card ((perm_pools_restart s rarity).subset hcard)
  offer := nofun

theorem Carried.undrafted {s : Session} {op : Operation} {x : Reply × Session}
    (h : Carried s op x) (hs : s.Undrafted) : x.2.Undrafted := by
  cases h with
  | restart => exact undrafted_restart hs.catalog
  | startGame hphase ht => exact ht.undrafted hs
  | advance ht => exact ht.undrafted hs
  | confirmTraining hphase hoffer hcount hnodup hchosen ht =>
      exact ht.undrafted ⟨hs.catalog, hs.pools, nofun⟩
  | confirmActions hphase hplan ht => exact ht.undrafted ⟨hs.catalog, hs.pools, hs.offer⟩
  | confirmMeeting hphase hplan hquota hnodup hdoomed ht =>
      exact ht.undrafted ⟨hs.catalog, hs.pools, hs.offer⟩
  | @drawTraining rarity count hroom =>
      obtain ⟨_, hleft⟩ := hs.pools.serve hs.catalog rarity count s.config.forced.training
      exact ⟨hs.catalog, hleft, hs.offer⟩
  | _ => exact ⟨hs.catalog, hs.pools, hs.offer⟩

end Session

/-! ## Drafts that are over -/

namespace Stage

/-- Number of turns whose draft is over. -/
def drafted (g : Stage) : Nat :=
  match g.phase with
  | .action | .meeting => g.turn + 1
  | _ => g.turn

theorem drafted_afterMeeting {turn : Nat} (h : turn < turnCount) :
    (afterMeeting turn).drafted = turn + 1 := by
  unfold afterMeeting
  split
  · rfl
  · show turnCount = turn + 1
    omega

/-- The move out of training ends a draft, and no other move does. -/
theorem drafted_next {g g' : Stage} (h : g.next? = some g') (hturn : g.turn < turnCount) :
    g'.drafted = if g.phase = .training then g.drafted + 1 else g.drafted := by
  obtain ⟨turn, phase⟩ := g
  cases phase with
  | start =>
      obtain rfl := Option.some.inj h
      rfl
  | training =>
      obtain rfl := Option.some.inj h
      rfl
  | action =>
      obtain ⟨plan, _, rfl⟩ := Option.map_eq_some_iff.mp h
      split
      · exact drafted_afterMeeting hturn
      · rfl
  | meeting =>
      obtain rfl := Option.some.inj h
      exact drafted_afterMeeting hturn
  | finished => exact nomatch h

theorem drafted_le {g : Stage} : g.drafted ≤ g.turn + 1 := by
  unfold drafted
  split <;> omega

end Stage

namespace Session

theorem Sound.drafted_le {s : Session} (h : s.Sound) : s.stage.drafted ≤ turnCount := by
  obtain hlt | ⟨hend, hphase⟩ := h.turn
  · exact Nat.le_trans Stage.drafted_le hlt
  · unfold Stage.drafted
    rw [show s.stage.phase = .finished from hphase]
    exact Nat.le_of_eq hend

theorem Carried.drafted_next {s : Session} {op : Operation} {x : Reply × Session}
    (h : Carried s op x) (hs : s.Sound) (hmove : (op.isMove && x.1.isAnswer) = true) :
    x.2.stage.drafted = if s.phase = .training then s.stage.drafted + 1 else s.stage.drafted := by
  obtain ⟨hnext, _⟩ := h.stage_moved hmove
  exact Stage.drafted_next hnext (hs.turn_lt (Stage.ne_finished_of_next hnext))

theorem Carried.drafted_le {s : Session} {op : Operation} {x : Reply × Session}
    (h : Carried s op x) (hs : s.Sound) (hop : op ≠ .restart) :
    s.stage.drafted ≤ x.2.stage.drafted := by
  by_cases hmove : (op.isMove && x.1.isAnswer) = true
  · rw [h.drafted_next hs hmove]
    split <;> omega
  · exact Nat.le_of_eq (by rw [h.stage_kept hop (Bool.eq_false_iff.mpr hmove)])

/-! ## Operations -/

/-- Cards are marked with a turn only by the operation that ends the draft of that turn, and no
    more cards than are to be picked. -/
theorem Carried.markCount_gained_le {s : Session} {op : Operation} {x : Reply × Session}
    (h : Carried s op x) (hsound : s.Sound) (hs : s.Undrafted) {gained : List Card}
    (hgains : s.Gains op x.1 gained) (turn : UInt8) :
    markCount turn gained ≤
      if s.stage.drafted ≤ turn.toNat ∧ turn.toNat < x.2.stage.drafted then s.config.picks turn
      else 0 := by
  obtain ⟨reply, t⟩ := x
  obtain rfl | ⟨picks, phase, offer, chosen, rfl, hreply, hoffer, hchosen, rfl⟩ :=
    gains_cases hgains
  · exact Nat.zero_le _
  · obtain rfl : reply = .phase phase := hreply
    have hunmarked : Unmarked chosen := fun card hcard =>
      hs.offer offer hoffer card (mem_of_cardsAt? hchosen card hcard)
    have hle := markCount_stamped_le hunmarked turn s.turn
    have hends : t.stage.drafted =
        if s.phase = .training then s.stage.drafted + 1 else s.stage.drafted :=
      h.drafted_next hsound rfl
    obtain ⟨hphase, hpicks⟩ : s.phase = .training ∧ picks.length ≤ s.config.picks s.turn := by
      cases h with
      | confirmTraining hphase _ hcount _ _ _ => exact ⟨hphase, by omega⟩
    have hdrafted : s.stage.drafted = s.turn.toNat := by
      unfold Stage.drafted
      rw [show s.stage.phase = .training from hphase]
      rfl
    rw [if_pos hphase, hdrafted] at hends
    by_cases hturn : turn = s.turn
    · subst hturn
      have hcondition : s.stage.drafted ≤ s.turn.toNat ∧ s.turn.toNat < t.stage.drafted := by
        omega
      rw [if_pos rfl, length_of_cardsAt? hchosen] at hle
      rw [if_pos hcondition]
      exact Nat.le_trans hle hpicks
    · rw [if_neg hturn] at hle
      exact Nat.le_trans hle (Nat.zero_le _)

/-- Nothing still to be drafted is marked, and a turn is borne by no more cards than were to be
    picked on it, and by none if its draft is not over. -/
structure Recorded (s : Session) : Prop where
  undrafted : s.Undrafted
  bound : ∀ turn, markCount turn s.player.cards ≤
    if turn.toNat < s.stage.drafted then s.config.picks turn else 0

theorem recorded_restart {s : Session} (h : Unmarked s.catalog.cards) : s.restart.Recorded where
  undrafted := undrafted_restart h
  bound turn := by
    have hcards : s.restart.player.cards = s.catalog.starters :=
      (List.append_nil _).trans (List.append_nil _)
    rw [hcards, (Catalog.unmarked_starters h).markCount_eq_zero]
    exact Nat.zero_le _

theorem CardsKept.markCount_le {s : Session} {op : Operation} {x : Reply × Session}
    {gained lost copies : List Card} (h : CardsKept s op x gained lost copies)
    (hs : s.Undrafted) (turn : UInt8) :
    markCount turn x.2.player.cards ≤
      markCount turn s.player.cards + markCount turn gained := by
  have hcount : markCount turn (x.2.player.cards ++ lost) =
      markCount turn (s.player.cards ++ gained ++ copies) := h.perm.countP_eq _
  have hcopies := (unmarked_copies hs.catalog h.served).markCount_eq_zero turn
  rw [markCount_append, markCount_append, markCount_append, hcopies] at hcount
  omega

theorem Carried.recorded {s : Session} {op : Operation} {x : Reply × Session}
    (h : Carried s op x) (hsound : s.Sound) (hs : s.Recorded) : x.2.Recorded := by
  by_cases hop : op = .restart
  · subst hop
    cases h with
    | refused hr => exact hs
    | stopped hshort => exact hs
    | restart => exact recorded_restart hs.undrafted.catalog
  · refine ⟨h.undrafted hs.undrafted, fun turn => ?_⟩
    obtain ⟨gained, lost, copies, hkept⟩ := h.cardsKept hop
    have hcards := hkept.markCount_le hs.undrafted turn
    have hgained := h.markCount_gained_le hsound hs.undrafted hkept.gains turn
    have hbound := hs.bound turn
    have hdrafted := h.drafted_le hsound hop
    rw [h.fixed.2.2]
    -- Either the draft of the turn was over before and nothing is added, or none bore the turn.
    by_cases hover : turn.toNat < s.stage.drafted
    · rw [if_pos hover] at hbound
      rw [if_neg (by omega)] at hgained
      rw [if_pos (by omega)]
      omega
    · rw [if_neg hover] at hbound
      split at hgained
      · rw [if_pos (by omega)]
        omega
      · exact Nat.le_trans (by omega) (Nat.zero_le _)

/-! ## Runs -/

theorem recorded_run (machine : Machine) {catalog : Catalog} (h : Unmarked catalog.cards)
    (config : Config) (ops : List Operation) :
    let s := ((new machine catalog config).run ops).2
    Game machine catalog config s ∧ s.Recorded :=
  run_new_invariant (A := fun _ => True) (recorded_restart h)
    (fun _ op hgame _ hs => (carried_step hgame.sound op).recorded hgame.sound hs)
    fun _ _ => trivial

/-- The turns recorded on cards are true. In every session that a run from a new one reaches, over
    a catalog whose cards bear no turn and whatever names are forced: no card in a pool or on
    offer bears a turn. A card in deck, hand or slots that bears one was drafted on that turn or
    an earlier one than now, and on a turn of the calendar. And no turn is borne by more of the
    player's cards than were to be picked on it. -/
theorem stamps_sound (machine : Machine) {catalog : Catalog}
    (hcatalog : ∀ card ∈ catalog.cards, card.acquiredTurn = none) (config : Config)
    (ops : List Operation) :
    let s := ((new machine catalog config).run ops).2
    (∀ rarity, ∀ card ∈ s.pools.get rarity, card.acquiredTurn = none) ∧
    (∀ cards, s.offer = some cards → ∀ card ∈ cards, card.acquiredTurn = none) ∧
    (∀ card ∈ s.player.cards, ∀ turn, card.acquiredTurn = some turn →
      turn ≤ s.turn ∧ turn.toNat ≤ 7) ∧
    ∀ turn, s.player.cards.countP (fun card => card.acquiredTurn = some turn) ≤
      config.picks turn := by
  intro s
  obtain ⟨hgame, hrecorded⟩ := recorded_run machine hcatalog config ops
  refine ⟨hrecorded.undrafted.pools, hrecorded.undrafted.offer, fun card hcard turn hturn => ?_,
    fun turn => ?_⟩
  · have hborne : 0 < markCount turn s.player.cards :=
      List.countP_pos_iff.mpr ⟨card, hcard, decide_eq_true hturn⟩
    have hbound : markCount turn s.player.cards ≤
        if turn.toNat < s.stage.drafted then s.config.picks turn else 0 := hrecorded.bound turn
    have hover : turn.toNat < s.stage.drafted := by
      refine Decidable.byContradiction fun hnot => ?_
      rw [if_neg hnot] at hbound
      omega
    have hnow : s.stage.drafted ≤ s.turn.toNat + 1 := Stage.drafted_le
    have hend : s.stage.drafted ≤ 8 := hgame.sound.drafted_le
    exact ⟨UInt8.le_iff_toNat_le.mpr (by omega), by omega⟩
  · have hbound := hrecorded.bound turn
    rw [hgame.config_eq] at hbound
    refine Nat.le_trans hbound ?_
    split
    · exact Nat.le_refl _
    · exact Nat.zero_le _

/-- A game of two cards on its second turn. One card was drafted on the first turn, the other is on
    offer. -/
def secondDraft : Session :=
  ((new .common twoCards .standard).run
    [.startGame, .confirmTraining [0], .confirmActions, .advance]).2

/-- The drafted card bears the first turn, and the one on offer bears none. -/
theorem secondDraft_stamps_sound :
    (∀ card ∈ twoCards.cards, card.acquiredTurn = none) ∧ secondDraft.turn = 1 ∧
      secondDraft.player.cards.map Card.acquiredTurn = [some 0] ∧
      (∃ cards, secondDraft.offer = some cards ∧ cards.length = 1 ∧
        ∀ card ∈ cards, card.acquiredTurn = none) ∧
      (∀ card ∈ secondDraft.player.cards, ∀ turn, card.acquiredTurn = some turn → turn ≤ 1) ∧
      secondDraft.player.cards.countP (fun card => card.acquiredTurn = some 0) ≤ 2 := by
  have hcatalog : ∀ card ∈ twoCards.cards, card.acquiredTurn = none := by decide
  obtain ⟨_, hoffer, hborne, hcount⟩ := stamps_sound .common hcatalog .standard
    [.startGame, .confirmTraining [0], .confirmActions, .advance]
  exact ⟨hcatalog, rfl, rfl, ⟨_, rfl, rfl, hoffer _ rfl⟩,
    fun card hcard turn hturn => (hborne card hcard turn hturn).1, hcount 0⟩

end Session

end CramSchool
