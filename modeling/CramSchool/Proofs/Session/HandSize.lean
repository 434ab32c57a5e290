/-
  The hand has the right size all game long.

  A card of the player lies in the deck or is out of it, in the hand or in a slot. `HandDrawn` says
  how many are out: in the action phase the hand size of the settings, or every card if there are
  fewer, and in the other phases none.

  Placing a card and taking it back keep it out. Moving on to the action phase draws a hand while
  nothing is out, and every other move leaves nothing out (`Transition.handDrawn`). A hand of
  another size could only come from a direct draw or from forced names, which put copies on top.

  Main result: `hand_size_kept`.
-/
import CramSchool.Proofs.Session.Cards
import CramSchool.Proofs.Session.Offers

namespace CramSchool

/-! ## Cards out of the deck -/

theorem PerRole.present_eq_nil_iff {α : Type} (p : PerRole (Option α)) :
    p.present = [] ↔ p = .replicate none := by
  obtain ⟨leader, teacher, staff⟩ := p
  rw [present_eq]
  cases leader <;> cases teacher <;> cases staff <;> simp [replicate]

namespace Player

/-- Number of cards in the hand and in slots. -/
def outCount (p : Player) : Nat := p.hand.length + p.placed.present.length

theorem cardCount_eq (p : Player) : p.cardCount = p.deck.length + p.outCount :=
  Nat.add_assoc _ _ _

theorem outCount_eq_zero_iff (p : Player) :
    p.outCount = 0 ↔ p.hand = [] ∧ p.placed = .replicate none := by
  unfold outCount
  rw [Nat.add_eq_zero_iff, List.length_eq_zero_iff, List.length_eq_zero_iff,
    PerRole.present_eq_nil_iff]

theorem outCount_returnAll (p : Player) : p.returnAll.outCount = 0 := rfl

theorem outCount_foldl_addToDeck (p : Player) (cards : List Card) (turn : UInt8) :
    (cards.foldl (fun p card => p.addToDeck card turn) p).outCount = p.outCount := by
  induction cards generalizing p with
  | nil => rfl
  | cons card cards ih => exact ih (p.addToDeck card turn)

end Player

namespace Session

/-- As many cards are out of the deck as the phase asks for. -/
def HandDrawn (s : Session) : Prop :=
  s.player.outCount =
    if s.phase = .action then min s.config.handSize.toNat s.player.cardCount else 0

theorem handDrawn_of_ne {s : Session} (hphase : s.phase ≠ .action) (h : s.player.outCount = 0) :
    s.HandDrawn := by
  unfold HandDrawn
  rw [if_neg hphase, h]

theorem HandDrawn.outCount_eq_zero {s : Session} (h : s.HandDrawn) (hphase : s.phase ≠ .action) :
    s.player.outCount = 0 := by
  unfold HandDrawn at h
  rwa [if_neg hphase] at h

/-- An operation of a phase that neither takes cards out nor puts them back. -/
theorem HandDrawn.of_same {s t : Session} (h : s.HandDrawn) (hphase : t.phase = s.phase)
    (hconfig : t.config = s.config) (hdeck : t.player.deck.length = s.player.deck.length)
    (hout : t.player.outCount = s.player.outCount) : t.HandDrawn := by
  unfold HandDrawn at h ⊢
  rw [Player.cardCount_eq, hphase, hconfig, hdeck, hout, ← Player.cardCount_eq]
  exact h

/-! ## Hands that are dealt -/

/-- Without forced names a hand is dealt from the deck alone. -/
theorem outCount_dealt {s : Session} (hforced : s.config.forced.hand = []) (count : Nat) :
    (s.dealt count).2.player.outCount = s.player.outCount + min count s.player.deck.length := by
  have hlength := Pile.length_serve_nil s.catalog count s.player.deck
  simp only [dealt, hforced, Player.outCount, List.length_append]
  omega

theorem cardCount_dealt {s : Session} (hforced : s.config.forced.hand = []) (count : Nat) :
    (s.dealt count).2.player.cardCount = s.player.cardCount := by
  have hlength := (Pile.perm_serve_nil s.catalog count s.player.deck).length_eq
  rw [List.length_append] at hlength
  simp only [dealt, hforced, Player.cardCount, List.length_append]
  omega

/-! ## Moves -/

theorem MeetingOver.handDrawn {s t : Session} (h : MeetingOver s t) : t.HandDrawn := by
  cases h with
  | last hlast => exact handDrawn_of_ne Phase.noConfusion s.player.outCount_returnAll
  | next hnext hplan hroom => exact handDrawn_of_ne Phase.noConfusion s.player.outCount_returnAll

/-- The hand is drawn while every card is in the deck. -/
theorem handDrawn_acting {s : Session} (hforced : s.config.forced.hand = [])
    (hout : s.player.outCount = 0) : s.acting.HandDrawn := by
  have hnone : s.shuffled.player.outCount = 0 := hout
  have hforced : s.shuffled.config.forced.hand = [] := hforced
  unfold HandDrawn
  rw [if_pos (show s.acting.phase = .action from rfl)]
  show (s.shuffled.dealt s.config.handSize.toNat).2.player.outCount =
    min s.config.handSize.toNat (s.shuffled.dealt s.config.handSize.toNat).2.player.cardCount
  rw [outCount_dealt hforced, cardCount_dealt hforced, Player.cardCount_eq, hnone, Nat.zero_add,
    Nat.add_zero]

/-- A move needs nothing of the action phase it leaves: from there all cards return. -/
theorem Transition.handDrawn {s t : Session} (h : Transition s t)
    (hforced : s.config.forced.hand = [])
    (hout : s.phase ≠ .action → s.player.outCount = 0) : t.HandDrawn := by
  cases h with
  | begin hphase hplan hroom => exact handDrawn_of_ne Phase.noConfusion (hout (by simp [hphase]))
  | play hphase hoffer hroom => exact handDrawn_acting hforced (hout (by simp [hphase]))
  | meet hphase hplan hquota =>
      exact handDrawn_of_ne Phase.noConfusion s.player.outCount_returnAll
  | skip hphase hplan hquota hover => exact hover.handDrawn
  | dismiss hphase hover => exact hover.handDrawn

/-! ## Operations -/

theorem outCount_placing {s : Session} {i : Nat} {role : Role} {card : Card}
    (hempty : s.player.placed.get role = none) (hcard : s.player.hand[i]? = some card) :
    (s.placing i role card).player.outCount = s.player.outCount := by
  obtain ⟨hi, _⟩ := List.getElem?_eq_some_iff.mp hcard
  have hslots := (PerRole.perm_present_set_some hempty card).length_eq
  rw [List.length_cons] at hslots
  simp only [placing, Player.outCount, List.length_eraseIdx_of_lt hi, hslots]
  omega

theorem outCount_unplacing {s : Session} {role : Role} {card : Card}
    (hcard : s.player.placed.get role = some card) :
    (s.unplacing role card).player.outCount = s.player.outCount := by
  have hslots := (PerRole.perm_present_set_none hcard).length_eq
  rw [List.length_cons] at hslots
  simp only [unplacing, Player.outCount, List.length_append, List.length_singleton]
  omega

theorem outCount_clearing (s : Session) : s.clearing.player.outCount = s.player.outCount := by
  simp only [clearing, Player.outCount, PerRole.present_replicate_none, List.length_append,
    List.length_nil, Nat.add_zero]

theorem Carried.handDrawn {s : Session} {op : Operation} {x : Reply × Session} (h : Carried s op x)
    (hforced : s.config.forced.hand = []) (hop : ∀ count, op ≠ .drawHand count)
    (hs : s.HandDrawn) : x.2.HandDrawn := by
  cases h with
  | refused hr => exact hs
  | restart => exact handDrawn_of_ne Phase.noConfusion rfl
  | startGame hphase ht => exact ht.handDrawn hforced hs.outCount_eq_zero
  | advance ht => exact ht.handDrawn hforced hs.outCount_eq_zero
  | @confirmTraining picks offer chosen t hphase hoffer hcount hnodup hchosen ht =>
      refine ht.handDrawn hforced fun hne => ?_
      exact (s.player.outCount_foldl_addToDeck chosen s.turn).trans (hs.outCount_eq_zero hne)
  | confirmActions hphase hplan ht =>
      exact ht.handDrawn hforced fun hne => absurd hphase hne
  | confirmMeeting hphase hplan hquota hnodup hdoomed ht =>
      exact ht.handDrawn hforced hs.outCount_eq_zero
  | placeCard hphase hempty hcard => exact hs.of_same rfl rfl rfl (outCount_placing hempty hcard)
  | unplace hphase hcard => exact hs.of_same rfl rfl rfl (outCount_unplacing hcard)
  | clearPlaced hphase => exact hs.of_same rfl rfl rfl s.outCount_clearing
  | @drawHand count hroom => exact absurd rfl (hop count)
  | _ => exact hs.of_same rfl rfl rfl rfl

/-! ## Runs -/

theorem handDrawn_run (machine : Machine) (catalog : Catalog) {config : Config}
    (hforced : config.forced.hand = []) {ops : List Operation}
    (hops : ∀ count, .drawHand count ∉ ops) :
    let s := ((new machine catalog config).run ops).2
    Game machine catalog config s ∧ s.HandDrawn := by
  refine run_new_invariant (A := fun op => ∀ count, op ≠ .drawHand count)
    (handDrawn_of_ne Phase.noConfusion rfl) (fun s op hgame hop hs => ?_) fun op hop count heq => ?_
  · exact (carried_step hgame.sound op).handDrawn (hgame.config_eq ▸ hforced) hop hs
  · exact hops count (heq ▸ hop)

/-- The hand has the right size all game long. In every session that a run from a new one reaches,
    without forced names for the hand and without a direct draw into it, and whatever hand
    size is set: in the action phase the cards in hand and the occupied slots are together as many
    as that size, or as all cards the player owns if these are fewer. In every other phase hand
    and slots are empty and the deck holds every card the player owns. -/
theorem hand_size_kept (machine : Machine) (catalog : Catalog) {config : Config}
    (hforced : config.forced.hand = []) {ops : List Operation}
    (hops : ∀ count, .drawHand count ∉ ops) :
    let s := ((new machine catalog config).run ops).2
    (s.phase = .action → s.player.hand.length + s.player.placed.present.length =
      min config.handSize.toNat s.player.cardCount) ∧
    (s.phase ≠ .action → s.player.hand = [] ∧ (∀ role, s.player.placed.get role = none) ∧
      s.player.cards = s.player.deck ∧ s.player.cardCount = s.player.deck.length) := by
  intro s
  obtain ⟨hgame, hdrawn⟩ := handDrawn_run machine catalog hforced hops
  refine ⟨fun hphase => ?_, fun hphase => ?_⟩
  · have hout := hdrawn
    unfold HandDrawn at hout
    rw [if_pos hphase, hgame.config_eq] at hout
    exact hout
  · have hout := hdrawn.outCount_eq_zero hphase
    obtain ⟨hhand, hslots⟩ := s.player.outCount_eq_zero_iff.mp hout
    refine ⟨hhand, fun role => ?_, ?_, ?_⟩
    · rw [hslots]
      cases role <;> rfl
    · unfold Player.cards
      rw [hhand, hslots, PerRole.present_replicate_none, List.append_nil, List.append_nil]
    · rw [Player.cardCount_eq, hout, Nat.add_zero]

/-- A drafted card that is drawn and then placed is still one of the hand of four, and of all
    cards the player owns it is the only one. -/
theorem placedDraft_hand_size :
    Config.standard.forced.hand = [] ∧
      let ops := [.startGame, .confirmTraining [0], .placeCard 0 .leader]
      let s := ((new .common twoCards .standard).run ops).2
      (∀ count, .drawHand count ∉ ops) ∧ s.phase = .action ∧ s.player.hand = [] ∧
        s.player.hand.length + s.player.placed.present.length = min 4 s.player.cardCount := by
  have hforced : Config.standard.forced.hand = [] := rfl
  have hops : ∀ count, .drawHand count ∉
      [Operation.startGame, .confirmTraining [0], .placeCard 0 .leader] := by simp
  obtain ⟨haction, _⟩ := hand_size_kept .common twoCards hforced hops
  exact ⟨hforced, hops, rfl, rfl, haction rfl⟩

end Session

end CramSchool
