/-
  Games played from their start.

  A stored session may be in states that no game leads to: in training without an offer, with
  cards in slots outside the action phase, in its start phase on a late turn. `Genuine` are the
  sessions that come from a new one, by operations and by taking up what was stored of them.

  `Orderly` is the invariant that tells the two apart. A move restores it from less than it
  says: while a choice from the offer is carried out the session is in training without an
  offer, so `Transition.orderly` asks for a sound session with empty slots only.

  Main results: every operation keeps `Orderly` (`orderly_step`), and in a genuine game no draft is
  skipped and no placed card leaves the action phase (`genuine_drafts_every_turn`).
-/
import CramSchool.Proofs.Session.Offers
import CramSchool.Proofs.Session.Refused

namespace CramSchool.Session

/-- Sessions that were played from a new one, stored and taken up in between at most. -/
inductive Genuine : Session → Prop
  | new (machine : Machine) (catalog : Catalog) (config : Config) :
      Genuine (Session.new machine catalog config)
  | step {s : Session} (h : Genuine s) (op : Operation) : Genuine (s.step op).2
  | resume {s t : Session} {machine : Machine} {catalog : Catalog} {config : Config}
      (h : Genuine s) (hrestore : restore machine catalog config s.snapshot = .ok t) : Genuine t

/-- A sound session in which an offer is pending all through the training, the start comes on
    the first turn and the end after the last, meetings are held on turns with deletions, and
    slots are empty outside the action phase. -/
structure Orderly (s : Session) : Prop where
  sound : s.Sound
  draft : s.phase = .training → s.offer.isSome
  opening : s.phase = .start → s.turn = 0
  ending : s.phase = .finished → s.turn.toNat = turnCount
  meeting : s.phase = .meeting → ∀ plan, s.plan = .ok plan → plan.deleteQuota ≠ 0
  slots : s.phase ≠ .action → s.player.placed = .replicate none

/-! ## Moves -/

theorem orderly_offered {s : Session} (hturn : s.turn.toNat < turnCount)
    (hstats : s.player.stats.Valid) (hslots : s.player.placed = .replicate none)
    (plan : TurnPlan) : (s.offered plan).Orderly where
  sound := sound_offered hturn hstats plan
  draft _ := rfl
  opening := Phase.noConfusion
  ending := Phase.noConfusion
  meeting := Phase.noConfusion
  slots _ := hslots

theorem MeetingOver.orderly {s t : Session} (h : MeetingOver s t) (hturn : s.turn.toNat < turnCount)
    (hstats : s.player.stats.Valid) (hoffer : s.offer = none) : t.Orderly := by
  have hsound := h.sound hturn hstats hoffer
  cases h with
  | last hlast =>
      exact ⟨hsound, Phase.noConfusion, Phase.noConfusion, fun _ => rfl, Phase.noConfusion,
        fun _ => rfl⟩
  | next hnext hplan hroom =>
      refine orderly_offered (s := s.nextTurn) ?_ hstats rfl _
      show (s.turn + 1).toNat < turnCount
      rw [toNat_turn_succ hturn]
      exact hnext

/-- A move needs neither a pending offer nor the right turn to lead to an orderly session. -/
theorem Transition.orderly {s t : Session} (h : Transition s t) (hs : s.Sound)
    (hslots : s.phase ≠ .action → s.player.placed = .replicate none) : t.Orderly := by
  have hsound := h.sound hs
  cases h with
  | begin hphase hplan hroom =>
      exact orderly_offered (hs.turn_lt (by simp [hphase])) hs.stats (hslots (by simp [hphase])) _
  | play hphase hoffer hroom =>
      exact ⟨hsound, Phase.noConfusion, Phase.noConfusion, Phase.noConfusion, Phase.noConfusion,
        fun hne => absurd rfl hne⟩
  | meet hphase hplan hquota =>
      refine ⟨hsound, Phase.noConfusion, Phase.noConfusion, Phase.noConfusion, fun _ plan hp => ?_,
        fun _ => rfl⟩
      obtain rfl := Except.ok.inj (hplan.symm.trans hp)
      exact hquota
  | skip hphase hplan hquota hover =>
      exact hover.orderly (hs.turn_lt (by simp [hphase])) hs.stats
        (hs.offer_eq_none (by simp [hphase]))
  | dismiss hphase hover =>
      exact hover.orderly (hs.turn_lt (by simp [hphase])) hs.stats
        (hs.offer_eq_none (by simp [hphase]))

/-! ## Operations -/

theorem orderly_restart (s : Session) : s.restart.Orderly where
  sound := sound_restart s
  draft := Phase.noConfusion
  opening _ := rfl
  ending := Phase.noConfusion
  meeting := Phase.noConfusion
  slots _ := rfl

/-- An operation that stays in its phase and leaves the slots alone outside the action phase. -/
theorem Orderly.of_same {s t : Session} (h : s.Orderly) (hsound : t.Sound)
    (hturn : t.turn = s.turn) (hphase : t.phase = s.phase) (hoffer : t.offer = s.offer)
    (hslots : s.phase ≠ .action → t.player.placed = s.player.placed) : t.Orderly where
  sound := hsound
  draft := by rw [hphase, hoffer]; exact h.draft
  opening := by rw [hphase, hturn]; exact h.opening
  ending := by rw [hphase, hturn]; exact h.ending
  meeting := by
    have hplan : t.plan = s.plan := by unfold Session.plan plan?; rw [hturn]
    rw [hphase, hplan]
    exact h.meeting
  slots := by
    rw [hphase]
    exact fun hne => (hslots hne).trans (h.slots hne)

theorem placed_foldl_addToDeck (p : Player) (cards : List Card) (turn : UInt8) :
    (cards.foldl (fun p card => p.addToDeck card turn) p).placed = p.placed := by
  induction cards generalizing p with
  | nil => rfl
  | cons card cards ih => exact ih (p.addToDeck card turn)

theorem Carried.orderly {s : Session} {op : Operation} {x : Reply × Session} (h : Carried s op x)
    (hs : s.Orderly) : x.2.Orderly := by
  have hsound := (h.settled hs.sound).sound
  cases h with
  | refused hr => exact hs
  | restart => exact orderly_restart s
  | startGame hphase ht => exact ht.orderly hs.sound hs.slots
  | advance ht => exact ht.orderly hs.sound hs.slots
  | @confirmTraining picks offer chosen t hphase hoffer hcount hnodup hchosen ht =>
      -- The move starts in training without an offer, which is not orderly.
      refine ht.orderly (hs.sound.taking chosen) fun hne => ?_
      exact (placed_foldl_addToDeck s.player chosen s.turn).trans (hs.slots hne)
  | confirmActions hphase hplan ht =>
      exact ht.orderly (hs.sound.resolved _) fun hne => absurd hphase hne
  | confirmMeeting hphase hplan hquota hnodup hdoomed ht =>
      exact ht.orderly (hs.sound.deleting _) hs.slots
  | placeCard hphase => exact hs.of_same hsound rfl rfl rfl fun hne => absurd hphase hne
  | unplace hphase => exact hs.of_same hsound rfl rfl rfl fun hne => absurd hphase hne
  | clearPlaced hphase => exact hs.of_same hsound rfl rfl rfl fun hne => absurd hphase hne
  | _ => exact hs.of_same hsound rfl rfl rfl fun _ => rfl

theorem orderly_step {s : Session} (h : s.Orderly) (op : Operation) : (s.step op).2.Orderly :=
  (carried_step h.sound op).orderly h

/-! ## Genuine games -/

/-- What is stored is all that the invariant speaks about. -/
theorem Orderly.restore {s t : Session} {machine : Machine} {catalog : Catalog} {config : Config}
    (h : s.Orderly) (hrestore : restore machine catalog config s.snapshot = .ok t) :
    t.Orderly := by
  unfold Session.restore at hrestore
  rw [(sound_iff_check s).mp h.sound] at hrestore
  rw [← Except.ok.inj hrestore]
  exact ⟨⟨h.sound.turn, h.sound.stats, h.sound.offer⟩, h.draft, h.opening, h.ending, h.meeting,
    h.slots⟩

theorem Genuine.orderly {s : Session} (h : s.Genuine) : s.Orderly := by
  induction h with
  | new machine catalog config => exact orderly_restart _
  | step _ op ih => exact orderly_step ih op
  | resume _ hrestore ih => exact ih.restore hrestore

theorem Genuine.run {s : Session} (h : s.Genuine) (ops : List Operation) :
    (s.run ops).2.Genuine := run_invariant (fun _ op hs => hs.step op) h ops

theorem Orderly.offer_ne_none {s : Session} (h : s.Orderly) (hphase : s.phase = .training) :
    s.offer ≠ none := Option.isSome_iff_ne_none.mp (h.draft hphase)

/-- While an offer is pending there is no move. -/
theorem Orderly.not_transition {s t : Session} (h : s.Orderly) (hphase : s.phase = .training) :
    ¬Transition s t := by
  intro ht
  cases ht with
  | begin hstart hplan hroom => exact nomatch hphase.symm.trans hstart
  | play htraining hnone hroom => exact h.offer_ne_none hphase hnone
  | meet haction hplan hquota => exact nomatch hphase.symm.trans haction
  | skip haction hplan hquota hover => exact nomatch hphase.symm.trans haction
  | dismiss hmeeting hover => exact nomatch hphase.symm.trans hmeeting

/-- From training the action phase is reached by a choice from the offer only. -/
theorem Carried.chosen {s : Session} {op : Operation} {x : Reply × Session} (h : Carried s op x)
    (hs : s.Orderly) (hbefore : s.phase = .training) (hafter : x.2.phase = .action) :
    ∃ picks offer, op = .confirmTraining picks ∧ s.offer = some offer ∧
      picks.length = min (s.config.picks s.turn) offer.length ∧ picks.Nodup ∧
      ∀ i ∈ picks, i < offer.length := by
  have hmoved : x.2.phase ≠ s.phase := by simp [hbefore, hafter]
  cases h with
  | confirmTraining hphase hoffer hcount hnodup hchosen ht =>
      exact ⟨_, _, rfl, hoffer, hcount, hnodup, lt_of_cardsAt? hchosen⟩
  | restart => exact nomatch hafter
  | startGame hphase ht => exact nomatch hphase.symm.trans hbefore
  | advance ht => exact absurd ht (hs.not_transition hbefore)
  | confirmActions hphase hplan ht => exact nomatch hphase.symm.trans hbefore
  | confirmMeeting hphase hplan hquota hnodup hdoomed ht =>
      exact nomatch hphase.symm.trans hbefore
  | _ => exact absurd rfl hmoved

/-- A choice from the offer is never refused for want of one. -/
theorem Orderly.offer_found {s : Session} (h : s.Orderly) (op : Operation) :
    (s.step op).1 ≠ .refused .noPendingOffer := by
  intro hrefused
  cases (step_eq_refused_iff h.sound).mp hrefused with
  | noOffer hphase hnone => exact h.offer_ne_none hphase hnone
  | picks hphase hoffer hcount hselection =>
      obtain ⟨i, _, hr | hr⟩ := checkSelection_error hselection <;> exact nomatch hr
  | places hphase hplan hquota hselection =>
      obtain ⟨i, _, hr | hr⟩ := checkSelection_error hselection <;> exact nomatch hr

/-- No game skips a draft, and no placed card is carried out of the action phase. In every session
    that comes from a new one an offer is pending exactly in training, the start comes on the first
    turn, the end is reached when all turns are played, and a card is in a slot only in the
    action phase. So no choice is refused for want of an offer, and the only way from training to
    the action phase is a choice of as many different cards of the offer as are to be picked. -/
theorem genuine_drafts_every_turn {s : Session} (h : s.Genuine) :
    (s.phase = .training ↔ s.offer.isSome) ∧ (s.phase = .start → s.turn = 0) ∧
      (s.phase = .finished ↔ s.turn.toNat = turnCount) ∧
      (∀ role, (s.player.placed.get role).isSome → s.phase = .action) ∧
      (∀ op, (s.step op).1 ≠ .refused .noPendingOffer) ∧
      ∀ op, s.phase = .training → (s.step op).2.phase = .action →
        ∃ picks offer, op = .confirmTraining picks ∧ s.offer = some offer ∧
          picks.length = min (s.config.picks s.turn) offer.length ∧ picks.Nodup ∧
          ∀ i ∈ picks, i < offer.length := by
  have hs := h.orderly
  have hfinished : s.turn.toNat = turnCount → s.phase = .finished := by
    intro hturn
    obtain hlt | ⟨_, hphase⟩ := hs.sound.turn
    · omega
    · exact hphase
  have hslots : ∀ role, (s.player.placed.get role).isSome → s.phase = .action := by
    intro role hsome
    refine Decidable.byContradiction fun hphase => ?_
    rw [hs.slots hphase] at hsome
    cases role <;> exact nomatch hsome
  exact ⟨⟨hs.draft, hs.sound.offer⟩, hs.opening, ⟨hs.ending, hfinished⟩, hslots, hs.offer_found,
    fun op => (carried_step hs.sound op).chosen hs⟩

/-- The opening draft of a game with two cards, of which one is on offer. -/
def openingDraft : Session := ((new .common twoCards .standard).run [.startGame]).2

/-- The draft ends when that card is picked, and in no other way. -/
theorem openingDraft_is_confirmed :
    openingDraft.Genuine ∧ openingDraft.phase = .training ∧ openingDraft.offer.isSome ∧
      (openingDraft.step (.confirmTraining [0])).2.phase = .action ∧
      ∀ op, (openingDraft.step op).2.phase = .action →
        ∃ picks offer, op = .confirmTraining picks ∧ openingDraft.offer = some offer ∧
          picks.length = min 2 offer.length ∧ picks.Nodup ∧ ∀ i ∈ picks, i < offer.length := by
  have hgenuine : openingDraft.Genuine :=
    (Genuine.new .common twoCards .standard).run [.startGame]
  have hphase : openingDraft.phase = .training := rfl
  obtain ⟨hoffer, _, _, _, _, hchoices⟩ := genuine_drafts_every_turn hgenuine
  exact ⟨hgenuine, hphase, hoffer.mp hphase, rfl, fun op => hchoices op hphase⟩

end CramSchool.Session
