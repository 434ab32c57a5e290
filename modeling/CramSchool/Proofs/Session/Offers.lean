/-
  No card of the catalog is offered twice in one game.

  A new game fills the pool of each rarity with the cards of the catalog of that rarity. From then
  on cards only leave the pools: with an offer, or by a direct draw. `drawnFrom` says which cards
  a step draws from a pool, judged by its reply and by the offer that is new after it, and
  `history` collects them since the last restart.

  Without forced names a pool and its history are together the cards of the catalog of that rarity,
  at every point of every run from a new session. An offer has the size that the settings give for
  the turn, or is all that is left in the pool, and its cards have the rarity that the
  calendar gives for the turn (`offers_conserved`).
-/
import CramSchool.Proofs.Session.Game

namespace CramSchool

namespace Session

/-! ## What a step draws -/

/-- The offer that is pending in `t` and was not in `s`. -/
def newOffer (s t : Session) : Option (List Card) := if s.offer.isSome then none else t.offer

/-- The cards of a new offer that come from the pool of a rarity. An offer comes from the pool that
    the calendar gives for the turn. -/
def offeredFrom (s t : Session) (rarity : Rarity) : List Card :=
  match newOffer s t, t.plan? with
  | some cards, some plan => if plan.trainingRarity = rarity then cards else []
  | _, _ => []

/-- The cards that a step draws from the pool of a rarity: those shown in reply to a direct draw,
    or those of a new offer. -/
def drawnFrom (s : Session) (op : Operation) (x : Reply × Session) (rarity : Rarity) :
    List Card :=
  match op, x.1 with
  | .drawTraining asked _, .cards cards => if asked = rarity then cards else []
  | _, _ => s.offeredFrom x.2 rarity

/-- The cards drawn from each pool since the last restart, once an operation is carried out; before
    it they are `earlier`. -/
def recorded (s : Session) (earlier : Rarity → List Card) (op : Operation) :
    Rarity → List Card :=
  if op = .restart then fun _ => []
  else fun rarity => earlier rarity ++ s.drawnFrom op (s.step op) rarity

/-- The cards drawn from each pool since the last restart, once operations are carried out. -/
def history (s : Session) (earlier : Rarity → List Card) : List Operation → Rarity → List Card
  | [] => earlier
  | op :: rest => (s.step op).2.history (s.recorded earlier op) rest

/-! ## How a step uses the pools -/

/-- The offer of the turn of `t` is drawn from the pools of `s`. -/
structure Drafts (s t : Session) (plan : TurnPlan) (cards : List Card) : Prop where
  before : s.phase ≠ .training
  after : t.phase = .training
  calendar : t.plan? = some plan
  offer : t.offer = some cards
  served : (cards, t.pools) =
    s.pools.serve s.catalog plan.trainingRarity (s.config.offerSize t.turn) s.config.forced.training

theorem MeetingOver.drafts {s t : Session} (h : MeetingOver s t) (hphase : s.phase ≠ .training) :
    (t.pools = s.pools ∧ t.offer = s.offer ∧ t.phase ≠ .training) ∨
      ∃ plan cards, Drafts s t plan cards := by
  cases h with
  | last hlast => exact .inl ⟨rfl, rfl, Phase.noConfusion⟩
  | @next plan hnext hplan hroom =>
      have hcalendar : (s.nextTurn.offered plan).plan? = some plan :=
        plan?_eq (s := s.nextTurn) hplan
      exact .inr ⟨plan, _, hphase, rfl, hcalendar, rfl, rfl⟩

/-- A move to the next phase draws the offer of the turn or leaves the pools alone. -/
theorem Transition.drafts {s t : Session} (h : Transition s t) :
    (t.pools = s.pools ∧ t.offer = s.offer ∧ t.phase ≠ .training) ∨
      ∃ plan cards, Drafts s t plan cards := by
  cases h with
  | @begin plan hphase hplan hroom =>
      have hcalendar : (s.offered plan).plan? = some plan := plan?_eq hplan
      exact .inr ⟨plan, _, by simp [hphase], rfl, hcalendar, rfl, rfl⟩
  | play hphase hoffer hroom => exact .inl ⟨rfl, rfl, Phase.noConfusion⟩
  | meet hphase hplan hquota => exact .inl ⟨rfl, rfl, Phase.noConfusion⟩
  | skip hphase hplan hquota hover =>
      -- Through the meeting, which leaves pools and offer alone.
      obtain hover | ⟨plan, cards, hdrafts⟩ := hover.drafts Phase.noConfusion
      · exact .inl hover
      · exact .inr ⟨plan, cards, by simp [hphase], hdrafts.after, hdrafts.calendar, hdrafts.offer,
          hdrafts.served⟩
  | dismiss hphase hover => exact hover.drafts (by simp [hphase])

/-- Whether `cards` are the reply to a direct draw. -/
def DrawnDirectly (op : Operation) (reply : Reply) (cards : List Card) : Prop :=
  (∃ rarity count, op = .drawTraining rarity count) ∧ reply = .cards cards

/-- How an operation uses the pools, if it does not start a new game. -/
inductive PoolUse (s : Session) : Operation → Reply × Session → Prop
  | nothing {op : Operation} {x : Reply × Session} (hdirect : ∀ cards, ¬DrawnDirectly op x.1 cards)
      (hpools : x.2.pools = s.pools) (hoffer : newOffer s x.2 = none)
      (hphase : x.2.phase = .training → s.phase = .training) : PoolUse s op x
  | offer {op : Operation} {x : Reply × Session} {plan : TurnPlan} {cards : List Card}
      (hdirect : ∀ cards, ¬DrawnDirectly op x.1 cards) (hnone : s.offer = none)
      (h : Drafts s x.2 plan cards) : PoolUse s op x
  | direct (rarity : Rarity) (count : Nat) :
      PoolUse s (.drawTraining rarity count)
        (.cards (s.served rarity count).1, (s.served rarity count).2)

theorem newOffer_of_none {s t : Session} (h : t.offer = none) : newOffer s t = none := by
  unfold newOffer
  rw [h]
  exact ite_self none

theorem newOffer_eq_none {s t : Session} (h : t.offer = s.offer) : newOffer s t = none := by
  unfold newOffer
  rw [h]
  cases s.offer <;> rfl

/-- An operation that neither moves on nor draws from the pools. -/
theorem PoolUse.of_same {s : Session} {op : Operation} {x : Reply × Session}
    (hdirect : ∀ cards, ¬DrawnDirectly op x.1 cards) (hpools : x.2.pools = s.pools)
    (hoffer : x.2.offer = s.offer) (hphase : x.2.phase = s.phase) : PoolUse s op x :=
  .nothing hdirect hpools (newOffer_eq_none hoffer) fun h => hphase ▸ h

/-- An operation that moves on from `u`, where the choices of the phase are made. -/
theorem PoolUse.of_transition {s u t : Session} {op : Operation} {reply : Reply} (hs : s.Sound)
    (h : Transition u t) (hdirect : ∀ cards, ¬DrawnDirectly op reply cards)
    (hpools : u.pools = s.pools) (hoffer : u.offer = s.offer) (hphase : u.phase = s.phase)
    (hcatalog : u.catalog = s.catalog) (hconfig : u.config = s.config) :
    PoolUse s op (reply, t) := by
  obtain ⟨htpools, htoffer, htphase⟩ | ⟨plan, cards, hdrafts⟩ := h.drafts
  · exact .nothing hdirect (htpools.trans hpools) (newOffer_eq_none (htoffer.trans hoffer))
      fun he => absurd he htphase
  · have hbefore : s.phase ≠ .training := hphase ▸ hdrafts.before
    have hserved := hdrafts.served
    rw [hpools, hcatalog, hconfig] at hserved
    exact .offer hdirect (hs.offer_eq_none hbefore)
      ⟨hbefore, hdrafts.after, hdrafts.calendar, hdrafts.offer, hserved⟩

theorem Carried.poolUse {s : Session} {op : Operation} {x : Reply × Session} (h : Carried s op x)
    (hs : s.Sound) (hop : op ≠ .restart) : PoolUse s op x := by
  cases h with
  | refused hr => exact .of_same (by simp [DrawnDirectly]) rfl rfl rfl
  | stopped hshort => exact .of_same (by simp [DrawnDirectly]) rfl rfl rfl
  | restart => exact absurd rfl hop
  | startGame hphase ht => exact .of_transition hs ht (by simp [DrawnDirectly]) rfl rfl rfl rfl rfl
  | advance ht => exact .of_transition hs ht (by simp [DrawnDirectly]) rfl rfl rfl rfl rfl
  | @confirmTraining picks offer chosen t hphase hoffer hcount hnodup hchosen ht =>
      obtain ⟨hpools, hgone, htphase⟩ | ⟨plan, cards, hdrafts⟩ := ht.drafts
      · refine .nothing (by simp [DrawnDirectly]) hpools ?_ fun he => absurd he htphase
        unfold newOffer
        rw [hoffer]
        rfl
      · exact absurd hphase hdrafts.before
  | placeCard => exact .of_same (by simp [DrawnDirectly]) rfl rfl rfl
  | unplace => exact .of_same (by simp [DrawnDirectly]) rfl rfl rfl
  | unplaceEmpty => exact .of_same (by simp [DrawnDirectly]) rfl rfl rfl
  | clearPlaced => exact .of_same (by simp [DrawnDirectly]) rfl rfl rfl
  | previewHand => exact .of_same (by simp [DrawnDirectly]) rfl rfl rfl
  | resolvePlaced => exact .of_same (by simp [DrawnDirectly]) rfl rfl rfl
  | @confirmActions plan t hphase hplan ht =>
      exact .of_transition (u := s.resolved plan) hs ht (by simp [DrawnDirectly]) rfl rfl rfl rfl
        rfl
  | @confirmMeeting places plan doomed t hphase hplan hquota hnodup hdoomed ht =>
      exact .of_transition (u := s.deleting places) hs ht (by simp [DrawnDirectly]) rfl rfl rfl rfl
        rfl
  | @drawTraining rarity count hroom => exact .direct rarity count
  | drawHand => exact .of_same (by simp [DrawnDirectly]) rfl rfl rfl
  | deckByAcquisition => exact .of_same (by simp [DrawnDirectly]) rfl rfl rfl
  | plan => exact .of_same (by simp [DrawnDirectly]) rfl rfl rfl

/-! ## Steps -/

theorem drawnFrom_of_not_direct {s : Session} {op : Operation} {x : Reply × Session}
    (h : ∀ cards, ¬DrawnDirectly op x.1 cards) (rarity : Rarity) :
    s.drawnFrom op x rarity = s.offeredFrom x.2 rarity := by
  unfold drawnFrom
  split
  · next asked count cards hreply => exact absurd ⟨⟨asked, count, rfl⟩, hreply⟩ (h cards)
  · rfl

theorem Drafts.newOffer_eq {s t : Session} {plan : TurnPlan} {cards : List Card}
    (h : Drafts s t plan cards) (hnone : s.offer = none) : newOffer s t = some cards := by
  unfold newOffer
  rw [hnone, h.offer]
  rfl

/-- Without forced names the cards that a step draws from a pool, and those left there, are the
    cards that were there. -/
theorem PoolUse.perm {s : Session} {op : Operation} {x : Reply × Session} (h : PoolUse s op x)
    (hforced : s.config.forced.training = []) (rarity : Rarity) :
    (s.drawnFrom op x rarity ++ x.2.pools.get rarity).Perm (s.pools.get rarity) := by
  cases h with
  | nothing hdirect hpools hoffer hphase =>
      rw [drawnFrom_of_not_direct hdirect, hpools]
      unfold offeredFrom
      rw [hoffer]
      exact .refl _
  | @offer _ _ plan cards hdirect hnone hdrafts =>
      have hperm := s.pools.perm_serve_nil s.catalog plan.trainingRarity
        (s.config.offerSize x.2.turn) rarity
      have hserved := hdrafts.served
      rw [hforced] at hserved
      rw [← hserved] at hperm
      rw [drawnFrom_of_not_direct hdirect]
      unfold offeredFrom
      rw [hdrafts.newOffer_eq hnone, hdrafts.calendar]
      exact hperm
  | direct asked count =>
      have hperm := s.pools.perm_serve_nil s.catalog asked count rarity
      rw [← hforced] at hperm
      exact hperm

/-- Every offer is a draw for the turn it is made on, and every entry into training makes one. -/
theorem PoolUse.drafts {s : Session} {op : Operation} {x : Reply × Session} (h : PoolUse s op x) :
    (x.2.phase = .training → s.phase ≠ .training → (newOffer s x.2).isSome) ∧
      ∀ cards, newOffer s x.2 = some cards → ∃ plan, Drafts s x.2 plan cards := by
  cases h with
  | nothing hdirect hpools hoffer hphase =>
      rw [hoffer]
      exact ⟨fun hafter hbefore => absurd (hphase hafter) hbefore, fun _ h => nomatch h⟩
  | @offer _ _ plan drawn hdirect hnone hdrafts =>
      rw [hdrafts.newOffer_eq hnone]
      exact ⟨fun _ _ => rfl, fun cards h => ⟨plan, Option.some.inj h ▸ hdrafts⟩⟩
  | direct asked count =>
      have hoffer : newOffer s (s.served asked count).2 = none := newOffer_eq_none rfl
      rw [hoffer]
      exact ⟨fun hafter hbefore => absurd hafter hbefore, fun _ h => nomatch h⟩

/-- A restart fills each pool with the cards of its rarity. -/
theorem perm_pools_restart (s : Session) (rarity : Rarity) :
    (s.restart.pools.get rarity).Perm (s.catalog.byRarity rarity) := by
  rw [← Pools.get_ofCatalog]
  exact (Pools.perm_get_shuffle _ _ _ _).trans
    ((Pools.perm_get_shuffle _ _ _ _).trans (Pools.perm_get_shuffle _ _ _ _))

/-! ## Runs -/

/-- A game in which the cards `drawn` left the pools. -/
structure InPlay (machine : Machine) (catalog : Catalog) (config : Config) (s : Session)
    (drawn : Rarity → List Card) : Prop extends Game machine catalog config s where
  perm : ∀ rarity, (drawn rarity ++ s.pools.get rarity).Perm (catalog.byRarity rarity)

variable {machine : Machine} {catalog : Catalog} {config : Config}

theorem inPlay_new (machine : Machine) (catalog : Catalog) (config : Config) :
    InPlay machine catalog config (new machine catalog config) fun _ => [] :=
  ⟨game_new machine catalog config, perm_pools_restart _⟩

theorem InPlay.step {s : Session} {drawn : Rarity → List Card}
    (h : InPlay machine catalog config s drawn) (hforced : config.forced.training = [])
    (op : Operation) : InPlay machine catalog config (s.step op).2 (s.recorded drawn op) := by
  have hcarried := carried_step h.sound op
  refine ⟨h.toGame.step op, fun rarity => ?_⟩
  unfold recorded
  by_cases hop : op = .restart
  · rw [if_pos hop, hop]
    have hperm := perm_pools_restart s rarity
    rw [h.catalog_eq] at hperm
    exact hperm
  · rw [if_neg hop, List.append_assoc]
    have hperm := (hcarried.poolUse h.sound hop).perm (h.config_eq ▸ hforced) rarity
    exact (hperm.append_left _).trans (h.perm rarity)

theorem InPlay.run {s : Session} {drawn : Rarity → List Card}
    (h : InPlay machine catalog config s drawn) (hforced : config.forced.training = [])
    (ops : List Operation) :
    InPlay machine catalog config (s.run ops).2 (s.history drawn ops) := by
  induction ops generalizing s drawn with
  | nil => exact h
  | cons op ops ih => exact ih (h.step hforced op)

/-- A new offer is the full draw from the pool of the turn, and has the rarity of that pool. -/
theorem InPlay.offer {s t : Session} {drawn : Rarity → List Card} {plan : TurnPlan}
    {cards : List Card} (h : InPlay machine catalog config s drawn)
    (hforced : config.forced.training = []) (hdrafts : Drafts s t plan cards) :
    cards.length = min (config.offerSize t.turn) (s.pools.get plan.trainingRarity).length ∧
      ∀ card ∈ cards, card.rarity = plan.trainingRarity := by
  have hserved : cards = (Pile.serve s.catalog (config.offerSize t.turn) []
      (s.pools.get plan.trainingRarity)).1 := by
    rw [← hforced, ← h.config_eq]
    exact congrArg Prod.fst hdrafts.served
  refine ⟨hserved ▸ Pile.length_serve_nil s.catalog _ _, fun card hcard => ?_⟩
  -- A card that was drawn was in the pool, and a card of the pool is one of its rarity.
  have hpool : card ∈ s.pools.get plan.trainingRarity := by
    refine (Pile.perm_serve_nil s.catalog (config.offerSize t.turn) _).subset ?_
    exact List.mem_append_left _ (hserved ▸ hcard)
  have hcatalog := (h.perm plan.trainingRarity).subset (List.mem_append_right _ hpool)
  exact beq_iff_eq.mp (List.mem_filter.mp hcatalog).2

/-- No card of the catalog is offered twice. At every point of every run from a new session whose
    settings force no offers, what was drawn from a pool since the last restart and what is left
    in it are the cards of the catalog of its rarity. The next step makes an offer if it enters
    training. The offer has the size set for its turn, or is all of the pool, and its cards have
    the rarity that the calendar gives. -/
theorem offers_conserved (machine : Machine) (catalog : Catalog) {config : Config}
    (hforced : config.forced.training = []) (ops : List Operation) :
    let start := new machine catalog config
    let s := (start.run ops).2
    (∀ rarity, (start.history (fun _ => []) ops rarity ++ s.pools.get rarity).Perm
      (catalog.byRarity rarity)) ∧
    ∀ op, let t := (s.step op).2
      (t.phase = .training → s.phase ≠ .training → (newOffer s t).isSome) ∧
      ∀ cards, newOffer s t = some cards →
        ∃ plan, t.plan? = some plan ∧ t.phase = .training ∧
          cards.length = min (config.offerSize t.turn) (s.pools.get plan.trainingRarity).length ∧
          ∀ card ∈ cards, card.rarity = plan.trainingRarity := by
  intro start s
  have hplay : InPlay machine catalog config s _ :=
    (inPlay_new machine catalog config).run hforced ops
  refine ⟨hplay.perm, fun op => ?_⟩
  intro t
  by_cases hop : op = .restart
  · have hnone : newOffer s t = none := newOffer_of_none (by simp only [t, hop]; rfl)
    have hphase : t.phase = .start := by simp only [t, hop]; rfl
    rw [hnone, hphase]
    exact ⟨Phase.noConfusion, fun _ h => nomatch h⟩
  · obtain ⟨hentry, hoffers⟩ := ((carried_step hplay.sound op).poolUse hplay.sound hop).drafts
    refine ⟨hentry, fun cards hcards => ?_⟩
    obtain ⟨plan, hdrafts⟩ := hoffers cards hcards
    exact ⟨plan, hdrafts.calendar, hdrafts.after, hplay.offer hforced hdrafts⟩

/-- Two cards of different rarity. -/
def twoCards : Catalog := Catalog.ofCards
  [⟨.outreach, .r, "体験会", "", "体験生徒数+2。", none⟩, ⟨.academics, .sr, "合宿", "", "満足度+1。", none⟩]

/-- The opening draft offers the only card of the pool, and then the pool is empty. -/
theorem twoCards_offers_conserved :
    Config.standard.forced.training = [] ∧
      let start := new .common twoCards .standard
      (∃ cards, newOffer start (start.step .startGame).2 = some cards ∧ cards.length = 1 ∧
        ∀ card ∈ cards, card.rarity = .r) ∧
      (start.run [.startGame]).2.pools.get .r = [] ∧
      (start.history (fun _ => []) [.startGame] .r).Perm (twoCards.byRarity .r) := by
  have hforced : Config.standard.forced.training = [] := rfl
  have hempty : ((new .common twoCards .standard).run [.startGame]).2.pools.get .r = [] := rfl
  obtain ⟨_, hopening⟩ := offers_conserved .common twoCards hforced []
  obtain ⟨hentry, hoffers⟩ := hopening .startGame
  obtain ⟨cards, hcards⟩ := Option.isSome_iff_exists.mp (hentry rfl Phase.noConfusion)
  obtain ⟨plan, hplan, _, hlength, hrarity⟩ := hoffers cards hcards
  obtain rfl : TurnPlan.mk "1月下旬" .r .outreach .experience 2 = plan := Option.some.inj hplan
  obtain ⟨hkept, _⟩ := offers_conserved .common twoCards hforced [.startGame]
  have hdrawn := hkept .r
  rw [hempty, List.append_nil] at hdrawn
  exact ⟨hforced, ⟨cards, hcards, hlength, hrarity⟩, hempty, hdrawn⟩

end Session

end CramSchool
