/-
  What one operation does to a session.

  `Carried s op x` lists the ways in which an operation can be carried out, one constructor for
  each: what must hold of the session and of the choice, the reply, and the session after it. A
  refused operation leaves the session as it is, and the reason is never the turn. The program
  stops only for want of room for the cards that the operation asks for (`asked`). Moves from
  one phase to the next are the transitions of `Proofs/Session/Transition`, taken once the
  choices of the phase have been made.

  On a sound session every operation is carried out in one of these ways (`carried_step`), so what
  a step keeps is proved by cases on them, without looking at the operations themselves. The
  first use is soundness: it is kept (`settles_step`, `Reachable.sound`), and a refusal never
  comes after a change (`refused_step_changes_nothing`).
-/
import CramSchool.Proofs.Session.Sound

namespace CramSchool.Session

/-! ## Sessions whose choices are made -/

/-- The chosen cards are in the deck, and the offer is gone. -/
def taking (s : Session) (chosen : List Card) : Session :=
  { s with
    offer := none
    player := chosen.foldl (fun p card => p.addToDeck card s.turn) s.player }

/-- The cards at some places of the deck are deleted. -/
def deleting (s : Session) (places : List Nat) : Session :=
  { s with player := { s.player with deck := eraseAll s.player.deck places } }

/-- The placed cards have resolved. They are still in their slots. -/
def resolved (s : Session) (plan : TurnPlan) : Session :=
  let (_, stats, memo) := resolveCards plan s.player.placed.occupied s.player.stats s.memo
  { s with player := { s.player with stats }, memo }

/-- What became of the placed cards. -/
def resolutions (s : Session) (plan : TurnPlan) : List Resolution :=
  (resolveCards plan s.player.placed.occupied s.player.stats s.memo).1

/-- A card of the hand is in a slot. -/
def placing (s : Session) (i : Nat) (role : Role) (card : Card) : Session :=
  { s with
    player :=
      { s.player with
        hand := s.player.hand.eraseIdx i
        placed := s.player.placed.set role (some card) } }

/-- The card of a slot is in the hand. -/
def unplacing (s : Session) (role : Role) (card : Card) : Session :=
  { s with
    player :=
      { s.player with
        hand := s.player.hand ++ [card]
        placed := s.player.placed.set role none } }

/-- All placed cards are in the hand. -/
def clearing (s : Session) : Session :=
  { s with
    player :=
      { s.player with
        hand := s.player.hand ++ s.player.placed.present
        placed := .replicate none } }

/-! ## The ways in which operations are carried out -/

/-- Number of cards that are to be drawn in the course of an operation. -/
def asked (s : Session) : Operation → Nat
  | .startGame | .advance | .confirmTraining _ | .confirmActions | .confirmMeeting _ => s.demand
  | .drawTraining _ count | .drawHand count => count
  | _ => 0

/-- An operation of the session `s`, its reply and the session after it. -/
inductive Carried (s : Session) : Operation → Reply × Session → Prop
  | stopped {op : Operation} {shortage : Shortage}
      (h : s.machine.cardShortage? (s.asked op) = some shortage) :
      Carried s op (.stopped (.noRoom shortage), s)
  | refused {op : Operation} {r : Refusal} (h : ∀ turn, r ≠ .turnOutOfRange turn) :
      Carried s op (.refused r, s)
  | restart : Carried s .restart (.player s.restart.player, s.restart)
  | startGame {t : Session} (hphase : s.phase = .start) (h : Transition s t) :
      Carried s .startGame (.cards (t.offer.getD []), t)
  | advance {t : Session} (h : Transition s t) : Carried s .advance (.phase t.phase, t)
  | confirmTraining {picks : List Nat} {offer chosen : List Card} {t : Session}
      (hphase : s.phase = .training) (hoffer : s.offer = some offer)
      (hcount : picks.length = min (s.config.picks s.turn) offer.length) (hnodup : picks.Nodup)
      (hchosen : cardsAt? offer picks = some chosen) (h : Transition (s.taking chosen) t) :
      Carried s (.confirmTraining picks) (.phase t.phase, t)
  | placeCard {i : Nat} {role : Role} {card : Card} (hphase : s.phase = .action)
      (hempty : s.player.placed.get role = none) (hcard : s.player.hand[i]? = some card) :
      Carried s (.placeCard i role)
        (.preview (card.preview role s.player.stats), s.placing i role card)
  | unplace {role : Role} {card : Card} (hphase : s.phase = .action)
      (hcard : s.player.placed.get role = some card) :
      Carried s (.unplace role) (.moved true, s.unplacing role card)
  | unplaceEmpty {role : Role} (hphase : s.phase = .action)
      (hempty : s.player.placed.get role = none) : Carried s (.unplace role) (.moved false, s)
  | clearPlaced (hphase : s.phase = .action) :
      Carried s .clearPlaced (.count s.player.placed.present.length, s.clearing)
  | previewHand (i : Nat) (role : Role) :
      Carried s (.previewHand i role) (.advice (s.previewHand i role), s)
  | resolvePlaced {plan : TurnPlan} (hphase : s.phase = .action) (hplan : s.plan = .ok plan) :
      Carried s .resolvePlaced (.resolutions (s.resolutions plan), s.resolved plan)
  | confirmActions {plan : TurnPlan} {t : Session} (hphase : s.phase = .action)
      (hplan : s.plan = .ok plan) (h : Transition (s.resolved plan) t) :
      Carried s .confirmActions (.resolutions (s.resolutions plan), t)
  | confirmMeeting {places : List Nat} {plan : TurnPlan} {doomed : List Card} {t : Session}
      (hphase : s.phase = .meeting) (hplan : s.plan = .ok plan)
      (hquota : places.length ≤ plan.deleteQuota) (hnodup : places.Nodup)
      (hdoomed : cardsAt? s.player.deck places = some doomed)
      (h : Transition (s.deleting places) t) :
      Carried s (.confirmMeeting places) (.phase t.phase, t)
  | drawTraining (rarity : Rarity) {count : Nat} (hroom : s.machine.HasRoom count) :
      Carried s (.drawTraining rarity count)
        (.cards (s.served rarity count).1, (s.served rarity count).2)
  | drawHand {count : Nat} (hroom : s.machine.HasRoom count) :
      Carried s (.drawHand count) (.count (s.dealt count).1, (s.dealt count).2)
  | deckByAcquisition : Carried s .deckByAcquisition (.places s.player.deckByAcquisition, s)
  | plan : Carried s .plan (.plan s.plan?, s)

/-! ## Every operation is carried out -/

/-- In the action phase placed cards resolve. -/
theorem resolvePlaced_eq {s : Session} {plan : TurnPlan} (hphase : s.phase = .action)
    (hplan : s.plan = .ok plan) :
    s.resolvePlaced = (.ok (s.resolutions plan), s.resolved plan) := by
  unfold resolvePlaced
  rw [requirePhase_of_eq hphase, hplan]
  rfl

theorem resolvePlaced_of_ne {s : Session} (hphase : s.phase ≠ .action) :
    s.resolvePlaced = (.error (.wrongPhase .action s.phase), s) := by
  unfold resolvePlaced
  rw [requirePhase_of_ne hphase]

/-- An operation with such a move gives the answer if there is room for the cards to be drawn, and
    stops if there is none. -/
theorem Leads.settle_cases {α : Type} {u : Session} {answer : Session → α}
    {move : Except Stop (Moved α)} (h : Leads u answer move) (s : Session) (reply : α → Reply) :
    (∃ t, Transition u t ∧ u.machine.HasRoom u.demand ∧
      (s.settle do return (← move).reply reply) = (reply (answer t), t)) ∨
    ∃ shortage, u.machine.cardShortage? u.demand = some shortage ∧
      (s.settle do return (← move).reply reply) = (.stopped (.noRoom shortage), s) := by
  obtain ⟨t, ht, rfl⟩ | ⟨shortage, hshort, rfl⟩ := h
  · exact .inl ⟨t, ht, ht.hasRoom, rfl⟩
  · exact .inr ⟨shortage, hshort, rfl⟩

/-- An operation that moves on from `u`, where the choices of the phase are made. -/
theorem Carried.of_leads {α : Type} {s u : Session} {op : Operation} {answer : Session → α}
    {move : Except Stop (Moved α)} {reply : α → Reply} (h : Leads u answer move)
    (hmachine : u.machine = s.machine) (hdemand : u.demand = s.asked op)
    (hmoved : ∀ t, Transition u t → Carried s op (reply (answer t), t)) :
    Carried s op (s.settle do return (← move).reply reply) := by
  obtain ⟨t, ht, _, heq⟩ | ⟨shortage, hshort, heq⟩ := h.settle_cases s reply
  · rw [heq]
    exact hmoved t ht
  · rw [heq]
    exact .stopped (hmachine ▸ hdemand ▸ hshort)

theorem carried_advance {s : Session} (h : s.Sound) : Carried s .advance (s.step .advance) := by
  rw [step]
  obtain hleads | ⟨_, _, _, heq⟩ | ⟨_, heq⟩ := advance_cases h.turn
  · exact .of_leads hleads rfl rfl fun t ht => .advance ht
  · rw [heq]
    exact .refused (by simp)
  · rw [heq]
    exact .refused (by simp)

/-- In the start phase the game begins. -/
theorem leads_startGame {s : Session} (h : s.Sound) (hphase : s.phase = .start) :
    Leads s (fun t => t.offer.getD []) s.startGame := by
  have hadvance := leads_advance (h.turn_lt (by simp [hphase])) (by simp [hphase])
    fun _ => h.offer_eq_none (by simp [hphase])
  unfold startGame
  rw [requirePhase_of_eq hphase]
  exact hadvance.bind fun _ => rfl

/-- A choice from the offer that passes the checks is taken. -/
theorem leads_confirmTraining {s : Session} (h : s.Sound) {picks : List Nat} {offer : List Card}
    (hcheck : s.checkTraining picks = .ok offer) :
    ∃ chosen, cardsAt? offer picks = some chosen ∧
      Leads (s.taking chosen) Session.phase (s.confirmTraining picks) := by
  obtain ⟨hphase, _, _, hselection⟩ := checkTraining_eq_ok_iff.mp hcheck
  have hchosen := cardsAt?_eq (checkSelection_nil_eq_ok_iff.mp hselection).1
  refine ⟨_, hchosen, ?_⟩
  unfold confirmTraining
  rw [hcheck]
  dsimp only
  rw [hchosen]
  -- The offer is gone before the move, so the move cannot be refused for it.
  exact leads_advance (s := s.taking _) (h.turn_lt (by simp [hphase])) (by simp [taking, hphase])
    fun _ => rfl

/-- In the action phase placed cards resolve and all cards return. -/
theorem leads_confirmActions {s : Session} (h : s.Sound) {plan : TurnPlan}
    (hphase : s.phase = .action) (hplan : s.plan = .ok plan) :
    Leads (s.resolved plan) (fun _ => s.resolutions plan) s.confirmActions := by
  have hadvance := leads_advance (s := s.resolved plan) (h.turn_lt (by simp [hphase]))
    (by simp [resolved, hphase]) fun _ => h.offer_eq_none (by simp [hphase])
  unfold confirmActions
  rw [resolvePlaced_eq hphase hplan]
  exact hadvance.bind fun _ => rfl

/-- A choice of cards to delete that passes the checks is taken. -/
theorem leads_confirmMeeting {s : Session} (h : s.Sound) {places : List Nat}
    (hcheck : s.checkMeeting places = .ok ()) :
    Leads (s.deleting places) Session.phase (s.confirmMeeting places) := by
  obtain ⟨hphase, _⟩ := checkMeeting_eq_ok_iff.mp hcheck
  unfold confirmMeeting
  rw [hcheck]
  exact leads_advance (s := s.deleting places) (h.turn_lt (by simp [hphase]))
    (by simp [deleting, hphase]) fun _ => h.offer_eq_none (by simp [hphase])

theorem carried_startGame {s : Session} (h : s.Sound) :
    Carried s .startGame (s.step .startGame) := by
  rw [step]
  by_cases hphase : s.phase = .start
  · exact .of_leads (leads_startGame h hphase) rfl rfl fun t ht => .startGame hphase ht
  · unfold startGame
    rw [requirePhase_of_ne hphase]
    exact .refused (by simp)

theorem carried_confirmTraining {s : Session} (h : s.Sound) (picks : List Nat) :
    Carried s (.confirmTraining picks) (s.step (.confirmTraining picks)) := by
  rw [step]
  cases hcheck : s.checkTraining picks with
  | error r =>
      unfold confirmTraining
      rw [hcheck]
      exact .refused (checkTraining_error hcheck)
  | ok offer =>
      obtain ⟨hphase, hoffer, hcount, hselection⟩ := checkTraining_eq_ok_iff.mp hcheck
      obtain ⟨_, hnodup⟩ := checkSelection_nil_eq_ok_iff.mp hselection
      obtain ⟨chosen, hchosen, hleads⟩ := leads_confirmTraining h hcheck
      exact .of_leads hleads rfl rfl fun t ht =>
        .confirmTraining hphase hoffer hcount hnodup hchosen ht

theorem carried_placeCard (s : Session) (i : Nat) (role : Role) :
    Carried s (.placeCard i role) ((s.placeCard i role).reply .preview) := by
  unfold placeCard
  by_cases hphase : s.phase = .action
  · rw [requirePhase_of_eq hphase]
    dsimp only
    split
    · exact .refused (by simp)
    · next hslot =>
        split
        · exact .refused (by simp)
        · next card player heq =>
            obtain ⟨hcard, rfl⟩ := Prod.mk.inj heq
            exact .placeCard hphase (Option.not_isSome_iff_eq_none.mp hslot) hcard
  · rw [requirePhase_of_ne hphase]
    exact .refused (by simp)

theorem carried_unplace (s : Session) (role : Role) :
    Carried s (.unplace role) ((s.unplace role).reply .moved) := by
  unfold unplace
  by_cases hphase : s.phase = .action
  · rw [requirePhase_of_eq hphase]
    dsimp only
    split
    · next heq => exact .unplaceEmpty hphase (Prod.mk.inj heq).1
    · next card player heq =>
        obtain ⟨hcard, rfl⟩ := Prod.mk.inj heq
        exact .unplace hphase hcard
  · rw [requirePhase_of_ne hphase]
    exact .refused (by simp)

theorem carried_clearPlaced (s : Session) :
    Carried s .clearPlaced (s.clearPlaced.reply .count) := by
  unfold clearPlaced
  by_cases hphase : s.phase = .action
  · rw [requirePhase_of_eq hphase]
    exact .clearPlaced hphase
  · rw [requirePhase_of_ne hphase]
    exact .refused (by simp)

theorem carried_resolvePlaced {s : Session} (h : s.Sound) :
    Carried s .resolvePlaced (s.resolvePlaced.reply .resolutions) := by
  by_cases hphase : s.phase = .action
  · obtain ⟨plan, hplan⟩ := exists_plan (h.turn_lt (by simp [hphase]))
    rw [resolvePlaced_eq hphase hplan]
    exact .resolvePlaced hphase hplan
  · rw [resolvePlaced_of_ne hphase]
    exact .refused (by simp)

theorem carried_confirmActions {s : Session} (h : s.Sound) :
    Carried s .confirmActions (s.step .confirmActions) := by
  rw [step]
  by_cases hphase : s.phase = .action
  · obtain ⟨plan, hplan⟩ := exists_plan (h.turn_lt (by simp [hphase]))
    exact .of_leads (leads_confirmActions h hphase hplan) rfl rfl fun t ht =>
      .confirmActions hphase hplan ht
  · unfold confirmActions
    rw [resolvePlaced_of_ne hphase]
    exact .refused (by simp)

theorem carried_confirmMeeting {s : Session} (h : s.Sound) (places : List Nat) :
    Carried s (.confirmMeeting places) (s.step (.confirmMeeting places)) := by
  rw [step]
  cases hcheck : s.checkMeeting places with
  | error r =>
      have hturn : s.phase = .meeting → s.turn.toNat < turnCount := fun hphase =>
        h.turn_lt (by simp [hphase])
      unfold confirmMeeting
      rw [hcheck]
      exact .refused (checkMeeting_error hturn hcheck)
  | ok =>
      obtain ⟨hphase, ⟨plan, hplan, hquota⟩, hselection⟩ := checkMeeting_eq_ok_iff.mp hcheck
      obtain ⟨hrange, hnodup⟩ := checkSelection_nil_eq_ok_iff.mp hselection
      have hdoomed := cardsAt?_eq hrange
      exact .of_leads (leads_confirmMeeting h hcheck) rfl rfl fun t ht =>
        .confirmMeeting hphase hplan hquota hnodup hdoomed ht

theorem carried_drawTraining (s : Session) (rarity : Rarity) (count : Nat) :
    Carried s (.drawTraining rarity count) (s.step (.drawTraining rarity count)) := by
  rw [step]
  cases hroom : s.machine.cardShortage? count with
  | none =>
      rw [drawTraining_of_hasRoom hroom]
      exact .drawTraining rarity hroom
  | some shortage =>
      rw [drawTraining_of_shortage hroom]
      exact .stopped hroom

theorem carried_drawHand (s : Session) (count : Nat) :
    Carried s (.drawHand count) (s.step (.drawHand count)) := by
  rw [step]
  cases hroom : s.machine.cardShortage? count with
  | none =>
      rw [drawHand_of_hasRoom hroom]
      exact .drawHand hroom
  | some shortage =>
      rw [drawHand_of_shortage hroom]
      exact .stopped hroom

/-- On a sound session there are no other ways. -/
theorem carried_step {s : Session} (h : s.Sound) (op : Operation) : Carried s op (s.step op) := by
  cases op with
  | restart => exact .restart
  | startGame => exact carried_startGame h
  | advance => exact carried_advance h
  | confirmTraining picks => exact carried_confirmTraining h picks
  | placeCard i role => exact carried_placeCard s i role
  | unplace role => exact carried_unplace s role
  | clearPlaced => exact carried_clearPlaced s
  | previewHand i role => exact .previewHand i role
  | resolvePlaced => exact carried_resolvePlaced h
  | confirmActions => exact carried_confirmActions h
  | confirmMeeting places => exact carried_confirmMeeting h places
  | drawTraining rarity count => exact carried_drawTraining s rarity count
  | drawHand count => exact carried_drawHand s count
  | deckByAcquisition => exact .deckByAcquisition
  | plan => exact .plan

/-- For want of room is the only reason why the program stops. -/
theorem Carried.shortage_of_stopped {s : Session} {op : Operation} {x : Reply × Session}
    {reason : Stop} (h : Carried s op x) (hx : x.1 = .stopped reason) :
    ∃ shortage, reason = .noRoom shortage ∧
      s.machine.cardShortage? (s.asked op) = some shortage := by
  cases h with
  | @stopped op shortage hshort => exact ⟨shortage, (Reply.stopped.inj hx).symm, hshort⟩
  | _ => cases hx

/-! ## Soundness is kept -/

theorem Sound.taking {s : Session} (h : s.Sound) (chosen : List Card) :
    (s.taking chosen).Sound where
  turn := h.turn
  stats := by
    show (chosen.foldl (fun p card => p.addToDeck card s.turn) s.player).stats.Valid
    rw [stats_foldl_addToDeck]
    exact h.stats
  offer := fun hsome => nomatch hsome

theorem Sound.resolved {s : Session} (h : s.Sound) (plan : TurnPlan) : (s.resolved plan).Sound :=
  ⟨h.turn, valid_resolveCards h.stats _ _ _, h.offer⟩

theorem Sound.deleting {s : Session} (h : s.Sound) (places : List Nat) :
    (s.deleting places).Sound := h.withCards rfl rfl rfl rfl

/-- What a reply says about the step: sound afterwards, and unchanged if refused. -/
structure SettledStep (s : Session) (x : Reply × Session) : Prop where
  sound : x.2.Sound
  unchanged : ∀ r, x.1 = .refused r → x.2 = s
  in_calendar : ∀ turn, x.1 ≠ .refused (.turnOutOfRange turn)

theorem SettledStep.of_answer {s t : Session} {reply : Reply} (h : t.Sound)
    (hreply : ∀ r, reply ≠ .refused r) : SettledStep s (reply, t) :=
  ⟨h, fun r hr => absurd hr (hreply r), fun _ => hreply _⟩

theorem Carried.settled {s : Session} {op : Operation} {x : Reply × Session} (h : Carried s op x)
    (hs : s.Sound) : SettledStep s x := by
  cases h with
  | refused hr => exact ⟨hs, fun _ _ => rfl, fun turn he => hr turn (Reply.refused.inj he)⟩
  | stopped => exact .of_answer hs (by simp)
  | restart => exact .of_answer (sound_restart s) (by simp)
  | startGame hphase ht => exact .of_answer (ht.sound hs) (by simp)
  | advance ht => exact .of_answer (ht.sound hs) (by simp)
  | confirmTraining hphase hoffer hcount hnodup hchosen ht =>
      exact .of_answer (ht.sound (hs.taking _)) (by simp)
  | confirmActions hphase hplan ht => exact .of_answer (ht.sound (hs.resolved _)) (by simp)
  | confirmMeeting hphase hplan hquota hnodup hdoomed ht =>
      exact .of_answer (ht.sound (hs.deleting _)) (by simp)
  | resolvePlaced hphase hplan => exact .of_answer (hs.resolved _) (by simp)
  | unplaceEmpty => exact .of_answer hs (by simp)
  | previewHand => exact .of_answer hs (by simp)
  | deckByAcquisition => exact .of_answer hs (by simp)
  | plan => exact .of_answer hs (by simp)
  | placeCard => exact .of_answer (hs.withCards rfl rfl rfl rfl) (by simp)
  | unplace => exact .of_answer (hs.withCards rfl rfl rfl rfl) (by simp)
  | clearPlaced => exact .of_answer (hs.withCards rfl rfl rfl rfl) (by simp)
  | drawTraining => exact .of_answer (hs.withCards rfl rfl rfl rfl) (by simp)
  | drawHand => exact .of_answer (hs.withCards rfl rfl rfl rfl) (by simp)

theorem settles_step {s : Session} (h : s.Sound) (op : Operation) : SettledStep s (s.step op) :=
  (carried_step h op).settled h

theorem Reachable.sound {s : Session} (h : Reachable s) : s.Sound :=
  h.invariant (fun _ => Initial.sound) fun _ op hs => (settles_step hs op).sound

/-- A refused operation changes nothing: neither what a snapshot holds nor the memory, the
    catalog or the settings. -/
theorem refused_step_changes_nothing {s : Session} (h : s.Reachable) {op : Operation} {r : Refusal}
    (hr : (s.step op).1 = .refused r) :
    (s.step op).2 = s ∧ (s.step op).2.snapshot = s.snapshot := by
  have hsame := (settles_step h.sound op).unchanged r hr
  exact ⟨hsame, congrArg snapshot hsame⟩

/-- A stored session with two cards on offer, of which one is to be picked. -/
def choosing : Session where
  machine := .common
  config := .standard
  catalog := .empty
  pools := .empty
  player := .fresh
  turn := 3
  phase := .training
  offer := some
    [⟨.reception, .r, "電話", "", "入塾数+1。", none⟩, ⟨.academics, .sr, "合宿", "", "満足度+1。", none⟩]
  rng := ⟨42, 17⟩
  memo := .empty

/-- Picking a card that is not on offer leaves the offer as it is. -/
theorem choosing_refusal_changes_nothing :
    choosing.Reachable ∧ (choosing.step (.confirmTraining [2])).1 = .refused (.selectionIndex 2 2) ∧
      (choosing.step (.confirmTraining [2])).2.snapshot = choosing.snapshot := by
  have hrestored : restore .common .empty .standard choosing.snapshot = .ok choosing := rfl
  have hreachable : choosing.Reachable := Initial.reachable (.restored hrestored)
  have hrefused : (choosing.step (.confirmTraining [2])).1 = .refused (.selectionIndex 2 2) := rfl
  exact ⟨hreachable, hrefused, (refused_step_changes_nothing hreachable hrefused).2⟩

end CramSchool.Session
