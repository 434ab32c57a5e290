/-
  Selections that are accepted, and the fault of those that are not.

  A selection is read from left to right, with the places read so far at hand. An entry is faulty
  if there is no such place or the place was named before (`Faulty`); the first faulty entry is
  the reason of the refusal (`checkSelection_eq_error_iff`). A selection without faulty entries
  names different places that all exist (`checkSelection_nil_eq_ok_iff`).

  Once a choice has passed its checks nothing can refuse it any more: not the look-up of the
  chosen cards, and not the move to the next phase. What is left is that the machine may not have
  room for the cards that the move draws, the hand after a draft and the next offer after a
  meeting. So a choice is accepted exactly if it is legal and there is room
  (`selections_accepted_iff_legal`). Without room a legal choice stops the program, however few
  cards there are to be drawn (`spacious_stops`).
-/
import CramSchool.Proofs.Session.Refused

namespace CramSchool

/-! ## The first fault of a selection -/

/-- What is wrong with the entry at place `k` of a selection from `size` cards. That it is out of
    range comes before that it was named earlier. -/
inductive Faulty (size : Nat) (places : List Nat) (k : Nat) : Refusal → Prop
  | range {i : Nat} (h : places[k]? = some i) (hrange : size ≤ i) :
      Faulty size places k (.selectionIndex i size)
  | repeated {i : Nat} (h : places[k]? = some i) (hrange : i < size)
      (hearlier : i ∈ places.take k) : Faulty size places k (.duplicateSelection i)

/-- The entry at place `k` is faulty for the reason `r`, and none before it is. -/
structure FirstFault (size : Nat) (places : List Nat) (k : Nat) (r : Refusal) : Prop where
  faulty : Faulty size places k r
  first : ∀ j < k, ∀ other, ¬Faulty size places j other

variable {size : Nat} {places : List Nat}

theorem Faulty.unique {k : Nat} {r other : Refusal} (h : Faulty size places k r)
    (hother : Faulty size places k other) : r = other := by
  cases h with
  | range hi hrange =>
      cases hother with
      | range hj _ => rw [Option.some.inj (hi.symm.trans hj)]
      | repeated hj hlt _ =>
          obtain rfl := Option.some.inj (hi.symm.trans hj)
          exact absurd hlt (Nat.not_lt.mpr hrange)
  | repeated hi hlt _ =>
      cases hother with
      | range hj hrange =>
          obtain rfl := Option.some.inj (hi.symm.trans hj)
          exact absurd hlt (Nat.not_lt.mpr hrange)
      | repeated hj _ _ => rw [Option.some.inj (hi.symm.trans hj)]

theorem FirstFault.unique {k l : Nat} {r other : Refusal} (h : FirstFault size places k r)
    (hother : FirstFault size places l other) : r = other := by
  obtain hlt | rfl | hgt := Nat.lt_trichotomy k l
  · exact absurd h.faulty (hother.first k hlt r)
  · exact h.faulty.unique hother.faulty
  · exact absurd hother.faulty (h.first l hgt other)

/-- Only entries are faulty. -/
theorem Faulty.lt_length {k : Nat} {r : Refusal} (h : Faulty size places k r) :
    k < places.length := by
  cases h with
  | range hi _ => exact (List.getElem?_eq_some_iff.mp hi).1
  | repeated hi _ _ => exact (List.getElem?_eq_some_iff.mp hi).1

theorem Faulty.range_or_mem {k i : Nat} {r : Refusal} (h : Faulty size places k r)
    (hi : places[k]? = some i) : size ≤ i ∨ i ∈ places.take k := by
  cases h with
  | range hj hrange => exact .inl (Option.some.inj (hi.symm.trans hj) ▸ hrange)
  | repeated hj _ hearlier => exact .inr (Option.some.inj (hi.symm.trans hj) ▸ hearlier)

/-- The entries before the one that is read are at hand. -/
theorem checkSelection_append_eq_error_iff {earlier : List Nat} {r : Refusal}
    (hclean : ∀ j < earlier.length, ∀ other, ¬Faulty size (earlier ++ places) j other) :
    checkSelection size earlier places = .error r ↔
      ∃ k, FirstFault size (earlier ++ places) k r := by
  induction places generalizing earlier with
  | nil =>
      constructor
      · exact fun h => nomatch h
      · intro ⟨k, h⟩
        rw [List.append_nil] at h hclean
        exact absurd h.faulty (hclean k h.faulty.lt_length r)
  | cons i rest ih =>
      have hentry : (earlier ++ i :: rest)[earlier.length]? = some i := by
        rw [List.getElem?_append_right (Nat.le_refl _), Nat.sub_self]
        rfl
      have htake : (earlier ++ i :: rest).take earlier.length = earlier := List.take_left
      -- A fault of this entry is the first one, since those before it have none.
      have hfault : ∀ {reason}, Faulty size (earlier ++ i :: rest) earlier.length reason →
          ((.error reason : Except Refusal Unit) = .error r ↔
            ∃ k, FirstFault size (earlier ++ i :: rest) k r) := by
        intro reason hreason
        have hfirst : FirstFault size (earlier ++ i :: rest) earlier.length reason :=
          ⟨hreason, hclean⟩
        exact ⟨fun h => ⟨_, Except.error.inj h ▸ hfirst⟩,
          fun ⟨_, h⟩ => congrArg _ (hfirst.unique h)⟩
      unfold checkSelection
      by_cases hrange : size ≤ i
      · rw [if_pos hrange]
        exact hfault (.range hentry hrange)
      · rw [if_neg hrange]
        by_cases hearlier : i ∈ earlier
        · rw [if_pos hearlier]
          exact hfault (.repeated hentry (Nat.not_le.mp hrange) (htake.symm ▸ hearlier))
        · rw [if_neg hearlier, ih ?_, List.append_assoc, List.singleton_append]
          intro j hj other hfaulty
          rw [List.append_assoc, List.singleton_append] at hfaulty
          rw [List.length_append, List.length_singleton] at hj
          by_cases hlast : j = earlier.length
          · subst hlast
            have hbad := hfaulty.range_or_mem hentry
            rw [htake] at hbad
            exact hbad.elim hrange hearlier
          · exact hclean j (by omega) other hfaulty

/-- A selection is refused for its first faulty entry. -/
theorem checkSelection_eq_error_iff {r : Refusal} :
    checkSelection size [] places = .error r ↔ ∃ k, FirstFault size places k r :=
  checkSelection_append_eq_error_iff fun j hj => absurd hj (Nat.not_lt_zero j)

namespace Session

/-! ## Legal choices -/

/-- In training with an offer, as many different cards of it as are to be picked, or all of them if
    there are fewer. -/
def LegalPicks (s : Session) (picks : List Nat) : Prop :=
  s.phase = .training ∧ ∃ offer, s.offer = some offer ∧
    picks.length = min (s.config.picks s.turn) offer.length ∧
    (∀ i ∈ picks, i < offer.length) ∧ picks.Nodup

/-- In a meeting, different cards of the deck and no more than may be deleted on the turn. -/
def LegalDeletions (s : Session) (places : List Nat) : Prop :=
  s.phase = .meeting ∧ ∃ plan, s.plan? = some plan ∧ places.length ≤ plan.deleteQuota ∧
    (∀ i ∈ places, i < s.player.deck.length) ∧ places.Nodup

theorem legalPicks_iff {s : Session} {picks : List Nat} :
    s.LegalPicks picks ↔ ∃ offer, s.checkTraining picks = .ok offer := by
  simp only [LegalPicks, checkTraining_eq_ok_iff, checkSelection_nil_eq_ok_iff, exists_and_left]

theorem legalDeletions_iff {s : Session} {places : List Nat} :
    s.LegalDeletions places ↔ s.checkMeeting places = .ok () := by
  simp only [LegalDeletions, checkMeeting_eq_ok_iff, checkSelection_nil_eq_ok_iff, plan_eq_ok_iff]
  constructor
  · intro ⟨hphase, plan, hplan, hquota, hlegal⟩
    exact ⟨hphase, ⟨plan, hplan, hquota⟩, hlegal⟩
  · intro ⟨hphase, ⟨plan, hplan, hquota⟩, hlegal⟩
    exact ⟨hphase, plan, hplan, hquota, hlegal⟩

/-! ## Choices that are accepted -/

/-- What can become of a choice: the move of a legal one is carried out or stops the program, any
    other one is refused. -/
inductive Answered (legal room : Prop) : Reply → Prop
  | accepted (hlegal : legal) (hroom : room) (phase : Phase) : Answered legal room (.phase phase)
  | stopped (hlegal : legal) (hroom : ¬room) (reason : Stop) : Answered legal room (.stopped reason)
  | refused (hlegal : ¬legal) (r : Refusal) : Answered legal room (.refused r)

theorem Answered.accepted_iff {legal room : Prop} {reply : Reply} (h : Answered legal room reply) :
    (∃ phase, reply = .phase phase) ↔ legal ∧ room := by
  cases h with
  | accepted hlegal hroom phase => exact iff_of_true ⟨phase, rfl⟩ ⟨hlegal, hroom⟩
  | stopped hlegal hroom reason => exact iff_of_false nofun fun h => hroom h.2
  | refused hlegal r => exact iff_of_false nofun fun h => hlegal h.1

theorem Answered.stopped_iff {legal room : Prop} {reply : Reply} (h : Answered legal room reply) :
    (∃ reason, reply = .stopped reason) ↔ legal ∧ ¬room := by
  cases h with
  | accepted hlegal hroom phase => exact iff_of_false nofun fun h => h.2 hroom
  | stopped hlegal hroom reason => exact iff_of_true ⟨reason, rfl⟩ ⟨hlegal, hroom⟩
  | refused hlegal r => exact iff_of_false nofun fun h => hlegal h.1

theorem Leads.answered {legal : Prop} {u : Session} {move : Except Stop (Moved Phase)}
    (h : Leads u Session.phase move) (hlegal : legal) (s : Session) :
    Answered legal (u.machine.HasRoom u.demand)
      (s.settle do return (← move).reply .phase).1 := by
  obtain ⟨t, _, hroom, heq⟩ | ⟨shortage, hshort, heq⟩ := h.settle_cases s .phase
  · rw [heq]
    exact .accepted hlegal hroom t.phase
  · rw [heq]
    exact .stopped hlegal (Machine.not_hasRoom_iff.mpr ⟨shortage, hshort⟩) _

theorem answered_confirmTraining {s : Session} (hs : s.Sound) (picks : List Nat) :
    Answered (s.LegalPicks picks) (s.machine.HasRoom s.config.handSize.toNat)
      (s.step (.confirmTraining picks)).1 := by
  cases hcheck : s.checkTraining picks with
  | error r =>
      rw [reply_of_checkTraining hcheck]
      refine .refused (fun hlegal => ?_) r
      obtain ⟨offer, hok⟩ := legalPicks_iff.mp hlegal
      exact nomatch hcheck.symm.trans hok
  | ok offer =>
      obtain ⟨chosen, _, hleads⟩ := leads_confirmTraining hs hcheck
      have hdemand : (s.taking chosen).demand = s.config.handSize.toNat :=
        demand_of_training (checkTraining_eq_ok_iff.mp hcheck).1
      have hanswered := hleads.answered (legalPicks_iff.mpr ⟨offer, hcheck⟩) s
      rw [hdemand] at hanswered
      exact hanswered

theorem answered_confirmMeeting {s : Session} (hs : s.Sound) (places : List Nat) :
    Answered (s.LegalDeletions places) (s.machine.HasRoom s.meetingDemand)
      (s.step (.confirmMeeting places)).1 := by
  cases hcheck : s.checkMeeting places with
  | error r =>
      rw [reply_of_checkMeeting hcheck]
      refine .refused (fun hlegal => ?_) r
      exact nomatch hcheck.symm.trans (legalDeletions_iff.mp hlegal)
  | ok =>
      have hdemand : (s.deleting places).demand = s.meetingDemand :=
        demand_of_meeting (checkMeeting_eq_ok_iff.mp hcheck).1
      have hanswered :=
        (leads_confirmMeeting hs hcheck).answered (legalDeletions_iff.mpr hcheck) s
      rw [hdemand] at hanswered
      exact hanswered

/-- In training with an offer and the right number of picks only the entries can be at fault. -/
theorem refused_picks_iff {s : Session} (hs : s.Sound) {picks : List Nat} {offer : List Card}
    (hphase : s.phase = .training) (hoffer : s.offer = some offer)
    (hcount : picks.length = min (s.config.picks s.turn) offer.length) {r : Refusal} :
    (s.step (.confirmTraining picks)).1 = .refused r ↔ ∃ k, FirstFault offer.length picks k r := by
  rw [step_eq_refused_iff hs, ← checkSelection_eq_error_iff]
  constructor
  · intro h
    cases h with
    | wrongPhase hop hne =>
        obtain rfl := Option.some.inj hop
        exact absurd hphase hne
    | noOffer _ hnone => exact nomatch hoffer.symm.trans hnone
    | pickCount _ hsome hne =>
        obtain rfl := Option.some.inj (hoffer.symm.trans hsome)
        exact absurd hcount hne
    | picks _ hsome _ hselection =>
        obtain rfl := Option.some.inj (hoffer.symm.trans hsome)
        exact hselection
  · exact .picks hphase hoffer hcount

/-- In a meeting with no more places than may be deleted only the entries can be at fault. -/
theorem refused_places_iff {s : Session} (hs : s.Sound) {places : List Nat} {plan : TurnPlan}
    (hphase : s.phase = .meeting) (hplan : s.plan = .ok plan)
    (hquota : places.length ≤ plan.deleteQuota) {r : Refusal} :
    (s.step (.confirmMeeting places)).1 = .refused r ↔
      ∃ k, FirstFault s.player.deck.length places k r := by
  rw [step_eq_refused_iff hs, ← checkSelection_eq_error_iff]
  constructor
  · intro h
    cases h with
    | wrongPhase hop hne =>
        obtain rfl := Option.some.inj hop
        exact absurd hphase hne
    | quota _ hother hless =>
        obtain rfl := Except.ok.inj (hplan.symm.trans hother)
        exact absurd hless (Nat.not_lt.mpr hquota)
    | places _ _ _ hselection => exact hselection
  · exact .places hphase hplan (Nat.not_lt.mpr hquota)

/-- Selections are accepted exactly if they are legal and the machine has room for what is drawn
    next. A choice from the offer is legal if and only if the session is in training, an offer is
    pending, and as many different cards of the offer are named as are to be picked, or all of
    them if there are fewer; a choice of cards to delete if and only if the session is in a
    meeting and different cards of the deck are named, no more than may be deleted on the turn. The
    room is that for the hand or for the next offer, and without it a legal choice stops the
    program. When only the entries are at fault, the refusal names the first that is out of range
    or named before, the former if it is both. -/
theorem selections_accepted_iff_legal {s : Session} (h : s.Reachable) (places : List Nat) :
    ((∃ phase, (s.step (.confirmTraining places)).1 = .phase phase) ↔
      s.LegalPicks places ∧ s.machine.HasRoom s.config.handSize.toNat) ∧
    ((∃ phase, (s.step (.confirmMeeting places)).1 = .phase phase) ↔
      s.LegalDeletions places ∧ s.machine.HasRoom s.meetingDemand) ∧
    ((∃ reason, (s.step (.confirmTraining places)).1 = .stopped reason) ↔
      s.LegalPicks places ∧ ¬s.machine.HasRoom s.config.handSize.toNat) ∧
    ((∃ reason, (s.step (.confirmMeeting places)).1 = .stopped reason) ↔
      s.LegalDeletions places ∧ ¬s.machine.HasRoom s.meetingDemand) ∧
    (∀ offer, s.phase = .training → s.offer = some offer →
      places.length = min (s.config.picks s.turn) offer.length → ∀ r,
        ((s.step (.confirmTraining places)).1 = .refused r ↔
          ∃ k, FirstFault offer.length places k r)) ∧
    ∀ plan, s.phase = .meeting → s.plan? = some plan → places.length ≤ plan.deleteQuota → ∀ r,
      ((s.step (.confirmMeeting places)).1 = .refused r ↔
        ∃ k, FirstFault s.player.deck.length places k r) := by
  have hs := h.sound
  have htraining := answered_confirmTraining hs places
  have hmeeting := answered_confirmMeeting hs places
  exact ⟨htraining.accepted_iff, hmeeting.accepted_iff, htraining.stopped_iff,
    hmeeting.stopped_iff,
    fun offer hphase hoffer hcount r => refused_picks_iff hs hphase hoffer hcount,
    fun plan hphase hplan hquota r =>
      refused_places_iff hs hphase (plan_eq_ok_iff.mpr hplan) hquota⟩

/-- A stored session with three cards on offer, all of which are to be picked. -/
def triage : Session where
  machine := .common
  config := { Config.standard with trainingPicks := 5 }
  catalog := .empty
  pools := .empty
  player := .fresh
  turn := 3
  phase := .training
  offer := some
    [⟨.reception, .r, "電話", "", "入塾+1。", none⟩, ⟨.academics, .sr, "合宿", "", "満足+1。", none⟩,
      ⟨.outreach, .n, "体験会", "", "体験+2。", none⟩]
  rng := ⟨42, 17⟩
  memo := .empty

/-- All three are accepted in any order. Where one is named twice before a place that does not
    exist, it is the repetition that is refused. -/
theorem triage_accepts_legal :
    triage.Reachable ∧ (∃ phase, (triage.step (.confirmTraining [2, 0, 1])).1 = .phase phase) ∧
      (triage.step (.confirmTraining [2, 2, 7])).1 = .refused (.duplicateSelection 2) ∧
      (triage.step (.confirmTraining [2, 7, 2])).1 = .refused (.selectionIndex 7 3) := by
  have hrestored : restore .common .empty { Config.standard with trainingPicks := 5 }
      triage.snapshot = .ok triage := rfl
  have hreachable : triage.Reachable := Initial.reachable (.restored hrestored)
  have hlegal : triage.LegalPicks [2, 0, 1] := ⟨rfl, _, rfl, rfl, by decide, by decide⟩
  have hclean : ∀ rest, ∀ j < 1, ∀ other, ¬Faulty 3 (2 :: rest) j other := by
    intro rest j hj other hfaulty
    obtain rfl : j = 0 := by omega
    exact (hfaulty.range_or_mem rfl).elim (by decide) List.not_mem_nil
  obtain ⟨haccepts, _⟩ := selections_accepted_iff_legal hreachable [2, 0, 1]
  obtain ⟨_, _, _, _, hrepeated, _⟩ := selections_accepted_iff_legal hreachable [2, 2, 7]
  obtain ⟨_, _, _, _, hrange, _⟩ := selections_accepted_iff_legal hreachable [2, 7, 2]
  refine ⟨hreachable, haccepts.mpr ⟨hlegal, by decide⟩,
    (hrepeated _ rfl rfl rfl _).mpr ⟨1, ?_, hclean _⟩,
    (hrange _ rfl rfl rfl _).mpr ⟨1, ?_, hclean _⟩⟩
  · exact .repeated rfl (by decide) (by decide)
  · exact .range rfl (by decide)

/-- The same draft with a hand that is to hold as many cards as a number of 64 bits can say. -/
def spacious : Session :=
  { triage with
    config := { Config.standard with trainingPicks := 5, handSize := 18446744073709551615 } }

/-- The legal choice stops the program, although the player owns no more than three cards. -/
theorem spacious_stops :
    spacious.Reachable ∧ spacious.LegalPicks [2, 0, 1] ∧
      (spacious.step (.confirmTraining [2, 0, 1])).1 = .stopped (.noRoom .uncountable) := by
  have hrestored : restore .common .empty spacious.config spacious.snapshot = .ok spacious := rfl
  have hreachable : spacious.Reachable := Initial.reachable (.restored hrestored)
  have hlegal : spacious.LegalPicks [2, 0, 1] := ⟨rfl, _, rfl, rfl, by decide, by decide⟩
  have hshort : spacious.machine.cardShortage? spacious.config.handSize.toNat =
      some .uncountable := Machine.cardShortage?_of_le (by decide)
  obtain ⟨offer, hcheck⟩ := legalPicks_iff.mp hlegal
  obtain ⟨chosen, _, hleads⟩ := leads_confirmTraining hreachable.sound hcheck
  refine ⟨hreachable, hlegal, ?_⟩
  obtain ⟨_, _, hroom, _⟩ | ⟨shortage, hfound, heq⟩ := hleads.settle_cases spacious .phase
  · exact nomatch hroom.symm.trans hshort
  · rw [step, heq, ← Option.some.inj (hshort.symm.trans hfound)]

end Session

end CramSchool
