/-
  The entries of a resolution account for the action phase.

  Placed cards resolve one after the other, and each leaves an entry (`Resolution`). An entry is
  `Exact` for a card if it says what happened: the bonus of the turn was given exactly if it
  says so, and the outcome is that of the card alone, played with the bonus and without a memory.
  The entries are `Linked`: each starts from the stats that the one before it ended with.

  Main result: `resolution_accounts`.
-/
import CramSchool.Proofs.Effect.Replay
import CramSchool.Proofs.Session.Step
import CramSchool.Proofs.Stats.Clamped

namespace CramSchool

/-! ## What entries say -/

namespace Resolution

/-- The stats that the card was played with: those before, with the bonus if it was earned. -/
def boosted (plan : TurnPlan) (r : Resolution) : Stats :=
  if r.recommended then (r.before.change plan.stat 1).2 else r.before

/-- The bonus is one point of the stat of the turn, as long as that can go up, and nothing else. -/
theorem get_boosted {plan : TurnPlan} {r : Resolution} (h : r.before.Valid) (k : Stat) :
    ((r.boosted plan).get k).val =
      if r.recommended = true ∧ k = plan.stat then
        min ((r.before.get k).val + 1) (r.before.ceiling k)
      else (r.before.get k).val := by
  unfold boosted
  by_cases hbonus : r.recommended = true
  · have hone : (1 : Points).val = 1 := rfl
    rw [if_pos hbonus, Stats.get_change_of_nonneg h plan.stat (by decide), hone]
    by_cases hk : k = plan.stat
    · rw [if_pos hk, if_pos ⟨hbonus, hk⟩, hk]
    · rw [if_neg hk, if_neg fun hboth => hk hboth.2]
  · rw [if_neg hbonus, if_neg fun hboth => hbonus hboth.1]

/-- The entry says what became of the card. -/
structure Exact (plan : TurnPlan) (card : Card) (r : Resolution) : Prop where
  card_eq : r.card = card.name
  recommended_iff : r.recommended = true ↔ card.category = plan.category
  /-- The outcome does not depend on the cards that resolved before. -/
  outcome_eq : r.outcome = (Memo.empty.play card r.role (r.boosted plan)).outcome
  played : ∀ report, r.outcome = .ok report → replay report.changes (r.boosted plan) = some r.after
  rejected : ∀ reason, r.outcome = .error reason → r.after = r.boosted plan

/-- The entries lead from the stats `start` to the stats `final`, each from where the one before it
    ended. -/
def Linked : Stats → List Resolution → Stats → Prop
  | start, [], final => start = final
  | start, r :: rest, final => r.before = start ∧ Linked r.after rest final

end Resolution

/-! ## Occupied slots -/

namespace PerRole

variable {α : Type}

theorem get_of_mem_occupied {p : PerRole (Option α)} {role : Role} {a : α}
    (h : (role, a) ∈ p.occupied) : p.get role = some a := by
  obtain ⟨⟨role', slot⟩, hslot, ha⟩ := List.mem_filterMap.mp h
  obtain ⟨_, _, hget⟩ := List.mem_map.mp hslot
  obtain ⟨rfl, rfl⟩ := Prod.mk.inj hget
  obtain ⟨b, hb, hpair⟩ := Option.map_eq_some_iff.mp ha
  obtain ⟨rfl, rfl⟩ := Prod.mk.inj hpair
  exact hb

theorem map_fst_occupied (p : PerRole (Option α)) :
    p.occupied.map Prod.fst = Role.all.filter fun role => (p.get role).isSome := by
  obtain ⟨leader, teacher, staff⟩ := p
  cases leader <;> cases teacher <;> cases staff <;> rfl

end PerRole

/-! ## Resolving cards -/

/-- Outcome and stats of a play are those of the card alone. -/
theorem exact_resolveCard (plan : TurnPlan) (role : Role) (card : Card) (stats : Stats)
    (memo : Memo) : (resolveCard plan role card stats memo).1.Exact plan card := by
  have houtcome : (resolveCard plan role card stats memo).1.outcome =
      card.outcome role ((resolveCard plan role card stats memo).1.boosted plan) :=
    memo.outcome_play card role _
  have hafter : (resolveCard plan role card stats memo).1.after =
      card.statsAfter role ((resolveCard plan role card stats memo).1.boosted plan) :=
    memo.stats_play card role _
  refine ⟨rfl, beq_iff_eq, ?_, fun report hreport => ?_, fun reason hreason => ?_⟩
  · exact houtcome.trans (Memo.empty.outcome_play card role _).symm
  · rw [hafter]
    exact Card.replay_outcome (houtcome.symm.trans hreport)
  · rw [hafter]
    exact Card.statsAfter_of_rejected (houtcome.symm.trans hreason)

section

variable (plan : TurnPlan) (placed : List (Role × Card)) (stats : Stats) (memo : Memo)

theorem roles_resolveCards :
    (resolveCards plan placed stats memo).1.map Resolution.role = placed.map Prod.fst := by
  induction placed generalizing stats memo with
  | nil => rfl
  | cons first rest ih => exact congrArg (first.1 :: ·) (ih _ _)

theorem linked_resolveCards :
    Resolution.Linked stats (resolveCards plan placed stats memo).1
      (resolveCards plan placed stats memo).2.1 := by
  induction placed generalizing stats memo with
  | nil => rfl
  | cons first rest ih => exact ⟨rfl, ih _ _⟩

theorem exact_resolveCards :
    ∀ r ∈ (resolveCards plan placed stats memo).1,
      ∃ card, (r.role, card) ∈ placed ∧ r.Exact plan card := by
  induction placed generalizing stats memo with
  | nil => exact fun _ h => nomatch h
  | cons first rest ih =>
      refine List.forall_mem_cons.mpr ⟨⟨first.2, List.mem_cons_self, ?_⟩, fun r hr => ?_⟩
      · exact exact_resolveCard plan first.1 first.2 stats memo
      · obtain ⟨card, hcard, hexact⟩ := ih _ _ r hr
        exact ⟨card, List.mem_cons_of_mem first hcard, hexact⟩

theorem valid_before_resolveCards (h : stats.Valid) :
    ∀ r ∈ (resolveCards plan placed stats memo).1, r.before.Valid := by
  induction placed generalizing stats memo with
  | nil => exact fun _ hr => nomatch hr
  | cons first rest ih =>
      have hafter := Session.valid_resolveCard h plan first.1 first.2 memo
      exact List.forall_mem_cons.mpr ⟨h, ih _ _ hafter⟩

theorem countP_resolveCards :
    (resolveCards plan placed stats memo).1.countP Resolution.recommended =
      placed.countP fun entry => plan.recommends entry.2 := by
  induction placed generalizing stats memo with
  | nil => rfl
  | cons first rest ih =>
      have hrest := ih (resolveCard plan first.1 first.2 stats memo).2.1
        (resolveCard plan first.1 first.2 stats memo).2.2
      rw [List.countP_cons, ← hrest]
      exact List.countP_cons

end

/-! ## The action phase -/

namespace Session

/-- The entries of a resolution account for all that it does. In every session in the action phase
    that a run reaches, placed cards resolve with one entry for each occupied slot, in the order of
    roles. The entries are exact and linked, from the stats before to the stats after. As many of
    them have the bonus as there are cards placed that the turn recommends, and nothing but the
    stats is different in what is stored afterwards. -/
theorem resolution_accounts {s : Session} (h : s.Reachable) (hphase : s.phase = .action) :
    ∃ plan entries t, s.plan? = some plan ∧ s.resolvePlaced = (.ok entries, t) ∧
      entries.map Resolution.role =
        Role.all.filter (fun role => (s.player.placed.get role).isSome) ∧
      Resolution.Linked s.player.stats entries t.player.stats ∧
      (∀ r ∈ entries, ∃ card, s.player.placed.get r.role = some card ∧ r.Exact plan card) ∧
      entries.countP Resolution.recommended = plan.recommendedCount s.player.placed ∧
      t.snapshot = { s.snapshot with stats := t.player.stats } := by
  obtain ⟨plan, hplan⟩ := exists_plan (h.sound.turn_lt (by simp [hphase]))
  have hroles := roles_resolveCards plan s.player.placed.occupied s.player.stats s.memo
  have hexact := exact_resolveCards plan s.player.placed.occupied s.player.stats s.memo
  have hcount := countP_resolveCards plan s.player.placed.occupied s.player.stats s.memo
  refine ⟨plan, s.resolutions plan, s.resolved plan, plan?_eq hplan, resolvePlaced_eq hphase hplan,
    hroles.trans (PerRole.map_fst_occupied _), linked_resolveCards _ _ _ _, fun r hr => ?_, ?_,
    rfl⟩
  · obtain ⟨card, hcard, hentry⟩ := hexact r hr
    exact ⟨card, PerRole.get_of_mem_occupied hcard, hentry⟩
  · unfold TurnPlan.recommendedCount PerRole.present
    rw [List.countP_map]
    exact hcount

/-- In an entry that a session makes, the card was played with the stats before it and, if it is
    recommended, one point more of the stat of the turn, which stops at its ceiling. -/
theorem get_boosted_of_mem_resolutions {s : Session} (h : s.Reachable) {plan : TurnPlan}
    {r : Resolution} (hr : r ∈ s.resolutions plan) (k : Stat) :
    ((r.boosted plan).get k).val =
      if r.recommended = true ∧ k = plan.stat then
        min ((r.before.get k).val + 1) (r.before.ceiling k)
      else (r.before.get k).val :=
  Resolution.get_boosted (valid_before_resolveCards plan _ _ _ h.sound.stats r hr) k

/-- A stored session in the first action phase. Both placed cards earn the bonus of the turn, but
    only the leader may play the second one, and it lies with a teacher. -/
def firstAction : Session where
  machine := .common
  config := .standard
  catalog := .empty
  pools := .empty
  player :=
    { stats := .opening
      deck := []
      hand := []
      placed :=
        ⟨some ⟨.outreach, .n, "体験会", "", "体験生徒数+2。", none⟩,
          some ⟨.outreach, .r, "説明会", "", "【室長】満足度+1。", none⟩, none⟩ }
  turn := 0
  phase := .action
  offer := none
  rng := ⟨42, 0⟩
  memo := .empty

/-- There is an entry for each of them, and both have the bonus. -/
theorem firstAction_accounts :
    firstAction.Reachable ∧ firstAction.phase = .action ∧
      ∃ entries t, firstAction.resolvePlaced = (.ok entries, t) ∧
        entries.map Resolution.role = [.leader, .teacher] ∧
        Resolution.Linked .opening entries t.player.stats ∧
        entries.countP Resolution.recommended = 2 := by
  have hrestored : restore .common .empty .standard firstAction.snapshot = .ok firstAction := rfl
  have hreachable : firstAction.Reachable := Initial.reachable (.restored hrestored)
  obtain ⟨plan, entries, t, hplan, hresolved, hroles, hlinked, _, hcount, _⟩ :=
    resolution_accounts hreachable rfl
  obtain rfl : TurnPlan.mk "1月下旬" .r .outreach .experience 2 = plan := Option.some.inj hplan
  exact ⟨hreachable, rfl, entries, t, hresolved, hroles, hlinked, hcount⟩

end Session

end CramSchool
