/-
  The totals of a report are the differences of the stats.

  `moved` sums up how far a list of changes moves a stat. If the changes lead from one state to
  another, each starts where the one before it on the same stat ended, so the sum is the
  difference of the two (`moved_of_replay`). The totals of a report list this sum once for each
  stat that has a change (`nodup_totals`, `eq_moved_of_mem_totals`), and the net totals are
  those that are not zero (`Report.mem_net_iff`).

  At stats within their bounds no change starts or ends below zero (`Effect.grounded_resolve`).
  A difference of two numbers of points that are not negative is a number of points again, so
  no realized change and no sum on the way leaves the range.

  Main result: `Effect.report_accounts`.
-/
import CramSchool.Proofs.Effect.Replay
import Mathlib.Algebra.Ring.Int.Defs

namespace CramSchool

/-! ## Sums of changes -/

/-- How far the changes move a stat, all together. -/
def moved (changes : List Change) (k : Stat) : Int :=
  (changes.map fun c => if c.stat = k then c.realized else 0).sum

theorem moved_cons (c : Change) (rest : List Change) (k : Stat) :
    moved (c :: rest) k = (if c.stat = k then c.realized else 0) + moved rest k := rfl

/-- Changes that lead from one state to another move each stat by the difference. -/
theorem moved_of_replay {changes : List Change} {s t : Stats} (h : replay changes s = some t)
    (k : Stat) : moved changes k = (t.get k).val - (s.get k).val := by
  induction changes generalizing s with
  | nil =>
      obtain rfl := Option.some.inj h
      exact (Int.sub_self _).symm
  | cons c rest ih =>
      rw [replay] at h
      split at h
      · next hbefore =>
          rw [moved_cons, ih h, Stats.get_put]
          by_cases hk : c.stat = k
          · subst hk
            rw [if_pos rfl, if_pos rfl, hbefore, Change.realized]
            omega
          · rw [if_neg hk, if_neg (Ne.symm hk), Int.zero_add]
      · cases h

/-- The first of the changes that lead to a state lead to a state as well. -/
theorem exists_replay_of_prefix {changes first : List Change} {s t : Stats}
    (h : replay changes s = some t) (hfirst : first <+: changes) :
    ∃ u, replay first s = some u := by
  obtain ⟨more, rfl⟩ := hfirst
  rw [replay_append] at h
  obtain ⟨u, hu, _⟩ := Option.bind_eq_some_iff.mp h
  exact ⟨u, hu⟩

/-! ## Totals by stat -/

namespace Report

/-- What a list of totals holds for a stat. -/
def amount (totals : List (Stat × Int)) (k : Stat) : Int :=
  (totals.map fun x => if x.1 = k then x.2 else 0).sum

theorem amount_cons (x : Stat × Int) (rest : List (Stat × Int)) (k : Stat) :
    amount (x :: rest) k = (if x.1 = k then x.2 else 0) + amount rest k := rfl

theorem amount_of_notMem {totals : List (Stat × Int)} {k : Stat}
    (h : k ∉ totals.map Prod.fst) : amount totals k = 0 := by
  induction totals with
  | nil => rfl
  | cons x rest ih =>
      rw [List.map_cons, List.mem_cons, not_or] at h
      rw [amount_cons, if_neg (Ne.symm h.1), ih h.2, Int.zero_add]

theorem amount_of_mem {totals : List (Stat × Int)} {k : Stat} {total : Int}
    (hnodup : (totals.map Prod.fst).Nodup) (h : (k, total) ∈ totals) :
    amount totals k = total := by
  induction totals with
  | nil => exact nomatch h
  | cons x rest ih =>
      obtain ⟨hnew, hrest⟩ := List.nodup_cons.mp hnodup
      rw [amount_cons]
      obtain rfl | hmem := List.mem_cons.mp h
      · rw [if_pos rfl, amount_of_notMem hnew, Int.add_zero]
      · have hne : x.1 ≠ k := fun he => hnew (he ▸ List.mem_map_of_mem hmem)
        rw [if_neg hne, ih hrest hmem, Int.zero_add]

theorem amount_tally (totals : List (Stat × Int)) (stat : Stat) (n : Int) (k : Stat) :
    amount (tally totals stat n) k = amount totals k + if stat = k then n else 0 := by
  induction totals with
  | nil => exact Int.add_comm _ _
  | cons x rest ih =>
      obtain ⟨first, total⟩ := x
      rw [tally]
      by_cases hfirst : first = stat
      · subst hfirst
        rw [if_pos rfl, amount_cons, amount_cons]
        dsimp only
        split <;> omega
      · rw [if_neg hfirst, amount_cons, amount_cons, ih, Int.add_assoc]

theorem map_fst_tally (totals : List (Stat × Int)) (stat : Stat) (n : Int) :
    (tally totals stat n).map Prod.fst =
      if stat ∈ totals.map Prod.fst then totals.map Prod.fst
      else totals.map Prod.fst ++ [stat] := by
  induction totals with
  | nil => rfl
  | cons x rest ih =>
      obtain ⟨first, total⟩ := x
      rw [tally, List.map_cons]
      by_cases hfirst : first = stat
      · subst hfirst
        rw [if_pos rfl, if_pos List.mem_cons_self, List.map_cons]
      · rw [if_neg hfirst, List.map_cons, ih]
        by_cases hmem : stat ∈ rest.map Prod.fst
        · rw [if_pos hmem, if_pos (List.mem_cons_of_mem first hmem)]
        · have hnot : stat ∉ first :: rest.map Prod.fst :=
            List.not_mem_cons_of_ne_of_not_mem (Ne.symm hfirst) hmem
          rw [if_neg hmem, if_neg hnot, List.cons_append]

theorem nodup_tally {totals : List (Stat × Int)} (h : (totals.map Prod.fst).Nodup) (stat : Stat)
    (n : Int) : ((tally totals stat n).map Prod.fst).Nodup := by
  rw [map_fst_tally]
  split
  · exact h
  · next hnot =>
      have hnew : ∀ k ∈ totals.map Prod.fst, ∀ j ∈ [stat], k ≠ j := fun k hk j hj he =>
        hnot (List.mem_singleton.mp hj ▸ he ▸ hk)
      exact List.nodup_append.mpr ⟨h, List.pairwise_singleton _ stat, hnew⟩

theorem amount_totals (changes : List Change) (k : Stat) :
    amount (totals changes) k = moved changes k := by
  suffices h : ∀ acc, amount (changes.foldl (fun acc c => tally acc c.stat c.realized) acc) k =
      amount acc k + moved changes k from (h []).trans (Int.zero_add _)
  induction changes with
  | nil => exact fun acc => (Int.add_zero _).symm
  | cons c rest ih =>
      intro acc
      rw [List.foldl_cons, ih, amount_tally, moved_cons, Int.add_assoc]

theorem nodup_totals (changes : List Change) : ((totals changes).map Prod.fst).Nodup := by
  suffices h : ∀ acc : List (Stat × Int), (acc.map Prod.fst).Nodup →
      ((changes.foldl (fun acc c => tally acc c.stat c.realized) acc).map Prod.fst).Nodup from
    h [] List.nodup_nil
  induction changes with
  | nil => exact fun _ hacc => hacc
  | cons c rest ih => exact fun _ hacc => ih _ (nodup_tally hacc c.stat c.realized)

theorem eq_moved_of_mem_totals {changes : List Change} {k : Stat} {total : Int}
    (h : (k, total) ∈ totals changes) : total = moved changes k :=
  (amount_of_mem (nodup_totals changes) h).symm.trans (amount_totals changes k)

/-- The net totals are those of the stats that moved. -/
theorem mem_net_iff (r : Report) (k : Stat) (total : Int) :
    (k, total) ∈ r.net ↔ moved r.changes k ≠ 0 ∧ total = moved r.changes k := by
  unfold net
  rw [List.mem_filter, decide_eq_true_iff]
  constructor
  · rintro ⟨hmem, hne⟩
    have htotal := eq_moved_of_mem_totals hmem
    exact ⟨htotal ▸ hne, htotal⟩
  · rintro ⟨hne, rfl⟩
    -- A stat without an entry has no total other than zero.
    have hlisted : k ∈ (totals r.changes).map Prod.fst := Decidable.byContradiction fun hnot =>
      hne ((amount_totals r.changes k).symm.trans (amount_of_notMem hnot))
    obtain ⟨⟨_, total⟩, hmem, rfl⟩ := List.mem_map.mp hlisted
    exact ⟨eq_moved_of_mem_totals hmem ▸ hmem, hne⟩

theorem nodup_net (r : Report) : (r.net.map Prod.fst).Nodup :=
  (nodup_totals r.changes).sublist (List.filter_sublist.map Prod.fst)

end Report

/-! ## The range of the sums -/

/-- The change neither starts nor ends below zero. -/
def Change.Grounded (c : Change) : Prop := 0 ≤ c.before.val ∧ 0 ≤ c.after.val

theorem Stats.grounded_changesOf {s t : Stats} (hs : s.Valid) (ht : t.Valid) (k : Stat) :
    ∀ c ∈ s.changesOf t k, c.Grounded := by
  intro c hc
  obtain rfl | hcap := List.mem_cons.mp hc
  · exact ⟨hs.nonneg k, ht.nonneg k⟩
  · split at hcap
    · obtain rfl := List.mem_singleton.mp hcap
      exact ⟨hs.nonneg .enrollment, ht.nonneg .enrollment⟩
    · exact nomatch hcap

theorem Delta.grounded_apply {s : Stats} (h : s.Valid) (d : Delta) :
    ∀ c ∈ (d.apply s).1, c.Grounded := by
  have hafter := d.valid_apply h
  cases d with
  | setTo k value => exact Stats.grounded_changesOf h hafter k
  | changeBy k amount => exact Stats.grounded_changesOf h hafter k

theorem grounded_applyAll {s : Stats} (h : s.Valid) (deltas : List Delta) :
    ∀ c ∈ (applyAll deltas s).1, c.Grounded := by
  induction deltas generalizing s with
  | nil => exact List.forall_mem_nil _
  | cons d rest ih =>
      exact List.forall_mem_append.mpr ⟨d.grounded_apply h, ih (d.valid_apply h)⟩

theorem Effect.grounded_resolve {s : Stats} (h : s.Valid) (e : Effect) (role : Role) :
    ∀ c ∈ (e.resolve role s).1.changes, c.Grounded := by
  obtain ⟨deltas, _, hdeltas⟩ := e.exists_deltas_resolve role s
  have hgrounded := grounded_applyAll h deltas
  rw [hdeltas] at hgrounded
  exact hgrounded

theorem nonneg_of_replay {changes : List Change} {s t : Stats} (h : replay changes s = some t)
    (hs : ∀ k, 0 ≤ (s.get k).val) (hchanges : ∀ c ∈ changes, c.Grounded) (k : Stat) :
    0 ≤ (t.get k).val := by
  induction changes generalizing s with
  | nil => exact Option.some.inj h ▸ hs k
  | cons c rest ih =>
      obtain ⟨hc, hrest⟩ := List.forall_mem_cons.mp hchanges
      rw [replay] at h
      split at h
      · refine ih h (fun j => ?_) hrest
        rw [Stats.get_put]
        split
        · exact hc.2
        · exact hs j
      · cases h

/-- The number is in the range of points. -/
def Points.Covers (n : Int) : Prop := ∃ p : Points, p.val = n

theorem Points.covers_sub {a b : Points} (ha : 0 ≤ a.val) (hb : 0 ≤ b.val) :
    Points.Covers (a.val - b.val) := by
  have hle := a.le_greatest
  have hle' := b.le_greatest
  exact ⟨⟨a.val - b.val, by omega, by omega⟩, rfl⟩

/-! ## Reports -/

namespace Effect

/-- The report of an effect accounts for every move of a stat. Made again from the stats before, its
    changes find each stat where they say and lead to the stats after. The net totals list no stat
    twice; they list the stats whose value is different afterwards, each with the difference. No
    difference of a change and no sum over the first of the changes, from which the totals are made,
    leaves the range of points. -/
theorem report_accounts (e : Effect) (role : Role) {s : Stats} (h : s.Valid) :
    let report := (e.resolve role s).1
    let after := (e.resolve role s).2
    replay report.changes s = some after ∧
      (report.net.map Prod.fst).Nodup ∧
      (∀ k total, (k, total) ∈ report.net ↔
        s.get k ≠ after.get k ∧ total = (after.get k).val - (s.get k).val) ∧
      (∀ c ∈ report.changes, Points.Covers c.realized) ∧
      ∀ first, first <+: report.changes →
        ∀ k sum, (k, sum) ∈ Report.totals first → Points.Covers sum := by
  intro report after
  have hreplay : replay report.changes s = some after := e.replay_resolve role s
  have hgrounded := e.grounded_resolve h role
  refine ⟨hreplay, report.nodup_net, fun k total => ?_, fun c hc => ?_, ?_⟩
  · rw [Report.mem_net_iff, moved_of_replay hreplay]
    refine and_congr_left fun _ => not_congr ?_
    rw [Int.sub_eq_zero, eq_comm]
    exact ⟨Points.ext, congrArg Points.val⟩
  · exact Points.covers_sub (hgrounded c hc).2 (hgrounded c hc).1
  · intro first hfirst k sum hsum
    obtain ⟨u, hu⟩ := exists_replay_of_prefix hreplay hfirst
    have hnonneg := nonneg_of_replay hu h.nonneg (fun c hc => hgrounded c (hfirst.subset hc)) k
    rw [Report.eq_moved_of_mem_totals hsum, moved_of_replay hu]
    exact Points.covers_sub hnonneg (h.nonneg k)

/-- Students come and go: the lost trial lessons take an enrollment with them, and the satisfaction
    is where it was. -/
def comeAndGo : Effect where
  restrictions := []
  base :=
    [.changeBy .experience 3, .changeBy .enrollment 2, .changeBy .satisfaction 2,
      .setTo .experience 1]
  blocks := [⟨.stat .enrollment 1 .atMost, [.changeBy .satisfaction (.saturate (-2))]⟩]

/-- The trial lessons move by three and back by two, which counts as one; the satisfaction is not
    in the net totals. -/
theorem comeAndGo_accounts :
    Stats.opening.Valid ∧
      (comeAndGo.resolve .staff .opening).1.changes =
        [⟨.experience, 0, 3⟩, ⟨.enrollment, 0, 2⟩, ⟨.satisfaction, 3, 5⟩, ⟨.experience, 3, 1⟩,
          ⟨.enrollment, 2, 1⟩, ⟨.satisfaction, 5, 3⟩] ∧
      replay (comeAndGo.resolve .staff .opening).1.changes .opening = some ⟨1, 1, 3, 3⟩ ∧
      (comeAndGo.resolve .staff .opening).1.net = [(.experience, 1), (.enrollment, 1)] ∧
      (.experience, 1) ∈ (comeAndGo.resolve .staff .opening).1.net ∧
      Points.Covers (Change.realized ⟨.experience, 3, 1⟩) ∧
      Points.Covers 3 := by
  have hchanges : (comeAndGo.resolve .staff .opening).1.changes =
      [⟨.experience, 0, 3⟩, ⟨.enrollment, 0, 2⟩, ⟨.satisfaction, 3, 5⟩, ⟨.experience, 3, 1⟩,
        ⟨.enrollment, 2, 1⟩, ⟨.satisfaction, 5, 3⟩] := by decide
  obtain ⟨hreplay, _, hnet, hcovers, hsums⟩ :=
    comeAndGo.report_accounts .staff Stats.valid_opening
  -- The sum of the trial lessons before they are lost.
  have hsum := hsums [⟨.experience, 0, 3⟩, ⟨.enrollment, 0, 2⟩]
    (hchanges ▸ List.prefix_append _ _) .experience 3 (by decide)
  exact ⟨Stats.valid_opening, hchanges, hreplay.trans (by decide), by decide,
    (hnet .experience 1).mpr (by decide), hcovers _ (hchanges ▸ by decide), hsum⟩

end Effect

end CramSchool
