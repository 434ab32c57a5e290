/-
  How far the advice on a card agrees with a play of it.

  The advice and a play ask the same question about the role, so the advice allows a card exactly
  if the play goes through. About the conditions of the blocks they ask at different stats. The
  advice asks about all of them at the stats as they are. A play asks about each at the stats
  that the base changes and the earlier blocks leave (`Effect.statsAt`). A change of the card
  itself can come between, and then the advice lists a condition whose block fires, or none
  although a block does not fire (`preview_overlooks_own_changes`).

  The advice is right about a play exactly if no condition is different when it is checked
  (`Card.accurate_preview_iff`). That is so for every effect in which no condition is about a
  stat that something before it can move (`Effect.Steady`), since what is not touched keeps its
  value (`Effect.get_statsAt`).

  Main result: `Card.preview_and_play`.
-/
import CramSchool.Effect.Preview
import CramSchool.Proofs.Effect.Firing
import CramSchool.Proofs.Effect.Play
import CramSchool.Proofs.Stats.Bounds

namespace CramSchool

/-! ## What advice should say -/

/-- The known conditions of the blocks whose indices are not listed, in the order of the sentence. -/
def Effect.passedOver (e : Effect) (fired : List Nat) : List Condition :=
  (e.blocks.zipIdx.filter fun x => !x.1.condition.isUnknown && !fired.contains x.2).map
    fun x => x.1.condition

/-- The advice is right about what a play did: it lists the known conditions of the blocks that did
    not fire. So all blocks with known conditions fired if it is clean, and none whose condition
    it lists. -/
structure Preview.Accurate (p : Preview) (e : Effect) (report : Report) : Prop where
  unmet_eq : p.unmet = e.passedOver report.fired
  fires_of_clean : p.isClean → ∀ i b, e.blocks[i]? = some b → ¬b.condition.isUnknown →
    i ∈ report.fired
  not_fires_of_unmet : ∀ i b, e.blocks[i]? = some b → b.condition ∈ p.unmet → i ∉ report.fired

/-- The advice on the first card is that its condition is not met, but the block fires, because the
    base change comes first. The advice on the second card is clean, but its block does not fire. -/
theorem preview_overlooks_own_changes :
    let gain : Card := ⟨.reception, .r, "面談", "", "満足+2、〈満足8以上〉経理+1。", none⟩
    let loss : Card := ⟨.reception, .r, "督促", "", "満足-2、〈満足8以上〉経理+1。", none⟩
    let gained : Report := ⟨[⟨.satisfaction, 6, 8⟩, ⟨.accounting, 3, 4⟩], [0]⟩
    let lost : Report := ⟨[⟨.satisfaction, 8, 6⟩], []⟩
    (Stats.Valid ⟨0, 0, 6, 3⟩ ∧
      (Memo.empty.play gain .teacher ⟨0, 0, 6, 3⟩).outcome = .ok gained ∧
      (gain.preview .teacher ⟨0, 0, 6, 3⟩).unmet = [.stat .satisfaction 8 .atLeast] ∧
      ¬(gain.preview .teacher ⟨0, 0, 6, 3⟩).Accurate (Effect.ofText gain.effect) gained) ∧
    Stats.Valid ⟨0, 0, 8, 3⟩ ∧
      (Memo.empty.play loss .teacher ⟨0, 0, 8, 3⟩).outcome = .ok lost ∧
      (loss.preview .teacher ⟨0, 0, 8, 3⟩).isClean ∧
      ¬(loss.preview .teacher ⟨0, 0, 8, 3⟩).Accurate (Effect.ofText loss.effect) lost := by
  refine ⟨⟨by decide, rfl, by decide, fun h => ?_⟩, by decide, rfl, by decide, fun h => ?_⟩
  · exact absurd h.unmet_eq (by decide)
  · exact absurd h.unmet_eq (by decide)

/-! ## Stats that are not touched -/

/-- The stat that the delta writes. -/
def Delta.stat : Delta → Stat
  | .setTo k _ => k
  | .changeBy k _ => k

/-- Whether the delta can move a stat: it writes it, or it writes the experience, which caps the
    enrollment. -/
def Delta.touches (d : Delta) (k : Stat) : Bool :=
  d.stat = k || (d.stat = .experience && k = .enrollment)

theorem Delta.get_apply {s : Stats} (h : s.Valid) {d : Delta} {k : Stat} (hd : ¬d.touches k) :
    (d.apply s).2.get k = s.get k := by
  have hd' : d.stat ≠ k ∧ ¬(d.stat = .experience ∧ k = .enrollment) := by
    simpa [touches] using hd
  cases d with
  | setTo j value => exact Stats.get_write_of_ne h hd'.1 hd'.2 _
  | changeBy j amount => exact Stats.get_write_of_ne h hd'.1 hd'.2 _

theorem get_applyAll {s : Stats} (h : s.Valid) {deltas : List Delta} {k : Stat}
    (hdeltas : ∀ d ∈ deltas, ¬d.touches k) : (applyAll deltas s).2.get k = s.get k := by
  induction deltas generalizing s with
  | nil => rfl
  | cons d rest ih =>
      obtain ⟨hd, hrest⟩ := List.forall_mem_cons.mp hdeltas
      rw [applyAll_cons]
      exact (ih (d.valid_apply h) hrest).trans (d.get_apply h hd)

/-- A stat that nothing before a block touches is the same when the block is checked. -/
theorem Effect.get_statsAt {s : Stats} (h : s.Valid) (e : Effect) (role : Role) {i : Nat}
    {k : Stat} (hk : ∀ d ∈ e.base ++ (e.blocks.take i).flatMap Block.deltas, ¬d.touches k) :
    (e.statsAt role s i).get k = s.get k := by
  obtain ⟨deltas, hsublist, hdeltas⟩ :=
    exists_deltas_resolve { e with blocks := e.blocks.take i } role s
  have hget := get_applyAll h fun d hd => hk d (hsublist.subset hd)
  rw [hdeltas] at hget
  exact hget

/-- The stat that a condition is about, if it is about one. -/
def Condition.stat? : Condition → Option Stat
  | .stat k _ _ => some k
  | _ => none

theorem Condition.holds_congr {c : Condition} {s t : Stats}
    (h : ∀ k ∈ c.stat?, s.get k = t.get k) (role : Role) : c.holds role s = c.holds role t := by
  cases c with
  | role roles => rfl
  | stat k threshold comparator =>
      show comparator.holds (s.get k) threshold = comparator.holds (t.get k) threshold
      rw [h k rfl]
  | unknown raw => rfl

theorem Condition.holds_of_isUnknown {c : Condition} (h : c.isUnknown) (role : Role) (s : Stats) :
    c.holds role s = false := by
  cases c with
  | unknown raw => rfl
  | _ => exact nomatch h

/-- No condition of the effect is about a stat that something before it can move. -/
def Effect.Steady (e : Effect) : Prop :=
  ∀ x ∈ e.blocks.zipIdx, ∀ k ∈ x.1.condition.stat?,
    ∀ d ∈ e.base ++ (e.blocks.take x.2).flatMap Block.deltas, ¬d.touches k

instance (e : Effect) : Decidable e.Steady :=
  inferInstanceAs (Decidable (∀ x ∈ e.blocks.zipIdx, ∀ k ∈ x.1.condition.stat?,
    ∀ d ∈ e.base ++ (e.blocks.take x.2).flatMap Block.deltas, ¬d.touches k))

/-- Each condition of the effect holds when its block is checked if it holds now, and only then. -/
def Effect.Undisturbed (e : Effect) (role : Role) (s : Stats) : Prop :=
  ∀ (i : Nat) (b : Block), e.blocks[i]? = some b →
    b.condition.holds role (e.statsAt role s i) = b.condition.holds role s

/-- No condition of a steady effect changes until it is checked. -/
theorem Effect.Steady.undisturbed {e : Effect} (he : e.Steady) {s : Stats} (h : s.Valid)
    (role : Role) : e.Undisturbed role s := by
  intro i b hb
  refine Condition.holds_congr (fun k hk => ?_) role
  exact e.get_statsAt h role (he (b, i) (List.mk_mem_zipIdx_iff_getElem?.mpr hb) k hk)

/-! ## Advice on a card -/

/-- If two filters of a list leave the same values, and the first looks at nothing but the value,
    they keep the same elements. -/
theorem eq_of_map_filter_eq {α β : Type} {f : α → β} {p : β → Bool} {q : α → Bool} {l : List α}
    (h : (l.filter fun x => p (f x)).map f = (l.filter q).map f) :
    ∀ x ∈ l, q x = p (f x) := by
  have himp : ∀ x ∈ l, q x → p (f x) := by
    intro x hx hq
    have hvalue : f x ∈ (l.filter fun x => p (f x)).map f :=
      h ▸ List.mem_map_of_mem (List.mem_filter.mpr ⟨hx, hq⟩)
    obtain ⟨y, hy, hyx⟩ := List.mem_map.mp hvalue
    exact hyx ▸ (List.mem_filter.mp hy).2
  have hinner : (l.filter fun x => p (f x)).filter q = l.filter q := by
    rw [List.filter_filter]
    refine List.filter_congr fun x hx => ?_
    rw [Bool.and_eq_left_iff_imp]
    exact himp x hx
  -- The second filter takes nothing more out of what the first one keeps.
  have hkept : (l.filter fun x => p (f x)).filter q = l.filter fun x => p (f x) := by
    refine List.filter_sublist.eq_of_length ?_
    have hlength := congrArg List.length h
    rw [List.length_map, List.length_map] at hlength
    rw [hinner, hlength]
  intro x hx
  refine Bool.eq_iff_iff.mpr ⟨himp x hx, fun hp => ?_⟩
  exact List.filter_eq_self.mp hkept x (List.mem_filter.mpr ⟨hx, hp⟩)

namespace Card

theorem unmet_preview_eq (card : Card) (role : Role) (s : Stats) :
    (card.preview role s).unmet =
      ((Effect.ofText card.effect).blocks.zipIdx.filter fun x =>
        !x.1.condition.isUnknown && !x.1.condition.holds role s).map fun x => x.1.condition := by
  have hblocks : (Effect.ofText card.effect).blocks.map Block.condition =
      (Effect.ofText card.effect).blocks.zipIdx.map fun x => x.1.condition :=
    calc (Effect.ofText card.effect).blocks.map Block.condition
      _ = ((Effect.ofText card.effect).blocks.zipIdx.map Prod.fst).map Block.condition := by
          rw [List.zipIdx_map_fst]
      _ = _ := List.map_map
  show ((Effect.ofText card.effect).blocks.map Block.condition).filter _ = _
  rw [hblocks, List.filter_map]
  rfl

theorem mem_unmet_preview_iff {card : Card} {role : Role} {s : Stats} {i : Nat} {b : Block}
    (hb : (Effect.ofText card.effect).blocks[i]? = some b) :
    b.condition ∈ (card.preview role s).unmet ↔
      ¬b.condition.isUnknown ∧ ¬b.condition.holds role s := by
  show b.condition ∈ ((Effect.ofText card.effect).blocks.map Block.condition).filter _ ↔ _
  rw [List.mem_filter, and_iff_right (List.mem_map_of_mem (List.mem_of_getElem? hb))]
  simp

/-- The advice is right about a play exactly if no condition changes until it is checked. -/
theorem accurate_preview_iff (card : Card) (role : Role) (s : Stats) :
    (card.preview role s).Accurate (Effect.ofText card.effect)
        ((Effect.ofText card.effect).resolve role s).1 ↔
      (Effect.ofText card.effect).Undisturbed role s := by
  constructor
  · intro haccurate i b hb
    have hlists := (unmet_preview_eq card role s).symm.trans haccurate.unmet_eq
    have hsame := eq_of_map_filter_eq (f := fun x : Block × Nat => x.1.condition)
      (p := fun c => !c.isUnknown && !c.holds role s) hlists (b, i)
      (List.mk_mem_zipIdx_iff_getElem?.mpr hb)
    cases hunknown : b.condition.isUnknown with
    | true => rw [Condition.holds_of_isUnknown hunknown, Condition.holds_of_isUnknown hunknown]
    | false =>
        simp only [hunknown, Bool.not_false, Bool.true_and] at hsame
        rw [← Bool.not_inj hsame, Bool.eq_iff_iff, List.contains_iff_mem]
        exact (Effect.mem_fired_iff_holds hb role s).symm
  · intro hsame
    have hfires : ∀ (i : Nat) (b : Block), (Effect.ofText card.effect).blocks[i]? = some b →
        (i ∈ ((Effect.ofText card.effect).resolve role s).1.fired ↔
          b.condition.holds role s) := fun i b hb => by
      rw [Effect.mem_fired_iff_holds hb, hsame i b hb]
    refine ⟨?_, fun hclean i b hb hknown => ?_, fun i b hb hunmet hmem => ?_⟩
    · rw [unmet_preview_eq]
      refine congrArg _ (List.filter_congr fun x hx => ?_)
      have hx' := hfires x.2 x.1 (List.mk_mem_zipIdx_iff_getElem?.mp hx)
      rw [← List.contains_iff_mem, ← Bool.eq_iff_iff] at hx'
      rw [hx']
    · have hempty := List.isEmpty_iff.mp (Bool.and_eq_true_iff.mp hclean).2
      have hnotin : b.condition ∉ (card.preview role s).unmet := hempty ▸ List.not_mem_nil
      rw [mem_unmet_preview_iff hb, not_and, Decidable.not_not] at hnotin
      exact (hfires i b hb).mpr (hnotin hknown)
    · exact ((mem_unmet_preview_iff hb).mp hunmet).2 ((hfires i b hb).mp hmem)

/-- Advice on a card and a play of it, at the same stats. The advice allows the card exactly if the play
    goes through, on any memory. Then a block fires exactly if its condition holds at the stats at
    which it is checked, and the advice is right about the play exactly if no condition of the
    effect changes until it is checked. In particular it is right about every play of a card
    whose effect is steady. -/
theorem preview_and_play {card : Card} (htext : card.effect ≠ "") (role : Role) {s : Stats}
    (h : s.Valid) (m : Memo) :
    let e := Effect.ofText card.effect
    ((card.preview role s).allowed ↔ ∃ report, (m.play card role s).outcome = .ok report) ∧
      ∀ report, (m.play card role s).outcome = .ok report →
        (∀ i, i ∈ report.fired ↔
          ∃ b, e.blocks[i]? = some b ∧ b.condition.holds role (e.statsAt role s i)) ∧
        ((card.preview role s).Accurate e report ↔ e.Undisturbed role s) ∧
        (e.Steady → (card.preview role s).Accurate e report) := by
  intro e
  have houtcome : (m.play card role s).outcome =
      if e.allows role then .ok (e.resolve role s).1
      else .error (.roleRestricted card.name role e.restrictions) := by
    rw [Memo.outcome_play]
    exact if_pos (decide_eq_true htext)
  have hallowed : (card.preview role s).allowed = e.allows role := rfl
  rw [houtcome, hallowed]
  by_cases hallows : e.allows role
  · rw [if_pos hallows]
    refine ⟨iff_of_true hallows ⟨_, rfl⟩, fun report hreport => ?_⟩
    obtain rfl := Except.ok.inj hreport
    have haccurate := card.accurate_preview_iff role s
    exact ⟨e.mem_fired_iff role s, haccurate, fun he => haccurate.mpr (he.undisturbed h role)⟩
  · rw [if_neg hallows]
    exact ⟨iff_of_false hallows (fun ⟨_, hok⟩ => nomatch hok), fun _ hok => nomatch hok⟩

/-- A card with three conditions, none about what the card itself changes before. -/
def excursion : Card :=
  ⟨.outreach, .sr, "遠足", "",
    "【講師・事務】体験+1。〈講師〉満足+2。〈経理5以上〉入塾+1。〈雨の日〉満足-1", none⟩

/-- The advice lists the one known condition that is not met, and its block does not fire. -/
theorem excursion_preview_and_play :
    excursion.effect ≠ "" ∧ Stats.opening.Valid ∧ (Effect.ofText excursion.effect).Steady ∧
      ∃ report, (Memo.empty.play excursion .teacher .opening).outcome = .ok report ∧
        report.fired = [0] ∧
        (excursion.preview .teacher .opening).unmet = [.stat .accounting 5 .atLeast] ∧
        (excursion.preview .teacher .opening).Accurate (Effect.ofText excursion.effect) report := by
  have htext : excursion.effect ≠ "" := by decide
  have hsteady : (Effect.ofText excursion.effect).Steady := by decide
  obtain ⟨hallowed, hreports⟩ :=
    preview_and_play htext .teacher Stats.valid_opening Memo.empty
  obtain ⟨report, hreport⟩ := hallowed.mp (by decide)
  obtain ⟨_, _, haccurate⟩ := hreports report hreport
  have hfired : report.fired = [0] := by
    have hplay : (Memo.empty.play excursion .teacher .opening).outcome =
        .ok ⟨[⟨.experience, 0, 1⟩, ⟨.satisfaction, 3, 5⟩], [0]⟩ := rfl
    rw [← Except.ok.inj (hplay.symm.trans hreport)]
  exact ⟨htext, Stats.valid_opening, hsteady, report, hreport, hfired, by decide,
    haccurate hsteady⟩

end Card

end CramSchool
