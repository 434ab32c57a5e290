/-
  Plays in order on one memory.

  A play finds its sentence in the memory or reads it, and leaves the memory to the next one
  (`Memo.playAll`). So a play can be one of many, and what it comes to could depend on those
  before it. It does not: a play is `Exact` on every memory (`Memo.exact_play`), which says when
  it is rejected and why, that a rejected play changes no stat, and that any other comes to the
  effect of the sentence as read.

  The memory at the end is known as well. A sentence is in it exactly if it was there before or
  a play needed it, and it comes with its reading (`Memo.entries_playAll`).

  Main result: `Memo.plays_stand_alone`.
-/
import CramSchool.Proofs.Effect.Play
import Mathlib.Data.List.Forall2

namespace CramSchool

/-! ## Plays -/

/-- A card, the role that plays it and the stats it is played at. -/
structure Play where
  card : Card
  role : Role
  stats : Stats

/-- The effect that the sentence of the card describes. -/
def Play.effect (p : Play) : Effect := Effect.ofText p.card.effect

/-- Plays cards in order, each with the memory that the ones before it left. Gives what each came
    to and the memory at the end. -/
def Memo.playAll (m : Memo) : List Play → List Played × Memo
  | [] => ([], m)
  | p :: rest =>
    let played := m.play p.card p.role p.stats
    let (more, final) := played.memo.playAll rest
    (played :: more, final)

/-- The play came to what its card, its role and its stats say, and nothing else had a part
    in it. -/
structure Play.Exact (p : Play) (x : Played) : Prop where
  empty_iff : (∃ name, x.outcome = .error (.emptyEffect name)) ↔ p.card.effect = ""
  restricted_iff : (∃ name role allowed, x.outcome = .error (.roleRestricted name role allowed)) ↔
    p.effect.restrictions ≠ [] ∧ p.role ∉ p.effect.restrictions
  /-- The rejection names the card, and the roles that may play it as they are read. -/
  rejected : ∀ reason, x.outcome = .error reason → x.stats = p.stats ∧
    (reason = .emptyEffect p.card.name ∨
      reason = .roleRestricted p.card.name p.role p.effect.restrictions)
  resolved : p.card.effect ≠ "" → (p.effect.restrictions = [] ∨ p.role ∈ p.effect.restrictions) →
    x.outcome = .ok (p.effect.resolve p.role p.stats).1 ∧
      x.stats = (p.effect.resolve p.role p.stats).2
  /-- Any other memory gives the same. -/
  any_memory : ∀ m : Memo, (m.play p.card p.role p.stats).outcome = x.outcome ∧
    (m.play p.card p.role p.stats).stats = x.stats
  /-- So does a play without a memory. -/
  once : p.card.play p.role p.stats = (x.applied, x.stats)

/-! ## The gate -/

theorem Card.hasEffect_iff (card : Card) : card.hasEffect ↔ card.effect ≠ "" := decide_eq_true_iff

theorem Effect.allows_iff (e : Effect) (role : Role) :
    e.allows role ↔ e.restrictions = [] ∨ role ∈ e.restrictions := by
  unfold allows
  rw [Bool.or_eq_true, List.isEmpty_iff, List.contains_iff_mem]

theorem Effect.not_allows_iff (e : Effect) (role : Role) :
    ¬e.allows role ↔ e.restrictions ≠ [] ∧ role ∉ e.restrictions := by
  rw [allows_iff, not_or]

/-- No text, no restriction. -/
theorem Effect.restrictions_ofText_empty : (Effect.ofText "").restrictions = [] := rfl

/-- A play has one of three outcomes, and which one is said by the sentence and the role. -/
theorem Card.outcome_cases (card : Card) (role : Role) (s : Stats) :
    (card.effect = "" ∧ card.outcome role s = .error (.emptyEffect card.name) ∧
      card.statsAfter role s = s) ∨
    (card.effect ≠ "" ∧ ¬(Effect.ofText card.effect).allows role ∧
      card.outcome role s =
        .error (.roleRestricted card.name role (Effect.ofText card.effect).restrictions) ∧
      card.statsAfter role s = s) ∨
    (card.effect ≠ "" ∧ (Effect.ofText card.effect).allows role ∧
      card.outcome role s = .ok ((Effect.ofText card.effect).resolve role s).1 ∧
      card.statsAfter role s = ((Effect.ofText card.effect).resolve role s).2) := by
  unfold outcome statsAfter
  by_cases htext : card.effect = ""
  · have heffect : ¬card.hasEffect := fun h => card.hasEffect_iff.mp h htext
    exact .inl ⟨htext, if_neg heffect, if_neg fun h => heffect h.1⟩
  · have heffect : card.hasEffect := card.hasEffect_iff.mpr htext
    rw [if_pos heffect]
    by_cases hallows : (Effect.ofText card.effect).allows role
    · exact .inr (.inr ⟨htext, hallows, if_pos hallows, if_pos ⟨heffect, hallows⟩⟩)
    · exact .inr (.inl ⟨htext, hallows, if_neg hallows, if_neg fun h => hallows h.2⟩)

/-! ## One play -/

namespace Memo

theorem exact_play (m : Memo) (p : Play) : p.Exact (m.play p.card p.role p.stats) where
  empty_iff := by
    rw [outcome_play]
    obtain ⟨htext, ho, _⟩ | ⟨htext, _, ho, _⟩ | ⟨htext, _, ho, _⟩ :=
      p.card.outcome_cases p.role p.stats <;> simp [ho, htext]
  restricted_iff := by
    rw [outcome_play, ← Effect.not_allows_iff]
    obtain ⟨htext, ho, _⟩ | ⟨_, hallows, ho, _⟩ | ⟨_, hallows, ho, _⟩ :=
      p.card.outcome_cases p.role p.stats
    · have hfree : p.effect.restrictions = [] := by
        rw [Play.effect, htext, Effect.restrictions_ofText_empty]
      have hallows : p.effect.allows p.role := (p.effect.allows_iff p.role).mpr (.inl hfree)
      simp [ho, hallows]
    · simp [ho, Play.effect, hallows]
    · simp [ho, Play.effect, hallows]
  rejected := by
    intro reason hreason
    rw [outcome_play] at hreason
    rw [stats_play]
    obtain ⟨_, ho, hs⟩ | ⟨_, _, ho, hs⟩ | ⟨_, _, ho, _⟩ := p.card.outcome_cases p.role p.stats
    · exact ⟨hs, .inl (Except.error.inj (hreason.symm.trans ho))⟩
    · exact ⟨hs, .inr (Except.error.inj (hreason.symm.trans ho))⟩
    · exact nomatch hreason.symm.trans ho
  resolved := by
    intro htext hroles
    have hallows : p.effect.allows p.role := (p.effect.allows_iff p.role).mpr hroles
    rw [outcome_play, stats_play]
    obtain ⟨hempty, _⟩ | ⟨_, hnot, _⟩ | ⟨_, _, ho, hs⟩ := p.card.outcome_cases p.role p.stats
    · exact absurd hempty htext
    · exact absurd hallows hnot
    · exact ⟨ho, hs⟩
  any_memory := by
    intro other
    rw [outcome_play, outcome_play, stats_play, stats_play]
    exact ⟨rfl, rfl⟩
  once := by
    unfold Card.play Played.applied
    dsimp only
    rw [outcome_play, outcome_play, stats_play, stats_play]

/-! ## What a play leaves in the memory -/

/-- A sentence asked for is in the memory afterwards, and nothing else is new. -/
theorem entries_recall (m : Memo) (sentence text : String) (e : Effect) :
    (m.recall sentence).2.entries[text]? = some e ↔
      m.entries[text]? = some e ∨ text = sentence ∧ e = Effect.ofText text := by
  unfold Memo.recall
  split
  · next found hfound =>
      -- It was there already, with its reading.
      constructor
      · exact .inl
      · rintro (h | ⟨rfl, rfl⟩)
        · exact h
        · exact hfound.trans (congrArg some (m.sound text found hfound))
  · next hmissing =>
      show (m.entries.insert sentence (Effect.ofText sentence))[text]? = some e ↔ _
      rw [Std.TreeMap.getElem?_insert]
      by_cases htext : text = sentence
      · subst htext
        simp [hmissing, eq_comm]
      · have hne : compare sentence text ≠ .eq := fun h =>
          htext (Std.LawfulEqCmp.eq_of_compare h).symm
        simp [hne, htext]

/-- A card without a sentence leaves the memory alone. -/
theorem memo_play (m : Memo) (card : Card) (role : Role) (s : Stats) :
    (m.play card role s).memo = if card.hasEffect then (m.recall card.effect).2 else m := by
  unfold play
  split
  · dsimp only
    split <;> rfl
  · rfl

theorem entries_play (m : Memo) (p : Play) (text : String) (e : Effect) :
    (m.play p.card p.role p.stats).memo.entries[text]? = some e ↔
      m.entries[text]? = some e ∨ text ≠ "" ∧ p.card.effect = text ∧ e = Effect.ofText text := by
  rw [memo_play]
  by_cases hempty : p.card.effect = ""
  · have heffect : ¬p.card.hasEffect := fun h => p.card.hasEffect_iff.mp h hempty
    have hunasked : ¬(text ≠ "" ∧ p.card.effect = text ∧ e = Effect.ofText text) :=
      fun ⟨hne, heq, _⟩ => hne (heq.symm.trans hempty)
    rw [if_neg heffect, or_iff_left hunasked]
  · rw [if_pos (p.card.hasEffect_iff.mpr hempty), entries_recall]
    have hasked : (text = p.card.effect ∧ e = Effect.ofText text) ↔
        text ≠ "" ∧ p.card.effect = text ∧ e = Effect.ofText text :=
      ⟨fun ⟨heq, he⟩ => ⟨heq ▸ hempty, heq.symm, he⟩, fun ⟨_, heq, he⟩ => ⟨heq.symm, he⟩⟩
    rw [hasked]

/-! ## Plays in order -/

theorem exact_playAll (m : Memo) (plays : List Play) :
    List.Forall₂ Play.Exact plays (m.playAll plays).1 := by
  induction plays generalizing m with
  | nil => exact .nil
  | cons p rest ih => exact .cons (m.exact_play p) (ih _)

/-- The memory grows by the sentences that the plays needed, each with its reading. -/
theorem entries_playAll (m : Memo) (plays : List Play) (text : String) (e : Effect) :
    (m.playAll plays).2.entries[text]? = some e ↔
      m.entries[text]? = some e ∨
        text ≠ "" ∧ (∃ p ∈ plays, p.card.effect = text) ∧ e = Effect.ofText text := by
  induction plays generalizing m with
  | nil => simp [playAll]
  | cons p rest ih =>
      show ((m.play p.card p.role p.stats).memo.playAll rest).2.entries[text]? = some e ↔ _
      rw [ih, entries_play, List.exists_mem_cons_iff]
      grind

/-- A play on a memory that others used is the plain play of its card. For every sequence of plays
    on one memory, empty at first, each is rejected for want of a sentence exactly if its card has
    none, and for its role exactly if the sentence has a restriction without that role, which the
    rejection carries. A rejected play changes no stat. Every other one gives the report and the
    stats of the effect as read. No other history would have changed any of this, nor would playing
    the card once without a memory. At the end the memory holds the reading of every sentence that
    was needed, and no other entry. -/
theorem plays_stand_alone (plays : List Play) :
    List.Forall₂ Play.Exact plays (empty.playAll plays).1 ∧
      ∀ text e, (empty.playAll plays).2.entries[text]? = some e ↔
        text ≠ "" ∧ (∃ p ∈ plays, p.card.effect = text) ∧ e = Effect.ofText text := by
  refine ⟨exact_playAll empty plays, fun text e => ?_⟩
  have hnothing : ¬empty.entries[text]? = some e := by simp [empty]
  rw [entries_playAll, or_iff_right hnothing]

end Memo

/-- A teacher may not play this card, the leader may; the sentence is remembered once. -/
example :
    let card : Card := ⟨.outreach, .r, "説明会", "", "【室長】満足度+1。", none⟩
    let x := Memo.empty.playAll [⟨card, .teacher, .opening⟩, ⟨card, .leader, .opening⟩]
    x.1.map Played.applied = [false, true] ∧ x.2.size = 1 := by decide

end CramSchool
