/-
  What is read from a sentence is well-formed.

  Whatever the text, its reading names no role twice, sets at most one stat to a value and does so
  first, has no negative value or threshold, and no amount that has no counterpart of the other
  sign. This goes through the phrases: a number is never negative, since its digits have no sign
  (`Phrase.gives_number`), and what a phrase gives is built from its number.

  A condition is one of three things (`Condition.ofText_cases`). If it is unknown, its text is
  trimmed and is read as unknown once more.
-/
import CramSchool.Proofs.Effect.Shares
import CramSchool.Proofs.Effect.Spans

namespace CramSchool

open Text Pattern

/-! ## Well-formed effects -/

/-- Roles are named, each once; a threshold has no sign; an unknown text is what stands between the
    brackets without blanks at its ends, and is not known after all. -/
def Condition.WellFormed : Condition → Prop
  | .role roles => roles ≠ [] ∧ roles.Nodup
  | .stat _ threshold _ => 0 ≤ threshold.val
  | .unknown raw =>
    trim raw.toList = raw.toList ∧ Marker.conditionClose ∉ raw.toList ∧
      Condition.ofText raw.toList = .unknown raw

/-- An unknown text that is trimmed has no blank at its ends. -/
theorem Condition.WellFormed.ends_unknown {raw : String} (h : (Condition.unknown raw).WellFormed) :
    (∀ c ∈ raw.toList.head?, isBlank c = false) ∧ ∀ c ∈ raw.toList.getLast?, isBlank c = false :=
  trim_eq_self_iff.mp h.1

/-- No role is restricted to twice, the changes of base and blocks are such as their wording
    tells, and every condition is well-formed. -/
structure Effect.WellFormed (e : Effect) : Prop where
  restrictions : e.restrictions.Nodup
  base : AuthorableChanges e.base
  conditions : ∀ b ∈ e.blocks, b.condition.WellFormed
  deltas : ∀ b ∈ e.blocks, AuthorableChanges b.deltas

/-! ## Changes -/

namespace Phrase

theorem gives_number : Gives (fun v => 0 ≤ v.val) number := by
  refine (gives_run Char.isDigit).bind_of fun digits hdigits => ?_
  split
  · exact gives_never
  · refine gives_pure ?_
    rw [Decimal.val_read hdigits]
    omega

theorem gives_sign : Gives (fun n => n = 1 ∨ n = -1) sign :=
  .bind _ fun plus => gives_pure (by cases plus <;> decide)

theorem authorable_setTo : Gives Delta.Authorable setTo :=
  .bind _ fun _ => .bind _ fun _ => gives_number.bind_of fun _ hvalue => .bind _ fun _ =>
    gives_pure hvalue

/-- The greatest number has a counterpart below zero, and that is not the least of the range. -/
theorem authorable_changeBy : Gives Delta.Authorable changeBy := by
  refine .bind _ fun _ => gives_sign.bind_of fun n hn => gives_number.bind_of fun v hv => ?_
  refine gives_pure ?_
  show (Points.saturate (n * v.val)).val ≠ -9223372036854775808
  have hle := v.le_greatest
  rcases hn with rfl | rfl
  · rw [Points.saturate_of_mem (by omega) (by omega)]
    omega
  · rw [Points.saturate_of_mem (by omega) (by omega)]
    omega

theorem gives_threshold :
    Gives (fun c => ∃ k v comparator, c = Condition.stat k v comparator ∧ 0 ≤ v.val) threshold :=
  .bind _ fun k => gives_number.bind_of fun v hv => .bind _ fun comparator =>
    gives_pure ⟨k, v, comparator, rfl, hv⟩

end Phrase

theorem authorable_deltasOf (text : List Char) : AuthorableChanges (deltasOf text) where
  each := by
    refine List.forall_mem_append.mpr ⟨fun d hd => ?_, ?_⟩
    · exact Phrase.authorable_setTo.of_findFirst? d (Option.mem_toList.mp hd)
    · exact Phrase.authorable_changeBy.of_mem_values
  setTo_first := by
    have hchanges : ∀ d ∈ Phrase.changeBy.values text, d.isSetTo = false :=
      Phrase.gives_changeBy.of_mem_values
    unfold deltasOf
    cases Phrase.setTo.findFirst? text with
    | none => exact fun d hd => hchanges d (List.mem_of_mem_tail hd)
    | some set => exact hchanges

/-! ## Roles -/

theorem nodup_eraseDups (roles : List Role) : roles.eraseDups.Nodup := by
  induction hlength : roles.length using Nat.strongRecOn generalizing roles with
  | ind n ih =>
      cases roles with
      | nil => exact List.nodup_nil
      | cons role roles =>
          have hshorter : (roles.filter fun other => !other == role).length < n := by
            rw [← hlength]
            exact Nat.lt_succ_of_le (List.length_filter_le _ _)
          rw [List.eraseDups_cons, List.nodup_cons]
          exact ⟨by simp, ih _ hshorter _ rfl⟩

theorem nodup_rolesOf (text : List Char) : (rolesOf text).Nodup := nodup_eraseDups _

/-! ## Conditions -/

/-- A text names roles, or has a threshold in it, or is unknown. -/
theorem Condition.ofText_cases (text : List Char) :
    (∃ roles, Condition.ofText text = .role roles ∧ roles ≠ [] ∧ roles.Nodup) ∨
    (∃ k v comparator, Condition.ofText text = .stat k v comparator ∧ 0 ≤ v.val) ∨
    Condition.ofText text = .unknown (String.ofList text) := by
  unfold Condition.ofText
  have hnodup := nodup_rolesOf text
  cases hroles : rolesOf text with
  | cons first more =>
      rw [hroles] at hnodup
      exact .inl ⟨first :: more, rfl, List.cons_ne_nil _ _, hnodup⟩
  | nil =>
      cases hfirst : Phrase.threshold.findFirst? text with
      | none => exact .inr (.inr rfl)
      | some condition =>
          obtain ⟨k, v, comparator, rfl, hv⟩ := Phrase.gives_threshold.of_findFirst? _ hfirst
          exact .inr (.inl ⟨k, v, comparator, rfl, hv⟩)

theorem Condition.wellFormed_ofText {w : List Char} (h : Marker.conditionClose ∉ w) :
    (Condition.ofText (trim w)).WellFormed := by
  obtain ⟨roles, heq, hroles⟩ | ⟨k, v, comparator, heq, hv⟩ | heq :=
    Condition.ofText_cases (trim w)
  · rw [heq]
    exact hroles
  · rw [heq]
    exact hv
  · rw [heq]
    unfold Condition.WellFormed
    dsimp only
    rw [String.toList_ofList]
    exact ⟨trim_trim w, fun hc => h (mem_of_mem_trim hc), heq⟩

/-! ## Effects -/

/-- The first closing bracket ends a condition. -/
theorem closed_gate (least : Nat) :
    Gives (fun g => Marker.conditionClose ∉ g.condition) (gate least) := by
  intro text g width h
  obtain ⟨_, _, rest, hstands, _⟩ := gate_eq_some_iff.mp h
  exact hstands.closed

/-- What is read from a sentence is well-formed, whatever the sentence. -/
theorem Effect.reading_wellFormed (text : String) : (Effect.ofText text).WellFormed where
  restrictions := by
    show (((restriction.values text.toList).head?.map rolesOf).getD []).Nodup
    cases (restriction.values text.toList).head? with
    | none => exact List.nodup_nil
    | some content => exact nodup_rolesOf content
  base := authorable_deltasOf _
  conditions := by
    intro b hb
    obtain ⟨g, hg, rfl⟩ := List.mem_map.mp hb
    exact Condition.wellFormed_ofText ((closed_gate 1).of_mem_values g hg)
  deltas := by
    intro b hb
    obtain ⟨g, _, rfl⟩ := List.mem_map.mp hb
    exact authorable_deltasOf _

end CramSchool
