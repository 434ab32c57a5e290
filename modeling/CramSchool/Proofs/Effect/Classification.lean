/-
  Which condition a text states.

  A text is read as a list of roles, else as a threshold, else it is unknown. `Stated` says which
  of the three a text states, and with which content, without saying how it is read: the roles
  are those that an item of the list names, in the order in which they are named first
  (`rolesOf_eq`), and the threshold is the leftmost one that is written in the text.
  A text is read as the condition that it states (`Condition.ofText_eq_iff`), and so it states
  one condition and no other.

  The label of a condition is a text that states it again (`Condition.ofText_label_ofText`). For
  roles and thresholds it is how they are worded, and an unknown text is its own label.
-/
import CramSchool.Proofs.Effect.Occurrences
import CramSchool.Proofs.Effect.WellFormed
import Mathlib.Data.List.Induction
import Mathlib.Data.List.Perm.Basic

namespace CramSchool

open Text Pattern

/-! ## Roles named in a list -/

/-- Some item of the list is the word for the role, blanks around it aside. -/
def Role.NamedIn (role : Role) (text : List Char) : Prop :=
  ∃ item ∈ text.splitOn Marker.separator, trim item = role.label.toList

/-- Place of the first item of the list that is the word for the role. -/
def Role.firstNamed (text : List Char) (role : Role) : Nat :=
  (text.splitOn Marker.separator).findIdx fun item => trim item = role.label.toList

theorem ofLabel?_eq_some_iff {w : List Char} {role : Role} :
    Enumerated.ofLabel? (String.ofList w) = some role ↔ w = role.label.toList := by
  constructor
  · intro h
    have hlabel := beq_iff_eq.mp (List.find?_some (p := fun a => _ == String.ofList w) h)
    rw [← String.toList_ofList (l := w), ← hlabel]
    rfl
  · rintro rfl
    rw [String.ofList_toList]
    cases role <;> rfl

/-- A value at the end of a list is kept if it is new. -/
theorem eraseDups_concat {β : Type} [DecidableEq β] (xs : List β) (b : β) :
    (xs ++ [b]).eraseDups = if b ∈ xs then xs.eraseDups else xs.eraseDups ++ [b] := by
  rw [List.eraseDups_append]
  split
  · next hb => simp [List.removeAll, hb]
  · next hb => simp [List.removeAll, hb, List.eraseDups_cons]

section FirstPlace

variable {α β : Type} [DecidableEq β] {f : α → Option β} {xs : List α} {b : β}

theorem findIdx_lt_length_iff_mem :
    xs.findIdx (fun x => f x = some b) < xs.length ↔ b ∈ xs.filterMap f := by
  simp only [List.findIdx_lt_length, List.mem_filterMap, decide_eq_true_eq]

/-- What stands behind an element that gives the value does not move its first place. -/
theorem findIdx_concat_of_mem (hb : b ∈ xs.filterMap f) (x : α) :
    (xs ++ [x]).findIdx (fun x => f x = some b) = xs.findIdx fun x => f x = some b := by
  rw [List.findIdx_append, if_pos (findIdx_lt_length_iff_mem.mpr hb)]

theorem length_le_findIdx_of_notMem (hb : b ∉ xs.filterMap f) (rest : List α) :
    xs.length ≤ (xs ++ rest).findIdx fun x => f x = some b := by
  rw [List.findIdx_append, if_neg (findIdx_lt_length_iff_mem.not.mpr hb)]
  exact Nat.le_add_left _ _

/-- Repetitions are dropped, so each value stands where it was given first. -/
theorem pairwise_findIdx_eraseDups (f : α → Option β) (xs : List α) :
    (xs.filterMap f).eraseDups.Pairwise fun a b =>
      xs.findIdx (fun x => f x = some a) < xs.findIdx (fun x => f x = some b) := by
  induction xs using List.reverseRecOn with
  | nil => exact .nil
  | append_singleton xs x ih =>
      have hfront : (xs.filterMap f).eraseDups.Pairwise fun a b =>
          (xs ++ [x]).findIdx (fun x => f x = some a) <
            (xs ++ [x]).findIdx (fun x => f x = some b) := by
        refine ih.imp_of_mem fun {a b} ha hb hlt => ?_
        rw [findIdx_concat_of_mem (List.mem_eraseDups.mp ha),
          findIdx_concat_of_mem (List.mem_eraseDups.mp hb)]
        exact hlt
      rw [List.filterMap_append]
      cases hx : f x with
      | none =>
          rw [List.filterMap_cons_none hx, List.filterMap_nil, List.append_nil]
          exact hfront
      | some b =>
          rw [List.filterMap_cons_some hx, List.filterMap_nil, eraseDups_concat]
          split
          · exact hfront
          · next hb =>
              refine List.pairwise_append.mpr ⟨hfront, List.pairwise_singleton _ _, ?_⟩
              intro a ha c hc
              obtain rfl := List.mem_singleton.mp hc
              have hearlier := List.mem_eraseDups.mp ha
              rw [findIdx_concat_of_mem hearlier]
              exact Nat.lt_of_lt_of_le (findIdx_lt_length_iff_mem.mpr hearlier)
                (length_le_findIdx_of_notMem hb [x])

end FirstPlace

theorem mem_rolesOf_iff {text : List Char} {role : Role} :
    role ∈ rolesOf text ↔ role.NamedIn text := by
  unfold rolesOf Role.NamedIn
  simp only [List.mem_eraseDups, List.mem_filterMap, ofLabel?_eq_some_iff]

theorem pairwise_rolesOf (text : List Char) :
    (rolesOf text).Pairwise fun a b => a.firstNamed text < b.firstNamed text := by
  have hpairwise := pairwise_findIdx_eraseDups
    (fun item => Enumerated.ofLabel? (α := Role) (String.ofList (trim item)))
    (text.splitOn Marker.separator)
  simp only [ofLabel?_eq_some_iff] at hpairwise
  exact hpairwise

/-- There is one list of the roles named, in the order in which they are named first. -/
theorem rolesOf_eq {text : List Char} {roles : List Role}
    (hnamed : ∀ r, r ∈ roles ↔ r.NamedIn text)
    (horder : roles.Pairwise fun a b => a.firstNamed text < b.firstNamed text) :
    rolesOf text = roles := by
  have hnodup : roles.Nodup := by
    refine horder.imp fun {a b} hlt heq => ?_
    rw [heq] at hlt
    exact Nat.lt_irrefl _ hlt
  have hperm : (rolesOf text).Perm roles :=
    (List.perm_ext_iff_of_nodup (nodup_rolesOf text) hnodup).mpr fun r =>
      mem_rolesOf_iff.trans (hnamed r).symm
  refine hperm.eq_of_pairwise (fun a b _ _ hab hba => ?_) (pairwise_rolesOf text) horder
  exact absurd hab (Nat.lt_asymm hba)

theorem rolesOf_eq_nil_iff {text : List Char} :
    rolesOf text = [] ↔ ∀ r : Role, ¬r.NamedIn text := by
  rw [List.eq_nil_iff_forall_not_mem]
  exact forall_congr' fun r => not_congr mem_rolesOf_iff

/-! ## The condition of a text -/

namespace Condition

/-- The text states the condition. -/
inductive Stated (text : List Char) : Condition → Prop
  /-- Items name roles, which stand in the order in which they are named first. -/
  | role {roles : List Role} (hne : roles ≠ []) (hnamed : ∀ r, r ∈ roles ↔ r.NamedIn text)
      (horder : roles.Pairwise fun a b => a.firstNamed text < b.firstNamed text) :
      Stated text (.role roles)
  /-- No item names a role, but a threshold is written in the text. The leftmost counts. -/
  | threshold {m : Match Condition} (hnone : ∀ r : Role, ¬r.NamedIn text)
      (hm : IsLeftmost (StandsAt Phrase.Threshold text) m) : Stated text m.value
  /-- Neither is in the text. -/
  | unknown (hnone : ∀ r : Role, ¬r.NamedIn text)
      (hnowhere : ∀ m, ¬StandsAt Phrase.Threshold text m) :
      Stated text (.unknown (String.ofList text))

theorem ofText_of_roles {text : List Char} (h : rolesOf text ≠ []) :
    ofText text = .role (rolesOf text) := by
  unfold ofText
  cases hroles : rolesOf text with
  | nil => exact absurd hroles h
  | cons first more => rfl

theorem ofText_of_no_roles {text : List Char} (h : rolesOf text = []) :
    ofText text = (Phrase.threshold.findFirst? text).getD (.unknown (String.ofList text)) := by
  unfold ofText
  rw [h]

theorem findFirst?_threshold_iff {text : List Char} {c : Condition} :
    Phrase.threshold.findFirst? text = some c ↔
      ∃ m, IsLeftmost (StandsAt Phrase.Threshold text) m ∧ m.value = c :=
  Phrase.exact_threshold.findFirst?_eq_some_iff Phrase.headed_threshold

theorem findFirst?_threshold_eq_none_iff {text : List Char} :
    Phrase.threshold.findFirst? text = none ↔ ∀ m, ¬StandsAt Phrase.Threshold text m :=
  Phrase.exact_threshold.findFirst?_eq_none_iff Phrase.headed_threshold

/-- A text is read as the one condition that it states. -/
theorem ofText_eq_iff {text : List Char} {c : Condition} : ofText text = c ↔ Stated text c := by
  constructor
  · rintro rfl
    by_cases hroles : rolesOf text = []
    · have hnone := rolesOf_eq_nil_iff.mp hroles
      rw [ofText_of_no_roles hroles]
      cases hfirst : Phrase.threshold.findFirst? text with
      | none => exact .unknown hnone (findFirst?_threshold_eq_none_iff.mp hfirst)
      | some c =>
          obtain ⟨m, hm, rfl⟩ := findFirst?_threshold_iff.mp hfirst
          exact .threshold hnone hm
    · rw [ofText_of_roles hroles]
      exact .role hroles (fun _ => mem_rolesOf_iff) (pairwise_rolesOf text)
  · intro h
    cases h with
    | role hne hnamed horder =>
        obtain rfl := rolesOf_eq hnamed horder
        exact ofText_of_roles hne
    | threshold hnone hm =>
        rw [ofText_of_no_roles (rolesOf_eq_nil_iff.mpr hnone),
          findFirst?_threshold_iff.mpr ⟨_, hm, rfl⟩]
        rfl
    | unknown hnone hnowhere =>
        rw [ofText_of_no_roles (rolesOf_eq_nil_iff.mpr hnone),
          findFirst?_threshold_eq_none_iff.mpr hnowhere]
        rfl

theorem exists_ofText_eq_role_iff {text : List Char} :
    (∃ roles, ofText text = .role roles) ↔ ∃ role : Role, role.NamedIn text := by
  constructor
  · intro ⟨roles, h⟩
    have hne : rolesOf text ≠ [] := by
      intro hnil
      rw [ofText_of_no_roles hnil] at h
      cases hfirst : Phrase.threshold.findFirst? text with
      | none =>
          rw [hfirst] at h
          cases h
      | some c =>
          obtain ⟨k, v, comparator, rfl, _⟩ := Phrase.gives_threshold.of_findFirst? _ hfirst
          rw [hfirst] at h
          cases h
    obtain ⟨r, hr⟩ := List.exists_mem_of_ne_nil _ hne
    exact ⟨r, mem_rolesOf_iff.mp hr⟩
  · intro ⟨r, hr⟩
    exact ⟨_, ofText_of_roles (List.ne_nil_of_mem (mem_rolesOf_iff.mpr hr))⟩

/-! ## Labels -/

theorem toList_label (c : Condition) : c.label.toList = c.wording := String.toList_ofList

/-- The wording of a known condition has no blanks. -/
theorem trim_wording {c : Condition} (h : c.isUnknown = false) : trim c.wording = c.wording := by
  cases c with
  | role roles => exact trim_eq_self fun c hc => (inner_roleList roles c hc).1
  | stat k v comparator => exact trim_eq_self fun c hc => (lettered_threshold k v comparator c hc).1
  | unknown raw => cases h

/-- The label of what a text states, states it again. -/
theorem ofText_label_ofText {text : List Char} (h : text ≠ []) :
    ofText (ofText text).label.toList = ofText text := by
  rw [toList_label]
  obtain ⟨roles, heq, hroles⟩ | ⟨k, v, comparator, heq, hv⟩ | heq := ofText_cases text
  · have hread := @ofText_condition_wording (.role roles) hroles
    rw [trim_wording rfl] at hread
    rw [heq, hread]
  · have hread := @ofText_condition_wording (.stat k v comparator) hv
    rw [trim_wording rfl] at hread
    rw [heq, hread]
  · have hne : String.ofList text ≠ "" := fun he => h (String.ofList_eq_empty_iff.mp he)
    have hwording : (ofText text).wording = text := by
      rw [heq, wording, if_neg hne, String.toList_ofList]
    rw [hwording]

/-- Every text states one condition and is read as that one. It is about roles if and only if some
    item of the text, taken as a list, is the word for a role, and then it names the roles that
    items name, each once, in the order in which they are named first. Otherwise it is the
    leftmost threshold in the text, and if there is none, the text is unknown. The label of the
    condition is a text that is read as the same condition. -/
theorem ofText_classifies (text : List Char) :
    ((∃ roles, ofText text = .role roles) ↔ ∃ role : Role, role.NamedIn text) ∧
      (∀ c, ofText text = c ↔ Stated text c) ∧
      (text ≠ [] → ofText (ofText text).label.toList = ofText text) :=
  ⟨exists_ofText_eq_role_iff, fun _ => ofText_eq_iff, ofText_label_ofText⟩

/-- Blanks around an item, items that name nobody and repetitions do not count, and the label has
    none of them. -/
theorem rota_classifies :
    let text := "校長・事務　・室長・事務".toList
    text ≠ [] ∧ ofText text = .role [.staff, .leader] ∧
      (ofText text).label = "事務・室長" ∧ ofText "事務・室長".toList = ofText text := by
  intro text
  have hne : text ≠ [] := by decide
  obtain ⟨_, _, hlabel⟩ := ofText_classifies text
  have hroles : ofText text = .role [.staff, .leader] := by decide
  refine ⟨hne, hroles, ?_, hlabel hne⟩
  rw [hroles]
  decide

end Condition

end CramSchool
