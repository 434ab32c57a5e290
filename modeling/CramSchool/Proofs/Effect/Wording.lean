/-
  The characters of wordings.

  A word is made of characters that are neither blank nor a mark (`Lettered`). Lists of words have
  separators or commas between them besides. So nothing is trimmed off a wording, and the
  brackets and terminators of a sentence are only those that were put around its
  parts (`inner_roleList`, `inner_joined`, `bracketFree_wording`).
-/
import CramSchool.Proofs.Effect.Phrase

namespace CramSchool

open Text

namespace Marker

def brackets : List Char := [restrictionOpen, restrictionClose, conditionOpen, conditionClose]

/-- Every character with a meaning of its own. -/
def all : List Char := brackets ++ [separator, comma, terminator]

end Marker

/-- What is no bracket is not this bracket. -/
theorem ne_of_notMem_brackets {c d : Char} (h : c ∉ Marker.brackets) (hd : d ∈ Marker.brackets) :
    c ≠ d := fun he => h (he ▸ hd)

/-- A character of a word. -/
def Lettered (c : Char) : Prop := isBlank c = false ∧ c ∉ Marker.all

instance : DecidablePred Lettered := fun c =>
  inferInstanceAs (Decidable (isBlank c = false ∧ c ∉ Marker.all))

/-- A character that can stand inside a sentence and its brackets. -/
def Inner (c : Char) : Prop :=
  isBlank c = false ∧ c ∉ Marker.brackets ∧ c ≠ Marker.terminator

instance : DecidablePred Inner := fun c =>
  inferInstanceAs (Decidable (isBlank c = false ∧ c ∉ Marker.brackets ∧ c ≠ Marker.terminator))

theorem Lettered.inner {c : Char} (h : Lettered c) : Inner c := by
  refine ⟨h.1, fun hc => h.2 (List.mem_append_left _ hc), fun hc => h.2 ?_⟩
  rw [hc]
  decide

theorem lettered_of_isDigit {c : Char} (h : c.isDigit = true) : Lettered c := by
  constructor
  · have hdigit : 48 ≤ c.toNat ∧ c.toNat ≤ 57 := Char.isDigit_iff_toNat.mp h
    unfold isBlank
    simp only [Bool.or_eq_false_iff, Bool.and_eq_false_iff, decide_eq_false_iff_not,
      beq_eq_false_iff_ne]
    omega
  · intro hc
    have hmark : ∀ d ∈ Marker.all, d.isDigit = false := forall_mem_of_all (by decide)
    rw [hmark c hc] at h
    exact Bool.false_ne_true h

/-! ## Words -/

theorem lettered_stat (k : Stat) : ∀ c ∈ k.label.toList, Lettered c :=
  forall_mem_of_all (by cases k <;> decide)

theorem lettered_role (role : Role) : ∀ c ∈ role.label.toList, Lettered c :=
  forall_mem_of_all (by cases role <;> decide)

theorem lettered_comparator (k : Comparator) : ∀ c ∈ k.label.toList, Lettered c :=
  forall_mem_of_all (by cases k <;> decide)

theorem lettered_written (n : Int) : ∀ c ∈ Decimal.written n, Lettered c := by
  have hdigits : ∀ c ∈ Nat.toDigits 10 n.natAbs, Lettered c := fun c hc =>
    lettered_of_isDigit (Decimal.isDigit_of_mem_digits hc)
  unfold Decimal.written
  split
  · exact List.forall_mem_cons.mpr ⟨by decide, hdigits⟩
  · exact hdigits

theorem lettered_delta (d : Delta) : ∀ c ∈ d.wording, Lettered c := by
  cases d with
  | setTo k v =>
      have hset : ∀ c ∈ "を".toList, Lettered c := forall_mem_of_all (by decide)
      have hend : ∀ c ∈ "にする".toList, Lettered c := forall_mem_of_all (by decide)
      simp only [Delta.wording, List.forall_mem_append]
      exact ⟨⟨⟨lettered_stat k, hset⟩, lettered_written v.val⟩, hend⟩
  | changeBy k a =>
      have hplus : Lettered '+' := by decide
      rw [Delta.wording]
      split
      · exact List.forall_mem_append.mpr ⟨lettered_stat k, lettered_written a.val⟩
      · refine List.forall_mem_append.mpr ⟨lettered_stat k, ?_⟩
        exact List.forall_mem_cons.mpr ⟨hplus, lettered_written a.val⟩

theorem lettered_threshold (k : Stat) (v : Points) (comparator : Comparator) :
    ∀ c ∈ (Condition.stat k v comparator).wording, Lettered c := by
  simp only [Condition.wording, List.forall_mem_append]
  exact ⟨⟨lettered_stat k, lettered_written v.val⟩, lettered_comparator comparator⟩

/-! ## Lists of words -/

/-- What holds of a character between the items of a list and of all characters of the items
    holds of all characters of the list. -/
theorem forall_mem_intercalate {P : Char → Prop} {between : Char} (hbetween : P between)
    {ws : List (List Char)} (h : ∀ w ∈ ws, ∀ c ∈ w, P c) :
    ∀ c ∈ [between].intercalate ws, P c := by
  induction ws with
  | nil => exact fun c hc => nomatch hc
  | cons w ws ih =>
      have hw : ∀ c ∈ w, P c := h w List.mem_cons_self
      cases ws with
      | nil =>
          have hone : [between].intercalate [w] = w := List.append_nil w
          rw [hone]
          exact hw
      | cons v ws =>
          have hmore := ih fun u hu => h u (List.mem_cons_of_mem w hu)
          simp only [List.intercalate_cons_cons, List.forall_mem_append, List.forall_mem_singleton]
          exact ⟨⟨hw, hbetween⟩, hmore⟩

theorem inner_roleList (roles : List Role) : ∀ c ∈ roleList roles, Inner c := by
  refine forall_mem_intercalate (by decide) ?_
  intro w hw c hc
  obtain ⟨role, _, rfl⟩ := List.mem_map.mp hw
  exact (lettered_role role c hc).inner

theorem inner_joined (ds : List Delta) : ∀ c ∈ joined ds, Inner c := by
  refine forall_mem_intercalate (by decide) ?_
  intro w hw c hc
  obtain ⟨d, _, rfl⟩ := List.mem_map.mp hw
  exact (lettered_delta d c hc).inner

/-! ## Trimming -/

theorem dropWhile_eq_self {p : Char → Bool} {w : List Char} (h : ∀ c ∈ w, p c = false) :
    w.dropWhile p = w := by
  cases w with
  | nil => rfl
  | cons c w =>
      rw [List.dropWhile_cons_of_neg]
      simp [h c List.mem_cons_self]

theorem trim_eq_self {w : List Char} (h : ∀ c ∈ w, isBlank c = false) : trim w = w := by
  have hreverse : ∀ c ∈ w.reverse, isBlank c = false := fun c hc => h c (List.mem_reverse.mp hc)
  unfold trim
  rw [dropWhile_eq_self h, dropWhile_eq_self hreverse, List.reverse_reverse]

end CramSchool
