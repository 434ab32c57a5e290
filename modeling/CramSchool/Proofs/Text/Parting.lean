/-
  Characters that part a text.

  A pattern keeps to a class of characters (`KeepsTo`) if no match takes or looks at a character
  outside the class, or at anything behind one. A character outside the class then parts the
  text: the pattern finds in it what it finds in front of the character and what it finds
  behind, each part by itself (`KeepsTo.values_cons`). Where blanks are outside the class,
  trimming a text changes nothing that is found in it (`KeepsTo.values_trim`).
-/
import CramSchool.Proofs.Text.Pattern
import CramSchool.Text.Blank
import Mathlib.Data.List.DropRight
import Mathlib.Data.List.Find

namespace CramSchool.Text

/-! ## Trimming -/

/-- Trimming takes blanks off the two ends of a text. -/
theorem exists_blanks_trim (w : List Char) :
    ∃ front back, w = front ++ trim w ++ back ∧ (∀ c ∈ front, isBlank c = true) ∧
      ∀ c ∈ back, isBlank c = true := by
  let inner := w.dropWhile isBlank
  refine ⟨w.takeWhile isBlank, (inner.reverse.takeWhile isBlank).reverse, ?_,
    fun c hc => List.all_eq_true.mp List.all_takeWhile c hc, fun c hc => ?_⟩
  · have hinner : trim w ++ (inner.reverse.takeWhile isBlank).reverse = inner := by
      unfold trim
      rw [← List.reverse_append, List.takeWhile_append_dropWhile, List.reverse_reverse]
    rw [List.append_assoc, hinner, List.takeWhile_append_dropWhile]
  · exact List.all_eq_true.mp List.all_takeWhile c (List.mem_reverse.mp hc)

theorem mem_of_mem_trim {w : List Char} {c : Char} (h : c ∈ trim w) : c ∈ w := by
  obtain ⟨front, back, hw, _, _⟩ := exists_blanks_trim w
  rw [hw]
  exact List.mem_append_left back (List.mem_append_right front h)

/-- A trimmed text has no blanks at its ends: not at the hind end, since they were taken off
    last, and not at the front, where it begins like the text before that. -/
theorem trim_trim (w : List Char) : trim (trim w) = trim w := by
  have hopen : (trim w).dropWhile isBlank = trim w := by
    obtain ⟨back, hback⟩ := List.rdropWhile_prefix isBlank (w.dropWhile isBlank)
    change trim w ++ back = w.dropWhile isBlank at hback
    cases htrim : trim w with
    | nil => rfl
    | cons c rest =>
        have hhead := List.head?_dropWhile_not isBlank w
        rw [← hback, htrim] at hhead
        exact List.dropWhile_cons_of_neg (by simpa using hhead)
  calc trim (trim w)
      = (trim w).rdropWhile isBlank := congrArg (List.rdropWhile isBlank) hopen
    _ = trim w := List.rdropWhile_idempotent isBlank (w.dropWhile isBlank)

/-- Nothing is trimmed off exactly if neither end of the text is blank. -/
theorem trim_eq_self_iff {w : List Char} :
    trim w = w ↔ (∀ c ∈ w.head?, isBlank c = false) ∧ ∀ c ∈ w.getLast?, isBlank c = false := by
  have hopen : w.dropWhile isBlank = w ↔ ∀ c ∈ w.head?, isBlank c = false := by
    cases w with
    | nil => simp
    | cons c rest => simp [List.dropWhile_eq_self_iff]
  have hclose : w.rdropWhile isBlank = w ↔ ∀ c ∈ w.getLast?, isBlank c = false := by
    rw [List.rdropWhile_eq_self_iff]
    obtain rfl | ⟨front, c, rfl⟩ := List.eq_nil_or_concat w
    · simp
    · simp
  rw [← hopen, ← hclose]
  constructor
  · intro htrim
    have hshorter : (trim w).length ≤ (w.dropWhile isBlank).length :=
      (List.rdropWhile_prefix isBlank _).length_le
    have hkept : w.dropWhile isBlank = w :=
      (List.dropWhile_suffix isBlank).eq_of_length_le (by rwa [htrim] at hshorter)
    exact ⟨hkept, (congrArg (List.rdropWhile isBlank) hkept).symm.trans htrim⟩
  · intro ⟨hkept, hback⟩
    exact (congrArg (List.rdropWhile isBlank) hkept).trans hback

namespace Pattern

variable {α β : Type} {member : Char → Prop}

/-! ## Patterns that keep to a class -/

/-- No match takes or looks at a character outside the class, or at anything behind one. -/
structure KeepsTo (member : Char → Prop) (p : Pattern α) : Prop where
  width_le {text : List Char} {a : α} {width : Nat} (h : p text = some (a, width)) :
    width ≤ text.length
  apart (w : List Char) {c : Char} (hc : ¬member c) (rest : List Char) : p (w ++ c :: rest) = p w

theorem keepsTo_pure (a : α) : KeepsTo member (pure a : Pattern α) where
  width_le := by
    intro text b width h
    obtain ⟨rfl, rfl⟩ := Prod.mk.inj (Option.some.inj h)
    exact Nat.zero_le _
  apart := fun _ _ _ _ => rfl

theorem keepsTo_never : KeepsTo member (never : Pattern α) where
  width_le := fun h => nomatch h
  apart := fun _ _ _ _ => rfl

theorem isPrefixOf_append_cons {word : List Char} {c : Char} (hc : c ∉ word) (w rest : List Char) :
    word.isPrefixOf (w ++ c :: rest) = word.isPrefixOf w := by
  induction word generalizing w with
  | nil => rfl
  | cons d word ih =>
      have hne : c ≠ d := List.ne_of_not_mem_cons hc
      have hrest : c ∉ word := List.not_mem_of_not_mem_cons hc
      cases w with
      | nil => simp [List.isPrefixOf, Ne.symm hne]
      | cons e w => simp only [List.cons_append, List.isPrefixOf, ih hrest]

theorem keepsTo_oneOf {values : List α} {wordOf : α → List Char}
    (h : ∀ a ∈ values, ∀ c ∈ wordOf a, member c) : KeepsTo member (oneOf values wordOf) where
  width_le := by
    intro text a width hmatch
    obtain ⟨b, hfound, heq⟩ := Option.map_eq_some_iff.mp hmatch
    obtain ⟨rfl, rfl⟩ := Prod.mk.inj heq
    have hopens : (wordOf b).isPrefixOf text = true :=
      List.find?_some (p := fun a => (wordOf a).isPrefixOf text) hfound
    exact (List.isPrefixOf_iff_prefix.mp hopens).length_le
  apart := by
    intro w c hc rest
    have hsame : ∀ a ∈ values,
        (wordOf a).isPrefixOf (w ++ c :: rest) = (wordOf a).isPrefixOf w := fun a ha =>
      isPrefixOf_append_cons (fun hmem => hc (h a ha c hmem)) w rest
    unfold oneOf
    rw [List.find?_congr hsame]

theorem keepsTo_run {included : Char → Bool} (h : ∀ {c}, included c = true → member c) :
    KeepsTo member (run included) where
  width_le := by
    intro text a width hmatch
    obtain ⟨_, rfl⟩ := Prod.mk.inj (Option.some.inj hmatch)
    exact (List.takeWhile_prefix included).length_le
  apart := by
    intro w c hc rest
    have hends : included c = false := Bool.eq_false_iff.mpr fun hin => hc (h hin)
    have hsame : (w ++ c :: rest).takeWhile included = w.takeWhile included := by
      induction w with
      | nil => simp [hends]
      | cons d w ih => simp only [List.cons_append, List.takeWhile_cons, ih]
    unfold run
    rw [hsame]

theorem KeepsTo.bind {p : Pattern α} {f : α → Pattern β} (hp : KeepsTo member p)
    (hf : ∀ a, KeepsTo member (f a)) : KeepsTo member (p >>= f) where
  width_le := by
    intro text b width h
    rw [bind_apply, Pattern.bind] at h
    split at h
    · cases h
    · next a first hfirst =>
        split at h
        · cases h
        · next b' more hmore =>
            obtain ⟨rfl, rfl⟩ := Prod.mk.inj (Option.some.inj h)
            have hle := hp.width_le hfirst
            have hle' := (hf a).width_le hmore
            rw [List.length_drop] at hle'
            omega
  apart := by
    intro w c hc rest
    rw [bind_apply, bind_apply, Pattern.bind, Pattern.bind, hp.apart w hc rest]
    split
    · rfl
    · next a first hfirst =>
        rw [List.drop_append_of_le_length (hp.width_le hfirst), (hf a).apart _ hc rest]

/-! ## A text in parts -/

section Parts

variable {p : Pattern α} {c : Char}

theorem KeepsTo.findFrom_append_cons (hp : KeepsTo member p) (hc : ¬member c) {w : List Char}
    {skip : Nat} (hskip : skip ≤ w.length) (place : Nat) (rest : List Char) :
    findFrom p place skip (w ++ c :: rest) =
      findFrom p place skip w ++ findFrom p (place + w.length) 0 (c :: rest) := by
  fun_induction findFrom p place skip w with
  | case1 place skip =>
      obtain rfl := Nat.le_zero.mp hskip
      rfl
  | case2 place skip d w ih =>
      rw [List.cons_append, findFrom, ih (Nat.le_of_succ_le_succ hskip), List.length_cons,
        Nat.add_right_comm, Nat.add_assoc]
  | case3 place d w a width h ih =>
      have hhead : p (d :: (w ++ c :: rest)) = some (a, width) :=
        (hp.apart (d :: w) hc rest).trans h
      have hwidth : width - 1 ≤ w.length := Nat.sub_le_of_le_add (hp.width_le h)
      rw [List.cons_append, findFrom, hhead]
      dsimp only
      rw [ih hwidth, List.length_cons, Nat.add_right_comm, Nat.add_assoc]
      rfl
  | case4 place d w h ih =>
      have hhead : p (d :: (w ++ c :: rest)) = none := (hp.apart (d :: w) hc rest).trans h
      rw [List.cons_append, findFrom, hhead]
      dsimp only
      rw [ih (Nat.zero_le _), List.length_cons, Nat.add_right_comm, Nat.add_assoc]

/-- A pattern that takes something matches nowhere at a character outside the class. -/
theorem KeepsTo.misses (hp : KeepsTo member p) (hempty : p [] = none) (hc : ¬member c) :
    Misses p c := fun rest => (hp.apart [] hc rest).trans hempty

/-- A character outside the class parts the text. -/
theorem KeepsTo.values_cons (hp : KeepsTo member p) (hempty : p [] = none) (hc : ¬member c)
    (w rest : List Char) : p.values (w ++ c :: rest) = p.values w ++ p.values rest := by
  have hparts : p.findAll (w ++ c :: rest) =
      p.findAll w ++ findFrom p (0 + w.length) 0 (c :: rest) :=
    hp.findFrom_append_cons hc (Nat.zero_le _) 0 rest
  have hpass := hp.misses hempty hc rest
  unfold values
  rw [hparts, findFrom_shift, List.map_append, List.map_map]
  show _ ++ (p.findAll (c :: rest)).map _ = _
  rw [findAll_pass hpass, List.map_map]
  rfl

/-- A text that ends or goes on with a character outside the class is parted there. -/
theorem KeepsTo.values_append (hp : KeepsTo member p) (hempty : p [] = none) (w : List Char)
    {rest : List Char} (hrest : ∀ c ∈ rest.head?, ¬member c) :
    p.values (w ++ rest) = p.values w ++ p.values rest := by
  cases rest with
  | nil => rw [List.append_nil]; exact (List.append_nil _).symm
  | cons c rest =>
      have hc : ¬member c := hrest c rfl
      rw [hp.values_cons hempty hc, show c :: rest = [] ++ c :: rest from rfl,
        hp.values_cons hempty hc]
      rfl

theorem KeepsTo.values_trim (hp : KeepsTo member p) (hempty : p [] = none)
    (hblank : ∀ {c}, isBlank c = true → ¬member c) (w : List Char) :
    p.values (trim w) = p.values w := by
  obtain ⟨front, back, hw, hfront, hback⟩ := exists_blanks_trim w
  have hmisses : ∀ {c}, isBlank c = true → Misses p c := fun hc => hp.misses hempty (hblank hc)
  have hhead : ∀ c ∈ back.head?, ¬member c := fun c hc =>
    hblank (hback c (List.mem_of_mem_head? hc))
  calc p.values (trim w)
      = p.values (trim w) ++ p.values back := by
        rw [values_eq_nil (passes_of_misses (fun c hc => hmisses (hback c hc)) []),
          List.append_nil]
    _ = p.values (trim w ++ back) := (hp.values_append hempty _ hhead).symm
    _ = p.values (front ++ (trim w ++ back)) :=
        (values_passes (passes_of_misses (fun c hc => hmisses (hfront c hc)) _)).symm
    _ = p.values w := by rw [← List.append_assoc, ← hw]

end Parts

end Pattern

end CramSchool.Text
