/-
  Every change in a text is found.

  `Phrase.Setting` and `Phrase.Change` are the grammars of the two kinds of changes, and the two
  patterns are exact for them. A phrase begins with the word for a stat, and no word for a stat
  begins at any other character of a phrase, since those are the other halves of the words, marks
  and digits (`Quiet`). So no phrase begins inside another, whatever the two are.

  The search for changes by an amount goes on behind each match, so it would lose a phrase that
  begins inside another. As there is none, it finds them all, whatever text stands between them
  (`deltasOf_finds_all`).
-/
import CramSchool.Proofs.Effect.Phrase
import CramSchool.Proofs.Text.Grammar
import CramSchool.Proofs.Text.Places

namespace CramSchool

open Text Pattern Decimal

namespace Phrase

/-! ## Grammars of phrases -/

/-- A stat set to a value: the word for the stat, `を`, digits and `にする`. -/
inductive Setting : Grammar Delta
  | intro {k : Stat} {digits rest : List Char} {v : Points} (h : Numeral digits v) :
      Setting (.setTo k v) (k.label.toList ++ ("を".toList ++ (digits ++ "にする".toList))) rest

/-- A stat moved by an amount: the word for the stat, a sign and the longest run of digits. -/
inductive Change : Grammar Delta
  | more {k : Stat} {digits rest : List Char} {v : Points} (h : Numeral digits v)
      (hrest : NoDigitHead rest) :
      Change (.changeBy k v) (k.label.toList ++ ('+' :: digits)) rest
  | less {k : Stat} {digits rest : List Char} {v a : Points} (h : Numeral digits v)
      (ha : a.val = -v.val) (hrest : NoDigitHead rest) :
      Change (.changeBy k a) (k.label.toList ++ ('-' :: digits)) rest

/-- A stat at or beyond a value: the word for the stat, digits, and `以上` or `以下`. -/
inductive Threshold : Grammar Condition
  | intro {k : Stat} {digits rest : List Char} {v : Points} {comparator : Comparator}
      (h : Numeral digits v) :
      Threshold (.stat k v comparator)
        (k.label.toList ++ (digits ++ comparator.label.toList)) rest

theorem exact_stat : Exact stat fun k w _ => w = k.label.toList :=
  (exact_oneOf fun k _ => takes_stat k).congr fun k _ _ =>
    and_iff_right (Enumerated.mem_all k)

theorem exact_comparator : Exact comparator fun k w _ => w = k.label.toList :=
  (exact_oneOf fun k _ => takes_comparator k).congr fun k _ _ =>
    and_iff_right (Enumerated.mem_all k)

/-- A number takes all digits there are. -/
theorem exact_number : Exact number fun v digits rest => Numeral digits v ∧ NoDigitHead rest := by
  have hread : ∀ digits : List Char,
      Exact (if digits.isEmpty then never else pure (read digits))
        fun v w _ => digits ≠ [] ∧ v = read digits ∧ w = [] := by
    intro digits
    split
    · next h => exact exact_never.congr fun _ _ _ => by simp [List.isEmpty_iff.mp h]
    · next h =>
        have hne : digits ≠ [] := fun he => h (List.isEmpty_iff.mpr he)
        exact (exact_pure _).congr fun _ _ _ => (and_iff_right hne).symm
  refine ((exact_run Char.isDigit).bind hread).congr fun v w rest => ?_
  rw [numeral_iff]
  constructor
  · rintro ⟨digits, u, _, rfl, ⟨rfl, hdigits, hrest⟩, hne, rfl, rfl⟩
    rw [List.append_nil]
    exact ⟨⟨hne, hdigits, rfl⟩, hrest⟩
  · rintro ⟨⟨hne, hdigits, rfl⟩, hrest⟩
    exact ⟨w, w, [], (List.append_nil w).symm, ⟨rfl, hdigits, hrest⟩, hne, rfl, rfl⟩

theorem exact_sign : Exact sign fun n w _ => n = 1 ∧ w = ['+'] ∨ n = -1 ∧ w = ['-'] := by
  have hsigns : ∀ plus ∈ [true, false], ∀ rest,
      Takes (oneOf [true, false] fun plus => if plus then ['+'] else ['-'])
        (if plus then ['+'] else ['-']) rest plus := by
    intro plus _ rest
    cases plus <;> rfl
  refine ((exact_oneOf hsigns).bind fun plus => exact_pure _).congr fun n w rest => ?_
  constructor
  · rintro ⟨plus, u, _, rfl, ⟨_, rfl⟩, rfl, rfl⟩
    cases plus
    · exact .inr ⟨rfl, rfl⟩
    · exact .inl ⟨rfl, rfl⟩
  · rintro (⟨rfl, rfl⟩ | ⟨rfl, rfl⟩)
    · exact ⟨true, ['+'], [], rfl, ⟨by decide, rfl⟩, rfl, rfl⟩
    · exact ⟨false, ['-'], [], rfl, ⟨by decide, rfl⟩, rfl, rfl⟩

theorem exact_setTo : Exact setTo Setting := by
  refine (exact_stat.bind fun k => (exact_word _).bind fun _ => exact_number.bind fun v =>
    (exact_word _).bind fun _ => exact_pure (Delta.setTo k v)).congr fun d w rest => ?_
  constructor
  · rintro ⟨k, _, _, rfl, rfl, _, _, _, rfl, rfl, v, digits, _, rfl, ⟨hnumber, _⟩, _, _, _, rfl, rfl,
      rfl, rfl⟩
    rw [List.append_nil]
    exact .intro hnumber
  · rintro @⟨k, digits, _, v, hnumber⟩
    exact ⟨k, _, _, rfl, rfl, (), _, _, rfl, rfl, v, digits, _, rfl,
      ⟨hnumber, noDigitHead_cons (by decide) _⟩, (), _, [], (List.append_nil _).symm, rfl, rfl, rfl⟩

theorem exact_changeBy : Exact changeBy Change := by
  refine (exact_stat.bind fun k => exact_sign.bind fun n => exact_number.bind fun v =>
    exact_pure (Delta.changeBy k (.saturate (n * v.val)))).congr fun d w rest => ?_
  constructor
  · rintro ⟨k, _, _, rfl, rfl, n, _, _, rfl, hsign, v, digits, _, rfl, ⟨hnumber, hrest⟩, rfl, rfl⟩
    rw [List.append_nil]
    rcases hsign with ⟨rfl, rfl⟩ | ⟨rfl, rfl⟩
    · rw [Int.one_mul, Points.saturate_val]
      exact .more hnumber hrest
    · have hle := v.le_greatest
      have hvalue := hnumber.value
      refine .less hnumber ?_ hrest
      rw [Points.saturate_of_mem (by omega) (by omega), Int.neg_one_mul]
  · rintro (@⟨k, digits, _, v, hnumber, hrest⟩ | @⟨k, digits, _, v, a, hnumber, ha, hrest⟩)
    · refine ⟨k, _, _, rfl, rfl, 1, _, _, rfl, .inl ⟨rfl, rfl⟩, v, digits, [],
        (List.append_nil _).symm, ⟨hnumber, hrest⟩, ?_, rfl⟩
      rw [Int.one_mul, Points.saturate_val]
    · refine ⟨k, _, _, rfl, rfl, -1, _, _, rfl, .inr ⟨rfl, rfl⟩, v, digits, [],
        (List.append_nil _).symm, ⟨hnumber, hrest⟩, ?_, rfl⟩
      rw [Int.neg_one_mul, ← ha, Points.saturate_val]

theorem exact_threshold : Exact threshold Threshold := by
  refine (exact_stat.bind fun k => exact_number.bind fun v => exact_comparator.bind fun c =>
    exact_pure (Condition.stat k v c)).congr fun d w rest => ?_
  constructor
  · rintro ⟨k, _, _, rfl, rfl, v, digits, _, rfl, ⟨hnumber, _⟩, c, _, _, rfl, rfl, rfl, rfl⟩
    rw [List.append_nil]
    exact .intro hnumber
  · rintro @⟨k, digits, _, v, c, hnumber⟩
    have hends : NoDigitHead (c.label.toList ++ rest) := by
      cases c <;> exact noDigitHead_cons (by decide) _
    exact ⟨k, _, _, rfl, rfl, v, digits, _, rfl, ⟨hnumber, hends⟩, c, _, [],
      (List.append_nil _).symm, rfl, rfl, rfl⟩

/-! ## Where phrases begin -/

/-- A word for a stat begins with a character that no word for a stat has elsewhere. -/
theorem label_headed (k : Stat) {w : List Char} (hw : ∀ c ∈ w, Quiet c) :
    ∃ c more, k.label.toList ++ w = c :: more ∧ ¬Quiet c ∧ ∀ d ∈ more, Quiet d := by
  obtain ⟨c, more, hlabel, hmore⟩ := label_eq_cons k
  refine ⟨c, more ++ w, by rw [hlabel, List.cons_append], fun hquiet => hquiet k ?_,
    List.forall_mem_append.mpr ⟨hmore, hw⟩⟩
  rw [hlabel]
  rfl

theorem quiet_numeral {digits : List Char} {v : Points} (h : Numeral digits v) :
    ∀ c ∈ digits, Quiet c := fun c hc => quiet_of_isDigit (h.isDigit c hc)

theorem headed_setting : Headed Quiet Setting := by
  rintro _ _ _ ⟨hnumber⟩
  refine label_headed _ (List.forall_mem_append.mpr ⟨forall_mem_of_all (by decide), ?_⟩)
  exact List.forall_mem_append.mpr ⟨quiet_numeral hnumber, forall_mem_of_all (by decide)⟩

/-- Whichever way a stat is moved, a sign and digits stand behind its word. -/
theorem Change.exists_sign {d : Delta} {w rest : List Char} (h : Change d w rest) :
    ∃ (k : Stat) (sign : Char) (digits : List Char) (v : Points),
      w = k.label.toList ++ sign :: digits ∧ sign ∈ ['+', '-'] ∧ Numeral digits v := by
  obtain ⟨hnumber, _⟩ | ⟨hnumber, _, _⟩ := h
  · exact ⟨_, '+', _, _, rfl, by decide, hnumber⟩
  · exact ⟨_, '-', _, _, rfl, by decide, hnumber⟩

theorem headed_change : Headed Quiet Change := by
  intro d w rest h
  obtain ⟨k, sign, digits, v, rfl, hsign, hnumber⟩ := h.exists_sign
  have hquiet : ∀ c ∈ ['+', '-'], Quiet c := forall_mem_of_all (by decide)
  exact label_headed k (List.forall_mem_cons.mpr ⟨hquiet sign hsign, quiet_numeral hnumber⟩)

theorem headed_threshold : Headed Quiet Threshold := by
  rintro _ _ _ @⟨_, _, _, _, c, hnumber⟩
  refine label_headed _ (List.forall_mem_append.mpr ⟨quiet_numeral hnumber, ?_⟩)
  cases c <;> exact forall_mem_of_all (by decide)

theorem length_label (k : Stat) : k.label.toList.length = 2 := by cases k <;> rfl

theorem label_append_inj {k j : Stat} {w u : List Char}
    (h : k.label.toList ++ w = j.label.toList ++ u) : w = u :=
  (List.append_inj h ((length_label k).trans (length_label j).symm)).2

/-- The mark behind the word for the stat tells the two kinds of changes apart. -/
theorem start_ne {text : List Char} {m n : Match Delta} (hm : StandsAt Setting text m)
    (hn : StandsAt Change text n) : m.start ≠ n.start := by
  intro hstart
  obtain ⟨w, behind, hat, hw⟩ := hm
  obtain ⟨u, behind', hat', hu⟩ := hn
  have hdrop := ((at_iff_drop (headed_setting.ne_nil hw)).mp hat).1
  rw [hstart, ((at_iff_drop (headed_change.ne_nil hu)).mp hat').1] at hdrop
  obtain ⟨k, sign, digits, v, rfl, hsign, _⟩ := hu.exists_sign
  generalize m.value = d at hw
  obtain ⟨_⟩ := hw
  rw [List.append_assoc, List.append_assoc] at hdrop
  have hmark : sign = 'を' := (List.cons.inj (label_append_inj hdrop)).1
  subst hmark
  exact absurd hsign (by decide)

/-- A change to a value and one by an amount share no character. -/
theorem not_overlaps {text : List Char} {m n : Match Delta} (hm : StandsAt Setting text m)
    (hn : StandsAt Change text n) : ¬m.Overlaps n := by
  have hapart : m.stop ≤ n.start ∨ n.stop ≤ m.start := by
    obtain hlt | heq | hgt := Nat.lt_trichotomy m.start n.start
    · exact .inl (headed_setting.stop_le headed_change hm hn hlt)
    · exact absurd heq (start_ne hm hn)
    · exact .inr (headed_change.stop_le headed_setting hn hm hgt)
  rw [Match.Overlaps, covers_iff, covers_iff]
  have hne := start_ne hm hn
  unfold Match.stop at hapart ⊢
  omega

end Phrase

/-! ## The changes of a text -/

/-- A text asks for all changes that are written in it and for no others. First comes the leftmost
    change to a value, if there is one. Behind it come the changes by an amount, one for each
    place of the text where a word for a stat, a sign and digits follow each other, from left to
    right, each with all the digits there are. Neither kind is in the way of the other. -/
theorem deltasOf_finds_all (text : List Char) :
    ∃ (set : Option Delta) (changes : List (Match Delta)),
      deltasOf text = set.toList ++ changes.map Match.value ∧
        (∀ d, set = some d ↔ ∃ m, IsLeftmost (StandsAt Phrase.Setting text) m ∧ m.value = d) ∧
        (set = none ↔ ∀ m, ¬StandsAt Phrase.Setting text m) ∧
        (∀ m, m ∈ changes ↔ StandsAt Phrase.Change text m) ∧
        changes.Pairwise (fun m n => m.start < n.start) ∧
        ¬∃ m n, StandsAt Phrase.Setting text m ∧ StandsAt Phrase.Change text n ∧
          m.Overlaps n := by
  refine ⟨Phrase.setTo.findFirst? text, Phrase.changeBy.findAll text, rfl, fun d => ?_, ?_,
    fun m => ?_, ?_, fun ⟨m, n, hset, hchange, hover⟩ => Phrase.not_overlaps hset hchange hover⟩
  · exact Phrase.exact_setTo.findFirst?_eq_some_iff Phrase.headed_setting
  · exact Phrase.exact_setTo.findFirst?_eq_none_iff Phrase.headed_setting
  · exact Phrase.exact_changeBy.mem_findAll_iff Phrase.headed_change
  · exact pairwise_start_findAll (Phrase.exact_changeBy.consumes Phrase.headed_change) text

/-- A word for a stat that nothing follows hides nothing, and neither does a value that is set. -/
example : deltasOf "体験体験+2経理を3にする満足-007".toList =
    [.setTo .accounting 3, .changeBy .experience 2, .changeBy .satisfaction (.saturate (-7))] := by
  decide

end CramSchool
