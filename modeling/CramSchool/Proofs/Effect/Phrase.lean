/-
  Phrases are read back from their wordings.

  Each phrase begins with the word for a stat, so the patterns pass every character that is
  not the first of such a word (`Quiet`). A wording is taken as a whole by its own pattern, if no
  digit behind it extends its number, and passed by the others.

  Reading a list of worded changes therefore gives the first `setTo` of the list and every
  `changeBy` (`deltasOf_joined`).
-/
import CramSchool.Effect.Phrase
import CramSchool.Proofs.Text.Decimal
import CramSchool.Proofs.Text.Pattern

namespace CramSchool

open Text Pattern

/-- What can be checked of each character of a word holds of all of them. -/
theorem forall_mem_of_all {P : Char → Prop} [DecidablePred P] {w : List Char}
    (h : w.all (fun c => decide (P c)) = true) : ∀ c ∈ w, P c := fun c hc =>
  of_decide_eq_true (List.all_eq_true.mp h c hc)

/-- No number goes on with this text. -/
def NoDigitHead (rest : List Char) : Prop := ∀ c ∈ rest.head?, c.isDigit = false

theorem noDigitHead_cons {c : Char} (h : c.isDigit = false) (rest : List Char) :
    NoDigitHead (c :: rest) := by
  intro d hd
  obtain rfl := Option.some.inj hd
  exact h

/-- No word for a stat begins with this character. -/
def Quiet (c : Char) : Prop := ∀ k : Stat, k.label.toList.head? ≠ some c

instance : DecidablePred Quiet := fun c =>
  decidable_of_iff (∀ k ∈ Stat.all, k.label.toList.head? ≠ some c)
    ⟨fun h k => h k (Enumerated.mem_all k), fun h k _ => h k⟩

theorem quiet_of_isDigit {c : Char} (h : c.isDigit = true) : Quiet c := by
  intro k hk
  have hdigit : ∀ d, k.label.toList.head? = some d → d.isDigit = false := by
    intro d hd
    cases k <;> exact Option.some.inj hd ▸ rfl
  rw [hdigit c hk] at h
  exact Bool.false_ne_true h

theorem label_eq_cons (k : Stat) : ∃ c w, k.label.toList = c :: w ∧ ∀ d ∈ w, Quiet d := by
  cases k <;> exact ⟨_, _, rfl, forall_mem_of_all (by decide)⟩

namespace Phrase

/-! ## Words and numbers -/

theorem takes_stat (k : Stat) (rest : List Char) : Takes stat k.label.toList rest k := by
  cases k <;> rfl

theorem misses_stat {c : Char} (h : Quiet c) : Misses stat c := by
  intro rest
  have hnone : Stat.all.find? (fun k => k.label.toList.isPrefixOf (c :: rest)) = none := by
    refine List.find?_eq_none.mpr fun k _ hopens => h k ?_
    obtain ⟨d, w, hlabel, _⟩ := label_eq_cons k
    rw [hlabel, List.isPrefixOf_cons_cons, Bool.and_eq_true, beq_iff_eq] at hopens
    rw [hlabel, hopens.1]
    rfl
  unfold stat Pattern.oneOf
  rw [hnone]
  rfl

theorem takes_comparator (k : Comparator) (rest : List Char) :
    Takes comparator k.label.toList rest k := by
  cases k <;> rfl

theorem takes_number {v : Points} {n : Nat} (h : v.val = n) {rest : List Char}
    (hrest : NoDigitHead rest) : Takes number (Nat.toDigits 10 n) rest v := by
  have hrun : Takes (run Char.isDigit) (Nat.toDigits 10 n) rest (Nat.toDigits 10 n) :=
    takes_run (fun _ => Decimal.isDigit_of_mem_digits) hrest
  refine hrun.bind_nil ?_
  rw [if_neg (by simp [Nat.toDigits_ne_nil]), Decimal.read_digits h]
  exact takes_pure v rest

/-- A phrase that begins with a stat and goes on otherwise than the pattern asks is passed. -/
theorem passes_stat_bind {α : Type} {f : Stat → Pattern α} {k : Stat} {w rest : List Char}
    (hnext : f k (w ++ rest) = none) (hw : ∀ c ∈ w, Quiet c) :
    Passes (stat >>= f) (k.label.toList ++ w) rest := by
  have hhead := (takes_stat k (w ++ rest)).bind_eq_none hnext
  obtain ⟨c, more, hlabel, hmore⟩ := label_eq_cons k
  rw [hlabel, List.cons_append, ← List.append_assoc] at hhead
  rw [hlabel, List.cons_append]
  refine ⟨hhead, passes_of_misses (fun d hd => (misses_stat ?_).bind f) rest⟩
  rcases List.mem_append.mp hd with hd | hd
  · exact hmore d hd
  · exact hw d hd

/-! ## Changes and thresholds -/

theorem written_of_nonneg {n : Int} (h : 0 ≤ n) :
    Decimal.written n = Nat.toDigits 10 n.natAbs := if_neg (by omega)

theorem written_of_neg {n : Int} (h : n < 0) :
    Decimal.written n = '-' :: Nat.toDigits 10 n.natAbs := if_pos h

/-- The number behind a sign; the least number of the range has no absolute value in it. -/
def magnitude (a : Points) (h : -9223372036854775808 < a.val) : Points :=
  ⟨a.val.natAbs, by omega, by have := a.le_greatest; omega⟩

theorem takes_setTo (k : Stat) {v : Points} (hv : 0 ≤ v.val) (rest : List Char) :
    Takes setTo (Delta.setTo k v).wording rest (.setTo k v) := by
  have hnumber : Takes number (Nat.toDigits 10 v.val.natAbs) ("にする".toList ++ rest) v :=
    takes_number (by omega) (noDigitHead_cons (by decide) _)
  have hend := (takes_word "にする".toList rest).map fun _ => Delta.setTo k v
  rw [Delta.wording, written_of_nonneg hv, List.append_assoc, List.append_assoc]
  exact (takes_stat k _).bind ((takes_word _ _).bind (hnumber.bind hend))

theorem takes_changeBy (k : Stat) {a : Points} (ha : -9223372036854775808 < a.val)
    {rest : List Char} (hrest : NoDigitHead rest) :
    Takes changeBy (Delta.changeBy k a).wording rest (.changeBy k a) := by
  have hnumber : Takes number (Nat.toDigits 10 a.val.natAbs) rest (magnitude a ha) :=
    takes_number rfl hrest
  by_cases hneg : a.val < 0
  · have hamount : Points.saturate (-1 * (magnitude a ha).val) = a := by
      rw [show -1 * (magnitude a ha).val = a.val by simp only [magnitude]; omega]
      exact a.saturate_val
    have hsign : Takes sign ['-'] (Nat.toDigits 10 a.val.natAbs ++ rest) (-1) := rfl
    have hend := hnumber.map fun v => Delta.changeBy k (.saturate (-1 * v.val))
    rw [hamount] at hend
    rw [Delta.wording, if_pos hneg, written_of_neg hneg]
    exact (takes_stat k _).bind (hsign.bind hend)
  · have hamount : Points.saturate (1 * (magnitude a ha).val) = a := by
      rw [show 1 * (magnitude a ha).val = a.val by simp only [magnitude]; omega]
      exact a.saturate_val
    have hsign : Takes sign ['+'] (Nat.toDigits 10 a.val.natAbs ++ rest) 1 := rfl
    have hend := hnumber.map fun v => Delta.changeBy k (.saturate (1 * v.val))
    rw [hamount] at hend
    rw [Delta.wording, if_neg hneg, written_of_nonneg (by omega)]
    exact (takes_stat k _).bind (hsign.bind hend)

theorem takes_threshold (k : Stat) {v : Points} (hv : 0 ≤ v.val) (comparator : Comparator)
    (rest : List Char) :
    Takes threshold (Condition.stat k v comparator).wording rest (.stat k v comparator) := by
  have hcomparator := (takes_comparator comparator rest).map fun c => Condition.stat k v c
  have hnumber : Takes number (Nat.toDigits 10 v.val.natAbs) (comparator.label.toList ++ rest) v :=
    takes_number (by omega) (by cases comparator <;> exact noDigitHead_cons (by decide) _)
  rw [Condition.wording, written_of_nonneg hv, List.append_assoc]
  exact (takes_stat k _).bind (hnumber.bind hcomparator)

/-! ## A phrase among others -/

theorem quiet_digits {n : Nat} {c : Char} (h : c ∈ Nat.toDigits 10 n) : Quiet c :=
  quiet_of_isDigit (Decimal.isDigit_of_mem_digits h)

theorem passes_changeBy_setTo (k : Stat) {v : Points} (hv : 0 ≤ v.val) (rest : List Char) :
    Passes changeBy (Delta.setTo k v).wording rest := by
  rw [Delta.wording, written_of_nonneg hv, List.append_assoc, List.append_assoc]
  refine passes_stat_bind rfl ?_
  intro c hc
  rcases List.mem_append.mp hc with hword | hmore
  · exact forall_mem_of_all (w := "を".toList) (by decide) c hword
  · rcases List.mem_append.mp hmore with hdigit | hend
    · exact quiet_digits hdigit
    · exact forall_mem_of_all (w := "にする".toList) (by decide) c hend

theorem changeBy_wording (k : Stat) (a : Points) :
    ∃ c, (c = '+' ∨ c = '-') ∧
      (Delta.changeBy k a).wording = k.label.toList ++ c :: Nat.toDigits 10 a.val.natAbs := by
  by_cases hneg : a.val < 0
  · exact ⟨'-', .inr rfl, by rw [Delta.wording, if_pos hneg, written_of_neg hneg]⟩
  · exact ⟨'+', .inl rfl, by rw [Delta.wording, if_neg hneg, written_of_nonneg (by omega)]⟩

theorem passes_setTo_changeBy (k : Stat) (a : Points) (rest : List Char) :
    Passes setTo (Delta.changeBy k a).wording rest := by
  obtain ⟨c, hsign, hwording⟩ := changeBy_wording k a
  have hquiet : Quiet c := by rcases hsign with rfl | rfl <;> decide
  rw [hwording]
  refine passes_stat_bind ?_ ?_
  · rcases hsign with rfl | rfl <;> rfl
  · intro d hd
    rcases List.mem_cons.mp hd with rfl | hdigit
    · exact hquiet
    · exact quiet_digits hdigit

/-- Text in which no word for a stat begins is passed by every phrase. -/
theorem passes_of_quiet {α : Type} (f : Stat → Pattern α) {w : List Char} (h : ∀ c ∈ w, Quiet c)
    (rest : List Char) : Passes (stat >>= f) w rest :=
  passes_of_misses (fun c hc => (misses_stat (h c hc)).bind f) rest

theorem passes_comma {α : Type} (f : Stat → Pattern α) (rest : List Char) :
    Passes (stat >>= f) [Marker.comma] rest :=
  passes_of_quiet f (forall_mem_of_all (by decide)) rest

end Phrase

/-! ## Lists of changes -/

/-- Whether the change sets its stat, and does not move it. -/
def Delta.isSetTo : Delta → Bool
  | .setTo _ _ => true
  | .changeBy _ _ => false

/-- A change that its wording tells: a value has no sign, and an amount without its sign is
    in the range. -/
def Delta.Authorable : Delta → Prop
  | .setTo _ value => 0 ≤ value.val
  | .changeBy _ amount => amount.val ≠ -9223372036854775808

instance : DecidablePred Delta.Authorable
  | .setTo _ value => inferInstanceAs (Decidable (0 ≤ value.val))
  | .changeBy _ amount => inferInstanceAs (Decidable (amount.val ≠ -9223372036854775808))

/-- Changes with commas between them. -/
def joined (deltas : List Delta) : List Char :=
  [Marker.comma].intercalate (deltas.map Delta.wording)

theorem joined_singleton (d : Delta) : joined [d] = d.wording := List.append_nil d.wording

theorem joined_cons_cons (d e : Delta) (ds : List Delta) :
    joined (d :: e :: ds) = d.wording ++ Marker.comma :: joined (e :: ds) := by
  unfold joined
  rw [List.map_cons, List.map_cons, List.intercalate_cons_cons, List.append_assoc]
  rfl

theorem wording_ne_nil (d : Delta) : d.wording ≠ [] := by
  cases d with
  | setTo k v => cases k <;> exact List.cons_ne_nil _ _
  | changeBy k a =>
      obtain ⟨c, _, hwording⟩ := Phrase.changeBy_wording k a
      rw [hwording]
      simp

theorem values_changeBy_wording {d : Delta} (h : d.Authorable) {rest : List Char}
    (hrest : NoDigitHead rest) :
    Phrase.changeBy.values (d.wording ++ rest) =
      (if d.isSetTo then [] else [d]) ++ Phrase.changeBy.values rest := by
  cases d with
  | setTo k v => exact values_passes (Phrase.passes_changeBy_setTo k h rest)
  | changeBy k a =>
      have hleast : -9223372036854775808 < a.val := by
        have hle := a.least_le
        have hne : a.val ≠ -9223372036854775808 := h
        omega
      exact values_takes (Phrase.takes_changeBy k hleast hrest) (wording_ne_nil _)

theorem findFirst?_setTo_wording {d : Delta} (h : d.Authorable) (rest : List Char) :
    Phrase.setTo.findFirst? (d.wording ++ rest) =
      if d.isSetTo then some d else Phrase.setTo.findFirst? rest := by
  cases d with
  | setTo k v => exact findFirst?_takes (Phrase.takes_setTo k h rest) (wording_ne_nil _)
  | changeBy k a => exact findFirst?_passes (Phrase.passes_setTo_changeBy k a rest)

/-- Every `changeBy` of a list is found, in order and with its own number: the comma keeps the
    numbers apart. -/
theorem values_changeBy_joined {ds : List Delta} (h : ∀ d ∈ ds, d.Authorable) {rest : List Char}
    (hrest : NoDigitHead rest) :
    Phrase.changeBy.values (joined ds ++ rest) =
      ds.filter (fun d => !d.isSetTo) ++ Phrase.changeBy.values rest := by
  induction ds with
  | nil => rfl
  | cons d ds ih =>
      have hd : d.Authorable := h d List.mem_cons_self
      have hfilter : (d :: ds).filter (fun d => !d.isSetTo) =
          (if d.isSetTo then [] else [d]) ++ ds.filter (fun d => !d.isSetTo) := by
        rw [List.filter_cons]
        cases d.isSetTo <;> rfl
      cases ds with
      | nil =>
          rw [joined_singleton, values_changeBy_wording hd hrest, hfilter, List.filter_nil,
            List.append_nil]
      | cons e ds =>
          have hcomma : Phrase.changeBy.values (Marker.comma :: (joined (e :: ds) ++ rest)) =
              Phrase.changeBy.values (joined (e :: ds) ++ rest) :=
            values_passes (w := [Marker.comma]) (Phrase.passes_comma _ _)
          have hmore := ih fun d hd' => h d (List.mem_cons_of_mem _ hd')
          rw [joined_cons_cons, List.append_assoc, List.cons_append,
            values_changeBy_wording hd (noDigitHead_cons (by decide) _), hcomma, hmore, hfilter,
            List.append_assoc]

theorem findFirst?_setTo_joined {ds : List Delta} (h : ∀ d ∈ ds, d.Authorable) (rest : List Char) :
    Phrase.setTo.findFirst? (joined ds ++ rest) =
      (ds.find? Delta.isSetTo).or (Phrase.setTo.findFirst? rest) := by
  induction ds with
  | nil => rfl
  | cons d ds ih =>
      have hd : d.Authorable := h d List.mem_cons_self
      have hfind : ((d :: ds).find? Delta.isSetTo).or (Phrase.setTo.findFirst? rest) =
          if d.isSetTo then some d
          else (ds.find? Delta.isSetTo).or (Phrase.setTo.findFirst? rest) := by
        rw [List.find?_cons]
        cases d.isSetTo <;> rfl
      cases ds with
      | nil =>
          rw [joined_singleton, findFirst?_setTo_wording hd, hfind]
          rfl
      | cons e ds =>
          have hcomma : Phrase.setTo.findFirst? (Marker.comma :: (joined (e :: ds) ++ rest)) =
              Phrase.setTo.findFirst? (joined (e :: ds) ++ rest) :=
            findFirst?_passes (w := [Marker.comma]) (Phrase.passes_comma _ _)
          have hmore := ih fun d hd' => h d (List.mem_cons_of_mem _ hd')
          rw [joined_cons_cons, List.append_assoc, List.cons_append,
            findFirst?_setTo_wording hd, hcomma, hmore, hfind]

/-- Reading a list of worded changes gives its first `setTo` and every `changeBy`. Text behind it
    in which no word for a stat begins adds nothing. -/
theorem deltasOf_joined {ds : List Delta} (h : ∀ d ∈ ds, d.Authorable) {rest : List Char}
    (hrest : NoDigitHead rest) (hquiet : ∀ c ∈ rest, Quiet c) :
    deltasOf (joined ds ++ rest) =
      (ds.find? Delta.isSetTo).toList ++ ds.filter fun d => !d.isSetTo := by
  have hset : Phrase.setTo.findFirst? rest = none :=
    findFirst?_eq_none (Phrase.passes_of_quiet _ hquiet [])
  have hchange : Phrase.changeBy.values rest = [] :=
    values_eq_nil (Phrase.passes_of_quiet _ hquiet [])
  unfold deltasOf
  rw [findFirst?_setTo_joined h, values_changeBy_joined h hrest, hset, hchange, Option.or_none,
    List.append_nil]

/-- If only the first change of a list may be a `setTo`, that is the whole list in its order. -/
theorem find?_isSetTo_append_filter {ds : List Delta} (h : ∀ d ∈ ds.tail, d.isSetTo = false) :
    (ds.find? Delta.isSetTo).toList ++ ds.filter (fun d => !d.isSetTo) = ds := by
  cases ds with
  | nil => rfl
  | cons d ds =>
      have hfind : ds.find? Delta.isSetTo = none :=
        List.find?_eq_none.mpr fun e he => by simp [h e he]
      have hfilter : ds.filter (fun d => !d.isSetTo) = ds :=
        List.filter_eq_self.mpr fun e he => by simp [h e he]
      rw [List.find?_cons, List.filter_cons, hfind, hfilter]
      cases d.isSetTo <;> rfl

end CramSchool
