/-
  Every change of a stat in a sentence has its place.

  The words of phrases are made of letters (`Lettered`), and the marks of gates are none, so no
  phrase reaches over the edge of a gate, and cutting gates out brings none together. What a
  sentence says is therefore shared out between the text outside its gates, their conditions and
  their effect texts (`perm_values_gates`, for any pattern of letters).

  For the changes by an amount this means that base and blocks have each of them once, apart from
  those that stand in a condition (`changesBy_shared`). Of the changes to a value a text has
  only the first, so they are not shared out like this.
-/
import CramSchool.Proofs.Effect.Gates
import CramSchool.Proofs.Text.Parting
import Mathlib.Data.List.Perm.Basic

namespace CramSchool

open Text Pattern

/-! ## Phrases are made of letters -/

namespace Phrase

theorem keepsTo_stat : KeepsTo Lettered stat := keepsTo_oneOf fun k _ => lettered_stat k

theorem keepsTo_sign : KeepsTo Lettered sign := by
  have hsigns : ∀ plus ∈ [true, false], ∀ c ∈ if plus then ['+'] else ['-'], Lettered c := by
    intro plus _
    cases plus <;> exact forall_mem_of_all (by decide)
  exact (keepsTo_oneOf hsigns).bind fun _ => keepsTo_pure _

theorem keepsTo_number : KeepsTo Lettered number := by
  refine (keepsTo_run lettered_of_isDigit).bind fun digits => ?_
  split
  · exact keepsTo_never
  · exact keepsTo_pure _

theorem keepsTo_changeBy : KeepsTo Lettered changeBy :=
  keepsTo_stat.bind fun _ => keepsTo_sign.bind fun _ => keepsTo_number.bind fun _ => keepsTo_pure _

theorem gives_setTo : Gives (fun d => d.isSetTo = true) setTo :=
  .bind _ fun _ => .bind _ fun _ => .bind _ fun _ => .bind _ fun _ =>
    gives_pure rfl

theorem gives_changeBy : Gives (fun d => d.isSetTo = false) changeBy :=
  .bind _ fun _ => .bind _ fun _ => .bind _ fun _ => gives_pure rfl

end Phrase

theorem not_lettered_of_gateMark {c : Char} (h : c ∈ Marker.gateMarks) : ¬Lettered c := by
  have hmarks : ∀ d ∈ Marker.gateMarks, ¬Lettered d := forall_mem_of_all (by decide)
  exact hmarks c h

/-! ## What a text says inside and outside its gates -/

section Gates

variable {α : Type} {p : Pattern α}

/-- The marks of a gate part it from the text around it, and its condition from its effect. -/
theorem values_gate (hp : KeepsTo Lettered p) (hempty : p [] = none) {g : Gate}
    {rest : List Char} (hstands : g.Stands rest) (w : List Char) :
    p.values (w ++ (g.text ++ rest)) =
      p.values w ++ (p.values g.condition ++ (p.values g.effect ++ p.values rest)) := by
  have hopen : ¬Lettered Marker.conditionOpen := not_lettered_of_gateMark (by decide)
  have hclose : ¬Lettered Marker.conditionClose := not_lettered_of_gateMark (by decide)
  have hrest : ∀ c ∈ rest.head?, ¬Lettered c := fun c hc =>
    not_lettered_of_gateMark (hstands.marked c hc)
  rw [Gate.text_eq, List.append_assoc, List.cons_append, List.cons_append,
    hp.values_cons hempty hopen, hp.values_cons hempty hclose, hp.values_append hempty _ hrest]

/-- What is found in a text, with text in front of it that is left as it is, is found outside the
    gates, in their conditions and in their effect texts. -/
theorem perm_values_gates (hp : KeepsTo Lettered p) (hempty : p [] = none) (text : List Char) :
    ∀ w, (p.values (w ++ text)).Perm (p.values (w ++ cut (gate 0) text) ++
      ((gate 0).values text).flatMap fun g => p.values g.condition ++ p.values g.effect) := by
  induction text using gateInduction with
  | nil => exact fun w => .of_eq (List.append_nil _).symm
  | @pass c rest hnone ih =>
      intro w
      have hpass : Passes (gate 0) [c] rest := ⟨hnone 0, trivial⟩
      have hcut := cut_passes hpass
      have hvalues := values_passes hpass
      rw [List.singleton_append] at hcut hvalues
      have hfront := ih (w ++ [c])
      rw [List.append_assoc, List.append_assoc] at hfront
      rw [hcut, hvalues]
      exact hfront
  | @take g rest hstands ih =>
      intro w
      have htakes := hstands.takes (Nat.zero_le _)
      have hrest : ∀ c ∈ rest.head?, ¬Lettered c := fun c hc =>
        not_lettered_of_gateMark (hstands.marked c hc)
      have hbehind := ih w
      rw [hp.values_append hempty w hrest] at hbehind
      rw [values_gate hp hempty hstands, cut_takes htakes g.text_ne_nil,
        values_takes htakes g.text_ne_nil, List.flatMap_cons]
      -- The values of the gate go behind those of the text outside.
      rw [← List.append_assoc (p.values g.condition)]
      refine (List.perm_append_comm_assoc _ _ _).trans ?_
      exact (hbehind.append_left _).trans (List.perm_append_comm_assoc _ _ _)

end Gates

/-! ## Changes by an amount -/

/-- The changes of a list that move their stat, without those that set it. -/
def changesBy (ds : List Delta) : List Delta := ds.filter fun d => !d.isSetTo

/-- Read from a text these are the changes that the text asks for by an amount. -/
theorem changesBy_deltasOf (text : List Char) :
    changesBy (deltasOf text) = Phrase.changeBy.values text := by
  have hset : changesBy (Phrase.setTo.findFirst? text).toList = [] := by
    refine List.filter_eq_nil_iff.mpr fun d hd => ?_
    rw [Phrase.gives_setTo.of_findFirst? d (Option.mem_toList.mp hd)]
    simp
  have hchange : changesBy (Phrase.changeBy.values text) = Phrase.changeBy.values text := by
    refine List.filter_eq_self.mpr fun d hd => ?_
    rw [Phrase.gives_changeBy.of_mem_values d hd]
    rfl
  calc changesBy (deltasOf text)
      = changesBy (Phrase.setTo.findFirst? text).toList ++
          changesBy (Phrase.changeBy.values text) := List.filter_append _ _
    _ = Phrase.changeBy.values text := by rw [hset, hchange, List.nil_append]

/-- The changes of a block are those of its effect text. -/
theorem changesBy_block (g : Gate) :
    changesBy g.block.deltas = Phrase.changeBy.values g.effect := by
  have hblank : ∀ {c}, isBlank c = true → ¬Lettered c := fun hc h => by
    rw [h.1] at hc
    cases hc
  rw [Gate.block, changesBy_deltasOf, Phrase.keepsTo_changeBy.values_trim rfl hblank]

/-- Gates without effect text open no block, and there is no change in what they lack. -/
theorem changesBy_blocks (text : List Char) :
    ((Effect.ofChars text).blocks.flatMap fun b => changesBy b.deltas) =
      ((gate 0).values text).flatMap fun g => Phrase.changeBy.values g.effect := by
  have hgates : (gate 1).values text = ((gate 0).values text).filter fun g => g.effect ≠ [] := by
    unfold values
    rw [findAll_gate_one, List.filter_map]
    rfl
  unfold Effect.ofChars
  rw [hgates, List.flatMap_map]
  simp only [changesBy_block]
  induction (gate 0).values text with
  | nil => rfl
  | cons g gates ih =>
      by_cases heffect : g.effect = []
      · rw [List.filter_cons_of_neg (by simpa using heffect), List.flatMap_cons, heffect, ih]
        rfl
      · rw [List.filter_cons_of_pos (by simpa using heffect), List.flatMap_cons, List.flatMap_cons,
          ih]

theorem baseText_eq_cut {text : List Char} (h : restriction.findAll text = []) :
    baseText text = cut (gate 0) text := by
  have hleft : unrestricted text = text := by
    unfold unrestricted
    rw [h]
    rfl
  unfold baseText
  rw [hleft]
  rfl

/-- No change by an amount is lost or counted twice. In a sentence without restrictions, the changes
    by an amount that its text asks for are those of the base, those of the blocks and those that
    stand in the conditions of its gates, with or without effect text behind them. -/
theorem changesBy_shared {text : String} (h : restriction.findAll text.toList = []) :
    (changesBy (deltasOf text.toList)).Perm
      (changesBy (Effect.ofText text).base ++
        ((Effect.ofText text).blocks.flatMap fun b => changesBy b.deltas) ++
        ((gate 0).values text.toList).flatMap fun g => changesBy (deltasOf g.condition)) := by
  have hgates := perm_values_gates Phrase.keepsTo_changeBy rfl text.toList []
  have hbase : changesBy (Effect.ofText text).base =
      Phrase.changeBy.values (cut (gate 0) text.toList) := by
    rw [← baseText_eq_cut h]
    exact changesBy_deltasOf _
  have hblocks := changesBy_blocks text.toList
  simp only [changesBy_deltasOf]
  rw [hbase, show Effect.ofText text = Effect.ofChars text.toList from rfl, hblocks,
    List.append_assoc]
  refine hgates.trans (List.Perm.append_left _ ?_)
  exact (List.flatMap_append_perm _ _ _).symm.trans List.perm_append_comm

/-- Gates one behind the other, a gate without effect text, a change in a condition, brackets that
    are no gate, and a change to a value. -/
theorem changesBy_shared_adjacent_gates :
    restriction.findAll "体験+1〈満足3以上〉経理-2、満足+4〈入塾+5〉。〈〉経理を7にする、体験+10".toList = [] ∧
      (changesBy
        (deltasOf "体験+1〈満足3以上〉経理-2、満足+4〈入塾+5〉。〈〉経理を7にする、体験+10".toList)).Perm
        ([.changeBy .experience 1, .changeBy .experience 10] ++
          [.changeBy .accounting (.saturate (-2)), .changeBy .satisfaction 4] ++
          [.changeBy .enrollment 5]) := by
  have hnone :
      restriction.findAll "体験+1〈満足3以上〉経理-2、満足+4〈入塾+5〉。〈〉経理を7にする、体験+10".toList = [] := by
    decide
  refine ⟨hnone, (changesBy_shared hnone).trans (.of_eq ?_)⟩
  decide

end CramSchool
