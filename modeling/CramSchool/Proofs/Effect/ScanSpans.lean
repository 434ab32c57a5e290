/-
  The spans that the scanner finds, and the text without them.

  The search for brackets stops at the first ones with something between them, and passes no
  others (`findBracketed_cases`). It may go back: behind brackets that turn out to be empty, or to
  have too little effect text, it goes on behind the opening one. So the restrictions and gates
  found are those that the patterns match, each at the offsets of its place (`restrictionSpans_eq`,
  `gateSpans_eq`).

  Spans that stand in the text one behind the other can be cut out of it, and nothing but the
  characters in them goes (`Laid.strip`). The spans that the scanner cuts out are such spans
  (`laid_of_leftmost`). The text that is left is the one the patterns leave (`strip_eq`), so it
  comes to the same effect.

  Main result: `Scan.never_faults`.
-/
import CramSchool.Proofs.Effect.Scan
import CramSchool.Proofs.Effect.Spans

namespace CramSchool

open Text Pattern

namespace Scan

/-! ## Brackets -/

/-- Brackets around the content, the opening one at `start`. -/
def bracketSpan (opening closing : Char) (start : Nat) (content : List Char) : BracketSpan where
  start := start
  inner := ⟨start + opening.utf8Size, start + opening.utf8Size + byteSize content⟩
  stop := start + opening.utf8Size + byteSize content + closing.utf8Size

section Brackets

variable {opening closing : Char} {text behind content rest : List Char} {place offset start : Nat}

theorem bracketSpan_stop :
    (bracketSpan opening closing start content).stop =
      start + byteSize (opening :: content ++ [closing]) := by
  simp [bracketSpan, Nat.add_assoc]

theorem stands_inner (h : Stands text place start ((opening :: content ++ [closing]) ++ rest)) :
    Stands text (place + 1) (start + opening.utf8Size) (content ++ closing :: rest) := by
  rw [List.append_assoc, List.cons_append] at h
  exact h.tail

/-- The content of brackets that stand in the text can be taken out. -/
theorem slice_inner (h : Stands text place start ((opening :: content ++ [closing]) ++ rest)) :
    (bracketSpan opening closing start content).inner.slice text = .ok content :=
  (stands_inner h).slice

/-- Where a bracket is never closed, no bracket begins something. -/
theorem passes_of_unclosed {w : List Char} (h : closing ∉ w) :
    Passes (bracketed opening closing) w [] := by
  induction w with
  | nil => trivial
  | cons c w ih =>
      have hbehind : closing ∉ w := fun hmem => h (List.mem_cons_of_mem c hmem)
      refine ⟨?_, ih hbehind⟩
      rw [List.append_nil]
      by_cases hc : c = opening
      · subst hc
        exact (bracketed_cons_eq_none_iff c closing w).mpr (.inl hbehind)
      · exact misses_bracketed hc w

theorem passes_of_ne {w : List Char} (h : ∀ c ∈ w, c ≠ opening) (rest : List Char) :
    Passes (bracketed opening closing) w rest :=
  passes_of_misses (fun c hc => misses_bracketed (h c hc)) rest

/-- What a search may find that begins at `offset`, with `behind` from there on. -/
inductive FoundBracketed (opening closing : Char) (offset : Nat) (behind : List Char) :
    Option BracketSpan → Prop
  | none (h : Passes (bracketed opening closing) behind []) :
      FoundBracketed opening closing offset behind none
  | some {skipped content rest : List Char}
      (htext : behind = skipped ++ ((opening :: content ++ [closing]) ++ rest))
      (hpasses : Passes (bracketed opening closing) skipped
        ((opening :: content ++ [closing]) ++ rest))
      (hne : content ≠ []) (hclosed : closing ∉ content) :
      FoundBracketed opening closing offset behind
        (some (bracketSpan opening closing (offset + byteSize skipped) content))

/-- The search that began at `offset` has passed everything in front of `search`. -/
def Searching (opening closing : Char) (offset : Nat) (behind : List Char) (_ : Unit)
    (search : Nat) : Prop :=
  ∃ skipped rest, behind = skipped ++ rest ∧ search = offset + byteSize skipped ∧
    Passes (bracketed opening closing) skipped rest

/-- Each round finds brackets, or that there are no more, or passes an opening bracket. -/
theorem bracketRound_advances (hstands : Stands text place offset behind) (state : Unit)
    (search : Nat) (h : Searching opening closing offset behind state search) :
    Advances (byteSize text) (Searching opening closing offset behind)
      (FoundBracketed opening closing offset behind) search
      (bracketRound opening closing text state search) := by
  obtain ⟨skipped, rest, rfl, rfl, hskipped⟩ := h
  have hrest := hstands.drop
  unfold bracketRound
  rw [hrest.sliceFrom, Checked.ok_bind]
  obtain ⟨hnone, hahead⟩ | ⟨before, c, tail, rfl, hbefore, hc, hahead⟩ :=
    offsetOf?_cases (· = opening) rest
  · rw [hahead]
    have hpasses : Passes (bracketed opening closing) rest [] :=
      passes_of_ne (fun c hc => of_decide_eq_false (hnone c hc)) []
    refine .done (.none (Passes.append ?_ hpasses))
    rwa [List.append_nil]
  · obtain rfl : c = opening := of_decide_eq_true hc
    have hne : ∀ d ∈ before, d ≠ c := fun d hd => of_decide_eq_false (hbefore d hd)
    have hinner := hrest.drop.tail
    rw [hahead]
    dsimp only
    rw [hinner.sliceFrom, Checked.ok_bind]
    obtain ⟨hnone, hlength⟩ | ⟨content, d, more, rfl, hcontent, hd, hlength⟩ :=
      offsetOf?_cases (· = closing) tail
    · rw [hlength]
      have hunclosed : closing ∉ tail := fun hmem => of_decide_eq_false (hnone _ hmem) rfl
      have hopening : Passes (bracketed c closing) (c :: tail) [] :=
        ⟨(bracketed_cons_eq_none_iff c closing _).mpr (.inl (by rwa [List.append_nil])),
          passes_of_unclosed hunclosed⟩
      have hrestpasses := (passes_of_ne hne _).append hopening
      refine .done (.none (Passes.append ?_ hrestpasses))
      rwa [List.append_nil]
    · obtain rfl : d = closing := of_decide_eq_true hd
      have hclosed : d ∉ content := fun hmem => of_decide_eq_false (hcontent _ hmem) rfl
      rw [hlength]
      by_cases hempty : content = []
      · -- Between the brackets is nothing: the opening one is passed.
        subst hempty
        refine .next ?_ hinner.offset_le ⟨skipped ++ before ++ [c], d :: more, by simp, ?_, ?_⟩
        · have := c.utf8Size_pos
          omega
        · simp [Nat.add_assoc]
        · have hone : Passes (bracketed c d) [c] (d :: more) :=
            ⟨(bracketed_cons_eq_none_iff c d _).mpr (.inr rfl), trivial⟩
          rw [List.append_assoc]
          refine Passes.append ?_ ((passes_of_ne hne _).append hone)
          simpa using hskipped
      · have htext : skipped ++ (before ++ c :: (content ++ d :: more)) =
            (skipped ++ before) ++ ((c :: content ++ [d]) ++ more) := by simp
        have hpasses : Passes (bracketed c d) (skipped ++ before) ((c :: content ++ [d]) ++ more) := by
          refine Passes.append ?_ (passes_of_ne hne _)
          simpa using hskipped
        have hfound : FoundBracketed c d offset _ _ := .some htext hpasses hempty hclosed
        obtain ⟨n, hn⟩ := Nat.exists_eq_add_one.mpr (byteSize_pos hempty)
        rw [bracketSpan, byteSize_append, ← Nat.add_assoc] at hfound
        rw [hn] at hfound ⊢
        exact .done hfound

/-- The search finds the first brackets with something between them. -/
theorem findBracketed_cases (hstands : Stands text place offset behind) :
    ∃ found, findBracketed opening closing text offset = .ok found ∧
      FoundBracketed opening closing offset behind found :=
  loop_ok _ _ (bracketRound_advances hstands) ⟨[], behind, rfl, rfl, trivial⟩

end Brackets

/-! ## Restrictions -/

/-- Where a restriction stands in the text. -/
def restrictionSpan (text : List Char) (m : Match (List Char)) : BracketSpan :=
  bracketSpan Marker.restrictionOpen Marker.restrictionClose (offsetAt text m.start) m.value

/-- Where a gate stands in the text. -/
def gateSpan (text : List Char) (m : Match Gate) : GateSpan :=
  let brackets := bracketSpan Marker.conditionOpen Marker.conditionClose (offsetAt text m.start)
    m.value.condition
  ⟨brackets, brackets.stop + byteSize m.value.effect⟩

theorem Reached.takes_behind {α β : Type} {p : Pattern α} {view : Match α → β} {found : List β}
    {text skipped w behind : List Char} {place offset : Nat} {a : α}
    (hstands : Stands text place offset (skipped ++ (w ++ behind)))
    (h : (p.findAll text).map view =
      found ++ (findFrom p place 0 (skipped ++ (w ++ behind))).map view)
    (hpasses : Passes p skipped (w ++ behind)) (htakes : Takes p w behind a) (hw : w ≠ []) :
    Reached p view text (found ++ [view ⟨place + skipped.length, w.length, a⟩])
      (offset + byteSize skipped + byteSize w) := by
  rw [findFrom_passes hpasses] at h
  exact .takes hstands.drop h htakes hw

/-- Each round takes a restriction or finds that there are no more. -/
theorem restrictionRound_advances (text : List Char) (found : List BracketSpan) (offset : Nat)
    (h : Reached restriction (restrictionSpan text) text found offset) :
    Advances (byteSize text) (Reached restriction (restrictionSpan text) text)
      (fun all => (restriction.findAll text).map (restrictionSpan text) = all) offset
      (restrictionRound text found offset) := by
  obtain ⟨place, behind, hstands, hmatches⟩ := h
  obtain ⟨_, hsearch, hfound⟩ := findBracketed_cases hstands
  unfold restrictionRound
  rw [hsearch, Checked.ok_bind]
  rcases hfound with hpasses | @⟨skipped, content, rest, rfl, hpasses, hne, hclosed⟩
  · exact .done (map_findAll_eq hmatches hpasses)
  · have htakes := takes_restrictionText hne hclosed rest
    have hnext := Reached.takes_behind hstands hmatches hpasses htakes
      (restrictionText_ne_nil content)
    rw [restrictionSpan, hstands.drop.offsetAt_eq] at hnext
    rw [← bracketSpan_stop] at hnext
    refine .next ?_ ?_ hnext
    · have := byteSize_pos (restrictionText_ne_nil content)
      rw [restrictionText] at this
      rw [bracketSpan_stop]
      omega
    · rw [bracketSpan_stop]
      exact hstands.drop.drop.offset_le

theorem restrictionSpans_eq (text : List Char) :
    restrictionSpans text = .ok ((restriction.findAll text).map (restrictionSpan text)) := by
  obtain ⟨all, hloop, rfl⟩ := loop_ok _ _ (restrictionRound_advances text)
    (reached_zero restriction (restrictionSpan text) text)
  exact hloop

/-! ## Gates -/

/-- The effect text behind brackets, and where the scanner says it ends. -/
theorem exists_effect {text rest : List Char} {place offset : Nat}
    (hstands : Stands text place offset rest) :
    ∃ effect behind, rest = effect ++ behind ∧
      (∀ c ∈ effect, c ≠ Marker.terminator ∧ c ≠ Marker.conditionOpen) ∧
      (∀ c ∈ behind.head?, c = Marker.terminator ∨ c = Marker.conditionOpen) ∧
      (offsetOf? (fun c => c = Marker.terminator ∨ c = Marker.conditionOpen) rest).elim
        (byteSize text) (offset + ·) = offset + byteSize effect := by
  obtain ⟨hnone, hlength⟩ | ⟨effect, c, more, rfl, heffect, hc, hlength⟩ :=
    offsetOf?_cases (fun c => c = Marker.terminator ∨ c = Marker.conditionOpen) rest
  · refine ⟨rest, [], (List.append_nil rest).symm, fun c hc => ?_, fun c hc => (nomatch hc), ?_⟩
    · exact not_or.mp (of_decide_eq_false (hnone c hc))
    · rw [hlength]
      exact hstands.add_byteSize.symm
  · refine ⟨effect, c :: more, rfl, fun d hd => ?_, fun d hd => ?_, ?_⟩
    · exact not_or.mp (of_decide_eq_false (heffect d hd))
    · obtain rfl := Option.some.inj hd
      exact of_decide_eq_true hc
    · rw [hlength]
      rfl

/-- With less than two to ask for, bytes count like characters. -/
theorem le_byteSize_iff {least : Nat} (h : least ≤ 1) (w : List Char) :
    least ≤ byteSize w ↔ least ≤ w.length := by
  rcases w with _ | ⟨c, w⟩
  · rfl
  · have hpos := byteSize_pos (List.cons_ne_nil c w)
    have hlength := List.length_pos_of_mem (List.mem_cons_self (a := c) (l := w))
    omega

theorem gate_text_stop (start : Nat) (g : Gate) :
    (bracketSpan Marker.conditionOpen Marker.conditionClose start g.condition).stop +
      byteSize g.effect = start + byteSize g.text := by
  rw [bracketSpan_stop, Nat.add_assoc, ← byteSize_append, Gate.text]

section Gates

variable {least : Nat} {text skipped rest : List Char} {place offset : Nat} {found : List GateSpan}
  {g : Gate}

/-- A gate with enough effect text is taken. -/
theorem advances_gate (hstands : Stands text place offset (skipped ++ (g.text ++ rest)))
    (h : ((gate least).findAll text).map (gateSpan text) =
      found ++ (findFrom (gate least) place 0 (skipped ++ (g.text ++ rest))).map (gateSpan text))
    (hpasses : Passes (gate least) skipped (g.text ++ rest)) (hgate : g.Stands rest)
    (hlong : least ≤ g.effect.length) {span : BracketSpan}
    (hspan : span = bracketSpan Marker.conditionOpen Marker.conditionClose
      (offset + byteSize skipped) g.condition) (Right : List GateSpan → Prop) :
    Advances (byteSize text) (Reached (gate least) (gateSpan text) text) Right offset
      (.ok (.inr (found ++ [⟨span, span.stop + byteSize g.effect⟩],
        span.stop + byteSize g.effect))) := by
  subst hspan
  have hnext := Reached.takes_behind hstands h hpasses (hgate.takes hlong) g.text_ne_nil
  have hle := hstands.drop.drop.offset_le
  have hlt : offset < offset + byteSize skipped + byteSize g.text := by
    have := byteSize_pos g.text_ne_nil
    omega
  rw [gateSpan, hstands.drop.offsetAt_eq] at hnext
  rw [← gate_text_stop] at hnext hle hlt
  exact .next hlt hle hnext

/-- Brackets with too little effect text open no gate, and the search goes on inside them. -/
theorem advances_opening (hstands : Stands text place offset (skipped ++ (g.text ++ rest)))
    (h : ((gate least).findAll text).map (gateSpan text) =
      found ++ (findFrom (gate least) place 0 (skipped ++ (g.text ++ rest))).map (gateSpan text))
    (hpasses : Passes (gate least) skipped (g.text ++ rest)) (hgate : g.Stands rest)
    (hshort : g.effect.length < least) (Right : List GateSpan → Prop) :
    Advances (byteSize text) (Reached (gate least) (gateSpan text) text) Right offset
      (.ok (.inr (found, offset + byteSize skipped + Marker.conditionOpen.utf8Size))) := by
  have hnone := hgate.eq_none hshort
  have hopening : g.text ++ rest = [Marker.conditionOpen] ++
      (g.condition ++ Marker.conditionClose :: (g.effect ++ rest)) := by simp [Gate.text]
  rw [hopening] at hnone hpasses
  rw [hopening, ← List.append_assoc] at hstands h
  have hnext := Reached.passes hstands h (hpasses.append ⟨hnone, trivial⟩)
  have hle := hstands.drop.offset_le
  have hstop : offset + byteSize (skipped ++ [Marker.conditionOpen]) =
      offset + byteSize skipped + Marker.conditionOpen.utf8Size := by simp [Nat.add_assoc]
  rw [hstop] at hnext hle
  refine .next ?_ hle hnext
  have := Marker.conditionOpen.utf8Size_pos
  omega

end Gates

/-- Each round takes a gate, passes an opening bracket, or finds that there are no more gates. -/
theorem gateRound_advances {least : Nat} (hleast : least ≤ 1) (text : List Char)
    (found : List GateSpan) (offset : Nat)
    (h : Reached (gate least) (gateSpan text) text found offset) :
    Advances (byteSize text) (Reached (gate least) (gateSpan text) text)
      (fun all => ((gate least).findAll text).map (gateSpan text) = all) offset
      (gateRound least text found offset) := by
  obtain ⟨place, behind, hstands, hmatches⟩ := h
  obtain ⟨_, hsearch, hfound⟩ := findBracketed_cases hstands
  unfold gateRound
  rw [hsearch, Checked.ok_bind]
  rcases hfound with hpasses | @⟨skipped, condition, rest, rfl, hpasses, hne, hclosed⟩
  · exact .done (map_findAll_eq hmatches (hpasses.bind _))
  · have hbehind := hstands.drop.drop
    rw [← bracketSpan_stop] at hbehind
    obtain ⟨effect, rest, rfl, hinner, hends, hstop⟩ := exists_effect hbehind
    dsimp only
    rw [hbehind.sliceFrom, Checked.ok_bind, hstop, if_neg (Nat.not_lt.mpr (Nat.le_add_right _ _)),
      Nat.add_sub_cancel_left]
    have hgate : Gate.Stands ⟨condition, effect⟩ rest := ⟨hne, hclosed, hinner, hends⟩
    have htext : (Marker.conditionOpen :: condition ++ [Marker.conditionClose]) ++
        (effect ++ rest) = Gate.text ⟨condition, effect⟩ ++ rest := (List.append_assoc _ _ _).symm
    have hgates : Passes (gate least) skipped (Gate.text ⟨condition, effect⟩ ++ rest) := by
      rw [← htext]
      exact hpasses.bind _
    rw [htext] at hstands hmatches
    have hlength := le_byteSize_iff hleast effect
    split
    · next hlong => exact advances_gate hstands hmatches hgates hgate (hlength.mp hlong) rfl _
    · next hshort =>
        have hlt := Nat.lt_of_not_le fun hle => hshort (hlength.mpr hle)
        exact advances_opening hstands hmatches hgates hgate hlt _

theorem gateSpans_eq {least : Nat} (hleast : least ≤ 1) (text : List Char) :
    gateSpans least text = .ok (((gate least).findAll text).map (gateSpan text)) := by
  obtain ⟨all, hloop, rfl⟩ := loop_ok _ _ (gateRound_advances hleast text)
    (reached_zero (gate least) (gateSpan text) text)
  exact hloop

/-! ## Spans of matches -/

section Matches

variable {α : Type} {text : List Char}

/-- The offsets between which a match stands. -/
def matchSpan (text : List Char) (m : Match α) : Span := ⟨offsetAt text m.start, offsetAt text m.stop⟩

theorem stands_of_at {m : Match α} {w behind : List Char} (h : m.At text w behind) :
    Stands text m.start (offsetAt text m.start) (w ++ behind) := by
  obtain ⟨before, htext, hstart, _⟩ := h
  rw [List.append_assoc] at htext
  have hstands : Stands text m.start (byteSize before) (w ++ behind) :=
    ⟨before, htext, hstart, rfl⟩
  rwa [hstands.offsetAt_eq]

theorem offsetAt_stop {m : Match α} {w behind : List Char} (h : m.At text w behind) :
    offsetAt text m.stop = offsetAt text m.start + byteSize w := by
  obtain ⟨_, _, _, hwidth⟩ := id h
  have hstop := (stands_of_at h).drop.offsetAt_eq
  rwa [hwidth] at hstop

/-- Matches taken from the left stand one behind the other. -/
theorem laid_of_leftmost {Occurs : Match α → Prop} {place : Nat} {found : List (Match α)}
    (h : Leftmost Occurs place found) :
    Laid text (offsetAt text place) (found.map (matchSpan text)) := by
  induction h with
  | nil => exact .nil
  | @cons _ m _ _ hplace _ _ ih =>
      exact .cons (offsetAt_mono text hplace) (offsetAt_mono text (Nat.le_add_right _ _))
        (stands_offsetAt text m.start) (stands_offsetAt text m.stop) ih

/-- Cutting the spans of matches out leaves the text without the matches. -/
theorem strip_eq {Occurs : Match α → Prop} {place : Nat} {found : List (Match α)}
    (h : Leftmost Occurs place found) :
    strip text (offsetAt text place) (found.map (matchSpan text)) =
      .ok (withoutFrom text place found) := by
  induction h with
  | nil => exact (stands_offsetAt text _).sliceFrom
  | cons _ hplace _ _ ih =>
      rw [List.map_cons, strip, matchSpan, slice_offsetAt text hplace, Checked.ok_bind, ih]
      rfl

end Matches

theorem outer_restrictionSpan {text : List Char} {m : Match (List Char)}
    (h : RestrictionAt text m) : (restrictionSpan text m).outer = matchSpan text m := by
  obtain ⟨_, hat⟩ := h.place
  rw [BracketSpan.outer, restrictionSpan, bracketSpan_stop, matchSpan, offsetAt_stop hat]
  rfl

theorem outer_gateSpan {least : Nat} {text : List Char} {m : Match Gate} (h : GateAt least text m) :
    (gateSpan text m).outer = matchSpan text m := by
  obtain ⟨_, _, hat⟩ := h.place
  rw [GateSpan.outer, gateSpan, gate_text_stop, matchSpan, offsetAt_stop hat]
  rfl

/-- The spans of the restrictions are those of the matches. -/
theorem map_outer_restrictions (text : List Char) :
    ((restriction.findAll text).map (restrictionSpan text)).map BracketSpan.outer =
      (restriction.findAll text).map (matchSpan text) := by
  rw [List.map_map]
  have hleftmost := (findAll_restriction_iff text _).mp rfl
  exact List.map_congr_left fun m hm => outer_restrictionSpan (hleftmost.occurs m hm)

theorem map_outer_gates (least : Nat) (text : List Char) :
    (((gate least).findAll text).map (gateSpan text)).map GateSpan.outer =
      ((gate least).findAll text).map (matchSpan text) := by
  rw [List.map_map]
  have hleftmost := (findAll_gate_iff least text _).mp rfl
  exact List.map_congr_left fun m hm => outer_gateSpan (hleftmost.occurs m hm)

/-! ## Effects -/

theorem restrictions_eq (text : List Char) :
    restrictions text ((restriction.findAll text).map (restrictionSpan text)) =
      .ok (((restriction.values text).head?.map rolesOf).getD []) := by
  have hleftmost := (findAll_restriction_iff text _).mp rfl
  unfold values
  rcases hfound : restriction.findAll text with _ | ⟨m, found⟩
  · rfl
  · rw [hfound] at hleftmost
    obtain ⟨_, hat⟩ := (hleftmost.occurs m List.mem_cons_self).place
    have hinner := slice_inner (stands_of_at hat)
    rw [List.map_cons, restrictions, restrictionSpan, hinner]
    rfl

theorem block_eq {least : Nat} {text : List Char} {m : Match Gate} (h : GateAt least text m) :
    block text (gateSpan text m) = .ok m.value.block := by
  obtain ⟨behind, _, hat⟩ := h.place
  have hstands := stands_of_at hat
  rw [Gate.text, List.append_assoc] at hstands
  have heffect := hstands.drop
  rw [← bracketSpan_stop] at heffect
  have hcondition : (gateSpan text m).brackets.inner.slice text = .ok m.value.condition :=
    slice_inner hstands
  have hslice : (gateSpan text m).effect.slice text = .ok m.value.effect := heffect.slice
  rw [block, hcondition, Checked.ok_bind, condition_eq, Checked.ok_bind, hslice, Checked.ok_bind,
    deltas_eq]
  rfl

theorem mapM_eq_ok {α β : Type} {f : α → Checked β} {g : α → β} {l : List α}
    (h : ∀ a ∈ l, f a = .ok (g a)) : l.mapM f = .ok (l.map g) := by
  induction l with
  | nil => rfl
  | cons a l ih =>
      obtain ⟨ha, hl⟩ := List.forall_mem_cons.mp h
      rw [List.mapM_cons, ha, Checked.ok_bind, ih hl]
      rfl

/-- The scanner reads the effect that the patterns read. -/
theorem effect_eq (text : List Char) : effect text = .ok (Effect.ofChars text) := by
  have hblocks : (((gate 1).findAll text).map (gateSpan text)).mapM (block text) =
      .ok (((gate 1).values text).map Gate.block) := by
    rw [List.mapM_map, values, List.map_map]
    have hleftmost := (findAll_gate_iff 1 text _).mp rfl
    exact mapM_eq_ok fun m hm => block_eq (hleftmost.occurs m hm)
  have hunrestricted : strip text 0 ((restriction.findAll text).map (matchSpan text)) =
      .ok (unrestricted text) := strip_eq ((findAll_restriction_iff text _).mp rfl)
  have hbase : strip (unrestricted text) 0
      (((gate 0).findAll (unrestricted text)).map (matchSpan (unrestricted text))) =
        .ok (baseText text) := strip_eq ((findAll_gate_iff 0 _ _).mp rfl)
  rw [effect, restrictionSpans_eq, Checked.ok_bind, restrictions_eq, Checked.ok_bind,
    gateSpans_eq (Nat.le_refl 1), Checked.ok_bind, hblocks, Checked.ok_bind,
    map_outer_restrictions, hunrestricted, Checked.ok_bind, gateSpans_eq (Nat.zero_le 1),
    Checked.ok_bind, map_outer_gates, hbase, Checked.ok_bind, deltas_eq]
  rfl

/-! ## Good spans -/

/-- The brackets stand in the text, between its characters, and have something between them. -/
structure BracketSpan.Sound (text : String) (s : BracketSpan) : Prop where
  start_lt : s.start < s.inner.start
  inner_lt : s.inner.start < s.inner.stop
  lt_stop : s.inner.stop < s.stop
  stop_le : s.stop ≤ text.utf8ByteSize
  isValid : ∀ offset ∈ [s.start, s.inner.start, s.inner.stop, s.stop],
    String.Pos.Raw.IsValid text ⟨offset⟩

/-- The gate stands in the text, between its characters, with at least so much effect text behind
    its brackets. -/
structure GateSpan.Sound (least : Nat) (text : String) (s : GateSpan) : Prop where
  brackets : s.brackets.Sound text
  least_le : s.brackets.stop + least ≤ s.stop
  stop_le : s.stop ≤ text.utf8ByteSize
  isValid : String.Pos.Raw.IsValid text ⟨s.stop⟩

/-- The spans are apart and in the order of the text, and cutting them out leaves the characters
    outside them. -/
structure Cuttable (text : List Char) (spans : List Span) : Prop where
  apart : spans.Pairwise fun s t => s.stop ≤ t.start
  strip : strip text 0 spans = .ok (outsideSpans spans 0 text)

theorem cuttable_of_leftmost {α : Type} {text : List Char} {Occurs : Match α → Prop}
    {found : List (Match α)} (h : Leftmost Occurs 0 found) :
    Cuttable text (found.map (matchSpan text)) := by
  have hlaid : Laid text 0 (found.map (matchSpan text)) := laid_of_leftmost h
  exact ⟨hlaid.pairwise, hlaid.strip (stands_zero text)⟩

theorem sound_bracketSpan {opening closing : Char} {text : String} {content rest : List Char}
    {place start : Nat}
    (h : Stands text.toList place start ((opening :: content ++ [closing]) ++ rest))
    (hne : content ≠ []) : (bracketSpan opening closing start content).Sound text := by
  have hinner := stands_inner h
  have hclosing := hinner.drop
  have hbehind := hclosing.tail
  have hsize := hbehind.offset_le
  rw [byteSize_toList] at hsize
  exact {
    start_lt := Nat.lt_add_of_pos_right opening.utf8Size_pos
    inner_lt := Nat.lt_add_of_pos_right (byteSize_pos hne)
    lt_stop := Nat.lt_add_of_pos_right closing.utf8Size_pos
    stop_le := hsize
    isValid := by
      simp only [List.forall_mem_cons]
      exact ⟨h.isValid, hinner.isValid, hclosing.isValid, hbehind.isValid, List.forall_mem_nil _⟩ }

theorem sound_restrictionSpan {text : String} {m : Match (List Char)}
    (h : RestrictionAt text.toList m) : (restrictionSpan text.toList m).Sound text := by
  obtain ⟨_, hat⟩ := h.place
  exact sound_bracketSpan (stands_of_at hat) h.nonempty

theorem sound_gateSpan {least : Nat} (hleast : least ≤ 1) {text : String} {m : Match Gate}
    (h : GateAt least text.toList m) : (gateSpan text.toList m).Sound least text := by
  obtain ⟨behind, hgate, hat⟩ := h.place
  have hstands := stands_of_at hat
  have hbehind := hstands.drop
  rw [← gate_text_stop] at hbehind
  have hsize := hbehind.offset_le
  rw [byteSize_toList] at hsize
  rw [Gate.text, List.append_assoc] at hstands
  exact {
    brackets := sound_bracketSpan hstands hgate.nonempty
    least_le := Nat.add_le_add_left ((le_byteSize_iff hleast _).mpr h.least_le) _
    stop_le := hsize
    isValid := hbehind.isValid }

/-- Reading leads to no fault, whatever the text. The restrictions and gates found stand in the text
    at good offsets, apart and in order, and cutting them out leaves the characters outside them.
    The scanner then reads the effect, the condition or the changes that the patterns read; so
    every offset that it goes on with is good, every loop moves on, and no number overflows. -/
theorem never_faults (text : String) :
    (∃ spans, restrictionSpans text.toList = .ok spans ∧ (∀ s ∈ spans, s.Sound text) ∧
      Cuttable text.toList (spans.map BracketSpan.outer)) ∧
    (∀ least ≤ 1, ∃ spans, gateSpans least text.toList = .ok spans ∧
      (∀ s ∈ spans, s.Sound least text) ∧ Cuttable text.toList (spans.map GateSpan.outer)) ∧
    effect text.toList = .ok (Effect.ofText text) ∧
    condition text.toList = .ok (Condition.ofText text.toList) ∧
    deltas text.toList = .ok (deltasOf text.toList) := by
  refine ⟨⟨_, restrictionSpans_eq _, ?_, ?_⟩, fun least hleast => ⟨_, gateSpans_eq hleast _, ?_, ?_⟩,
    effect_eq _, condition_eq _, deltas_eq _⟩
  · have hleftmost := (findAll_restriction_iff text.toList _).mp rfl
    exact List.forall_mem_map.mpr fun m hm => sound_restrictionSpan (hleftmost.occurs m hm)
  · rw [map_outer_restrictions]
    exact cuttable_of_leftmost ((findAll_restriction_iff text.toList _).mp rfl)
  · have hleftmost := (findAll_gate_iff least text.toList _).mp rfl
    exact List.forall_mem_map.mpr fun m hm => sound_gateSpan hleast (hleftmost.occurs m hm)
  · rw [map_outer_gates]
    exact cuttable_of_leftmost ((findAll_gate_iff least text.toList _).mp rfl)

end Scan

end CramSchool
