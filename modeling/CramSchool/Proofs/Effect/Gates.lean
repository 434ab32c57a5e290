/-
  Changes behind a gate are not base changes.

  `ungated` is the text outside all restrictions and gates, as they stand in the sentence. Base
  changes are meant to be those of this text. The reader takes the restrictions out first
  and looks for gates again in what is left, so it can see gates that are not in the
  sentence, or miss some. A gate whose condition is made of restrictions is left with nothing in
  its brackets and is no gate any more; its changes become base changes
  (`base_restricted_condition`).

  In an unmixed sentence (`Unmixed`) no condition is made of restrictions only, and a restriction
  that overlaps a gate has no mark of gates in it. The base changes of such a sentence are those
  of the ungated text (`base_eq_deltasOf_ungated`).

  The sentence is taken piece by piece from the left (`Pieces`): a gate, a restriction, or a
  character at which neither begins. What is behind the piece is read as if it stood by itself.

  Blocks are looked for in the sentence itself. They are opened by the gates with effect text, in
  any sentence (`findAll_gate_one`).
-/
import CramSchool.Proofs.Effect.RoundTrip
import CramSchool.Proofs.Text.Places

namespace CramSchool

open Text Pattern

/-! ## The text outside restrictions and gates -/

/-- The characters that begin a gate, divide it and end it. -/
def Marker.gateMarks : List Char := [conditionOpen, conditionClose, terminator]

/-- The text outside all restrictions and gates of the sentence. -/
def ungated (text : List Char) : List Char :=
  outside (fun i => restriction.covered text i || (gate 0).covered text i) text

/-- The condition is a restriction. The change behind it is conditional, and a base change too. -/
theorem base_restricted_condition :
    (Effect.ofText "〈【室長】〉体験+1").blocks =
        [⟨.unknown "【室長】", [.changeBy .experience 1]⟩] ∧
      (Effect.ofText "〈【室長】〉体験+1").base = [.changeBy .experience 1] ∧
      (Effect.ofText "〈【室長】〉体験+1").base ≠ deltasOf (ungated "〈【室長】〉体験+1".toList) := by
  decide

/-- Restrictions and gates keep apart. -/
structure Unmixed (text : List Char) : Prop where
  /-- A restriction that overlaps a gate has no mark of gates in it. -/
  unmarked : ∀ r ∈ restriction.findAll text, ∀ g ∈ (gate 0).findAll text, r.Overlaps g →
    ∀ c ∈ r.value, c ∉ Marker.gateMarks
  /-- No condition is made of restrictions only. -/
  stated : ∀ g ∈ (gate 0).findAll text, unrestricted g.value.condition ≠ []

instance : DecidablePred Unmixed := fun text =>
  decidable_of_iff
    ((∀ r ∈ restriction.findAll text, ∀ g ∈ (gate 0).findAll text, r.Overlaps g →
        (r.value.all fun c => c ∉ Marker.gateMarks) = true) ∧
      ∀ g ∈ (gate 0).findAll text, unrestricted g.value.condition ≠ [])
    ⟨fun h => ⟨fun r hr g hg ho => forall_mem_of_all (h.1 r hr g hg ho), h.2⟩,
      fun h => ⟨fun r hr g hg ho => by simpa using h.unmarked r hr g hg ho, h.stated⟩⟩

/-! ## Pieces of a sentence -/

/-- A bracket with something in it, or no bracket. -/
theorem bracketed_cases (opening closing : Char) (text : List Char) :
    bracketed opening closing text = none ∨
      ∃ content rest, content ≠ [] ∧ closing ∉ content ∧
        text = (opening :: content ++ [closing]) ++ rest := by
  cases text with
  | nil => exact .inl rfl
  | cons c rest =>
      by_cases hopening : c = opening
      · by_cases hclosing : closing ∈ rest
        · obtain ⟨content, more, rfl, hfirst⟩ := List.eq_append_cons_of_mem hclosing
          by_cases hempty : content = []
          · subst hopening hempty
            exact .inl (by simp [bracketed])
          · subst hopening
            exact .inr ⟨content, more, hempty, hfirst, by simp⟩
        · exact .inl (by simp [bracketed, hclosing])
      · exact .inl (misses_bracketed hopening rest)

/-- An opening bracket begins nothing if it is never closed or is closed at once. -/
theorem bracketed_cons_eq_none_iff (opening closing : Char) (rest : List Char) :
    bracketed opening closing (opening :: rest) = none ↔
      closing ∉ rest ∨ rest.head? = some closing := by
  by_cases hclosing : closing ∈ rest
  · cases rest with
    | nil => cases hclosing
    | cons c rest => simp [bracketed, hclosing, List.takeWhile_cons]
  · simp [bracketed, hclosing]

theorem stable_bracketed (opening closing : Char) : Stable (bracketed opening closing) := by
  intro text x rest h
  obtain hnone | ⟨content, more, hne, hclosing, rfl⟩ := bracketed_cases opening closing text
  · rw [hnone] at h
    cases h
  · have htakes := takes_bracketed opening hne hclosing
    rw [← h, List.append_assoc]
    exact (htakes (more ++ rest)).trans (htakes more).symm

/-- A gate at the head of the text, or no bracket of a gate there. -/
theorem gate_cases (text : List Char) :
    bracketed Marker.conditionOpen Marker.conditionClose text = none ∨
      ∃ g rest, Gate.Stands g rest ∧ text = g.text ++ rest := by
  obtain hnone | ⟨condition, more, hne, hclosing, rfl⟩ :=
    bracketed_cases Marker.conditionOpen Marker.conditionClose text
  · exact .inl hnone
  · let inner : Char → Bool := fun c => c ≠ Marker.terminator ∧ c ≠ Marker.conditionOpen
    refine .inr ⟨⟨condition, more.takeWhile inner⟩, more.dropWhile inner,
      ⟨hne, hclosing, fun c hc => ?_, fun c hc => ?_⟩, ?_⟩
    · exact of_decide_eq_true (List.all_eq_true.mp List.all_takeWhile c hc)
    · have hhead := List.head?_dropWhile_not inner more
      rw [Option.mem_def.mp hc] at hhead
      have hends : ¬(c ≠ Marker.terminator ∧ c ≠ Marker.conditionOpen) := of_decide_eq_false hhead
      exact Decidable.or_iff_not_not_and_not.mpr hends
    · unfold Gate.text
      rw [List.append_assoc, List.append_assoc, List.takeWhile_append_dropWhile, List.append_assoc]

/-- What holds of the empty text, and of a text if it holds of what stands behind a gate at its
    head or, where no gate begins, behind its first character, holds of every text. -/
theorem gateInduction {motive : List Char → Prop} (nil : motive [])
    (pass : ∀ {c : Char} {rest : List Char}, (∀ least, gate least (c :: rest) = none) →
      motive rest → motive (c :: rest))
    (take : ∀ {g : Gate} {rest : List Char}, g.Stands rest → motive rest →
      motive (g.text ++ rest))
    (text : List Char) : motive text := by
  induction hlength : text.length using Nat.strongRecOn generalizing text with
  | ind n ih =>
      obtain hnone | ⟨g, rest, hstands, rfl⟩ := gate_cases text
      · cases text with
        | nil => exact nil
        | cons c rest =>
            have hrest : motive rest := ih rest.length (by simp [← hlength]) rest rfl
            exact pass (fun least => bind_eq_none _ hnone) hrest
      · refine take hstands (ih rest.length ?_ rest rfl)
        rw [← hlength, Gate.text]
        simp only [List.length_append, List.length_cons]
        omega

/-- A restriction as it is written. -/
def restrictionText (content : List Char) : List Char :=
  Marker.restrictionOpen :: content ++ [Marker.restrictionClose]

theorem restrictionText_ne_nil (content : List Char) : restrictionText content ≠ [] :=
  List.cons_ne_nil _ _

theorem takes_restrictionText {content : List Char} (hne : content ≠ [])
    (hclosing : Marker.restrictionClose ∉ content) (rest : List Char) :
    Takes restriction (restrictionText content) rest content :=
  takes_bracketed Marker.restrictionOpen hne hclosing rest

theorem mem_of_mem_restrictionText {c : Char} {content : List Char} (hc : c ∈ Marker.gateMarks)
    (h : c ∈ restrictionText content) : c ∈ content := by
  rcases List.mem_append.mp h with hfront | hlast
  · rcases List.mem_cons.mp hfront with rfl | hcontent
    · exact absurd hc (by decide)
    · exact hcontent
  · rw [List.mem_singleton.mp hlast] at hc
    exact absurd hc (by decide)

/-- A sentence from left to right. -/
inductive Pieces : List Char → Prop
  | nil : Pieces []
  | gate {g : Gate} {rest : List Char} (h : g.Stands rest) (hrest : Pieces rest) :
      Pieces (g.text ++ rest)
  | restriction {content rest : List Char} (hne : content ≠ [])
      (hclosing : Marker.restrictionClose ∉ content) (hrest : Pieces rest) :
      Pieces (restrictionText content ++ rest)
  | other {c : Char} {rest : List Char} (hrestriction : CramSchool.restriction (c :: rest) = none)
      (hgate : bracketed Marker.conditionOpen Marker.conditionClose (c :: rest) = none)
      (hrest : Pieces rest) : Pieces (c :: rest)

/-- Every sentence is made of such pieces. -/
theorem pieces (text : List Char) : Pieces text := by
  induction hlength : text.length using Nat.strongRecOn generalizing text with
  | ind n ih =>
      have hbehind : ∀ {w rest : List Char}, w ≠ [] → text = w ++ rest → Pieces rest := by
        intro w rest hw heq
        have := List.length_pos_iff.mpr hw
        refine ih rest.length ?_ rest rfl
        rw [← hlength, heq, List.length_append]
        omega
      obtain hgate | ⟨g, rest, hstands, rfl⟩ := gate_cases text
      · obtain hnone | ⟨content, rest, hne, hclosing, rfl⟩ :=
          bracketed_cases Marker.restrictionOpen Marker.restrictionClose text
        · cases text with
          | nil => exact .nil
          | cons c rest => exact .other hnone hgate (hbehind (w := [c]) (by simp) rfl)
        · exact .restriction hne hclosing (hbehind (by simp) rfl)
      · exact .gate hstands (hbehind (by simp [Gate.text]) rfl)

/-! ## What stands behind a piece -/

section Behind

variable {w rest : List Char} {rs : List (Match (List Char))} {gs : List (Match Gate)}

theorem Unmixed.behind (h : Unmixed (w ++ rest)) (hr : Finds restriction w rest rs)
    (hg : Finds (gate 0) w rest gs) : Unmixed rest where
  unmarked := by
    intro r hrm g hgm hoverlap
    exact h.unmarked (r.shift w.length) (hr.shift_mem hrm) (g.shift w.length) (hg.shift_mem hgm)
      ((overlaps_shift r g w.length).mpr hoverlap)
  stated := fun g hgm => h.stated (g.shift w.length) (hg.shift_mem hgm)

theorem ungated_append (hr : Finds restriction w rest rs) (hg : Finds (gate 0) w rest gs) :
    ungated (w ++ rest) =
      outside (fun i => restriction.covered (w ++ rest) i || (gate 0).covered (w ++ rest) i) w ++
        ungated rest := by
  unfold ungated
  rw [outside_append]
  simp only [hr.covered_add, hg.covered_add]

/-- A piece that a restriction or a gate covers is not in the ungated text. -/
theorem ungated_of_covered (hr : Finds restriction w rest rs) (hg : Finds (gate 0) w rest gs)
    (h : ∀ i < w.length,
      (restriction.covered (w ++ rest) i || (gate 0).covered (w ++ rest) i) = true) :
    ungated (w ++ rest) = ungated rest := by
  rw [ungated_append hr hg, outside_eq_nil h, List.nil_append]

end Behind

theorem ungated_cons {c : Char} {rest : List Char} (hr : restriction (c :: rest) = none)
    (hg : gate 0 (c :: rest) = none) : ungated (c :: rest) = c :: ungated rest := by
  have happend := ungated_append (finds_pass hr) (finds_pass hg)
  rw [List.singleton_append] at happend
  rw [happend]
  simp [outside, covered_pass hr, covered_pass hg]

/-! ## Restrictions in a gate -/

/-- With `rest` behind the piece, no restriction that begins in the piece has marks of gates in
    it. -/
def UnmarkedIn (w rest : List Char) : Prop :=
  ∀ r ∈ restriction.findAll (w ++ rest), r.start < w.length → ∀ c ∈ r.value, c ∉ Marker.gateMarks

theorem UnmarkedIn.behind {v w rest : List Char} {rs : List (Match (List Char))}
    (h : UnmarkedIn (v ++ w) rest) (hr : Finds restriction v (w ++ rest) rs) :
    UnmarkedIn w rest := by
  intro r hrm hlt
  have hmem := hr.shift_mem hrm
  rw [← List.append_assoc] at hmem
  refine h (r.shift v.length) hmem ?_
  rw [List.length_append]
  simp only [Match.shift]
  omega

theorem stable_restriction : Stable restriction := stable_bracketed _ _

/-- A restriction without marks does not reach over a mark. -/
theorem exists_append_of_restriction {w rest content more : List Char} (hw : w ≠ [])
    (hrest : ∀ c ∈ rest.head?, c ∈ Marker.gateMarks) (h : UnmarkedIn w rest)
    (htakes : Takes restriction (restrictionText content) more content)
    (heq : w ++ rest = restrictionText content ++ more) :
    ∃ v, w = restrictionText content ++ v ∧ more = v ++ rest := by
  obtain ⟨beyond, hbeyond, hmore⟩ | hinside := List.append_eq_append_iff.mp heq
  · cases beyond with
    | nil => exact ⟨[], by simpa using hbeyond.symm, by simpa using hmore.symm⟩
    | cons d beyond =>
        -- If it reached over the mark it would have the mark in it.
        have hmark : d ∈ Marker.gateMarks := hrest d (by rw [hmore]; rfl)
        have hcontent : d ∈ content := mem_of_mem_restrictionText hmark (by rw [hbeyond]; simp)
        have hfound := findAll_takes htakes (restrictionText_ne_nil content)
        rw [← heq] at hfound
        have hunmarked := h _ (hfound ▸ List.mem_cons_self) (List.length_pos_iff.mpr hw)
        exact absurd hmark (hunmarked d hcontent)
  · exact hinside

theorem splits_restriction {w rest : List Char} (hrest : ∀ c ∈ rest.head?, c ∈ Marker.gateMarks)
    (h : UnmarkedIn w rest) : Splits restriction rest w := by
  induction hlength : w.length using Nat.strongRecOn generalizing w with
  | ind n ih =>
      cases w with
      | nil => exact .nil
      | cons c w =>
          obtain hnone | ⟨content, more, hne, hclosing, heq⟩ :=
            bracketed_cases Marker.restrictionOpen Marker.restrictionClose (c :: w ++ rest)
          · have hbehind := h.behind (v := [c]) (finds_pass hnone)
            exact .pass hnone (ih w.length (by simp [← hlength]) hbehind rfl)
          · have htakes := takes_restrictionText hne hclosing
            obtain ⟨v, hv, rfl⟩ :=
              exists_append_of_restriction (by simp) hrest h (htakes more) heq
            rw [hv] at h hlength ⊢
            have hbehind := h.behind ((htakes (v ++ rest)).finds (restrictionText_ne_nil content))
            refine .take (restrictionText_ne_nil content) (htakes v) (ih v.length ?_ hbehind rfl)
            have := List.length_pos_iff.mpr (restrictionText_ne_nil content)
            rw [← hlength, List.length_append]
            omega

theorem unrestricted_cons {c : Char} {rest : List Char} (h : restriction (c :: rest) = none) :
    unrestricted (c :: rest) = c :: unrestricted rest :=
  cut_passes (w := [c]) ⟨h, trivial⟩

/-- A mark is not in a restriction that begins there. -/
theorem unrestricted_mark {c : Char} (h : c ∈ Marker.gateMarks) (rest : List Char) :
    unrestricted (c :: rest) = c :: unrestricted rest := by
  refine unrestricted_cons (misses_bracketed (fun he => ?_) rest)
  rw [he] at h
  exact absurd h (by decide)

theorem Gate.text_ne_nil (g : Gate) : g.text ≠ [] := by simp [Gate.text]

/-- Cutting restrictions out makes no bracket that was not there. -/
theorem bracketed_unrestricted {c : Char} {rest : List Char}
    (h : bracketed Marker.conditionOpen Marker.conditionClose (c :: rest) = none) :
    bracketed Marker.conditionOpen Marker.conditionClose (c :: unrestricted rest) = none := by
  by_cases hc : c = Marker.conditionOpen
  · subst hc
    rw [bracketed_cons_eq_none_iff] at h ⊢
    refine h.imp (fun hnotin hmem => hnotin (mem_of_mem_cut hmem)) fun hhead => ?_
    obtain ⟨tail, rfl⟩ := List.head?_eq_some_iff.mp hhead
    rw [unrestricted_mark (by decide)]
    rfl
  · exact misses_bracketed hc _

/-- The gate without the restrictions in it. -/
def Gate.stripped (g : Gate) : Gate := ⟨unrestricted g.condition, unrestricted g.effect⟩

theorem Gate.Stands.stripped {g : Gate} {rest : List Char} (h : g.Stands rest)
    (hstated : unrestricted g.condition ≠ []) : g.stripped.Stands (unrestricted rest) where
  nonempty := hstated
  closed := fun hc => h.closed (mem_of_mem_cut hc)
  inner := fun c hc => h.inner c (mem_of_mem_cut hc)
  ends := by
    cases rest with
    | nil => exact fun c hc => nomatch hc
    | cons d rest =>
        have hd := h.ends d rfl
        rw [unrestricted_mark (by rcases hd with rfl | rfl <;> decide)]
        exact fun c hc => Option.some.inj hc ▸ hd

theorem Gate.Stands.marked {g : Gate} {rest : List Char} (h : g.Stands rest) :
    ∀ c ∈ rest.head?, c ∈ Marker.gateMarks := by
  intro c hc
  rcases h.ends c hc with rfl | rfl <;> decide

theorem Gate.text_eq (g : Gate) :
    g.text = (Marker.conditionOpen :: g.condition) ++ Marker.conditionClose :: g.effect := by
  simp [Gate.text]

/-- The closing bracket parts the restrictions of the condition from those of the effect. -/
theorem unrestricted_text {g : Gate} {rest : List Char}
    (hsplits : Splits restriction rest g.text) (h : UnmarkedIn g.text rest) :
    unrestricted g.text = g.stripped.text := by
  have hfront : UnmarkedIn (Marker.conditionOpen :: g.condition)
      (Marker.conditionClose :: g.effect) := by
    intro r hr hlt
    rw [← Gate.text_eq] at hr
    refine h r ?_ ?_
    · rw [(hsplits.finds stable_restriction).findAll]
      exact List.mem_append_left _ hr
    · rw [Gate.text_eq, List.length_append]
      omega
  have hcondition : Splits restriction (Marker.conditionClose :: g.effect)
      (Marker.conditionOpen :: g.condition) :=
    splits_restriction (fun c hc => Option.some.inj hc ▸ (by decide)) hfront
  calc unrestricted g.text
      = unrestricted (Marker.conditionOpen :: g.condition) ++
          unrestricted (Marker.conditionClose :: g.effect) := by
        rw [Gate.text_eq]
        exact hcondition.cut_append stable_restriction
    _ = (Marker.conditionOpen :: unrestricted g.condition) ++
          Marker.conditionClose :: unrestricted g.effect := by
        rw [unrestricted_mark (by decide), unrestricted_mark (by decide)]
    _ = g.stripped.text := (Gate.text_eq g.stripped).symm

/-! ## Base changes -/

/-- A restriction that begins in a gate overlaps it. -/
theorem Unmixed.unmarkedIn {g : Gate} {rest : List Char} (h : Unmixed (g.text ++ rest))
    (htakes : Takes (gate 0) g.text rest g) : UnmarkedIn g.text rest := fun r hr hlt =>
  h.unmarked r hr _ (htakes.mem_findAll g.text_ne_nil) (.inl (covers_of_lt g hlt))

/-- No gate begins in a restriction in front of which none begins. -/
theorem Unmixed.passes_gate {content rest : List Char}
    (h : Unmixed (restrictionText content ++ rest))
    (htakes : Takes restriction (restrictionText content) rest content) :
    Passes (gate 0) (restrictionText content) rest := by
  by_cases hunmarked : ∀ c ∈ content, c ∉ Marker.gateMarks
  · refine CramSchool.passes_gate (fun c hc he => ?_) 0 rest
    subst he
    exact hunmarked _ (mem_of_mem_restrictionText (by decide) hc) (by decide)
  · refine passes_of_findAll fun g hg => Nat.le_of_not_lt fun hlt => hunmarked ?_
    have hfound := htakes.mem_findAll (restrictionText_ne_nil content)
    exact h.unmarked _ hfound g hg (.inr (covers_of_lt content hlt))

/-- Without its restrictions a gate is still a gate, and ends where it did. -/
theorem baseText_gate {g : Gate} {rest : List Char} (hstands : g.Stands rest)
    (hstated : unrestricted g.condition ≠ []) (hunmarked : UnmarkedIn g.text rest) :
    baseText (g.text ++ rest) = baseText rest := by
  have hsplits := splits_restriction hstands.marked hunmarked
  have hleft : unrestricted (g.text ++ rest) = g.stripped.text ++ unrestricted rest := by
    rw [← unrestricted_text hsplits hunmarked]
    exact hsplits.cut_append stable_restriction
  have htakes := (hstands.stripped hstated).takes (Nat.zero_le _)
  calc baseText (g.text ++ rest)
      = cut (gate 0) (g.stripped.text ++ unrestricted rest) := congrArg (cut (gate 0)) hleft
    _ = baseText rest := cut_takes htakes g.stripped.text_ne_nil

theorem baseText_cons {c : Char} {rest : List Char} (hrestriction : restriction (c :: rest) = none)
    (hgate : bracketed Marker.conditionOpen Marker.conditionClose (c :: rest) = none) :
    baseText (c :: rest) = c :: baseText rest := by
  have hleft : gate 0 (c :: unrestricted rest) = none :=
    bind_eq_none _ (bracketed_unrestricted hgate)
  calc baseText (c :: rest)
      = cut (gate 0) (c :: unrestricted rest) :=
        congrArg (cut (gate 0)) (unrestricted_cons hrestriction)
    _ = c :: baseText rest := cut_passes (w := [c]) ⟨hleft, trivial⟩

/-- The base text of an unmixed sentence is what stands outside restrictions and gates. -/
theorem baseText_eq_ungated {text : List Char} (h : Unmixed text) :
    baseText text = ungated text := by
  induction pieces text with
  | nil => rfl
  | @gate g rest hstands _ ih =>
      have htakes : Takes (gate 0) g.text rest g := hstands.takes (Nat.zero_le _)
      have hunmarked := h.unmarkedIn htakes
      have hr := (splits_restriction hstands.marked hunmarked).finds stable_restriction
      have hg := htakes.finds g.text_ne_nil
      have hstated := h.stated _ (htakes.mem_findAll g.text_ne_nil)
      rw [baseText_gate hstands hstated hunmarked, ih (h.behind hr hg)]
      refine (ungated_of_covered hr hg fun i hi => ?_).symm
      rw [htakes.covered hi, Bool.or_true]
  | @restriction content rest hne hclosing _ ih =>
      have htakes := takes_restrictionText hne hclosing rest
      have hr := htakes.finds (restrictionText_ne_nil content)
      have hg := (h.passes_gate htakes).finds
      have hleft : baseText (restrictionText content ++ rest) = baseText rest :=
        congrArg (cut (gate 0)) (cut_takes htakes (restrictionText_ne_nil content))
      rw [hleft, ih (h.behind hr hg)]
      refine (ungated_of_covered hr hg fun i hi => ?_).symm
      rw [htakes.covered hi, Bool.true_or]
  | @other c rest hrestriction hgate _ ih =>
      have hnone : gate 0 (c :: rest) = none := bind_eq_none _ hgate
      have hbehind := h.behind (w := [c]) (finds_pass hrestriction) (finds_pass hnone)
      rw [baseText_cons hrestriction hgate, ih hbehind, ungated_cons hrestriction hnone]

/-! ## Blocks -/

/-- With too little effect text there is no gate. -/
theorem Gate.Stands.eq_none {g : Gate} {rest : List Char} (h : g.Stands rest) {least : Nat}
    (hleast : g.effect.length < least) : CramSchool.gate least (g.text ++ rest) = none := by
  have hcondition :=
    takes_bracketed Marker.conditionOpen h.nonempty h.closed (g.effect ++ rest)
  unfold Gate.text
  rw [List.append_assoc]
  refine hcondition.bind_eq_none (h.takes_effect.bind_eq_none ?_)
  rw [if_pos hleast]
  rfl

/-- If a gate has no effect text, no gate with effect text begins in its brackets. -/
theorem passes_gate_one {w rest : List Char} (hclosing : Marker.conditionClose ∉ w)
    (hrest : ∀ c ∈ rest.head?, c = Marker.terminator ∨ c = Marker.conditionOpen) :
    Passes (gate 1) (w ++ [Marker.conditionClose]) rest := by
  induction w with
  | nil => exact passes_gate (forall_mem_of_all (by decide)) 1 rest
  | cons c w ih =>
      have hnotin : Marker.conditionClose ∉ w := fun hmem =>
        hclosing (List.mem_cons_of_mem c hmem)
      refine ⟨?_, ih hnotin⟩
      by_cases hc : c = Marker.conditionOpen
      · subst hc
        by_cases hw : w = []
        · subst hw
          exact bind_eq_none _ ((bracketed_cons_eq_none_iff _ _ _).mpr (.inr rfl))
        · have hstands : Gate.Stands ⟨w, []⟩ rest := ⟨hw, hnotin, List.forall_mem_nil _, hrest⟩
          have hnone := hstands.eq_none (Nat.zero_lt_one)
          rwa [Gate.text, List.append_nil] at hnone
      · exact misses_gate hc 1 _

/-- The gates that open blocks are those with effect text. -/
theorem findAll_gate_one (text : List Char) :
    (gate 1).findAll text = ((gate 0).findAll text).filter fun m => m.value.effect ≠ [] := by
  induction text using gateInduction with
  | nil => rfl
  | pass hnone ih =>
      rw [findAll_pass (hnone 1), findAll_pass (hnone 0), List.filter_map, ih]
      rfl
  | @take g rest hstands ih =>
      rw [findAll_takes (hstands.takes (Nat.zero_le _)) g.text_ne_nil, List.filter_cons,
        List.filter_map]
      by_cases heffect : g.effect = []
      · have htext : g.text = Marker.conditionOpen :: g.condition ++ [Marker.conditionClose] := by
          rw [Gate.text, heffect, List.append_nil]
        have hclosing : Marker.conditionClose ∉ Marker.conditionOpen :: g.condition := fun h =>
          (List.mem_cons.mp h).elim (by decide) hstands.closed
        have hpasses : Passes (gate 1) g.text rest :=
          htext ▸ passes_gate_one hclosing hstands.ends
        rw [if_neg (by simpa using heffect), hpasses.finds.findAll, List.nil_append, ih]
        rfl
      · have htakes := hstands.takes (List.length_pos_iff.mpr heffect)
        rw [if_pos (by simpa using heffect), findAll_takes htakes g.text_ne_nil, ih]
        rfl

/-- The base changes of an unmixed sentence are the changes outside restrictions and gates. The
    gates that are left out are those that open the blocks, and gates without effect text. So no
    change that a block is made of is a base change too. -/
theorem base_eq_deltasOf_ungated {text : String} (h : Unmixed text.toList) :
    (Effect.ofText text).base = deltasOf (ungated text.toList) ∧
      (Effect.ofText text).blocks =
        (((gate 0).findAll text.toList).filter fun m => m.value.effect ≠ []).map
          fun m => m.value.block := by
  refine ⟨congrArg deltasOf (baseText_eq_ungated h), ?_⟩
  rw [← findAll_gate_one]
  exact List.map_map

/-- A sentence with restrictions in front of a gate, in its condition and in its effect. -/
theorem base_nested_restrictions :
    Unmixed "【室長】満足+2、〈満足8以上【講師】〉経理+1【事務】、体験+3。入塾-1".toList ∧
      (Effect.ofText "【室長】満足+2、〈満足8以上【講師】〉経理+1【事務】、体験+3。入塾-1").base =
        [.changeBy .satisfaction 2, .changeBy .enrollment (.saturate (-1))] := by
  have hunmixed :
      Unmixed "【室長】満足+2、〈満足8以上【講師】〉経理+1【事務】、体験+3。入塾-1".toList := by
    decide
  refine ⟨hunmixed, ?_⟩
  rw [(base_eq_deltasOf_ungated hunmixed).1]
  decide

end CramSchool
