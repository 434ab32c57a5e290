/-
  An effect is read back from the sentence that an author writes for it.

  A sentence has three layers, each read by a scan of its own: the restriction, the gates and the
  phrases. No scan sees what belongs to another. Brackets stand only around the parts they
  belong to, so the restriction and the gates are taken and all else is passed. What is left
  when they are cut out is the base and one terminator of each block (`baseText_wording`). A gate
  gives its block back (`block_gate`), since its condition and its changes are read back each
  for itself.

  `Effect.Authorable` are the effects for which this holds.
-/
import CramSchool.Effect.Reading
import CramSchool.Proofs.Effect.Wording

namespace CramSchool

open Text Pattern

/-! ## Lists of roles -/

theorem eraseDups_eq_self {roles : List Role} (h : roles.Nodup) : roles.eraseDups = roles := by
  induction roles with
  | nil => rfl
  | cons role roles ih =>
      obtain ⟨hnotin, hrest⟩ := List.nodup_cons.mp h
      have hfilter : roles.filter (fun other => !other == role) = roles := by
        refine List.filter_eq_self.mpr fun other hother => ?_
        have hne : other ≠ role := fun he => hnotin (he ▸ hother)
        simp [hne]
      rw [List.eraseDups_cons, hfilter, ih hrest]

theorem ofLabel?_label (role : Role) :
    Enumerated.ofLabel? (String.ofList (trim role.label.toList)) = some role := by
  rw [trim_eq_self fun c hc => (lettered_role role c hc).1, String.ofList_toList]
  cases role <;> rfl

/-- The list of some roles, each once, names these roles. -/
theorem rolesOf_roleList {roles : List Role} (hne : roles ≠ []) (hnodup : roles.Nodup) :
    rolesOf (roleList roles) = roles := by
  have hsplit : (roleList roles).splitOn Marker.separator =
      roles.map fun role => role.label.toList := by
    refine List.splitOn_intercalate _ ?_ (by simpa using hne)
    intro w hw hseparator
    obtain ⟨role, _, rfl⟩ := List.mem_map.mp hw
    exact (lettered_role role _ hseparator).2 (by decide)
  have hnames : (roles.map fun role => role.label.toList).filterMap
      (fun item => Enumerated.ofLabel? (String.ofList (trim item))) = roles := by
    rw [List.filterMap_map, show _ ∘ _ = some from funext ofLabel?_label]
    exact List.filterMap_some
  unfold rolesOf
  rw [hsplit, hnames, eraseDups_eq_self hnodup]

theorem roleList_ne_nil {roles : List Role} (h : roles ≠ []) : roleList roles ≠ [] := by
  obtain ⟨role, more, rfl⟩ := List.exists_cons_of_ne_nil h
  cases role <;> cases more <;> simp [roleList, Role.label]

/-! ## Conditions -/

/-- A condition that its wording tells. Unknown text stands in the brackets as it is, so it
    must not be taken for anything else there. -/
def Condition.Authorable : Condition → Prop
  | .role roles => roles ≠ [] ∧ roles.Nodup
  | .stat _ threshold _ => 0 ≤ threshold.val
  | .unknown raw =>
    raw ≠ "" ∧ trim raw.toList = raw.toList ∧ (∀ c ∈ raw.toList, c ∉ Marker.brackets) ∧
      Condition.ofText raw.toList = .unknown raw

instance : DecidablePred Condition.Authorable
  | .role roles => inferInstanceAs (Decidable (roles ≠ [] ∧ roles.Nodup))
  | .stat _ threshold _ => inferInstanceAs (Decidable (0 ≤ threshold.val))
  | .unknown raw =>
    letI := List.decidableBAll (fun c => c ∉ Marker.brackets) raw.toList
    inferInstanceAs (Decidable (raw ≠ "" ∧ trim raw.toList = raw.toList ∧
      (∀ c ∈ raw.toList, c ∉ Marker.brackets) ∧ Condition.ofText raw.toList = .unknown raw))

/-- No item of a list without separators is a role if the text does not begin like one. -/
theorem rolesOf_threshold (k : Stat) (v : Points) (comparator : Comparator) :
    rolesOf (Condition.stat k v comparator).wording = [] := by
  have hlettered := lettered_threshold k v comparator
  have hseparator : Marker.separator ∉ (Condition.stat k v comparator).wording :=
    fun hc => (hlettered _ hc).2 (by decide)
  have hnone : Enumerated.ofLabel? (α := Role)
      (String.ofList (trim (Condition.stat k v comparator).wording)) = none := by
    rw [trim_eq_self fun c hc => (hlettered c hc).1]
    refine List.find?_eq_none.mpr fun role _ hlabel => ?_
    have hword := congrArg String.toList (beq_iff_eq.mp hlabel)
    rw [String.toList_ofList, Condition.wording] at hword
    cases role <;> cases k <;> simp [Enumerated.label, Role.label, Stat.label] at hword
  unfold rolesOf
  rw [List.splitOn_eq_singleton hseparator, List.filterMap_cons, hnone]
  rfl

theorem ofText_condition_wording {condition : Condition} (h : condition.Authorable) :
    Condition.ofText (trim condition.wording) = condition := by
  cases condition with
  | role roles =>
      have hroles := rolesOf_roleList h.1 h.2
      rw [Condition.wording, trim_eq_self fun c hc => (inner_roleList roles c hc).1,
        Condition.ofText, hroles]
      obtain ⟨first, more, rfl⟩ := List.exists_cons_of_ne_nil h.1
      rfl
  | stat k v comparator =>
      have htakes := Phrase.takes_threshold k h comparator []
      have hne : (Condition.stat k v comparator).wording ≠ [] := by
        cases k <;> exact List.cons_ne_nil _ _
      have hfirst := findFirst?_takes htakes hne
      rw [List.append_nil] at hfirst
      rw [trim_eq_self fun c hc => (lettered_threshold k v comparator c hc).1, Condition.ofText,
        rolesOf_threshold, hfirst]
      rfl
  | unknown raw =>
      obtain ⟨hne, htrim, _, hunknown⟩ := h
      rw [Condition.wording, if_neg hne, htrim, hunknown]

theorem condition_wording_ne_nil {condition : Condition} (h : condition.Authorable) :
    condition.wording ≠ [] := by
  cases condition with
  | role roles => exact roleList_ne_nil h.1
  | stat k v comparator => cases k <;> exact List.cons_ne_nil _ _
  | unknown raw =>
      rw [Condition.wording, if_neg h.1]
      exact fun he => h.1 (String.toList_eq_nil_iff.mp he)

theorem bracketFree_wording {condition : Condition} (h : condition.Authorable) :
    ∀ c ∈ condition.wording, c ∉ Marker.brackets := by
  cases condition with
  | role roles => exact fun c hc => (inner_roleList roles c hc).2.1
  | stat k v comparator => exact fun c hc => (lettered_threshold k v comparator c hc).inner.2.1
  | unknown raw =>
      rw [Condition.wording, if_neg h.1]
      exact h.2.2.1

/-! ## Changes -/

/-- Changes that their sentence tells: each by itself, and at most the first a `setTo`. -/
structure AuthorableChanges (ds : List Delta) : Prop where
  each : ∀ d ∈ ds, d.Authorable
  setTo_first : ∀ d ∈ ds.tail, d.isSetTo = false

instance : DecidablePred AuthorableChanges := fun ds =>
  decidable_of_iff ((∀ d ∈ ds, d.Authorable) ∧ ∀ d ∈ ds.tail, d.isSetTo = false)
    ⟨fun h => ⟨h.1, h.2⟩, fun h => ⟨h.each, h.setTo_first⟩⟩

theorem AuthorableChanges.deltasOf_joined {ds : List Delta} (h : AuthorableChanges ds)
    (rest : List Char) (hrest : NoDigitHead rest) (hquiet : ∀ c ∈ rest, Quiet c) :
    deltasOf (joined ds ++ rest) = ds := by
  rw [CramSchool.deltasOf_joined h.each hrest hquiet]
  exact find?_isSetTo_append_filter h.setTo_first

/-! ## Brackets and gates -/

theorem takes_bracketed (opening : Char) {closing : Char} {content : List Char} (hne : content ≠ [])
    (hclosing : closing ∉ content) (rest : List Char) :
    Takes (bracketed opening closing) (opening :: content ++ [closing]) rest content := by
  have hinside : ∀ c ∈ content, decide (c ≠ closing) = true := fun c hc =>
    decide_eq_true fun he => hclosing (he ▸ hc)
  have hcontent : (content ++ closing :: rest).takeWhile (fun c => decide (c ≠ closing)) =
      content := by
    rw [List.takeWhile_append_of_pos hinside, List.takeWhile_cons_of_neg (by simp),
      List.append_nil]
  have hmem : closing ∈ content ++ closing :: rest :=
    List.mem_append_right _ List.mem_cons_self
  have htext : opening :: content ++ [closing] ++ rest =
      opening :: (content ++ closing :: rest) := by simp
  unfold Takes bracketed
  rw [htext]
  dsimp only
  rw [if_pos rfl, hcontent, if_pos ⟨hne, hmem⟩]
  simp

theorem misses_bracketed {opening closing c : Char} (h : c ≠ opening) :
    Misses (bracketed opening closing) c := fun _ => if_neg h

theorem misses_gate {c : Char} (h : c ≠ Marker.conditionOpen) (least : Nat) :
    Misses (gate least) c := (misses_bracketed h).bind _

theorem passes_gate {w : List Char} (h : ∀ c ∈ w, c ≠ Marker.conditionOpen) (least : Nat)
    (rest : List Char) : Passes (gate least) w rest :=
  passes_of_misses (fun c hc => misses_gate (h c hc) least) rest

/-- A gate as it is written. -/
def Gate.text (g : Gate) : List Char :=
  (Marker.conditionOpen :: g.condition ++ [Marker.conditionClose]) ++ g.effect

/-- With `rest` behind it the text of the gate is read as that gate. -/
structure Gate.Stands (g : Gate) (rest : List Char) : Prop where
  nonempty : g.condition ≠ []
  closed : Marker.conditionClose ∉ g.condition
  inner : ∀ c ∈ g.effect, c ≠ Marker.terminator ∧ c ≠ Marker.conditionOpen
  ends : ∀ c ∈ rest.head?, c = Marker.terminator ∨ c = Marker.conditionOpen

theorem Gate.Stands.takes_effect {g : Gate} {rest : List Char} (h : g.Stands rest) :
    Takes (run fun c => c ≠ Marker.terminator ∧ c ≠ Marker.conditionOpen) g.effect rest
      g.effect := by
  refine takes_run (fun c hc => decide_eq_true (h.inner c hc)) fun c hc => ?_
  refine decide_eq_false fun he => ?_
  exact (h.ends c hc).elim he.1 he.2

theorem Gate.Stands.takes {g : Gate} {rest : List Char} (h : g.Stands rest) {least : Nat}
    (hleast : least ≤ g.effect.length) : Takes (CramSchool.gate least) g.text rest g := by
  have hcondition :=
    takes_bracketed Marker.conditionOpen h.nonempty h.closed (g.effect ++ rest)
  refine hcondition.bind (h.takes_effect.bind_nil ?_)
  rw [if_neg (Nat.not_lt.mpr hleast)]
  exact takes_pure _ _

/-- The gate of a block: the condition in its brackets and the changes up to the terminator. -/
def Block.gate (b : Block) : Gate := ⟨b.condition.wording, joined b.deltas⟩

/-- A block that its wording tells. -/
structure Block.Authorable (b : Block) : Prop where
  condition : b.condition.Authorable
  deltas : AuthorableChanges b.deltas
  nonempty : b.deltas ≠ []

instance : DecidablePred Block.Authorable := fun b =>
  decidable_of_iff (b.condition.Authorable ∧ AuthorableChanges b.deltas ∧ b.deltas ≠ [])
    ⟨fun h => ⟨h.1, h.2.1, h.2.2⟩, fun h => ⟨h.condition, h.deltas, h.nonempty⟩⟩

theorem joined_ne_nil {ds : List Delta} (h : ds ≠ []) : joined ds ≠ [] := by
  obtain ⟨d, ds, rfl⟩ := List.exists_cons_of_ne_nil h
  cases ds with
  | nil =>
      rw [joined_singleton]
      exact wording_ne_nil d
  | cons e ds =>
      rw [joined_cons_cons]
      simp

theorem Block.Authorable.stands {b : Block} (h : b.Authorable) (rest : List Char) :
    b.gate.Stands (Marker.terminator :: rest) where
  nonempty := condition_wording_ne_nil h.condition
  closed := fun hc => bracketFree_wording h.condition _ hc (by decide)
  inner := by
    intro c hc
    obtain ⟨_, hbracket, hterminator⟩ := inner_joined b.deltas c hc
    exact ⟨hterminator, ne_of_notMem_brackets hbracket (by decide)⟩
  ends := by simp

theorem takes_gate {b : Block} (h : b.Authorable) {least : Nat} (hleast : least ≤ 1)
    (rest : List Char) :
    Takes (gate least)
      ((Marker.conditionOpen :: b.condition.wording ++ [Marker.conditionClose]) ++ joined b.deltas)
      (Marker.terminator :: rest) b.gate := by
  have hpos : 1 ≤ b.gate.effect.length := List.length_pos_iff.mpr (joined_ne_nil h.nonempty)
  exact (h.stands rest).takes (Nat.le_trans hleast hpos)

/-- The gate of a block gives the block back. -/
theorem block_gate {b : Block} (h : b.Authorable) : b.gate.block = b := by
  have hdeltas := h.deltas.deltasOf_joined [] (fun _ hc => nomatch hc) fun _ hc => nomatch hc
  rw [List.append_nil] at hdeltas
  unfold Gate.block Block.gate
  dsimp only
  rw [ofText_condition_wording h.condition, trim_eq_self fun c hc => (inner_joined b.deltas c hc).1,
    hdeltas]

/-- The wordings of some blocks, one behind the other. -/
def blocksWording (blocks : List Block) : List Char := (blocks.map Block.wording).flatten

theorem blocksWording_cons (b : Block) (blocks : List Block) :
    blocksWording (b :: blocks) =
      (Marker.conditionOpen :: b.condition.wording ++ [Marker.conditionClose]) ++ joined b.deltas ++
        Marker.terminator :: blocksWording blocks := by
  simp [blocksWording, Block.wording, sentence, joined]

theorem passes_terminator (least : Nat) (rest : List Char) :
    Passes (gate least) [Marker.terminator] rest :=
  passes_gate (forall_mem_of_all (by decide)) least rest

theorem values_gate_blocks {blocks : List Block} (h : ∀ b ∈ blocks, b.Authorable) :
    (gate 1).values (blocksWording blocks) = blocks.map Block.gate := by
  induction blocks with
  | nil => rfl
  | cons b blocks ih =>
      have hgate := takes_gate (h b List.mem_cons_self) (Nat.le_refl 1) (blocksWording blocks)
      have hmore := ih fun c hc => h c (List.mem_cons_of_mem b hc)
      have hend := values_passes (passes_terminator 1 (blocksWording blocks))
      rw [List.singleton_append] at hend
      rw [blocksWording_cons, values_takes hgate (by simp), hend, hmore, List.map_cons]

/-- Of a block only the terminator is left when its gate is cut out. -/
theorem cut_gate_blocks {blocks : List Block} (h : ∀ b ∈ blocks, b.Authorable) :
    cut (gate 0) (blocksWording blocks) = List.replicate blocks.length Marker.terminator := by
  induction blocks with
  | nil => rfl
  | cons b blocks ih =>
      have hgate := takes_gate (h b List.mem_cons_self) (Nat.zero_le 1) (blocksWording blocks)
      have hmore := ih fun c hc => h c (List.mem_cons_of_mem b hc)
      have hend := cut_passes (passes_terminator 0 (blocksWording blocks))
      rw [List.singleton_append, List.singleton_append] at hend
      rw [blocksWording_cons, cut_takes hgate (by simp), hend, hmore, List.length_cons,
        List.replicate_succ]

/-! ## Effects -/

/-- An effect that its sentence tells. -/
structure Effect.Authorable (e : Effect) : Prop where
  restrictions : e.restrictions.Nodup
  base : AuthorableChanges e.base
  blocks : ∀ b ∈ e.blocks, b.Authorable

instance : DecidablePred Effect.Authorable := fun e =>
  decidable_of_iff
    (e.restrictions.Nodup ∧ AuthorableChanges e.base ∧ ∀ b ∈ e.blocks, b.Authorable)
    ⟨fun h => ⟨h.1, h.2.1, h.2.2⟩, fun h => ⟨h.restrictions, h.base, h.blocks⟩⟩

namespace Effect

/-- The sentence behind the restriction. -/
def body (e : Effect) : List Char := sentence e.base ++ blocksWording e.blocks

theorem wording_eq (e : Effect) : e.wording = restrictionWording e.restrictions ++ e.body :=
  List.append_assoc _ _ _

theorem sentence_ne_open (ds : List Delta) : ∀ c ∈ sentence ds,
    c ≠ Marker.conditionOpen ∧ c ≠ Marker.restrictionOpen := by
  refine List.forall_mem_append.mpr ⟨fun c hc => ?_, forall_mem_of_all (by decide)⟩
  obtain ⟨_, hbracket, _⟩ := inner_joined ds c hc
  exact ⟨ne_of_notMem_brackets hbracket (by decide), ne_of_notMem_brackets hbracket (by decide)⟩

theorem blocksWording_ne_restrictionOpen {blocks : List Block} (h : ∀ b ∈ blocks, b.Authorable) :
    ∀ c ∈ blocksWording blocks, c ≠ Marker.restrictionOpen := by
  intro c hc
  obtain ⟨w, hw, hcw⟩ := List.mem_flatten.mp hc
  obtain ⟨b, hb, rfl⟩ := List.mem_map.mp hw
  have hcondition : ∀ c ∈ b.condition.wording, c ≠ Marker.restrictionOpen := fun c hc =>
    ne_of_notMem_brackets (bracketFree_wording (h b hb).condition c hc) (by decide)
  have hchanges : ∀ c ∈ sentence b.deltas, c ≠ Marker.restrictionOpen := fun c hc =>
    (sentence_ne_open b.deltas c hc).2
  have hblock : ∀ c ∈ b.wording, c ≠ Marker.restrictionOpen := by
    simp only [Block.wording, List.cons_append, List.forall_mem_cons, List.forall_mem_append]
    exact ⟨by decide, hcondition, by decide, hchanges⟩
  exact hblock c hcw

theorem passes_restriction_body {e : Effect} (h : e.Authorable) :
    Passes restriction e.body [] := by
  refine passes_of_misses (List.forall_mem_append.mpr ⟨fun c hc => ?_, fun c hc => ?_⟩) []
  · exact misses_bracketed (sentence_ne_open e.base c hc).2
  · exact misses_bracketed (blocksWording_ne_restrictionOpen h.blocks c hc)

theorem takes_restriction {roles : List Role} (hne : roles ≠ []) (rest : List Char) :
    Takes restriction (restrictionWording roles) rest (roleList roles) := by
  have hclose : Marker.restrictionClose ∉ roleList roles := fun hc =>
    (inner_roleList roles _ hc).2.1 (by decide)
  rw [restrictionWording, if_neg (by simpa using hne)]
  exact takes_bracketed Marker.restrictionOpen (roleList_ne_nil hne) hclose rest

theorem restrictions_wording {e : Effect} (h : e.Authorable) :
    ((restriction.values e.wording).head?.map rolesOf).getD [] = e.restrictions := by
  by_cases hne : e.restrictions = []
  · have hbody : restriction.values e.body = [] := values_eq_nil (passes_restriction_body h)
    have hnone : restrictionWording [] = [] := rfl
    rw [wording_eq, hne, hnone, List.nil_append, hbody]
    rfl
  · rw [wording_eq, values_takes (takes_restriction hne e.body) (by simp [restrictionWording, hne])]
    exact rolesOf_roleList hne h.restrictions

theorem unrestricted_wording {e : Effect} (h : e.Authorable) : unrestricted e.wording = e.body := by
  have hcut : cut restriction e.body = e.body := cut_eq_self (passes_restriction_body h)
  change cut restriction e.wording = e.body
  rw [wording_eq]
  by_cases hne : e.restrictions = []
  · rw [hne]
    exact hcut
  · rw [cut_takes (takes_restriction hne e.body) (by simp [restrictionWording, hne]), hcut]

/-- Behind the base there is one terminator left of each block. -/
theorem baseText_wording {e : Effect} (h : e.Authorable) :
    baseText e.wording =
      joined e.base ++ List.replicate (e.blocks.length + 1) Marker.terminator := by
  have hbase := cut_passes (passes_gate (fun c hc => (sentence_ne_open e.base c hc).1) 0
    (blocksWording e.blocks))
  rw [cut_gate_blocks h.blocks] at hbase
  unfold baseText
  rw [unrestricted_wording h]
  exact hbase.trans (List.append_assoc _ _ _)

theorem values_gate_wording {e : Effect} (h : e.Authorable) :
    (gate 1).values e.wording = e.blocks.map Block.gate := by
  have hfront : ∀ c ∈ restrictionWording e.restrictions ++ sentence e.base,
      c ≠ Marker.conditionOpen := by
    refine List.forall_mem_append.mpr ⟨?_, fun c hc => (sentence_ne_open e.base c hc).1⟩
    have hroles : ∀ c ∈ roleList e.restrictions, c ≠ Marker.conditionOpen := fun c hc =>
      ne_of_notMem_brackets (inner_roleList e.restrictions c hc).2.1 (by decide)
    unfold restrictionWording
    split
    · exact fun c hc => nomatch hc
    · simp only [List.cons_append, List.forall_mem_cons, List.forall_mem_append]
      exact ⟨by decide, hroles, by decide, List.forall_mem_nil _⟩
  unfold wording
  rw [values_passes (passes_gate hfront 1 _)]
  exact values_gate_blocks h.blocks

/-- An authorable effect is read back from its sentence, whatever the numbers of its roles, changes
    and blocks. -/
theorem ofText_wording {e : Effect} (h : e.Authorable) :
    ofText (String.ofList e.wording) = e := by
  have hrestrictions := restrictions_wording h
  have hbase : deltasOf (baseText e.wording) = e.base := by
    rw [baseText_wording h]
    have hleft : ∀ c ∈ List.replicate (e.blocks.length + 1) Marker.terminator,
        c = Marker.terminator := fun c hc => (List.mem_replicate.mp hc).2
    refine h.base.deltasOf_joined _ (noDigitHead_cons (by decide) _) fun c hc => ?_
    rw [hleft c hc]
    decide
  have hblocks : ((gate 1).values e.wording).map Gate.block = e.blocks := by
    rw [values_gate_wording h, List.map_map]
    calc e.blocks.map (Gate.block ∘ Block.gate) = e.blocks.map id :=
          List.map_congr_left fun b hb => block_gate (h.blocks b hb)
      _ = e.blocks := List.map_id e.blocks
  unfold ofText ofChars
  rw [String.toList_ofList, hrestrictions, hbase, hblocks]

/-- A sentence with a restriction, numbers at both ends of the range and all kinds of condition. -/
def overtime : Effect where
  restrictions := [.teacher, .leader]
  base :=
    [.setTo .accounting (.saturate 9223372036854775807),
      .changeBy .experience (.saturate (-9223372036854775807)), .changeBy .satisfaction 0]
  blocks :=
    [⟨.role [.staff, .teacher], [.changeBy .enrollment (.saturate 9223372036854775807)]⟩,
      ⟨.stat .satisfaction 8 .atMost, [.setTo .experience 0, .changeBy .accounting 1]⟩,
      ⟨.unknown "満足+5。体験、 9", [.changeBy .satisfaction (.saturate (-1))]⟩]

theorem ofText_overtime_wording :
    overtime.Authorable ∧ ofText (String.ofList overtime.wording) = overtime := by
  have hauthorable : overtime.Authorable := by decide
  exact ⟨hauthorable, ofText_wording hauthorable⟩

end Effect

end CramSchool
