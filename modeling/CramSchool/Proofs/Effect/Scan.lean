/-
  Reading an effect by byte offsets.

  The scanner reads a sentence the way a program does that has only its bytes. It looks for brackets
  from an offset on, computes where the next piece begins and ends, and takes the pieces out of the
  text between these offsets. An offset beyond the text or inside a character would be a fault, and
  so would a loop that does not move on, a piece that ends in front of its start, or a number that
  cannot be negated.

  A loop goes through the matches of a pattern from the left. `Reached` is its invariant: it stands
  at a good offset, and what it found so far are the matches in front of it, so that it can pass a
  piece or take one (`Reached.passes`, `Reached.takes`). Of phrases the scanner finds what the
  patterns match, without a fault (`firstAt_eq`, `collect_eq`), and so it reads the same changes
  and the same condition (`deltas_eq`, `condition_eq`).
-/
import CramSchool.Proofs.Effect.Occurrences
import CramSchool.Proofs.Effect.WellFormed
import CramSchool.Proofs.Text.Cutting

namespace CramSchool

open Text Pattern

namespace Scan

/-! ## The scanner -/

/-- A non-empty text between two brackets. -/
structure BracketSpan where
  /-- Offset of the opening bracket. -/
  start : Nat
  /-- The text between the brackets. -/
  inner : Span
  /-- Offset behind the closing bracket. -/
  stop : Nat
deriving DecidableEq

/-- The whole piece, brackets included. -/
def BracketSpan.outer (s : BracketSpan) : Span := ⟨s.start, s.stop⟩

/-- A condition in brackets and the effect text behind it. -/
structure GateSpan where
  /-- The condition is the text between these brackets. -/
  brackets : BracketSpan
  /-- Offset behind the effect text. -/
  stop : Nat
deriving DecidableEq

/-- The effect text. -/
def GateSpan.effect (s : GateSpan) : Span := ⟨s.brackets.stop, s.stop⟩

/-- The whole piece. -/
def GateSpan.outer (s : GateSpan) : Span := ⟨s.brackets.start, s.stop⟩

/-- One round of the search for brackets with something between them: on empty brackets it goes on
    behind the opening one. -/
def bracketRound (opening closing : Char) (text : List Char) (_ : Unit) (search : Nat) :
    Checked (Option BracketSpan ⊕ (Unit × Nat)) := do
  match offsetOf? (· = opening) (← sliceFrom text search) with
  | none => return .inl none
  | some ahead =>
    let inner := search + ahead + opening.utf8Size
    match offsetOf? (· = closing) (← sliceFrom text inner) with
    | none => return .inl none
    | some 0 => return .inr ((), inner)
    | some length =>
      return .inl (some ⟨search + ahead, ⟨inner, inner + length⟩,
        inner + length + closing.utf8Size⟩)

/-- The first brackets with something between them, at an offset or behind it. -/
def findBracketed (opening closing : Char) (text : List Char) (offset : Nat) :
    Checked (Option BracketSpan) :=
  loop (byteSize text) (bracketRound opening closing text) () offset

/-- One round of the search for restrictions: the next one goes to those found. -/
def restrictionRound (text : List Char) (found : List BracketSpan) (offset : Nat) :
    Checked (List BracketSpan ⊕ (List BracketSpan × Nat)) := do
  match ← findBracketed Marker.restrictionOpen Marker.restrictionClose text offset with
  | none => return .inl found
  | some span => return .inr (found ++ [span], span.stop)

/-- The restrictions of a text. -/
def restrictionSpans (text : List Char) : Checked (List BracketSpan) :=
  loop (byteSize text) (restrictionRound text) [] 0

/-- One round of the search for gates with at least `least` bytes of effect text. Behind brackets
    with less effect text it goes on behind the opening bracket. -/
def gateRound (least : Nat) (text : List Char) (found : List GateSpan) (offset : Nat) :
    Checked (List GateSpan ⊕ (List GateSpan × Nat)) := do
  match ← findBracketed Marker.conditionOpen Marker.conditionClose text offset with
  | none => return .inl found
  | some span =>
    let length := offsetOf? (fun c => c = Marker.terminator ∨ c = Marker.conditionOpen)
      (← sliceFrom text span.stop)
    let stop := length.elim (byteSize text) (span.stop + ·)
    if stop < span.stop then .error (.reversed span.stop stop)
    else if least ≤ stop - span.stop then return .inr (found ++ [⟨span, stop⟩], stop)
    else return .inr (found, span.start + Marker.conditionOpen.utf8Size)

/-- The gates of a text. -/
def gateSpans (least : Nat) (text : List Char) : Checked (List GateSpan) :=
  loop (byteSize text) (gateRound least text) [] 0

/-- The word for a stat. -/
def stat : Probe Stat := Probe.oneOf Stat.all fun k => k.label.toList

def comparator : Probe Comparator := Probe.oneOf Comparator.all fun c => c.label.toList

/-- A run of digits, each of which is one byte. -/
def number : Probe Points := fun text offset => do
  let digits := (← sliceFrom text offset).takeWhile Char.isDigit
  return if digits.isEmpty then none else some (Decimal.read digits, offset + digits.length)

def sign : Probe Int := do
  let plus ← Probe.oneOf [true, false] fun plus => if plus then ['+'] else ['-']
  pure (if plus then 1 else -1)

/-- A number with its sign, which has to be in range. -/
def signed (sign : Int) (amount : Points) : Checked Points :=
  match Points.ofInt? (sign * amount.val) with
  | some v => .ok v
  | none => .error (.overflow (sign * amount.val))

def setTo : Probe Delta := do
  let stat ← stat
  Probe.word "を".toList
  let value ← number
  Probe.word "にする".toList
  pure (.setTo stat value)

def changeBy : Probe Delta := do
  let stat ← stat
  let sign ← sign
  let amount ← number
  let amount ← Probe.lift (signed sign amount)
  pure (.changeBy stat amount)

def threshold : Probe Condition := do
  let stat ← stat
  let value ← number
  let comparator ← comparator
  pure (.stat stat value comparator)

/-- The offsets of the characters of a text that begins at `offset`. -/
def charOffsets (offset : Nat) : List Char → List Nat
  | [] => []
  | c :: rest => offset :: charOffsets (offset + c.utf8Size) rest

variable {α : Type}

/-- What is found at the first of the offsets at which something is. -/
def firstAt (q : Probe α) (text : List Char) : List Nat → Checked (Option α)
  | [] => return none
  | offset :: offsets => do
    match ← q text offset with
    | some (a, _) => return some a
    | none => firstAt q text offsets

/-- Offset behind the character at an offset. -/
def nextChar (text : List Char) (offset : Nat) : Checked Nat := do
  match ← sliceFrom text offset with
  | [] => return byteSize text
  | c :: _ => return offset + c.utf8Size

/-- One round of the search for all that a probe finds: what stands at the offset is taken, or the
    character there is passed. -/
def collectRound (q : Probe α) (text : List Char) (found : List α) (offset : Nat) :
    Checked (List α ⊕ (List α × Nat)) := do
  if offset < byteSize text then
    match ← q text offset with
    | some (a, stop) => return .inr (found ++ [a], stop)
    | none => return .inr (found, ← nextChar text offset)
  else return .inl found

/-- Everything that is found from left to right, each behind the one before. -/
def collect (q : Probe α) (text : List Char) : Checked (List α) :=
  loop (byteSize text) (collectRound q text) [] 0

/-- The changes a text asks for. -/
def deltas (text : List Char) : Checked (List Delta) := do
  let set ← firstAt setTo text (charOffsets 0 text)
  return set.toList ++ (← collect changeBy text)

/-- The condition a text states. -/
def condition (text : List Char) : Checked Condition :=
  match rolesOf text with
  | [] => do
    let found ← firstAt threshold text (charOffsets 0 text)
    return found.getD (.unknown (String.ofList text))
  | first :: more => return .role (first :: more)

/-- The block of changes that a gate opens. -/
def block (text : List Char) (s : GateSpan) : Checked Block := do
  let condition ← condition (trim (← s.brackets.inner.slice text))
  return ⟨condition, ← deltas (trim (← s.effect.slice text))⟩

/-- The roles of the first restriction. -/
def restrictions (text : List Char) : List BracketSpan → Checked (List Role)
  | [] => return []
  | s :: _ => return rolesOf (← s.inner.slice text)

/-- The effect that a sentence describes. -/
def effect (text : List Char) : Checked Effect := do
  let restricted ← restrictionSpans text
  let roles ← restrictions text restricted
  let blocks ← (← gateSpans 1 text).mapM (block text)
  let unrestricted ← strip text 0 (restricted.map BracketSpan.outer)
  let base ← strip unrestricted 0 ((← gateSpans 0 unrestricted).map GateSpan.outer)
  return ⟨roles, ← deltas base, blocks⟩

/-! ## Phrases -/

theorem tracks_stat : Tracks stat Phrase.stat := tracks_oneOf _ _

theorem tracks_comparator : Tracks comparator Phrase.comparator := tracks_oneOf _ _

theorem tracks_sign : Tracks sign Phrase.sign := (tracks_oneOf _ _).bind fun _ => tracks_pure _

theorem utf8Size_eq_one {c : Char} (h : c.isDigit = true) : c.utf8Size = 1 := by
  have hdigit : 48 ≤ c.toNat ∧ c.toNat ≤ 57 := Char.isDigit_iff_toNat.mp h
  refine Char.utf8Size_eq_one_iff.mpr ?_
  show c.val.toNat ≤ 127
  exact Nat.le_trans hdigit.2 (by decide)

theorem tracks_number : Tracks number Phrase.number := by
  intro text behind place offset hstands
  have hdigits : ∀ c ∈ behind.takeWhile Char.isDigit, c.utf8Size = 1 := fun c hc =>
    utf8Size_eq_one (List.all_eq_true.mp List.all_takeWhile c hc)
  have htake : behind.take (behind.takeWhile Char.isDigit).length = behind.takeWhile Char.isDigit :=
    (List.prefix_iff_eq_take.mp (List.takeWhile_prefix _)).symm
  unfold number Phrase.number
  rw [hstands.sliceFrom, Checked.ok_bind, bind_apply, Pattern.bind, run]
  dsimp only
  split
  · rfl
  · show _ = Except.ok (some (_, offset + byteSize (behind.take
      ((behind.takeWhile Char.isDigit).length + 0))))
    rw [Nat.add_zero, htake, byteSize_eq_length hdigits]
    rfl

theorem tracks_setTo : Tracks setTo Phrase.setTo :=
  tracks_stat.bind fun _ => (tracks_word _).bind fun _ => tracks_number.bind fun _ =>
    (tracks_word _).bind fun _ => tracks_pure _

/-- A number that was read can be negated. -/
theorem signed_eq {n : Int} (hn : n = 1 ∨ n = -1) {v : Points} (hv : 0 ≤ v.val) :
    signed n v = .ok (.saturate (n * v.val)) := by
  have hle := v.le_greatest
  have hrange : -9223372036854775808 ≤ n * v.val ∧ n * v.val ≤ 9223372036854775807 := by
    rcases hn with rfl | rfl <;> omega
  unfold signed
  rw [Points.ofInt?, dif_pos hrange]
  exact congrArg Except.ok (Points.ext (Points.saturate_of_mem hrange.1 hrange.2).symm)

theorem tracks_changeBy : Tracks changeBy Phrase.changeBy := by
  refine tracks_stat.bind fun k => tracks_sign.bind_of Phrase.gives_sign fun n hn =>
    tracks_number.bind_of Phrase.gives_number fun v hv => ?_
  -- The checked product is one probe more, which takes nothing.
  exact (tracks_lift (signed_eq hn hv)).bind fun a => tracks_pure (Delta.changeBy k a)

theorem tracks_threshold : Tracks threshold Phrase.threshold :=
  tracks_stat.bind fun _ => tracks_number.bind fun _ => tracks_comparator.bind fun _ =>
    tracks_pure _

/-! ## Loops through the matches of a text -/

section Loops

variable {β : Type} {p : Pattern α} {q : Probe α} {text behind w : List Char} {place offset : Nat}

/-- The loop has come to a good offset. What it found, seen as `view` shows it, are the matches in
    front of the offset, and the others are those that the pattern finds from there on. -/
def Reached (p : Pattern α) (view : Match α → β) (text : List Char) (found : List β)
    (offset : Nat) : Prop :=
  ∃ place behind, Stands text place offset behind ∧
    (p.findAll text).map view = found ++ (findFrom p place 0 behind).map view

variable {view : Match α → β} {found : List β}

theorem reached_zero (p : Pattern α) (view : Match α → β) (text : List Char) :
    Reached p view text [] 0 := ⟨0, text, stands_zero text, rfl⟩

theorem Reached.passes (hstands : Stands text place offset (w ++ behind))
    (h : (p.findAll text).map view = found ++ (findFrom p place 0 (w ++ behind)).map view)
    (hpasses : Passes p w behind) : Reached p view text found (offset + byteSize w) := by
  refine ⟨_, behind, hstands.drop, ?_⟩
  rw [h, findFrom_passes hpasses]

theorem Reached.takes (hstands : Stands text place offset (w ++ behind))
    (h : (p.findAll text).map view = found ++ (findFrom p place 0 (w ++ behind)).map view) {a : α}
    (htakes : Takes p w behind a) (hw : w ≠ []) :
    Reached p view text (found ++ [view ⟨place, w.length, a⟩]) (offset + byteSize w) := by
  refine ⟨_, behind, hstands.drop, ?_⟩
  rw [h, findFrom_takes htakes hw, List.map_cons, List.append_assoc, List.singleton_append]

/-- If nothing more is found from there on, all is found. -/
theorem map_findAll_eq
    (h : (p.findAll text).map view = found ++ (findFrom p place 0 behind).map view)
    (hpasses : Passes p behind []) : (p.findAll text).map view = found := by
  have hrest := findFrom_passes hpasses place
  rw [List.append_nil] at hrest
  rw [h, hrest]
  exact List.append_nil found

/-- The first phrase is found. -/
theorem firstAt_eq (h : Tracks q p) (hstands : Stands text place offset behind) :
    firstAt q text (charOffsets offset behind) = .ok (p.findFirst? behind) := by
  induction behind generalizing place offset with
  | nil => rfl
  | cons c rest ih =>
      rw [charOffsets, firstAt, h hstands, Checked.ok_bind, findFirst?]
      rcases p (c :: rest) with _ | ⟨a, width⟩
      · exact ih hstands.tail
      · rfl

/-- Each round takes a phrase or passes a character. -/
theorem collectRound_advances (h : Tracks q p) (hp : Consumes p) (found : List α) (offset : Nat)
    (hreached : Reached p Match.value text found offset) :
    Advances (byteSize text) (Reached p Match.value text)
      (fun all => p.values text = all) offset (collectRound q text found offset) := by
  obtain ⟨place, behind, hstands, hvalues⟩ := hreached
  have hsize := hstands.add_byteSize
  unfold collectRound
  rcases behind with _ | ⟨c, rest⟩
  · rw [if_neg (by rw [← hsize]; exact Nat.lt_irrefl offset)]
    exact .done (map_findAll_eq hvalues trivial)
  · have hpos := byteSize_pos (List.cons_ne_nil c rest)
    rw [if_pos (by omega), h hstands, Checked.ok_bind]
    rcases hmatch : p (c :: rest) with _ | ⟨a, width⟩
    · have hnext := c.utf8Size_pos
      simp only [Option.map_none, nextChar, hstands.sliceFrom, Checked.ok_bind]
      refine .next (Nat.lt_add_of_pos_right hnext) hstands.tail.offset_le ?_
      exact Reached.passes (w := [c]) hstands hvalues ⟨hmatch, trivial⟩
    · obtain ⟨hne, htakes⟩ := hp.takes_take hmatch
      rw [← List.take_append_drop width (c :: rest)] at hstands hvalues
      refine .next (Nat.lt_add_of_pos_right (byteSize_pos hne)) hstands.drop.offset_le ?_
      exact Reached.takes hstands hvalues htakes hne

/-- All phrases are found. -/
theorem collect_eq (h : Tracks q p) (hp : Consumes p) (text : List Char) :
    collect q text = .ok (p.values text) := by
  obtain ⟨all, hloop, hvalues⟩ :=
    loop_ok _ _ (collectRound_advances h hp) (reached_zero p Match.value text)
  rw [hvalues]
  exact hloop

end Loops

/-! ## Changes and conditions -/

theorem deltas_eq (text : List Char) : deltas text = .ok (deltasOf text) := by
  have hconsumes := Phrase.exact_changeBy.consumes Phrase.headed_change
  unfold deltas
  rw [firstAt_eq tracks_setTo (stands_zero text), Checked.ok_bind,
    collect_eq tracks_changeBy hconsumes]
  rfl

theorem condition_eq (text : List Char) : condition text = .ok (Condition.ofText text) := by
  unfold condition Condition.ofText
  rcases rolesOf text with _ | ⟨first, more⟩
  · dsimp only
    rw [firstAt_eq tracks_threshold (stands_zero text)]
    rfl
  · rfl

end Scan

end CramSchool
