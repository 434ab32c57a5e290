/-
  What is read is what would be written.

  `Canonical P`: every value that is read has the property `P`, and the bytes taken for it are the
  bytes it is written as. A record is canonical if its fields are, and a list if its items
  are. The property says what reading ensures of the value, above all that its lengths are
  among the numbers that eight bytes hold.

  For snapshots that property is `Fits`, under which a value is read back from its stored form
  (`Proofs/Binary/RoundTrip`). So every stored form has one snapshot, no stored form begins
  another, and bytes that are read begin with the stored form of what is read
  (`Snapshot.toBytes_lossless_prefixFree_canonical`).
-/
import CramSchool.Proofs.Binary.RoundTrip
import CramSchool.Proofs.Text.WellFormed

namespace CramSchool

/-! ## Readers in sequence -/

theorem run_bind_ok {α β : Type} {r : Reader α} {f : α → Reader β} {machine : Machine}
    {bytes rest : Bytes} {b : β} (h : ((r >>= f).run machine).run bytes = .ok (b, rest)) :
    ∃ a mid, (r.run machine).run bytes = .ok (a, mid) ∧
      ((f a).run machine).run mid = .ok (b, rest) := by
  rw [ReaderT.run_bind, StateT.run_bind] at h
  cases hr : (r.run machine).run bytes with
  | error e =>
      rw [hr] at h
      cases h
  | ok taken =>
      rw [hr] at h
      exact ⟨taken.1, taken.2, rfl, h⟩

theorem run_pure_ok {α : Type} {a b : α} {machine : Machine} {bytes rest : Bytes}
    (h : ((pure a : Reader α).run machine).run bytes = .ok (b, rest)) : a = b ∧ bytes = rest :=
  Prod.mk.inj (Except.ok.inj h)

/-- A reader whose value is converted. -/
theorem run_map_ok {α β : Type} {r : Reader α} {f : α → β} {machine : Machine}
    {bytes rest : Bytes} {b : β}
    (h : ((do return f (← r) : Reader β).run machine).run bytes = .ok (b, rest)) :
    ∃ a, (r.run machine).run bytes = .ok (a, rest) ∧ f a = b := by
  obtain ⟨a, mid, hr, hpure⟩ := run_bind_ok h
  obtain ⟨hvalue, rfl⟩ := run_pure_ok hpure
  exact ⟨a, hr, hvalue⟩

namespace Binary

variable {α β : Type}

/-- Whatever is read on a machine has the property, and the bytes taken for it are the bytes it
    is written as. -/
def Canonical [Binary α] (P : α → Prop) : Prop :=
  ∀ ⦃machine bytes a rest⦄, ((read (α := α)).run machine).run bytes = .ok (a, rest) →
    P a ∧ bytes = write a ++ rest

theorem Canonical.imp [Binary α] {P Q : α → Prop} (h : Canonical P) (himp : ∀ a, P a → Q a) :
    Canonical Q := fun _ _ _ _ hread => ⟨himp _ (h hread).1, (h hread).2⟩

/-! ## Numbers -/

theorem ofNat_toNat (bytes : Bytes) : ofNat bytes.length (toNat bytes) = bytes := by
  induction bytes with
  | nil => rfl
  | cons b bytes ih =>
      have hlow : UInt8.ofNat (b.toNat + 256 * toNat bytes) = b := by
        rw [← UInt8.toNat_inj, UInt8.toNat_ofNat']
        have := b.toNat_lt
        omega
      have hhigh : (b.toNat + 256 * toNat bytes) / 256 = toNat bytes := by
        have := b.toNat_lt
        omega
      rw [List.length_cons, toNat, ofNat, hlow, hhigh, ih]

theorem toNat_lt (bytes : Bytes) : toNat bytes < capacity bytes.length := by
  induction bytes with
  | nil => exact Nat.one_pos
  | cons b bytes ih =>
      have := b.toNat_lt
      rw [List.length_cons, toNat, capacity]
      omega

theorem eq_append_of_split? {n : Nat} {bytes front back : Bytes}
    (h : split? n bytes = some (front, back)) : front.length = n ∧ bytes = front ++ back := by
  induction n generalizing bytes front with
  | zero =>
      obtain ⟨rfl, rfl⟩ := Prod.mk.inj (Option.some.inj h)
      exact ⟨rfl, rfl⟩
  | succ n ih =>
      cases bytes with
      | nil => cases h
      | cons b bytes =>
          rw [split?, Option.map_eq_some_iff] at h
          obtain ⟨⟨front', back'⟩, hsplit, heq⟩ := h
          obtain ⟨rfl, rfl⟩ := Prod.mk.inj heq
          obtain ⟨hlength, rfl⟩ := ih hsplit
          exact ⟨by rw [List.length_cons, hlength], rfl⟩

theorem readNat_ok {width n : Nat} {machine : Machine} {bytes rest : Bytes}
    (h : ((readNat width).run machine).run bytes = .ok (n, rest)) :
    n < capacity width ∧ bytes = ofNat width n ++ rest := by
  simp only [ReaderT.run, StateT.run, readNat] at h
  split at h
  · cases h
  · next front back hsplit =>
      obtain ⟨rfl, rfl⟩ := eq_append_of_split? hsplit
      obtain ⟨rfl, rfl⟩ := Prod.mk.inj (Except.ok.inj h)
      exact ⟨toNat_lt front, by rw [ofNat_toNat]⟩

theorem canonical_uint8 : Canonical fun _ : UInt8 => True := by
  intro machine bytes a rest h
  obtain ⟨n, hread, rfl⟩ := run_map_ok h
  obtain ⟨hn, hbytes⟩ := readNat_ok hread
  refine ⟨trivial, ?_⟩
  show bytes = ofNat 1 (UInt8.ofNat n).toNat ++ rest
  rw [UInt8.toNat_ofNat_of_lt' hn, hbytes]

theorem canonical_uint64 : Canonical fun _ : UInt64 => True := by
  intro machine bytes a rest h
  obtain ⟨n, hread, rfl⟩ := run_map_ok h
  obtain ⟨hn, hbytes⟩ := readNat_ok hread
  refine ⟨trivial, ?_⟩
  show bytes = ofNat 8 (UInt64.ofNat n).toNat ++ rest
  rw [UInt64.toNat_ofNat_of_lt' hn, hbytes]

theorem canonical_bitVec : Canonical fun _ : BitVec 128 => True := by
  intro machine bytes a rest h
  obtain ⟨n, hread, rfl⟩ := run_map_ok h
  obtain ⟨hn, hbytes⟩ := readNat_ok hread
  refine ⟨trivial, ?_⟩
  have hnat : (BitVec.ofNat 128 n).toNat = n :=
    (BitVec.toNat_ofNat n 128).trans (Nat.mod_eq_of_lt hn)
  show bytes = ofNat 16 (BitVec.ofNat 128 n).toNat ++ rest
  rw [hnat, hbytes]

theorem signed_emod_capacity {n : Nat} (h : n < capacity 8) :
    ((signed n).val % 18446744073709551616).toNat = n := by
  simp only [capacity] at h
  unfold signed
  rw [Points.saturate_of_mem] <;> split <;> omega

theorem canonical_points : Canonical fun _ : Points => True := by
  intro machine bytes a rest h
  obtain ⟨n, hread, rfl⟩ := run_map_ok h
  obtain ⟨hn, hbytes⟩ := readNat_ok hread
  refine ⟨trivial, ?_⟩
  show bytes = ofNat 8 ((signed n).val % 18446744073709551616).toNat ++ rest
  rw [signed_emod_capacity hn, hbytes]

/-! ## Texts -/

theorem textOf_ok {bytes : Bytes} {text : String} (h : textOf bytes = .ok text) :
    text.toUTF8.toList = bytes := by
  unfold textOf at h
  split at h
  · cases h
  · next hfault =>
      obtain ⟨original, rfl⟩ := (Text.Utf8.firstFault_eq_none_iff bytes).mp hfault
      rw [Text.Utf8.fromUTF8?_toUTF8, Option.getD_some] at h
      rw [Except.ok.inj h]

theorem readText_ok {length : Nat} {text : String} {machine : Machine} {bytes rest : Bytes}
    (h : ((readText length).run machine).run bytes = .ok (text, rest)) :
    text.utf8ByteSize = length ∧ bytes = text.toUTF8.toList ++ rest := by
  simp only [ReaderT.run, StateT.run, readText] at h
  split at h
  · cases h
  · next front back hsplit =>
      obtain ⟨rfl, rfl⟩ := eq_append_of_split? hsplit
      cases htext : textOf front with
      | error e =>
          rw [htext] at h
          cases h
      | ok t =>
          rw [htext] at h
          obtain ⟨rfl, rfl⟩ := Prod.mk.inj (Except.ok.inj h)
          rw [← textOf_ok htext]
          exact ⟨(Text.Utf8.length_toUTF8 t).symm, rfl⟩

theorem canonical_string : Canonical fun text : String => text.utf8ByteSize < capacity 8 := by
  intro machine bytes text rest h
  obtain ⟨length, mid, hlength, htext⟩ := run_bind_ok h
  obtain ⟨hlt, rfl⟩ := readNat_ok hlength
  obtain ⟨rfl, rfl⟩ := readText_ok htext
  exact ⟨hlt, (List.append_assoc _ _ _).symm⟩

/-! ## Records, options and lists -/

theorem canonical_prod [Binary α] [Binary β] {P : α → Prop} {Q : β → Prop} (hP : Canonical P)
    (hQ : Canonical Q) : Canonical fun p : α × β => P p.1 ∧ Q p.2 := by
  intro machine bytes p rest h
  obtain ⟨a, mid, ha, hsecond⟩ := run_bind_ok h
  obtain ⟨b, hb, rfl⟩ := run_map_ok hsecond
  obtain ⟨hPa, rfl⟩ := hP ha
  obtain ⟨hQb, rfl⟩ := hQ hb
  exact ⟨⟨hPa, hQb⟩, (List.append_assoc _ _ _).symm⟩

/-- A tag that is neither 0 nor 1 is refused. -/
theorem canonical_option [Binary α] {P : α → Prop} (hP : Canonical P) :
    Canonical fun a? : Option α => ∀ a ∈ a?, P a := by
  intro machine bytes a? rest h
  obtain ⟨tag, mid, htag, hvalue⟩ := run_bind_ok h
  obtain ⟨-, rfl⟩ := canonical_uint8 htag
  split at hvalue
  · next hzero =>
      obtain ⟨rfl, rfl⟩ := run_pure_ok hvalue
      rw [hzero]
      exact ⟨by simp, rfl⟩
  · split at hvalue
    · next hone =>
        obtain ⟨a, ha, rfl⟩ := run_map_ok hvalue
        obtain ⟨hPa, rfl⟩ := hP ha
        rw [hone]
        exact ⟨by simpa using hPa, rfl⟩
    · cases hvalue

theorem readMany_ok [Binary α] {P : α → Prop} (hP : Canonical P) {n : Nat} {xs : List α}
    {machine : Machine} {bytes rest : Bytes}
    (h : ((readMany read n).run machine).run bytes = .ok (xs, rest)) :
    xs.length = n ∧ (∀ a ∈ xs, P a) ∧ bytes = xs.flatMap write ++ rest := by
  induction n generalizing xs bytes with
  | zero =>
      obtain ⟨rfl, rfl⟩ := run_pure_ok h
      exact ⟨rfl, List.forall_mem_nil P, rfl⟩
  | succ n ih =>
      obtain ⟨a, mid, ha, hitems⟩ := run_bind_ok h
      obtain ⟨more, hmore, rfl⟩ := run_map_ok hitems
      obtain ⟨hPa, rfl⟩ := hP ha
      obtain ⟨rfl, hall, rfl⟩ := ih hmore
      exact ⟨rfl, List.forall_mem_cons.mpr ⟨hPa, hall⟩, by
        rw [List.flatMap_cons, List.append_assoc]⟩

/-- A list whose items need no room ahead. -/
theorem canonical_list [Binary α] (hroom : room? α = none) {P : α → Prop} (hP : Canonical P) :
    Canonical fun xs : List α => xs.length < capacity 8 ∧ ∀ a ∈ xs, P a := by
  intro machine bytes xs rest h
  obtain ⟨n, mid, hlength, hitems⟩ := run_bind_ok h
  obtain ⟨hn, rfl⟩ := readNat_ok hlength
  rw [hroom] at hitems
  obtain ⟨rfl, hall, rfl⟩ := readMany_ok hP hitems
  exact ⟨⟨hn, hall⟩, (List.append_assoc _ _ _).symm⟩

/-- A type whose values are written as values of another that they are had back from. -/
theorem canonical_via [Binary β] {f : α → β} {back : β → α} (hback : ∀ b, f (back b) = b)
    {P : β → Prop} (hP : Canonical P) : @Canonical α (via f back) fun a => P (f a) := by
  intro machine bytes a rest h
  obtain ⟨b, hb, rfl⟩ := run_map_ok h
  obtain ⟨hPb, rfl⟩ := hP hb
  show P (f (back b)) ∧ write b ++ rest = write (f (back b)) ++ rest
  rw [hback]
  exact ⟨hPb, rfl⟩

theorem readVariant_ok {index count : Nat} {machine : Machine} {bytes rest : Bytes}
    (h : ((readVariant count).run machine).run bytes = .ok (index, rest)) :
    bytes = writeVariant index ++ rest := by
  obtain ⟨n, mid, hread, hvalue⟩ := run_bind_ok h
  split at hvalue
  · obtain ⟨rfl, rfl⟩ := run_pure_ok hvalue
    exact (readNat_ok hread).2
  · cases hvalue

/-- The index of a variant is its own if no variant is listed twice. -/
theorem canonical_enumerated [DecidableEq α] [Enumerated α]
    (hnodup : (Enumerated.all (α := α)).Nodup) :
    @Canonical α (ofEnumerated α) fun _ => True := by
  intro machine bytes a rest h
  obtain ⟨index, mid, hread, hvalue⟩ := run_bind_ok h
  split at hvalue
  · next b hb =>
      obtain ⟨rfl, rfl⟩ := run_pure_ok hvalue
      obtain ⟨hlt, rfl⟩ := List.getElem?_eq_some_iff.mp hb
      have hindex : Enumerated.index (Enumerated.all (α := α))[index] = index :=
        hnodup.idxOf_getElem index hlt
      refine ⟨trivial, ?_⟩
      show bytes = writeVariant (Enumerated.index _) ++ mid
      rw [hindex]
      exact readVariant_ok hread
  · cases hvalue

/-! ## The types of a snapshot -/

theorem canonical_stats : Canonical fun _ : Stats => True :=
  (canonical_via (fun _ => rfl) <|
    canonical_prod canonical_points <|
      canonical_prod canonical_points <|
        canonical_prod canonical_points canonical_points).imp fun _ _ => trivial

theorem canonical_card : Canonical Card.Fits :=
  (canonical_via (fun _ => rfl) <|
    canonical_prod (canonical_enumerated (by decide)) <|
      canonical_prod (canonical_enumerated (by decide)) <|
        canonical_prod canonical_string <|
          canonical_prod canonical_string <|
            canonical_prod canonical_string (canonical_option canonical_uint8)).imp
    fun _ ⟨_, _, hname, htop, heffect, _⟩ => ⟨hname, htop, heffect⟩

theorem canonical_cards : Canonical CardsFit :=
  (canonical_list rfl canonical_card).imp fun _ ⟨hlength, hcards⟩ => ⟨hlength, hcards⟩

theorem canonical_perRole [Binary α] {P : α → Prop} (hP : Canonical P) :
    Canonical fun p : PerRole α => ∀ role, P (p.get role) :=
  (canonical_via (fun _ => rfl) <| canonical_prod hP <| canonical_prod hP hP).imp
    fun _ ⟨hleader, hteacher, hstaff⟩ role => by cases role <;> assumption

theorem canonical_pools : Canonical fun pools : Pools => ∀ rarity, CardsFit (pools.get rarity) :=
  (canonical_via (fun _ => rfl) <|
    canonical_prod canonical_cards <|
      canonical_prod canonical_cards <| canonical_prod canonical_cards canonical_cards).imp
    fun _ ⟨hn, hr, hsr, hssr⟩ rarity => by cases rarity <;> assumption

theorem canonical_generatorState : Canonical fun _ : GeneratorState => True :=
  (canonical_via (fun _ => rfl) <| canonical_prod canonical_uint64 canonical_bitVec).imp
    fun _ _ => trivial

theorem canonical_snapshot : Canonical Snapshot.Fits :=
  (canonical_via (fun _ => rfl) <|
    canonical_prod canonical_stats <|
      canonical_prod canonical_cards <|
        canonical_prod canonical_cards <|
          canonical_prod (canonical_perRole (canonical_option canonical_card)) <|
            canonical_prod canonical_uint8 <|
              canonical_prod (canonical_enumerated (by decide)) <|
                canonical_prod (canonical_option canonical_cards) <|
                  canonical_prod canonical_pools canonical_generatorState).imp
    fun _ ⟨_, hdeck, hhand, hplaced, _, _, hoffer, hpools, _⟩ =>
      ⟨hdeck, hhand, hplaced, hoffer, hpools⟩

end Binary

/-! ## Snapshots -/

namespace Snapshot

/-- Bytes that are read as a snapshot begin with its stored form, and the snapshot fits. -/
theorem fits_and_prefix_of_ofBytes {snap : Snapshot} {machine : Machine} {bytes : Bytes}
    (h : ofBytes machine bytes = .ok snap) : snap.Fits ∧ snap.toBytes <+: bytes := by
  unfold ofBytes decodeBytes at h
  cases hread : ((Binary.read (α := Snapshot)).run machine).run bytes with
  | error e =>
      rw [hread] at h
      cases h
  | ok taken =>
      rw [hread] at h
      obtain ⟨hfits, hbytes⟩ := Binary.canonical_snapshot hread
      obtain rfl : taken.1 = snap := Except.ok.inj h
      exact ⟨hfits, taken.2, hbytes.symm⟩

theorem ofBytes_error {machine : Machine} {bytes : Bytes} {e : SnapshotError}
    (h : ofBytes machine bytes = .error e) : ∃ cause, e = .codec cause := by
  unfold ofBytes at h
  cases hdecode : (decodeBytes machine bytes : Except DecodeError Snapshot) with
  | error cause =>
      rw [hdecode] at h
      exact ⟨cause, (Except.error.inj h).symm⟩
  | ok snap =>
      rw [hdecode] at h
      cases h

/-- A part of a stored form is no stored form: what is read from it would be read from the whole
    as well, so it would be the same snapshot, and the part would begin with the whole. -/
theorem ofBytes_of_strict_prefix {snap : Snapshot} (hfits : snap.Fits) (machine : Machine)
    {front : Bytes} (hbegin : front <+: snap.toBytes) (hstrict : front ≠ snap.toBytes) :
    ∃ cause, ofBytes machine front = .error (.codec cause) := by
  cases hread : ofBytes machine front with
  | error e =>
      obtain ⟨cause, rfl⟩ := ofBytes_error hread
      exact ⟨cause, rfl⟩
  | ok other =>
      obtain ⟨hother, hbegins⟩ := fits_and_prefix_of_ofBytes hread
      obtain ⟨more, hmore⟩ := hbegins.trans hbegin
      have hwhole : ofBytes machine snap.toBytes = .ok snap := by
        have := ofBytes_toBytes_append hfits machine []
        rwa [List.append_nil] at this
      have hsame : other = snap := by
        rw [← hmore, ofBytes_toBytes_append hother machine more] at hwhole
        exact Except.ok.inj hwhole
      rw [hsame] at hbegins
      exact absurd (hbegin.eq_of_length_le hbegins.length_le) hstrict

/-- The stored form loses nothing, no stored form begins another, and it is the only form, on every
    machine. A snapshot is read back from its stored form whatever stands behind it; a part of a
    stored form is refused as bytes that are no snapshot; and bytes that are read as a snapshot
    begin with its stored form. Snapshots that are read always fit. -/
theorem toBytes_lossless_prefixFree_canonical (machine : Machine) (snap : Snapshot) :
    (snap.Fits →
      (∀ rest, ofBytes machine (snap.toBytes ++ rest) = .ok snap) ∧
        ∀ front, front <+: snap.toBytes → front ≠ snap.toBytes →
          ∃ cause, ofBytes machine front = .error (.codec cause)) ∧
      ∀ bytes, ofBytes machine bytes = .ok snap → snap.Fits ∧ snap.toBytes <+: bytes :=
  ⟨fun hfits =>
      ⟨ofBytes_toBytes_append hfits machine, fun _ => ofBytes_of_strict_prefix hfits machine⟩,
    fun _ => fits_and_prefix_of_ofBytes⟩

/-- A card is placed, another is on offer, and the texts need more than one byte a character. -/
def midDraft : Snapshot where
  stats := ⟨4, 2, 3, 15⟩
  deck := []
  hand := []
  placed := ⟨none, some ⟨.academics, .sr, "合宿", "", "満足+1", some 2⟩, none⟩
  turn := 3
  phase := .training
  offer := some [⟨.reception, .r, "電話", "", "入塾+1", none⟩]
  pools := .empty
  rng := ⟨42, 17⟩

/-- Without its last byte the stored form is refused; with others behind it, it is read. -/
theorem midDraft_lossless_prefixFree_canonical :
    midDraft.Fits ∧ (∀ rest, ofBytes .common (midDraft.toBytes ++ rest) = .ok midDraft) ∧
      (∃ cause, ofBytes .common midDraft.toBytes.dropLast = .error (.codec cause)) ∧
        ∀ bytes, ofBytes .common bytes = .ok midDraft → midDraft.toBytes <+: bytes := by
  have hfits : midDraft.Fits :=
    { deck := ⟨by decide, List.forall_mem_nil _⟩
      hand := ⟨by decide, List.forall_mem_nil _⟩
      placed := by
        intro role card hcard
        cases role with
        | leader => exact nomatch hcard
        | teacher =>
            obtain rfl := Option.some.inj hcard
            exact ⟨by decide, by decide, by decide⟩
        | staff => exact nomatch hcard
      offer := by
        intro cards hcards
        obtain rfl := Option.some.inj hcards
        exact ⟨by decide, List.forall_mem_singleton.mpr ⟨by decide, by decide, by decide⟩⟩
      pools := fun rarity => by cases rarity <;> exact ⟨by decide, List.forall_mem_nil _⟩ }
  have hne : midDraft.toBytes ≠ [] := List.cons_ne_nil _ _
  have hstrict : midDraft.toBytes.dropLast ≠ midDraft.toBytes := by
    intro h
    have hlength := congrArg List.length h
    have hpos := List.length_pos_iff.mpr hne
    rw [List.length_dropLast] at hlength
    omega
  obtain ⟨hstored, hread⟩ := toBytes_lossless_prefixFree_canonical .common midDraft
  obtain ⟨hlossless, hpart⟩ := hstored hfits
  exact ⟨hfits, hlossless, hpart _ (List.dropLast_prefix _) hstrict,
    fun bytes h => (hread bytes h).2⟩

end Snapshot

end CramSchool
