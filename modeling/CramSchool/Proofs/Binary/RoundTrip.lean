/-
  What is written is read back.

  `Reads r front a`: on every machine the reader `r` takes exactly the bytes `front` for the value
  `a`, whatever stands behind them. Readers in sequence read bytes in sequence (`Reads.bind`), so a
  record is read back if its fields are, and a list if its items are.

  `RoundTrips a`: a value is read back from the bytes it is written as. Lengths are written in
  eight bytes, so lists and texts round trip if their lengths are among the numbers that eight
  bytes hold (`capacity`). A snapshot `Fits` if all of its lists and texts are so short; then it
  is read back from its stored form, also with other bytes behind it
  (`Snapshot.ofBytes_toBytes_append`).
-/
import CramSchool.Binary.Records
import CramSchool.Proofs.Text.Utf8

namespace CramSchool

/-- On every machine the reader takes exactly `front` for the value `a`, whatever stands behind
    it. -/
def Reads {α : Type} (r : Reader α) (front : Bytes) (a : α) : Prop :=
  ∀ machine rest, (r.run machine).run (front ++ rest) = .ok (a, rest)

namespace Reads

variable {α β : Type}

theorem pure (a : α) : Reads (Pure.pure a) [] a := fun _ _ => rfl

theorem bind {r : Reader α} {f : α → Reader β} {front back : Bytes} {a : α} {b : β}
    (h : Reads r front a) (hnext : Reads (f a) back b) : Reads (r >>= f) (front ++ back) b := by
  intro machine rest
  rw [ReaderT.run_bind, StateT.run_bind, List.append_assoc, h]
  exact hnext machine rest

/-- The second reader takes nothing. -/
theorem bind_nil {r : Reader α} {f : α → Reader β} {front : Bytes} {a : α} {b : β}
    (h : Reads r front a) (hnext : Reads (f a) [] b) : Reads (r >>= f) front b := by
  have hboth := h.bind hnext
  rwa [List.append_nil] at hboth

/-- A reader whose value is converted. -/
theorem map {r : Reader α} {front : Bytes} {a : α} (h : Reads r front a) (f : α → β) :
    Reads (do return f (← r)) front (f a) := h.bind_nil (Reads.pure (f a))

end Reads

namespace Binary

variable {α β : Type}

/-- The value is read back from the bytes it is written as. -/
def RoundTrips [Binary α] (a : α) : Prop := Reads read (write a) a

/-! ## Numbers -/

/-- How many numbers there are of a width in bytes. -/
def capacity : (width : Nat) → Nat
  | 0 => 1
  | width + 1 => 256 * capacity width

example : capacity 8 = 18446744073709551616 := rfl

theorem length_ofNat (width n : Nat) : (ofNat width n).length = width := by
  induction width generalizing n with
  | zero => rfl
  | succ width ih => rw [ofNat, List.length_cons, ih]

theorem toNat_ofNat {width n : Nat} (h : n < capacity width) : toNat (ofNat width n) = n := by
  induction width generalizing n with
  | zero =>
      have hn : n = 0 := Nat.lt_one_iff.mp h
      rw [hn]
      rfl
  | succ width ih =>
      have hdiv : n / 256 < capacity width := by
        rw [capacity] at h
        omega
      rw [ofNat, toNat, ih hdiv, UInt8.toNat_ofNat']
      omega

theorem split?_append (front rest : Bytes) :
    split? front.length (front ++ rest) = some (front, rest) := by
  induction front with
  | nil => rfl
  | cons b front ih =>
      rw [List.length_cons, List.cons_append, split?, ih]
      rfl

theorem reads_readNat (width : Nat) {n : Nat} (h : n < capacity width) :
    Reads (readNat width) (ofNat width n) n := by
  intro machine rest
  have hsplit := split?_append (ofNat width n) rest
  rw [length_ofNat] at hsplit
  simp only [ReaderT.run, StateT.run, readNat, hsplit, toNat_ofNat h]

theorem roundTrips_uint8 (n : UInt8) : RoundTrips n := by
  have hread := (reads_readNat 1 n.toNat_lt).map UInt8.ofNat
  rwa [UInt8.ofNat_toNat] at hread

theorem roundTrips_uint64 (n : UInt64) : RoundTrips n := by
  have hread := (reads_readNat 8 n.toNat_lt).map UInt64.ofNat
  rwa [UInt64.ofNat_toNat] at hread

theorem roundTrips_bitVec (n : BitVec 128) : RoundTrips n := by
  have hread := (reads_readNat 16 n.isLt).map (BitVec.ofNat 128)
  rwa [BitVec.ofNat_toNat, BitVec.setWidth_eq] at hread

theorem signed_emod (v : Points) : signed (v.val % 18446744073709551616).toNat = v := by
  have hleast := v.least_le
  have hgreatest := v.le_greatest
  unfold signed
  refine (congrArg Points.saturate ?_).trans v.saturate_val
  split <;> omega

theorem roundTrips_points (v : Points) : RoundTrips v := by
  have hfits : (v.val % 18446744073709551616).toNat < capacity 8 := by
    simp only [capacity]
    omega
  have hread := (reads_readNat 8 hfits).map signed
  rwa [signed_emod] at hread

/-! ## Texts -/

theorem reads_readText (text : String) :
    Reads (readText text.utf8ByteSize) text.toUTF8.toList text := by
  intro machine rest
  have hsplit := split?_append text.toUTF8.toList rest
  rw [Text.Utf8.length_toUTF8] at hsplit
  simp only [ReaderT.run, StateT.run, readText, hsplit, textOf, Text.Utf8.firstFault_toUTF8,
    Text.Utf8.fromUTF8?_toUTF8]
  rfl

theorem roundTrips_string {text : String} (h : text.utf8ByteSize < capacity 8) : RoundTrips text :=
  (reads_readNat 8 h).bind (reads_readText text)

/-! ## Records, options and lists -/

theorem roundTrips_prod [Binary α] [Binary β] {a : α} {b : β} (ha : RoundTrips a)
    (hb : RoundTrips b) : RoundTrips (a, b) :=
  ha.bind (hb.map fun b => (a, b))

theorem roundTrips_none [Binary α] : RoundTrips (none : Option α) :=
  (roundTrips_uint8 0).bind (Reads.pure none)

theorem roundTrips_some [Binary α] {a : α} (h : RoundTrips a) : RoundTrips (some a) :=
  (roundTrips_uint8 1).bind (h.map some)

theorem roundTrips_option [Binary α] {a? : Option α} (h : ∀ a ∈ a?, RoundTrips a) :
    RoundTrips a? := by
  cases a? with
  | none => exact roundTrips_none
  | some a => exact roundTrips_some (h a rfl)

theorem reads_readMany [Binary α] {xs : List α} (h : ∀ a ∈ xs, RoundTrips a) :
    Reads (readMany read xs.length) (xs.flatMap write) xs := by
  induction xs with
  | nil => exact Reads.pure []
  | cons a xs ih =>
      have hrest := ih fun b hb => h b (List.mem_cons_of_mem a hb)
      exact (h a List.mem_cons_self).bind (hrest.map fun xs => a :: xs)

/-- A list whose items need no room ahead. -/
theorem roundTrips_list [Binary α] (hroom : room? α = none) {xs : List α}
    (hlength : xs.length < capacity 8) (h : ∀ a ∈ xs, RoundTrips a) : RoundTrips xs := by
  refine (reads_readNat 8 hlength).bind ?_
  rw [hroom]
  exact reads_readMany h

/-- A type whose values are written as values of another that they can be had back from. -/
theorem roundTrips_via [Binary β] (f : α → β) (back : β → α) {a : α} (hback : back (f a) = a)
    (h : RoundTrips (f a)) : @RoundTrips α (via f back) a := by
  have hread := h.map back
  rwa [hback] at hread

theorem reads_readVariant {index count : Nat} (hindex : index < count)
    (hcount : count ≤ capacity 4) :
    Reads (readVariant count) (writeVariant index) index := by
  have hread : Reads (readNat 4) (writeVariant index) index :=
    reads_readNat 4 (Nat.lt_of_lt_of_le hindex hcount)
  refine hread.bind_nil ?_
  rw [if_pos hindex]
  exact Reads.pure index

theorem roundTrips_enumerated [DecidableEq α] [Enumerated α]
    (hcount : Enumerated.count α ≤ capacity 4) (a : α) : @RoundTrips α (ofEnumerated α) a := by
  have hindex : Enumerated.index a < Enumerated.count α :=
    List.idxOf_lt_length_iff.mpr (Enumerated.mem_all a)
  refine (reads_readVariant hindex hcount).bind_nil ?_
  rw [Enumerated.ofIndex?_index]
  exact Reads.pure a

end Binary

/-! ## Snapshots -/

/-- The lengths of the texts can be written. -/
structure Card.Fits (card : Card) : Prop where
  name : card.name.utf8ByteSize < Binary.capacity 8
  topEffect : card.topEffect.utf8ByteSize < Binary.capacity 8
  effect : card.effect.utf8ByteSize < Binary.capacity 8

/-- Cards that fit, of which the number can be written. -/
structure CardsFit (cards : List Card) : Prop where
  length : cards.length < Binary.capacity 8
  cards : ∀ card ∈ cards, card.Fits

/-- The length of every list and every text can be written in its eight bytes. A machine that
    counts in 64 bits holds no other snapshots. -/
structure Snapshot.Fits (snap : Snapshot) : Prop where
  deck : CardsFit snap.deck
  hand : CardsFit snap.hand
  placed : ∀ role, ∀ card ∈ snap.placed.get role, card.Fits
  offer : ∀ cards ∈ snap.offer, CardsFit cards
  pools : ∀ rarity, CardsFit (snap.pools.get rarity)

namespace Binary

theorem roundTrips_stats (stats : Stats) : RoundTrips stats :=
  roundTrips_via _ _ rfl <|
    roundTrips_prod (roundTrips_points _) <|
      roundTrips_prod (roundTrips_points _) <|
        roundTrips_prod (roundTrips_points _) (roundTrips_points _)

theorem roundTrips_card {card : Card} (h : card.Fits) : RoundTrips card :=
  roundTrips_via _ _ rfl <|
    roundTrips_prod (roundTrips_enumerated (by decide) _) <|
      roundTrips_prod (roundTrips_enumerated (by decide) _) <|
        roundTrips_prod (roundTrips_string h.name) <|
          roundTrips_prod (roundTrips_string h.topEffect) <|
            roundTrips_prod (roundTrips_string h.effect) <|
              roundTrips_option fun turn _ => roundTrips_uint8 turn

theorem roundTrips_cards {cards : List Card} (h : CardsFit cards) : RoundTrips cards :=
  roundTrips_list rfl h.length fun card hcard => roundTrips_card (h.cards card hcard)

theorem roundTrips_perRole {α : Type} [Binary α] {p : PerRole α}
    (h : ∀ role, RoundTrips (p.get role)) : RoundTrips p :=
  roundTrips_via _ _ rfl <|
    roundTrips_prod (h .leader) <| roundTrips_prod (h .teacher) (h .staff)

theorem roundTrips_pools {pools : Pools} (h : ∀ rarity, CardsFit (pools.get rarity)) :
    RoundTrips pools :=
  roundTrips_via _ _ rfl <|
    roundTrips_prod (roundTrips_cards (h .n)) <|
      roundTrips_prod (roundTrips_cards (h .r)) <|
        roundTrips_prod (roundTrips_cards (h .sr)) (roundTrips_cards (h .ssr))

theorem roundTrips_generatorState (st : GeneratorState) : RoundTrips st :=
  roundTrips_via _ _ rfl <| roundTrips_prod (roundTrips_uint64 _) (roundTrips_bitVec _)

theorem roundTrips_snapshot {snap : Snapshot} (h : snap.Fits) : RoundTrips snap :=
  roundTrips_via _ _ rfl <|
    roundTrips_prod (roundTrips_stats _) <|
      roundTrips_prod (roundTrips_cards h.deck) <|
        roundTrips_prod (roundTrips_cards h.hand) <|
          roundTrips_prod (roundTrips_perRole fun role => roundTrips_option fun card hcard =>
            roundTrips_card (h.placed role card hcard)) <|
            roundTrips_prod (roundTrips_uint8 _) <|
              roundTrips_prod (roundTrips_enumerated (by decide) _) <|
                roundTrips_prod (roundTrips_option fun cards hcards =>
                  roundTrips_cards (h.offer cards hcards)) <|
                  roundTrips_prod (roundTrips_pools h.pools) (roundTrips_generatorState _)

end Binary

/-- A snapshot is read back from its stored form. Bytes behind it do not count. -/
theorem Snapshot.ofBytes_toBytes_append {snap : Snapshot} (h : snap.Fits) (machine : Machine)
    (rest : Bytes) : Snapshot.ofBytes machine (snap.toBytes ++ rest) = .ok snap := by
  unfold ofBytes decodeBytes toBytes
  rw [Binary.roundTrips_snapshot h machine rest]
  rfl

end CramSchool
