/-
  Binary forms of the domain's types.
-/
import CramSchool.Binary.Basic
import CramSchool.Session.Snapshot

namespace CramSchool

namespace Binary

instance : Binary Stat := ofEnumerated Stat
instance : Binary Role := { ofEnumerated Role with room? := some ⟨1, 0⟩ }
instance : Binary Rarity := ofEnumerated Rarity
instance : Binary Category := ofEnumerated Category
instance : Binary Comparator := ofEnumerated Comparator
instance : Binary Phase := ofEnumerated Phase

instance : Binary Stats :=
  via (fun s => (s.experience, s.enrollment, s.satisfaction, s.accounting))
    fun (a, b, c, d) => ⟨a, b, c, d⟩

instance : Binary Change :=
  via (fun c => (c.stat, c.before, c.after)) fun (a, b, c) => ⟨a, b, c⟩

instance : Binary Card :=
  via (fun c => (c.category, c.rarity, c.name, c.topEffect, c.effect, c.acquiredTurn))
    fun (a, b, c, d, e, f) => ⟨a, b, c, d, e, f⟩

instance : Binary Delta where
  write
    | .setTo stat value => writeVariant 0 ++ write (stat, value)
    | .changeBy stat amount => writeVariant 1 ++ write (stat, amount)
  read := do
    match ← readVariant 2 with
    | 0 =>
      let (stat, value) ← read
      return .setTo stat value
    | _ =>
      let (stat, amount) ← read
      return .changeBy stat amount
  room? := some ⟨16, 3⟩

instance : Binary Condition where
  write
    | .role roles => writeVariant 0 ++ write roles
    | .stat k threshold comparator => writeVariant 1 ++ write (k, threshold, comparator)
    | .unknown raw => writeVariant 2 ++ write raw
  read := do
    match ← readVariant 3 with
    | 0 => return .role (← read)
    | 1 =>
      let (k, threshold, comparator) ← read
      return .stat k threshold comparator
    | _ => return .unknown (← read)

instance : Binary Block := via (fun b => (b.condition, b.deltas)) fun (a, b) => ⟨a, b⟩

instance : Binary Effect :=
  via (fun e => (e.restrictions, e.base, e.blocks)) fun (a, b, c) => ⟨a, b, c⟩

instance : Binary ForcedDraws :=
  via (fun f => (f.training, f.hand)) fun (a, b) => ⟨a, b⟩

instance : Binary Config :=
  via (fun c => (c.seed, c.openingOffer, c.openingPicks, c.trainingOffer, c.trainingPicks,
      c.handSize, c.forced))
    fun (a, b, c, d, e, f, g) => ⟨a, b, c, d, e, f, g⟩

instance {α : Type} [Binary α] : Binary (PerRole α) :=
  via (fun p => (p.leader, p.teacher, p.staff)) fun (a, b, c) => ⟨a, b, c⟩

instance : Binary Player :=
  via (fun p => (p.stats, p.deck, p.hand, p.placed)) fun (a, b, c, d) => ⟨a, b, c, d⟩

instance : Binary Pools :=
  via (fun p => (p.n, p.r, p.sr, p.ssr)) fun (a, b, c, d) => ⟨a, b, c, d⟩

instance : Binary GeneratorState :=
  via (fun g => (g.seed, g.wordPos)) fun (a, b) => ⟨a, b⟩

instance : Binary Snapshot :=
  via (fun s => (s.stats, s.deck, s.hand, s.placed, s.turn, s.phase, s.offer, s.pools, s.rng))
    fun (a, b, c, d, e, f, g, h, i) => ⟨a, b, c, d, e, f, g, h, i⟩

end Binary

/-- Why a stored session is not taken up. -/
inductive SnapshotError where
  /-- The bytes are no snapshot. -/
  | codec (error : DecodeError)
  /-- No session can be in the stored state. -/
  | invalid (refusal : Refusal)
deriving DecidableEq

def SnapshotError.message : SnapshotError → String
  | codec error => "snapshot codec failed: " ++ error.message
  | invalid refusal => "snapshot rejected: " ++ refusal.message

/-- The stored form. -/
def Snapshot.toBytes (snap : Snapshot) : Bytes := Binary.write snap

/-- The snapshot in some bytes. -/
def Snapshot.ofBytes (machine : Machine) (bytes : Bytes) : Except SnapshotError Snapshot :=
  (decodeBytes machine bytes).mapError .codec

/-- Takes up a stored session. -/
def Session.ofSnapshot (machine : Machine) (catalog : Catalog) (config : Config)
    (snap : Snapshot) : Except SnapshotError Session :=
  (Session.restore machine catalog config snap).mapError .invalid

/-- Takes up the session stored in some bytes. -/
def Session.ofBytes (machine : Machine) (catalog : Catalog) (config : Config) (bytes : Bytes) :
    Except SnapshotError Session := do
  Session.ofSnapshot machine catalog config (← Snapshot.ofBytes machine bytes)

end CramSchool
