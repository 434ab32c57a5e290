/-
  The machine that the program runs on, as far as it can be noticed.

  Some lists have room made for all of their items before the first one is there. There is none if
  its bytes cannot be counted in a signed 64-bit number, or if they are more than the machine
  gives one list (`Machine.shortage?`). Nothing else is known of the machine: the room that a
  card takes and the room that a list is given are its parameters.

  Two kinds of lists ask for room ahead. A list that is read from bytes may ask for the number of
  items that the bytes claim, rounded up to a power of two (`itemShortage?`); if that is too much,
  the bytes are refused. A draw asks for as many cards as it may draw (`cardShortage?`); if
  that is too much, the program stops.
-/

namespace CramSchool

/-- Room that a list has for each item: `size` bytes, at places divisible by `2 ^ align`. -/
structure Room where
  size : Nat
  align : Nat
deriving DecidableEq

/-- Why no room is made for a list. -/
inductive Shortage where
  /-- More bytes than can be counted. -/
  | uncountable
  /-- More bytes than one list is given. -/
  | refused (bytes align : Nat)
deriving DecidableEq

def Shortage.message : Shortage → String
  | uncountable => "Allocation error: CapacityOverflow"
  | refused bytes align =>
    "Allocation error: AllocErr \x7b layout: Layout \x7b size: " ++ toString bytes ++ ", align: " ++
      toString (1 <<< align) ++ " (1 << " ++ toString align ++ ") \x7d \x7d"

/-- Why the program stops in the middle of an operation. -/
inductive Stop where
  /-- There is no room for the cards that are to be drawn. -/
  | noRoom (shortage : Shortage)
  /-- The next turn does not fit into eight bits. -/
  | turnOverflow
  /-- There is no card at one of the places that are looked up. -/
  | noCard
deriving DecidableEq

structure Machine where
  /-- Room that a list has for a card. -/
  card : Room
  /-- The greatest room in bytes that one list is given. -/
  limit : Nat
  card_size_pos : 0 < card.size

namespace Machine

/-- A machine on which a card takes 80 bytes and a list is given up to 16 GiB. -/
def common : Machine := ⟨⟨80, 3⟩, 1 <<< 34, by decide⟩

/-- Why a list is not given some bytes, at places divisible by `2 ^ align`; none if it is. -/
def shortage? (m : Machine) (align bytes : Nat) : Option Shortage :=
  if 1 <<< 63 - 1 <<< align < bytes then some .uncountable
  else if m.limit < bytes then some (.refused bytes align)
  else none

/-- The least power of two that is at least `n`. -/
def places (n : Nat) : Nat := if n ≤ 1 then 1 else 1 <<< ((n - 1).log2 + 1)

/-- Why there is no room for `n` items of a list that is read. -/
def itemShortage? (m : Machine) (item : Room) (n : Nat) : Option Shortage :=
  m.shortage? item.align (item.size * places n)

/-- Why there is no room for a draw of `count` cards. -/
def cardShortage? (m : Machine) (count : Nat) : Option Shortage :=
  m.shortage? m.card.align (m.card.size * count)

/-- There is room for a draw of `count` cards. -/
def HasRoom (m : Machine) (count : Nat) : Prop := m.cardShortage? count = none

instance (m : Machine) (count : Nat) : Decidable (m.HasRoom count) :=
  inferInstanceAs (Decidable (_ = _))

/-- Makes room for a draw of `count` cards. -/
def makeRoom (m : Machine) (count : Nat) : Except Stop Unit :=
  match m.cardShortage? count with
  | some shortage => .error (.noRoom shortage)
  | none => .ok ()

/-! ## What there is room for -/

variable {m : Machine} {count : Nat}

theorem makeRoom_of_hasRoom (h : m.HasRoom count) : m.makeRoom count = .ok () := by
  unfold makeRoom
  rw [h]

theorem makeRoom_of_shortage {shortage : Shortage} (h : m.cardShortage? count = some shortage) :
    m.makeRoom count = .error (.noRoom shortage) := by
  unfold makeRoom
  rw [h]

/-- Where there is no room, there is a reason. -/
theorem not_hasRoom_iff : ¬m.HasRoom count ↔ ∃ shortage, m.cardShortage? count = some shortage :=
  Option.ne_none_iff_exists'

/-- There is room as long as the bytes can be counted and are within the limit. -/
theorem hasRoom_iff :
    m.HasRoom count ↔
      m.card.size * count ≤ 1 <<< 63 - 1 <<< m.card.align ∧ m.card.size * count ≤ m.limit := by
  rw [← Nat.not_lt, ← Nat.not_lt, ← not_or]
  unfold HasRoom cardShortage? shortage?
  split
  · next h => exact iff_of_false (Option.some_ne_none _) (not_not_intro (.inl h))
  · next h =>
      split
      · next hlimit => exact iff_of_false (Option.some_ne_none _) (not_not_intro (.inr hlimit))
      · next hlimit => exact iff_of_true rfl (not_or.mpr ⟨h, hlimit⟩)

/-- There is room for nothing. -/
theorem hasRoom_zero (m : Machine) : m.HasRoom 0 :=
  hasRoom_iff.mpr ⟨Nat.zero_le _, Nat.zero_le _⟩

/-- No machine has room for half of the numbers of 64 bits: every card takes a byte at least. -/
theorem cardShortage?_of_le (h : 1 <<< 63 ≤ count) : m.cardShortage? count = some .uncountable := by
  have hbytes : count ≤ m.card.size * count := Nat.le_mul_of_pos_left count m.card_size_pos
  have halign : 0 < 1 <<< m.card.align := by
    rw [Nat.one_shiftLeft]
    exact Nat.two_pow_pos _
  exact if_pos (by omega)

end Machine

end CramSchool
