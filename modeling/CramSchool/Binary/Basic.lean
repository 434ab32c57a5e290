/-
  The binary form of values.

  Numbers have a fixed width and stand in little-endian order. A text or a list is its length
  in eight bytes and then its content. An option is one byte, 0 or 1, and the value behind a 1.
  A variant of a kind is its index in four bytes and then its fields. A record is its fields
  in order.

  A list of items that need room made ahead (`room?`) is read only if the machine has room for
  the number it claims to hold.

  Reading goes from left to right and the first error counts. Bytes behind a value are left
  over.
-/
import CramSchool.Enumerated
import CramSchool.Machine
import CramSchool.Points
import CramSchool.Text.Utf8

namespace CramSchool

abbrev Bytes : Type := List UInt8

/-- Why bytes are not the form of a value. -/
inductive DecodeError where
  /-- A number reaches beyond the last byte. -/
  | unexpectedEnd
  /-- A text reaches beyond the last byte. -/
  | textTooLong
  | optionTag (tag : UInt8)
  | variantIndex (index count : Nat)
  | illFormedText (fault : Text.Utf8.Fault)
  | noRoom (shortage : Shortage)
deriving DecidableEq

def DecodeError.message : DecodeError → String
  | unexpectedEnd => "io error: unexpected end of file"
  | textTooLong => "io error: "
  | optionTag tag => "tag for enum is not valid, found " ++ toString tag.toNat
  | variantIndex index count =>
    "invalid value: integer `" ++ toString index ++ "`, expected variant index 0 <= i < " ++
      toString count
  | illFormedText fault => "string is not valid utf8: " ++ fault.message
  | noRoom shortage => shortage.message

/-- Takes a value off the front of some bytes, on some machine. -/
abbrev Reader (α : Type) : Type := ReaderT Machine (StateT Bytes (Except DecodeError)) α

/-- A type with a binary form. -/
class Binary (α : Type) where
  write : α → Bytes
  read : Reader α
  /-- Room for one item of a list, if lists of the type have all their room made first. -/
  room? : Option Room := none

namespace Binary

/-- The lowest `width` bytes of a number, lowest first. -/
def ofNat : (width : Nat) → Nat → Bytes
  | 0, _ => []
  | width + 1, n => UInt8.ofNat n :: ofNat width (n / 256)

/-- The number that bytes stand for, lowest first. -/
def toNat : Bytes → Nat
  | [] => 0
  | b :: rest => b.toNat + 256 * toNat rest

/-- The first `n` bytes and the rest; none if there are fewer. -/
def split? : (n : Nat) → Bytes → Option (Bytes × Bytes)
  | 0, bytes => some ([], bytes)
  | _ + 1, [] => none
  | n + 1, b :: bytes => (split? n bytes).map fun (front, back) => (b :: front, back)

/-- Reads a number of `width` bytes. -/
def readNat (width : Nat) : Reader Nat := fun _ bytes =>
  match split? width bytes with
  | none => .error .unexpectedEnd
  | some (front, back) => .ok (toNat front, back)

instance : Binary UInt8 where
  write n := ofNat 1 n.toNat
  read := do return UInt8.ofNat (← readNat 1)

instance : Binary UInt64 where
  write n := ofNat 8 n.toNat
  read := do return UInt64.ofNat (← readNat 8)

instance : Binary (BitVec 128) where
  write n := ofNat 16 n.toNat
  read := do return BitVec.ofNat 128 (← readNat 16)

/-- The number in the signed range that `n` stands for modulo 2^64. -/
def signed (n : Nat) : Points :=
  .saturate (if n < 9223372036854775808 then (n : Int) else (n : Int) - 18446744073709551616)

instance : Binary Points where
  write v := ofNat 8 (v.val % 18446744073709551616).toNat
  read := do return signed (← readNat 8)

/-- The text in some bytes. -/
def textOf (bytes : Bytes) : Except DecodeError String :=
  match Text.Utf8.firstFault bytes with
  | some fault => .error (.illFormedText fault)
  | none => .ok ((String.fromUTF8? ⟨bytes.toArray⟩).getD "")

/-- Reads a text of `length` bytes. -/
def readText (length : Nat) : Reader String := fun _ bytes =>
  match split? length bytes with
  | none => .error .textTooLong
  | some (front, back) => (textOf front).map fun text => (text, back)

instance : Binary String where
  write text := ofNat 8 text.utf8ByteSize ++ text.toUTF8.toList
  read := do readText (← readNat 8)

variable {α β : Type}

/-- Makes room for `n` items. -/
def makeRoom (room? : Option Room) (n : Nat) : Reader Unit := fun machine bytes =>
  match room?.bind fun room => machine.itemShortage? room n with
  | some shortage => .error (.noRoom shortage)
  | none => .ok ((), bytes)

/-- Reads `n` values. -/
def readMany (one : Reader α) : (n : Nat) → Reader (List α)
  | 0 => return []
  | n + 1 => do
    let a ← one
    let rest ← readMany one n
    return a :: rest

instance [Binary α] : Binary (List α) where
  write xs := ofNat 8 xs.length ++ xs.flatMap write
  read := do
    let n ← readNat 8
    makeRoom (room? α) n
    readMany read n

instance [Binary α] : Binary (Option α) where
  write
    | none => [0]
    | some a => 1 :: write a
  read := do
    let tag : UInt8 ← read
    if tag = 0 then return none
    else if tag = 1 then return some (← read)
    else throw (.optionTag tag)

instance [Binary α] [Binary β] : Binary (α × β) where
  write p := write p.1 ++ write p.2
  read := do
    let a ← read
    let b ← read
    return (a, b)

/-- Reads the index of one of `count` variants. -/
def readVariant (count : Nat) : Reader Nat := do
  let index ← readNat 4
  if index < count then return index else throw (.variantIndex index count)

/-- The index of a variant. -/
def writeVariant (index : Nat) : Bytes := ofNat 4 index

/-- The form of a kind whose variants have no fields. -/
abbrev ofEnumerated (α : Type) [DecidableEq α] [Enumerated α] : Binary α where
  write a := writeVariant (Enumerated.index a)
  read := do
    let index ← readVariant (Enumerated.count α)
    match Enumerated.ofIndex? index with
    | some a => return a
    | none => throw (.variantIndex index (Enumerated.count α))

/-- The form of a type whose values are written as values of another. -/
abbrev via [Binary β] (f : α → β) (back : β → α) : Binary α where
  write a := write (f a)
  read := do return back (← read)

end Binary

/-- The value in some bytes; bytes behind it do not count. -/
def decodeBytes {α : Type} [Binary α] (machine : Machine) (bytes : Bytes) : Except DecodeError α :=
  (((Binary.read (α := α)).run machine).run bytes).map Prod.fst

end CramSchool
