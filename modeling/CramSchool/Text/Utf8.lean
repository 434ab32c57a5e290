/-
  Ill-formed UTF-8.

  `firstFault` names the first place where bytes stop being UTF-8: the index of the sequence
  that fails and, unless the bytes end inside a sequence that could still be completed, the
  number of bytes of it that were wrong. A sequence is wrong from the first byte that no
  well-formed sequence has there; so surrogates, overlong forms and values above U+10FFFF fail
  at their second byte.
-/

namespace CramSchool.Text.Utf8

/-- A sequence that is not well-formed. -/
structure Fault where
  /-- Index of its first byte. -/
  index : Nat
  /-- Number of wrong bytes; none if the bytes end too early. -/
  width : Option Nat
deriving DecidableEq

def Fault.message (f : Fault) : String :=
  match f.width with
  | some width =>
    "invalid utf-8 sequence of " ++ toString width ++ " bytes from index " ++ toString f.index
  | none => "incomplete utf-8 byte sequence from index " ++ toString f.index

/-- Range of a byte that continues a sequence. -/
def continuation : UInt8 × UInt8 := (0x80, 0xBF)

/-- Ranges of the bytes that must follow a first byte; none if no sequence starts with it. -/
def following (first : UInt8) : Option (List (UInt8 × UInt8)) :=
  if first < 0x80 then some []
  else if first < 0xC2 then none
  else if first < 0xE0 then some [continuation]
  else if first = 0xE0 then some [(0xA0, 0xBF), continuation]
  else if first = 0xED then some [(0x80, 0x9F), continuation]
  else if first < 0xF0 then some [continuation, continuation]
  else if first = 0xF0 then some [(0x90, 0xBF), continuation, continuation]
  else if first < 0xF4 then some [continuation, continuation, continuation]
  else if first = 0xF4 then some [(0x80, 0x8F), continuation, continuation]
  else none

/-- The first fault of bytes in the middle of a sequence that began at `start`. Of it `seen` bytes
    are read, and `expected` are the ranges of those to come. -/
def faultFrom (start seen : Nat) (expected : List (UInt8 × UInt8)) : List UInt8 → Option Fault
  | [] => if expected.isEmpty then none else some ⟨start, none⟩
  | b :: rest =>
    match expected with
    | (low, high) :: more =>
      if low ≤ b ∧ b ≤ high then faultFrom start (seen + 1) more rest
      else some ⟨start, some seen⟩
    | [] =>
      match following b with
      | some ranges => faultFrom (start + seen) 1 ranges rest
      | none => some ⟨start + seen, some 1⟩

/-- The first fault of some bytes. -/
def firstFault (bytes : List UInt8) : Option Fault := faultFrom 0 0 [] bytes

end CramSchool.Text.Utf8
