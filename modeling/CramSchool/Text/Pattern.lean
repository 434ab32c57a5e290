/-
  Patterns and the places of a text where they match.

  A pattern looks at the head of a text. If it matches there, it gives a value and the
  number of characters it takes. Patterns are put together in sequence with `do`.

  `findFirst?` is the leftmost match. `findAll` lists the matches from left to right, each
  starting behind the one before it. `without` is the text with the listed matches cut
  out. Places are counted in characters from the start of the text.
-/

namespace CramSchool.Text

/-- A value found at the head of a text and the number of characters taken. -/
def Pattern (α : Type) : Type := List Char → Option (α × Nat)

namespace Pattern

variable {α β : Type}

/-- Takes nothing. -/
protected def pure (a : α) : Pattern α := fun _ => some (a, 0)

/-- One pattern, then another on the text behind it. -/
protected def bind (p : Pattern α) (next : α → Pattern β) : Pattern β := fun text =>
  match p text with
  | none => none
  | some (a, width) =>
    match next a (text.drop width) with
    | none => none
    | some (b, more) => some (b, width + more)

instance : Monad Pattern where
  pure := Pattern.pure
  bind := Pattern.bind

/-- Matches nowhere. -/
def never : Pattern α := fun _ => none

/-- The given word. -/
def word (w : List Char) : Pattern Unit := fun text =>
  if w.isPrefixOf text then some ((), w.length) else none

/-- The first of the values whose word the text starts with. -/
def oneOf (values : List α) (wordOf : α → List Char) : Pattern α := fun text =>
  (values.find? fun a => (wordOf a).isPrefixOf text).map fun a => (a, (wordOf a).length)

/-- The longest run, possibly empty, of characters of a class. -/
def run (member : Char → Bool) : Pattern (List Char) := fun text =>
  some (text.takeWhile member, (text.takeWhile member).length)

/-- A match of a pattern somewhere in a text. -/
structure Match (α : Type) where
  /-- Place of its first character. -/
  start : Nat
  /-- Number of characters taken. -/
  width : Nat
  value : α
deriving DecidableEq

/-- Place just behind the match. -/
def Match.stop (m : Match α) : Nat := m.start + m.width

/-- The leftmost match. -/
def findFirst? (p : Pattern α) : List Char → Option α
  | [] => none
  | c :: rest =>
    match p (c :: rest) with
    | some (a, _) => some a
    | none => findFirst? p rest

/-- The matches in a text whose head is at `place`, after `skip` characters that belong
    to an earlier match. -/
def findFrom (p : Pattern α) (place : Nat) : (skip : Nat) → List Char → List (Match α)
  | _, [] => []
  | skip + 1, _ :: rest => findFrom p (place + 1) skip rest
  | 0, c :: rest =>
    match p (c :: rest) with
    | some (a, width) => ⟨place, width, a⟩ :: findFrom p (place + 1) (width - 1) rest
    | none => findFrom p (place + 1) 0 rest

/-- Every match from left to right, each starting behind the one before it. -/
def findAll (p : Pattern α) (text : List Char) : List (Match α) := findFrom p 0 0 text

/-- The values of all matches. -/
def values (p : Pattern α) (text : List Char) : List α := (p.findAll text).map Match.value

end Pattern

/-- The text from `place` on, without the given matches. -/
def withoutFrom {α : Type} (text : List Char) (place : Nat) : List (Pattern.Match α) → List Char
  | [] => text.drop place
  | m :: rest => (text.drop place).take (m.start - place) ++ withoutFrom text m.stop rest

/-- The text without the given matches, which are disjoint and in order. -/
def without {α : Type} (text : List Char) (matched : List (Pattern.Match α)) : List Char :=
  withoutFrom text 0 matched

end CramSchool.Text
