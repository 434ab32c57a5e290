/-
  Memory of sentences already read.

  A memo remembers the effect of each sentence it was asked about. What it remembers is what
  reading gives (`sound`), so asking it is the same as reading (`Memo.recall_fst`).
-/
import CramSchool.Effect.Reading
import Std.Data.TreeMap

namespace CramSchool

/-- Sentences with the effects they describe. -/
structure Memo where
  entries : Std.TreeMap String Effect
  sound : ∀ (text : String) (e : Effect), entries[text]? = some e → e = Effect.ofText text

namespace Memo

def empty : Memo := ⟨∅, fun text e h => by simp at h⟩

instance : Inhabited Memo := ⟨empty⟩

/-- Number of sentences remembered. -/
def size (m : Memo) : Nat := m.entries.size

/-- Remembers the effect of one more sentence. -/
def learn (m : Memo) (text : String) : Memo where
  entries := m.entries.insert text (Effect.ofText text)
  sound other e h := by
    rw [Std.TreeMap.getElem?_insert] at h
    split at h
    · next heq =>
        obtain rfl := Std.LawfulEqCmp.eq_of_compare heq
        exact (Option.some.inj h).symm
    · exact m.sound other e h

end Memo

/-- The effect of a sentence, from memory if it was read before. -/
def Memo.recall (m : Memo) (text : String) : Effect × Memo :=
  match m.entries[text]? with
  | some e => (e, m)
  | none => (Effect.ofText text, m.learn text)

theorem Memo.recall_fst (m : Memo) (text : String) : (m.recall text).1 = Effect.ofText text := by
  unfold Memo.recall
  split
  · next e h => exact m.sound text e h
  · rfl

end CramSchool
