/-
  Shuffling keeps the cards, and so does drawing from the pools.

  A shuffle exchanges places, so it gives the same cards in another order (`perm_shuffle`). What a
  draw does to one pile is said in `CramSchool.Proofs.Pile.Origin`; here the pools as a whole keep
  their cards when cards are served without forced names (`Pools.perm_serve_nil`), since the pools
  of the other rarities are not touched.

  The pools of a new game are the cards of the catalog by rarity (`get_ofCatalog`).
-/
import CramSchool.Pile.Pools
import CramSchool.Proofs.Pile.Origin
import Mathlib.Data.List.Perm.Basic

namespace CramSchool

/-! ## Shuffling -/

namespace Generator

variable {α : Type}

theorem perm_swapIfInBounds (xs : Array α) (i j : Nat) : (xs.swapIfInBounds i j).Perm xs := by
  rw [Array.swapIfInBounds_def]
  split
  · split
    · exact Array.swap_perm _ _
    · exact .refl xs
  · exact .refl xs

theorem perm_exchange (i : Nat) (xs : Array α) (g : Generator) : (exchange i xs g).1.Perm xs := by
  induction i generalizing xs g with
  | zero => exact .refl xs
  | succ i ih => exact (ih _ _).trans (perm_swapIfInBounds xs _ _)

/-- A shuffled list holds the same elements. -/
theorem perm_shuffle (g : Generator) (xs : List α) : (g.shuffle xs).1.Perm xs :=
  (perm_exchange _ xs.toArray g).toList

end Generator

/-! ## Pools -/

namespace Pools

@[simp]
theorem get_set (p : Pools) (rarity other : Rarity) (pile : List Card) :
    (p.set rarity pile).get other = if other = rarity then pile else p.get other := by
  cases rarity <;> cases other <;> rfl

theorem get_add (p : Pools) (card : Card) (rarity : Rarity) :
    (p.add card).get rarity = p.get rarity ++ if card.rarity = rarity then [card] else [] := by
  unfold add
  rw [get_set]
  by_cases h : rarity = card.rarity
  · rw [if_pos h, if_pos h.symm, h]
  · rw [if_neg h, if_neg fun he => h he.symm, List.append_nil]

theorem get_foldl_add (p : Pools) (cards : List Card) (rarity : Rarity) :
    (cards.foldl add p).get rarity =
      p.get rarity ++ cards.filter fun card => card.rarity == rarity := by
  induction cards generalizing p with
  | nil => exact (List.append_nil _).symm
  | cons card cards ih =>
      rw [List.foldl_cons, ih, get_add, List.append_assoc, List.filter_cons]
      by_cases h : card.rarity = rarity
      · rw [if_pos h, if_pos (beq_iff_eq.mpr h)]
        rfl
      · rw [if_neg h, if_neg fun he => h (beq_iff_eq.mp he)]
        rfl

/-- Each pool starts with the cards of its rarity, in the order of loading. -/
theorem get_ofCatalog (k : Catalog) (rarity : Rarity) :
    (ofCatalog k).get rarity = k.byRarity rarity := by
  unfold ofCatalog
  rw [get_foldl_add]
  cases rarity <;> rfl

theorem perm_get_shuffle (p : Pools) (shuffled : Rarity) (g : Generator) (rarity : Rarity) :
    ((p.shuffle shuffled g).1.get rarity).Perm (p.get rarity) := by
  show ((p.set shuffled (g.shuffle (p.get shuffled)).1).get rarity).Perm (p.get rarity)
  rw [get_set]
  split
  · next h =>
      rw [h]
      exact g.perm_shuffle _
  · exact .refl _

/-- Serves up to `count` cards from one pool. Gives the cards and the pools left. -/
def serve (p : Pools) (catalog : Catalog) (rarity : Rarity) (count : Nat)
    (forced : List String) : List Card × Pools :=
  let (cards, left) := Pile.serve catalog count forced (p.get rarity)
  (cards, p.set rarity left)

theorem draw_of_hasRoom (p : Pools) {m : Machine} (catalog : Catalog) (rarity : Rarity)
    {count : Nat} (forced : List String) (h : m.HasRoom count) :
    p.draw m catalog rarity count forced = .ok (p.serve catalog rarity count forced) := by
  unfold draw
  rw [Pile.draw_of_hasRoom _ _ _ h]
  rfl

theorem draw_of_shortage (p : Pools) {m : Machine} (catalog : Catalog) (rarity : Rarity)
    {count : Nat} (forced : List String) {shortage : Shortage}
    (h : m.cardShortage? count = some shortage) :
    p.draw m catalog rarity count forced = .error (.noRoom shortage) := by
  unfold draw
  rw [Pile.draw_of_shortage _ _ _ h]
  rfl

/-- Served without forced names, the cards and what is left in the pools are the pools before. -/
theorem perm_serve_nil (p : Pools) (catalog : Catalog) (drawn : Rarity) (count : Nat)
    (rarity : Rarity) :
    ((if drawn = rarity then (p.serve catalog drawn count []).1 else []) ++
      (p.serve catalog drawn count []).2.get rarity).Perm (p.get rarity) := by
  have hperm := Pile.perm_serve_nil catalog count (p.get drawn)
  unfold serve
  dsimp only
  rw [Pools.get_set]
  by_cases h : drawn = rarity
  · rw [if_pos h, if_pos h.symm, ← h]
    exact hperm
  · rw [if_neg h, if_neg fun he => h he.symm]
    exact .refl _

end Pools

end CramSchool
