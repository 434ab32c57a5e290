/-
  The catalog is what was loaded, whichever way it is asked.

  Cards are kept in the order of loading, and the index by name is kept beside them. One more card
  is a new name for the index or is passed over by it; either way each name stands for the first
  card that bears it (`Coherent.register`), so it does after any cards were loaded
  (`coherent_ofCards`). Looking a name up is then looking through the cards from the front
  (`find?_ofCards`).

  The pools of a new game are filled card by card too, and a card goes to the pool of its rarity
  (`Pools.perm_flatten_add`). Each ends up with the cards of its rarity in the order of loading, and
  the four together with all cards.

  Main result: `Catalog.indexes_agree`.
-/
import CramSchool.Proofs.Pile.Conserved

namespace CramSchool

/-! ## Pools -/

namespace Pools

/-- A card that is laid on a pool is one card more in the pools. -/
theorem perm_flatten_add (p : Pools) (card : Card) :
    (p.add card).toList.flatten.Perm (card :: p.toList.flatten) := by
  refine List.perm_iff_count.mpr fun other => ?_
  unfold add
  cases card.rarity <;>
    simp only [toList, Rarity.all, get, set, List.map_cons, List.map_nil, List.flatten_cons,
      List.flatten_nil, List.append_nil, List.count_append, List.count_cons, List.count_nil] <;>
    omega

theorem perm_flatten_foldl_add (p : Pools) (cards : List Card) :
    (cards.foldl add p).toList.flatten.Perm (p.toList.flatten ++ cards) := by
  induction cards generalizing p with
  | nil => exact .of_eq (List.append_nil _).symm
  | cons card cards ih =>
      exact (ih (p.add card)).trans (((p.perm_flatten_add card).append_right cards).trans
        List.perm_middle.symm)

/-- The pools of a new game are the cards of the catalog. -/
theorem perm_flatten_ofCatalog (k : Catalog) :
    (ofCatalog k).toList.flatten.Perm k.cards := perm_flatten_foldl_add empty k.cards

end Pools

namespace Catalog

/-! ## The index by name -/

/-- The index has each name at the position of the first card that bears it. -/
def Coherent (k : Catalog) : Prop :=
  ∀ name : String, k.firstNamed[name]? = k.cards.findIdx? fun card => card.name = name

theorem coherent_empty : empty.Coherent := fun name => by simp [empty]

/-- One more card is entered into the index only under a new name. -/
theorem Coherent.register {k : Catalog} (h : k.Coherent) (card : Card) :
    (k.register card).Coherent := by
  intro name
  show (k.firstNamed.insertIfNew card.name k.cards.length)[name]? =
    (k.cards ++ [card]).findIdx? fun card => card.name = name
  have hknown : card.name ∈ k.firstNamed ↔ ∃ i, k.firstNamed[card.name]? = some i := by
    rw [Std.TreeMap.mem_iff_isSome_getElem?, Option.isSome_iff_exists]
  rw [Std.TreeMap.getElem?_insertIfNew, List.findIdx?_append, ← h name]
  by_cases hname : card.name = name
  · subst hname
    cases hfirst : k.firstNamed[card.name]? with
    | none =>
        have hnew : card.name ∉ k.firstNamed := fun hmem => by
          obtain ⟨i, hi⟩ := hknown.mp hmem
          exact nomatch hfirst.symm.trans hi
        simp [hnew]
    | some i =>
        have hmem : card.name ∈ k.firstNamed := hknown.mpr ⟨i, hfirst⟩
        simp [hmem]
  · simp [hname]

theorem Coherent.foldl_register {k : Catalog} (h : k.Coherent) (cards : List Card) :
    (cards.foldl Catalog.register k).Coherent := by
  induction cards generalizing k with
  | nil => exact h
  | cons card cards ih => exact ih (h.register card)

/-- A catalog that was loaded card by card has a coherent index. -/
theorem coherent_ofCards (cards : List Card) : (ofCards cards).Coherent :=
  coherent_empty.foldl_register cards

theorem cards_foldl_register (k : Catalog) (cards : List Card) :
    (cards.foldl register k).cards = k.cards ++ cards := by
  induction cards generalizing k with
  | nil => exact (List.append_nil _).symm
  | cons card cards ih =>
      rw [List.foldl_cons, ih]
      exact List.append_assoc k.cards [card] cards

theorem cards_ofCards (cards : List Card) : (ofCards cards).cards = cards :=
  cards_foldl_register empty cards

/-- With a coherent index a name stands for the first card that bears it. -/
theorem Coherent.find?_eq {k : Catalog} (h : k.Coherent) (name : String) :
    k.find? name = k.cards.find? fun card => card.name = name := by
  unfold find?
  rw [h name]
  cases hfirst : k.cards.findIdx? fun card => card.name = name with
  | none =>
      rw [List.findIdx?_eq_none_iff] at hfirst
      exact (List.find?_eq_none.mpr fun card hcard => by simp [hfirst card hcard]).symm
  | some i =>
      obtain ⟨hlt, hbears, hearlier⟩ := List.findIdx?_eq_some_iff_getElem.mp hfirst
      have hfound : k.cards.find? (fun card => card.name = name) = some k.cards[i] :=
        List.find?_eq_some_iff_getElem.mpr ⟨hbears, i, hlt, rfl, by simpa using hearlier⟩
      rw [hfound]
      exact List.getElem?_eq_getElem hlt

theorem find?_ofCards (cards : List Card) (name : String) :
    (ofCards cards).find? name = cards.find? fun card => card.name = name := by
  rw [(coherent_ofCards cards).find?_eq, cards_ofCards]

/-- The card is the first one of its name. -/
def FirstNamed (cards : List Card) (name : String) (card : Card) : Prop :=
  ∃ before behind, cards = before ++ card :: behind ∧ card.name = name ∧
    ∀ other ∈ before, other.name ≠ name

theorem find?_ofCards_eq_some_iff {cards : List Card} {name : String} {card : Card} :
    (ofCards cards).find? name = some card ↔ FirstNamed cards name card := by
  rw [find?_ofCards, List.find?_eq_some_iff_append]
  unfold FirstNamed
  constructor
  · rintro ⟨hname, before, behind, rfl, hearlier⟩
    exact ⟨before, behind, rfl, of_decide_eq_true hname, fun other hother => by
      simpa using hearlier other hother⟩
  · rintro ⟨before, behind, rfl, hname, hearlier⟩
    exact ⟨decide_eq_true hname, before, behind, rfl, fun other hother => by
      simpa using hearlier other hother⟩

theorem find?_ofCards_eq_none_iff {cards : List Card} {name : String} :
    (ofCards cards).find? name = none ↔ ∀ card ∈ cards, card.name ≠ name := by
  rw [find?_ofCards, List.find?_eq_none]
  simp

/-! ## Starting decks -/

/-- A list with every element doubled has each element at two places, one behind the other. -/
theorem getElem?_flatMap_pair {α : Type} (xs : List α) (i : Nat) :
    (xs.flatMap fun x => [x, x])[2 * i]? = xs[i]? ∧
      (xs.flatMap fun x => [x, x])[2 * i + 1]? = xs[i]? := by
  induction xs generalizing i with
  | nil => exact ⟨rfl, rfl⟩
  | cons x xs ih =>
      cases i with
      | zero => exact ⟨rfl, rfl⟩
      | succ i => exact ih i

theorem length_starters (k : Catalog) : k.starters.length = 2 * (k.byRarity .n).length := by
  unfold starters
  induction k.byRarity .n with
  | nil => rfl
  | cons card cards ih =>
      rw [List.flatMap_cons, List.length_append, ih, List.length_cons, List.length_cons,
        List.length_cons, List.length_nil]
      omega

/-! ## All ways to ask -/

/-- Whatever cards are loaded, and however often names and rarities repeat among them, the catalog
    says the same of them in all ways. It keeps them in the order of loading, and cards loaded
    later go behind them. A name stands for the first card that bears it, and for none if no card
    does. The pool of a rarity in a new game is the list of the cards of that rarity in the order
    of loading, and the four pools are all cards. The starting deck is the list of the N cards with
    every card doubled in its place. -/
theorem indexes_agree (cards : List Card) :
    ((ofCards cards).cards = cards ∧
        ∀ more, more.foldl register (ofCards cards) = ofCards (cards ++ more)) ∧
      (∀ name card, (ofCards cards).find? name = some card ↔ FirstNamed cards name card) ∧
      (∀ name, (ofCards cards).find? name = none ↔ ∀ card ∈ cards, card.name ≠ name) ∧
      (∀ rarity, (ofCards cards).byRarity rarity = cards.filter fun card => card.rarity = rarity) ∧
      (∀ rarity,
        (Pools.ofCatalog (ofCards cards)).get rarity = (ofCards cards).byRarity rarity) ∧
      (Pools.ofCatalog (ofCards cards)).toList.flatten.Perm cards ∧
      (ofCards cards).starters.length = 2 * ((ofCards cards).byRarity .n).length ∧
      ∀ i, (ofCards cards).starters[2 * i]? = ((ofCards cards).byRarity .n)[i]? ∧
        (ofCards cards).starters[2 * i + 1]? = ((ofCards cards).byRarity .n)[i]? := by
  refine ⟨⟨cards_ofCards cards, fun more => ?_⟩, fun _ _ => find?_ofCards_eq_some_iff,
    fun _ => find?_ofCards_eq_none_iff, fun rarity => ?_, Pools.get_ofCatalog (ofCards cards), ?_,
    length_starters _, getElem?_flatMap_pair _⟩
  · exact List.foldl_append.symm
  · unfold byRarity
    rw [cards_ofCards]
    rfl
  · have hperm := Pools.perm_flatten_ofCatalog (ofCards cards)
    rwa [cards_ofCards] at hperm

end Catalog

end CramSchool
