/-
  Resolving an effect in parts.

  Each block is checked at the stats that everything before it left. So the blocks of an effect can
  be cut at any place: what stands before the cut resolves first, and what stands behind it at the
  stats that come out (`fireBlocks_append`). The part behind the cut does not know where it
  stood; only the indices in its report are shifted (`fireBlocks_add`).

  The indices of the blocks that fire are some of the indices in their order (`sublist_fired`). A
  block fires exactly if its condition holds at the stats left by the part before it
  (`length_mem_fired_iff`). A block that does not fire leaves no trace but in the indices, so
  it can be taken out (`fireBlocks_pick`), and with only the blocks that fire their conditions
  need not be asked any more (`applyAll_pick`). In particular a resolution does nothing that a
  list of deltas could not do (`Effect.exists_deltas_resolve`), which is how the bounds, the
  replay of a report and the like get from lists of deltas to whole effects.

  Main result: `Effect.resolve_in_parts`.
-/
import CramSchool.Effect.Resolution

namespace CramSchool

theorem applyAll_cons (d : Delta) (rest : List Delta) (s : Stats) :
    applyAll (d :: rest) s =
      ((d.apply s).1 ++ (applyAll rest (d.apply s).2).1, (applyAll rest (d.apply s).2).2) := rfl

theorem applyAll_append (first more : List Delta) (s : Stats) :
    applyAll (first ++ more) s =
      ((applyAll first s).1 ++ (applyAll more (applyAll first s).2).1,
        (applyAll more (applyAll first s).2).2) := by
  induction first generalizing s with
  | nil => rfl
  | cons d rest ih =>
      rw [List.cons_append, applyAll_cons, applyAll_cons, ih]
      dsimp only
      rw [List.append_assoc]

/-! ## Some of the blocks -/

/-- The blocks whose index `p` picks. The first block has index `i`. -/
def pick (p : Nat → Bool) (i : Nat) (blocks : List Block) : List Block :=
  ((blocks.zipIdx i).filter fun x => p x.2).map Prod.fst

theorem pick_cons (p : Nat → Bool) (i : Nat) (b : Block) (rest : List Block) :
    pick p i (b :: rest) = if p i then b :: pick p (i + 1) rest else pick p (i + 1) rest := by
  unfold pick
  rw [List.zipIdx_cons, List.filter_cons]
  split <;> rfl

theorem pick_eq_nil {p : Nat → Bool} {i : Nat} (h : ∀ j, i ≤ j → p j = false)
    (blocks : List Block) : pick p i blocks = [] := by
  induction blocks generalizing i with
  | nil => rfl
  | cons b rest ih =>
      rw [pick_cons, h i (Nat.le_refl i), if_neg Bool.false_ne_true]
      exact ih fun j hj => h j (by omega)

/-- To pick only indices below a bound is to pick from the blocks below it. -/
theorem pick_take (p : Nat → Bool) (i n : Nat) (blocks : List Block) :
    pick (fun j => p j && decide (j < i + n)) i blocks = pick p i (blocks.take n) := by
  induction blocks generalizing i n with
  | nil =>
      rw [List.take_nil]
      rfl
  | cons b rest ih =>
      cases n with
      | zero => exact pick_eq_nil (fun j hj => by simp [hj]) _
      | succ n =>
          have hi : (p i && decide (i < i + (n + 1))) = p i := by simp
          have hn : i + (n + 1) = i + 1 + n := by omega
          rw [List.take_succ_cons, pick_cons, pick_cons, hi, hn, ih]

/-! ## Blocks in a row -/

section

variable (role : Role) (i : Nat)

theorem fireBlocks_of_holds {b : Block} {s : Stats} (h : b.condition.holds role s)
    (rest : List Block) :
    fireBlocks role i (b :: rest) s =
      (⟨(applyAll b.deltas s).1 ++
          (fireBlocks role (i + 1) rest (applyAll b.deltas s).2).1.changes,
        i :: (fireBlocks role (i + 1) rest (applyAll b.deltas s).2).1.fired⟩,
        (fireBlocks role (i + 1) rest (applyAll b.deltas s).2).2) := if_pos h

theorem fireBlocks_of_not_holds {b : Block} {s : Stats} (h : ¬b.condition.holds role s)
    (rest : List Block) : fireBlocks role i (b :: rest) s = fireBlocks role (i + 1) rest s :=
  if_neg h

theorem fireBlocks_append (first more : List Block) (s : Stats) :
    fireBlocks role i (first ++ more) s =
      (⟨(fireBlocks role i first s).1.changes ++
          (fireBlocks role (i + first.length) more (fireBlocks role i first s).2).1.changes,
        (fireBlocks role i first s).1.fired ++
          (fireBlocks role (i + first.length) more (fireBlocks role i first s).2).1.fired⟩,
        (fireBlocks role (i + first.length) more (fireBlocks role i first s).2).2) := by
  induction first generalizing i s with
  | nil => rfl
  | cons b rest ih =>
      have hlength : i + (b :: rest).length = i + 1 + rest.length := by
        rw [List.length_cons]
        omega
      rw [List.cons_append, hlength]
      by_cases h : b.condition.holds role s
      · rw [fireBlocks_of_holds role i h, fireBlocks_of_holds role i h, ih]
        dsimp only
        rw [List.append_assoc, List.cons_append]
      · rw [fireBlocks_of_not_holds role i h, fireBlocks_of_not_holds role i h, ih]

/-- Where the blocks stand decides the indices in the report and nothing else. -/
theorem fireBlocks_add (j : Nat) (blocks : List Block) (s : Stats) :
    fireBlocks role (i + j) blocks s =
      (⟨(fireBlocks role j blocks s).1.changes,
        (fireBlocks role j blocks s).1.fired.map (i + ·)⟩, (fireBlocks role j blocks s).2) := by
  induction blocks generalizing j s with
  | nil => rfl
  | cons b rest ih =>
      by_cases h : b.condition.holds role s
      · rw [fireBlocks_of_holds role _ h, fireBlocks_of_holds role _ h, Nat.add_assoc, ih]
        rfl
      · rw [fireBlocks_of_not_holds role _ h, fireBlocks_of_not_holds role _ h, Nat.add_assoc, ih]

theorem sublist_fired (blocks : List Block) (s : Stats) :
    (fireBlocks role i blocks s).1.fired.Sublist (List.range' i blocks.length) := by
  induction blocks generalizing i s with
  | nil => exact .slnil
  | cons b rest ih =>
      rw [List.length_cons, List.range'_succ]
      by_cases h : b.condition.holds role s
      · rw [fireBlocks_of_holds role i h]
        exact (ih (i + 1) _).cons_cons i
      · rw [fireBlocks_of_not_holds role i h]
        exact (ih (i + 1) s).cons i

theorem range_of_mem_fired {blocks : List Block} {s : Stats} {j : Nat}
    (h : j ∈ (fireBlocks role i blocks s).1.fired) : i ≤ j ∧ j < i + blocks.length :=
  List.mem_range'_1.mp ((sublist_fired role i blocks s).subset h)

/-- The block behind a part of the blocks fires if its condition holds at the stats that the part
    leaves. -/
theorem length_mem_fired_iff (before : List Block) (b : Block) (behind : List Block)
    (s : Stats) :
    i + before.length ∈ (fireBlocks role i (before ++ b :: behind) s).1.fired ↔
      b.condition.holds role (fireBlocks role i before s).2 := by
  have hbefore : i + before.length ∉ (fireBlocks role i before s).1.fired := fun h => by
    have := range_of_mem_fired role i h
    omega
  rw [fireBlocks_append]
  dsimp only
  rw [List.mem_append, or_iff_right hbefore]
  by_cases h : b.condition.holds role (fireBlocks role i before s).2
  · rw [fireBlocks_of_holds role _ h]
    exact iff_of_true List.mem_cons_self h
  · rw [fireBlocks_of_not_holds role _ h]
    refine iff_of_false (fun hmem => ?_) h
    have := range_of_mem_fired role _ hmem
    omega

/-- The blocks behind a place have no say in which blocks before it fire. -/
theorem mem_fired_take_iff (n : Nat) (blocks : List Block) (s : Stats) (j : Nat) :
    j ∈ (fireBlocks role i (blocks.take n) s).1.fired ↔
      j ∈ (fireBlocks role i blocks s).1.fired ∧ j < i + n := by
  have hlength := List.length_take_le n blocks
  have hshort : (blocks.take n).length < n → blocks.drop n = [] := fun h => by
    rw [List.length_take] at h
    exact List.drop_eq_nil_of_le (by omega)
  have hsplit := fireBlocks_append role i (blocks.take n) (blocks.drop n) s
  rw [List.take_append_drop] at hsplit
  rw [hsplit]
  dsimp only
  rw [List.mem_append]
  constructor
  · intro h
    have := range_of_mem_fired role i h
    exact ⟨.inl h, by omega⟩
  · rintro ⟨h | h, hj⟩
    · exact h
    · have hrange := range_of_mem_fired role _ h
      rw [hshort (by omega)] at h
      exact nomatch h

/-- What the blocks do is what some of their deltas do, made in order and without asking for a
    condition. -/
theorem exists_deltas_fireBlocks (blocks : List Block) (s : Stats) :
    ∃ deltas, deltas.Sublist (blocks.flatMap Block.deltas) ∧
      applyAll deltas s =
        ((fireBlocks role i blocks s).1.changes, (fireBlocks role i blocks s).2) := by
  induction blocks generalizing i s with
  | nil => exact ⟨[], .slnil, rfl⟩
  | cons b rest ih =>
      rw [List.flatMap_cons]
      by_cases h : b.condition.holds role s
      · obtain ⟨deltas, hsublist, hdeltas⟩ := ih (i + 1) (applyAll b.deltas s).2
        rw [fireBlocks_of_holds role i h]
        refine ⟨b.deltas ++ deltas, hsublist.append_left b.deltas, ?_⟩
        rw [applyAll_append, hdeltas]
      · obtain ⟨deltas, hsublist, hdeltas⟩ := ih (i + 1) s
        rw [fireBlocks_of_not_holds role i h]
        exact ⟨deltas, hsublist.trans (List.sublist_append_right b.deltas _), hdeltas⟩

/-- Blocks that do not fire can be taken out. -/
theorem fireBlocks_pick {p : Nat → Bool} {blocks : List Block} {s : Stats}
    (h : ∀ j ∈ (fireBlocks role i blocks s).1.fired, p j) (k : Nat) :
    (fireBlocks role k (pick p i blocks) s).2 = (fireBlocks role i blocks s).2 ∧
      (fireBlocks role k (pick p i blocks) s).1.changes =
        (fireBlocks role i blocks s).1.changes := by
  induction blocks generalizing i k s with
  | nil => exact ⟨rfl, rfl⟩
  | cons b rest ih =>
      rw [pick_cons]
      by_cases hholds : b.condition.holds role s
      · rw [fireBlocks_of_holds role i hholds] at h ⊢
        obtain ⟨hstats, hchanges⟩ := ih (i + 1) (fun j hj => h j (.tail i hj)) (k + 1)
        rw [if_pos (h i List.mem_cons_self), fireBlocks_of_holds role k hholds]
        exact ⟨hstats, congrArg (_ ++ ·) hchanges⟩
      · rw [fireBlocks_of_not_holds role i hholds] at h ⊢
        split
        · rw [fireBlocks_of_not_holds role k hholds]
          exact ih (i + 1) h (k + 1)
        · exact ih (i + 1) h k

/-- The changes of the blocks that fire, made without asking for a condition. -/
theorem applyAll_pick {p : Nat → Bool} {blocks : List Block} {s : Stats}
    (h : ∀ j, i ≤ j → j < i + blocks.length →
      (p j ↔ j ∈ (fireBlocks role i blocks s).1.fired)) :
    applyAll ((pick p i blocks).flatMap Block.deltas) s =
      ((fireBlocks role i blocks s).1.changes, (fireBlocks role i blocks s).2) := by
  induction blocks generalizing i s with
  | nil => rfl
  | cons b rest ih =>
      have hfirst := h i (Nat.le_refl i) (by rw [List.length_cons]; omega)
      rw [pick_cons]
      by_cases hholds : b.condition.holds role s
      · rw [fireBlocks_of_holds role i hholds] at h hfirst ⊢
        have hrest := ih (i + 1) (s := (applyAll b.deltas s).2) fun j hle hlt => by
          rw [h j (by omega) (by rw [List.length_cons]; omega)]
          exact (List.mem_cons).trans (or_iff_right (by omega))
        rw [if_pos (hfirst.mpr List.mem_cons_self), List.flatMap_cons, applyAll_append, hrest]
      · rw [fireBlocks_of_not_holds role i hholds] at h hfirst ⊢
        have hnot : ¬p i := fun hp => by
          have := range_of_mem_fired role _ (hfirst.mp hp)
          omega
        rw [if_neg hnot]
        exact ih (i + 1) fun j hle hlt => h j (by omega) (by rw [List.length_cons]; omega)

end

/-! ## Whole effects -/

namespace Effect

/-- The effect with only those of its blocks whose index `p` picks. -/
def keep (e : Effect) (p : Nat → Bool) : Effect := { e with blocks := pick p 0 e.blocks }

/-- All changes of the effect, whatever the conditions. -/
def deltas (e : Effect) : List Delta := e.base ++ e.blocks.flatMap Block.deltas

/-- A resolution makes some of the changes of the effect, in order. So what any list of deltas keeps,
    a resolution keeps. -/
theorem exists_deltas_resolve (e : Effect) (role : Role) (s : Stats) :
    ∃ deltas, deltas.Sublist e.deltas ∧
      applyAll deltas s = ((e.resolve role s).1.changes, (e.resolve role s).2) := by
  obtain ⟨deltas, hsublist, hdeltas⟩ :=
    exists_deltas_fireBlocks role 0 e.blocks (applyAll e.base s).2
  refine ⟨e.base ++ deltas, hsublist.append_left e.base, ?_⟩
  rw [applyAll_append, hdeltas]
  rfl

/-- The stats at which the block with index `i` is checked: those that the base changes and the
    blocks before it leave. -/
def statsAt (e : Effect) (role : Role) (s : Stats) (i : Nat) : Stats :=
  (resolve { e with blocks := e.blocks.take i } role s).2

/-- A block fires exactly if its condition holds at the stats at which it is checked. -/
theorem mem_fired_iff (e : Effect) (role : Role) (s : Stats) (i : Nat) :
    i ∈ (e.resolve role s).1.fired ↔
      ∃ b, e.blocks[i]? = some b ∧ b.condition.holds role (e.statsAt role s i) := by
  show i ∈ (fireBlocks role 0 e.blocks (applyAll e.base s).2).1.fired ↔ _
  cases hb : e.blocks[i]? with
  | none =>
      have hlength := List.getElem?_eq_none_iff.mp hb
      refine iff_of_false (fun hmem => ?_) fun ⟨_, hsome, _⟩ => nomatch hsome
      have := range_of_mem_fired role 0 hmem
      omega
  | some b =>
      obtain ⟨hlt, hget⟩ := List.getElem?_eq_some_iff.mp hb
      have hsplit : e.blocks.take i ++ b :: e.blocks.drop (i + 1) = e.blocks := by
        rw [← hget, List.getElem_cons_drop, List.take_append_drop]
      have hi : 0 + (e.blocks.take i).length = i := by
        rw [List.length_take]
        omega
      have hfires := length_mem_fired_iff role 0 (e.blocks.take i) b (e.blocks.drop (i + 1))
        (applyAll e.base s).2
      rw [hsplit, hi] at hfires
      rw [hfires]
      exact ⟨fun h => ⟨b, rfl, h⟩, fun ⟨_, hsome, h⟩ => Option.some.inj hsome ▸ h⟩

theorem mem_fired_iff_holds {e : Effect} {i : Nat} {b : Block} (hb : e.blocks[i]? = some b)
    (role : Role) (s : Stats) :
    i ∈ (e.resolve role s).1.fired ↔ b.condition.holds role (e.statsAt role s i) := by
  rw [mem_fired_iff, hb]
  exact ⟨fun ⟨_, hsome, h⟩ => Option.some.inj hsome ▸ h, fun h => ⟨b, rfl, h⟩⟩

/-- The stats at which a block is checked come from the base changes and the changes of the blocks
    before it that fire. -/
theorem statsAt_eq (e : Effect) (role : Role) (s : Stats) (i : Nat) :
    e.statsAt role s i =
      (applyAll (e.keep fun j => (e.resolve role s).1.fired.contains j && decide (j < i)).deltas
        s).2 := by
  have hpick := pick_take (e.resolve role s).1.fired.contains 0 i e.blocks
  rw [Nat.zero_add] at hpick
  have hfired : ∀ j, 0 ≤ j → j < 0 + (e.blocks.take i).length →
      ((e.resolve role s).1.fired.contains j ↔
        j ∈ (fireBlocks role 0 (e.blocks.take i) (applyAll e.base s).2).1.fired) := by
    intro j _ hj
    have hlt : j < 0 + i := by
      rw [List.length_take] at hj
      omega
    rw [List.contains_iff_mem, mem_fired_take_iff]
    exact (and_iff_left hlt).symm
  show (fireBlocks role 0 (e.blocks.take i) (applyAll e.base s).2).2 =
    (applyAll (e.base ++ (pick (fun j => (e.resolve role s).1.fired.contains j && decide (j < i)) 0
      e.blocks).flatMap Block.deltas) s).2
  rw [applyAll_append, hpick, applyAll_pick role 0 hfired]

theorem resolve_append (roles : List Role) (base : List Delta) (first more : List Block)
    (role : Role) (s : Stats) :
    let one := resolve ⟨roles, base, first⟩ role s
    let two := resolve ⟨roles, [], more⟩ role one.2
    resolve ⟨roles, base, first ++ more⟩ role s =
      (⟨one.1.changes ++ two.1.changes,
        one.1.fired ++ two.1.fired.map (first.length + ·)⟩, two.2) := by
  intro one two
  let t : Stats := (applyAll base s).2
  have hfirst : fireBlocks role 0 first t =
      (⟨(fireBlocks role 0 first t).1.changes, one.1.fired⟩, one.2) := rfl
  have hmore : fireBlocks role first.length more one.2 =
      (⟨two.1.changes, two.1.fired.map (first.length + ·)⟩, two.2) :=
    fireBlocks_add role first.length 0 more one.2
  have hboth : resolve ⟨roles, base, first ++ more⟩ role s =
      (⟨(applyAll base s).1 ++ (fireBlocks role 0 (first ++ more) t).1.changes,
        (fireBlocks role 0 (first ++ more) t).1.fired⟩,
        (fireBlocks role 0 (first ++ more) t).2) := rfl
  have hall := fireBlocks_append role 0 first more t
  rw [Nat.zero_add, hfirst, hmore] at hall
  rw [hboth, hall]
  dsimp only
  rw [← List.append_assoc]
  rfl

theorem pairwise_fired (e : Effect) (role : Role) (s : Stats) :
    (e.resolve role s).1.fired.Pairwise (· < ·) :=
  (List.pairwise_lt_range' 1).sublist (sublist_fired role 0 e.blocks _)

/-- Blocks that do not fire can be left out of an effect. -/
theorem resolve_keep {e : Effect} {role : Role} {s : Stats} {p : Nat → Bool}
    (h : ∀ i ∈ (e.resolve role s).1.fired, p i) :
    ((e.keep p).resolve role s).2 = (e.resolve role s).2 ∧
      ((e.keep p).resolve role s).1.changes = (e.resolve role s).1.changes := by
  obtain ⟨hstats, hchanges⟩ := fireBlocks_pick role 0 h 0
  exact ⟨hstats, congrArg (_ ++ ·) hchanges⟩

/-- Resolving an effect whose blocks come in two parts is resolving the base changes with the first
    part, and then the second part alone at the stats that result. The changes come one after the
    other, and so do the blocks that fire, those of the second part counted on from the first.

    So the blocks that fire come in order; a block is among them exactly if its condition holds at
    the stats that the base changes and the earlier blocks that fire make; and to leave out blocks
    that do not fire, all of them or some, changes neither the stats nor the changes. -/
theorem resolve_in_parts (roles : List Role) (base : List Delta) (first more : List Block)
    (role : Role) (s : Stats) :
    let e : Effect := ⟨roles, base, first ++ more⟩
    let one := resolve ⟨roles, base, first⟩ role s
    let two := resolve ⟨roles, [], more⟩ role one.2
    let fired := (e.resolve role s).1.fired
    e.resolve role s =
        (⟨one.1.changes ++ two.1.changes,
          one.1.fired ++ two.1.fired.map (first.length + ·)⟩, two.2) ∧
      fired.Pairwise (· < ·) ∧
      (∀ i, i ∈ fired ↔ ∃ b, e.blocks[i]? = some b ∧ b.condition.holds role
        (applyAll (e.keep fun j => fired.contains j && decide (j < i)).deltas s).2) ∧
      ∀ spared : Nat → Bool,
        ((e.keep fun i => fired.contains i || spared i).resolve role s).2 =
            (e.resolve role s).2 ∧
          ((e.keep fun i => fired.contains i || spared i).resolve role s).1.changes =
            (e.resolve role s).1.changes := by
  intro e one two fired
  refine ⟨resolve_append roles base first more role s, e.pairwise_fired role s, fun i => ?_,
    fun spared => resolve_keep fun i hi => ?_⟩
  · rw [← statsAt_eq]
    exact e.mem_fired_iff role s i
  · rw [Bool.or_eq_true, List.contains_iff_mem]
    exact .inl hi

end Effect

/-- The first block lifts the satisfaction to where the second one fires; without the first, the
    second does not fire either. -/
example :
    let first : Block := ⟨.role [.leader], [.changeBy .satisfaction 5]⟩
    let second : Block := ⟨.stat .satisfaction 8 .atLeast, [.changeBy .accounting 1]⟩
    (Effect.resolve ⟨[], [], [first, second]⟩ .leader .opening).1.fired = [0, 1] ∧
      (Effect.resolve ⟨[], [], [second]⟩ .leader .opening).1.fired = [] := by decide

end CramSchool
