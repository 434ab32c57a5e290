/-
  Resolving an effect.

  The base changes apply first. Then the blocks are checked in order, each against the
  stats as the earlier ones left them. The report lists every change and the blocks that
  fired. `Report.net` sums it up stat by stat.
-/
import CramSchool.Effect.Basic

namespace CramSchool

/-- What an effect did. -/
structure Report where
  /-- Every change of a stat, in order. -/
  changes : List Change
  /-- Indices of the blocks whose condition held. -/
  fired : List Nat
deriving DecidableEq

namespace Report

/-- Adds `amount` to the total of `stat`, which goes last if it is new. -/
def tally (totals : List (Stat × Int)) (stat : Stat) (amount : Int) : List (Stat × Int) :=
  match totals with
  | [] => [(stat, amount)]
  | (k, total) :: rest =>
    if k = stat then (k, total + amount) :: rest else (k, total) :: tally rest stat amount

/-- Totals of a list of changes by stat, in order of first appearance. -/
def totals (changes : List Change) : List (Stat × Int) :=
  changes.foldl (fun acc c => tally acc c.stat c.realized) []

/-- How far each stat moved over all, without the stats that did not move. -/
def net (r : Report) : List (Stat × Int) := (totals r.changes).filter fun (_, total) => total ≠ 0

end Report

/-- Checks and applies blocks in order; the first of them has index `i`. -/
def fireBlocks (role : Role) (i : Nat) : List Block → Stats → Report × Stats
  | [], s => (⟨[], []⟩, s)
  | b :: rest, s =>
    if b.condition.holds role s then
      let (changes, s') := applyAll b.deltas s
      let (more, final) := fireBlocks role (i + 1) rest s'
      (⟨changes ++ more.changes, i :: more.fired⟩, final)
    else
      fireBlocks role (i + 1) rest s

/-- Applies an effect as played by `role`. Whether the role may play it is not asked here. -/
def Effect.resolve (e : Effect) (role : Role) (s : Stats) : Report × Stats :=
  let (changes, s') := applyAll e.base s
  let (report, final) := fireBlocks role 0 e.blocks s'
  (⟨changes ++ report.changes, report.fired⟩, final)

end CramSchool
