/-
  JSON forms of the domain's types.
-/
import CramSchool.Json.Basic
import CramSchool.Config
import CramSchool.Effect.Basic
import CramSchool.Pile.Pools
import CramSchool.Player
import CramSchool.Session.Phase

namespace CramSchool

namespace JsonForm

instance : JsonForm Stat := ofEnumerated Stat
instance : JsonForm Role := ofEnumerated Role
instance : JsonForm Rarity := ofEnumerated Rarity
instance : JsonForm Category := ofEnumerated Category
instance : JsonForm Comparator := ofEnumerated Comparator
instance : JsonForm Phase := ofEnumerated Phase

instance : JsonForm Stats where
  encode s := .record ["values"] [encode s.values]
  decode? j := do
    match ← j.membersOf? ["values"] with
    | [.list [a, b, c, d]] => return ⟨← decode? a, ← decode? b, ← decode? c, ← decode? d⟩
    | _ => none

instance : JsonForm Change where
  encode c := .record ["stat", "before", "after"] [encode c.stat, encode c.before, encode c.after]
  decode? j := do
    match ← j.membersOf? ["stat", "before", "after"] with
    | [a, b, c] => return ⟨← decode? a, ← decode? b, ← decode? c⟩
    | _ => none

/-- Field names of a card. -/
def cardFields : List String :=
  ["category", "rarity", "name", "top_effect", "effect", "acquired_turn"]

instance : JsonForm Card where
  encode c := .record cardFields
    [encode c.category, encode c.rarity, encode c.name, encode c.topEffect, encode c.effect,
      encode c.acquiredTurn]
  decode? j := do
    match ← j.membersOf? cardFields with
    | [a, b, c, d, e, f] =>
      return ⟨← decode? a, ← decode? b, ← decode? c, ← decode? d, ← decode? e, ← decode? f⟩
    | _ => none

instance : JsonForm Delta where
  encode
    | .setTo stat value =>
      .object [("SetTo", .record ["stat", "value"] [encode stat, encode value])]
    | .changeBy stat amount =>
      .object [("ChangeBy", .record ["stat", "delta"] [encode stat, encode amount])]
  decode? j := do
    match ← j.variant? with
    | ("SetTo", content) =>
      match ← content.fieldsOf? ["stat", "value"] with
      | [a, b] => return .setTo (← decode? a) (← decode? b)
      | _ => none
    | ("ChangeBy", content) =>
      match ← content.fieldsOf? ["stat", "delta"] with
      | [a, b] => return .changeBy (← decode? a) (← decode? b)
      | _ => none
    | _ => none

instance : JsonForm Condition where
  encode
    | .role roles => .object [("Role", .record ["roles"] [encode roles])]
    | .stat k threshold comparator =>
      .object [("Stat", .record ["stat", "threshold", "comparator"]
        [encode k, encode threshold, encode comparator])]
    | .unknown raw => .object [("Unknown", .record ["raw"] [encode raw])]
  decode? j := do
    match ← j.variant? with
    | ("Role", content) =>
      match ← content.fieldsOf? ["roles"] with
      | [a] => return .role (← decode? a)
      | _ => none
    | ("Stat", content) =>
      match ← content.fieldsOf? ["stat", "threshold", "comparator"] with
      | [a, b, c] => return .stat (← decode? a) (← decode? b) (← decode? c)
      | _ => none
    | ("Unknown", content) =>
      match ← content.fieldsOf? ["raw"] with
      | [a] => return .unknown (← decode? a)
      | _ => none
    | _ => none

instance : JsonForm Block where
  encode b := .record ["condition", "effects"] [encode b.condition, encode b.deltas]
  decode? j := do
    match ← j.membersOf? ["condition", "effects"] with
    | [a, b] => return ⟨← decode? a, ← decode? b⟩
    | _ => none

/-- Field names of an effect. -/
def effectFields : List String := ["role_restrictions", "base_effects", "conditional_blocks"]

instance : JsonForm Effect where
  encode e := .record effectFields [encode e.restrictions, encode e.base, encode e.blocks]
  decode? j := do
    match ← j.membersOf? effectFields with
    | [a, b, c] => return ⟨← decode? a, ← decode? b, ← decode? c⟩
    | _ => none

instance : JsonForm ForcedDraws where
  encode f := .record ["training", "hand"] [encode f.training, encode f.hand]
  decode? j := do
    match ← j.membersOf? ["training", "hand"] with
    | [a, b] => return ⟨← decode? a, ← decode? b⟩
    | _ => none

/-- Field names of the settings. -/
def configFields : List String :=
  ["seed", "opening_offer", "opening_picks", "training_offer", "training_picks", "hand_size",
    "forced"]

instance : JsonForm Config where
  encode c := .record configFields
    [encode c.seed, encode c.openingOffer, encode c.openingPicks, encode c.trainingOffer,
      encode c.trainingPicks, encode c.handSize, encode c.forced]
  decode? j := do
    match ← j.membersOf? configFields with
    | [a, b, c, d, e, f, g] =>
      return ⟨← decode? a, ← decode? b, ← decode? c, ← decode? d, ← decode? e, ← decode? f,
        ← decode? g⟩
    | _ => none

instance {α : Type} [JsonForm α] : JsonForm (PerRole α) where
  encode p := .record ["data"] [.list [encode p.leader, encode p.teacher, encode p.staff]]
  decode? j := do
    match ← j.membersOf? ["data"] with
    | [.list [a, b, c]] => return ⟨← decode? a, ← decode? b, ← decode? c⟩
    | _ => none

instance : JsonForm Player where
  encode p := .record ["stats", "deck", "hand", "placed"]
    [encode p.stats, encode p.deck, encode p.hand, encode p.placed]
  decode? j := do
    match ← j.membersOf? ["stats", "deck", "hand", "placed"] with
    | [a, b, c, d] => return ⟨← decode? a, ← decode? b, ← decode? c, ← decode? d⟩
    | _ => none

instance : JsonForm Pools where
  encode p := .record ["pools"] [encode p.toList]
  decode? j := do
    match ← j.membersOf? ["pools"] with
    | [.list [a, b, c, d]] => return ⟨← decode? a, ← decode? b, ← decode? c, ← decode? d⟩
    | _ => none

end JsonForm

end CramSchool
