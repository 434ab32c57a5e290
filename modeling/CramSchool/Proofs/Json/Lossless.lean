/-
  The JSON form loses nothing.

  `Lossless` says of a type that its forms have a shape, that every value is read back from its
  form, and that forms that are alike in this shape are read as the same value. It passes from
  types to options, lists and records of them, so it holds of all that is stored.

  Main result: `persisted_types_lossless`.
-/
import CramSchool.Binary.Records
import CramSchool.Json.Records
import CramSchool.Proofs.Json.Shape

namespace CramSchool

open Json

namespace JsonForm

/-- A type whose JSON form loses nothing. -/
class Lossless (α : Type) [JsonForm α] where
  shape : Shape
  conforms : ∀ a : α, Conforms shape (encode a)
  decode?_encode : ∀ a : α, decode? (encode a) = some a
  decode?_eq : ∀ {j j' : Json}, Alike shape j j' → (decode? j : Option α) = decode? j'

export Lossless (shape conforms decode?_encode decode?_eq)

/-- A type whose values are not written as `null`, so that an option can be. -/
class Present (α : Type) [JsonForm α] : Prop where
  encode_ne_null : ∀ a : α, encode a ≠ .null

/-! ## Plain values -/

instance : Lossless String where
  shape := .plain
  conforms := .text
  decode?_encode _ := rfl
  decode?_eq h := by rw [h.eq_of_plain]

instance : Lossless Points where
  shape := .plain
  conforms v := .int v.val
  decode?_encode := Points.ofInt?_val
  decode?_eq h := by rw [h.eq_of_plain]

instance : Lossless UInt8 where
  shape := .plain
  conforms n := .int n.toNat
  decode?_encode n := by
    have hlt := n.toNat_lt
    have hrange : (0 : Int) ≤ n.toNat ∧ (n.toNat : Int) < 256 := by omega
    show (if _ then _ else _) = _
    rw [if_pos hrange, Int.toNat_natCast, UInt8.ofNat_toNat]
  decode?_eq h := by rw [h.eq_of_plain]

instance : Lossless UInt64 where
  shape := .plain
  conforms n := .int n.toNat
  decode?_encode n := by
    have hlt := n.toNat_lt
    have hrange : (0 : Int) ≤ n.toNat ∧ (n.toNat : Int) < 18446744073709551616 := by omega
    show (if _ then _ else _) = _
    rw [if_pos hrange, Int.toNat_natCast, UInt64.ofNat_toNat]
  decode?_eq h := by rw [h.eq_of_plain]

/-- A kind in which each variant is found by its name. -/
abbrev Lossless.ofEnumerated {α : Type} [DecidableEq α] [Enumerated α]
    (h : ∀ a : α, Enumerated.ofName? (Enumerated.name a) = some a) :
    @Lossless α (JsonForm.ofEnumerated α) :=
  letI := JsonForm.ofEnumerated α
  { shape := .plain
    conforms := fun a => .text (Enumerated.name a)
    decode?_encode := h
    decode?_eq := fun h => by rw [h.eq_of_plain] }

instance : Lossless Stat := .ofEnumerated fun k => by cases k <;> rfl
instance : Lossless Role := .ofEnumerated fun k => by cases k <;> rfl
instance : Lossless Rarity := .ofEnumerated fun k => by cases k <;> rfl
instance : Lossless Category := .ofEnumerated fun k => by cases k <;> rfl
instance : Lossless Comparator := .ofEnumerated fun k => by cases k <;> rfl

/-! ## Options and lists -/

section

variable {α : Type} [JsonForm α]

theorem decode?_option_of_ne_null {j : Json} (h : j ≠ .null) :
    (decode? j : Option (Option α)) = (decode? j).map some := by
  cases j with
  | null => exact absurd rfl h
  | _ => rfl

instance [Lossless α] [Present α] : Lossless (Option α) where
  shape := .option (shape α)
  conforms
    | none => .none
    | some a => .some (conforms a)
  decode?_encode
    | none => rfl
    | some a => by
        show decode? (encode a) = _
        rw [decode?_option_of_ne_null (Present.encode_ne_null a), decode?_encode]
        rfl
  decode?_eq {j j'} h := by
    by_cases hj : j = .null
    · rw [hj, h.eq_null_iff.mp hj]
    · have hj' : j' ≠ .null := fun he => hj (h.eq_null_iff.mpr he)
      rw [decode?_option_of_ne_null hj, decode?_option_of_ne_null hj', decode?_eq h.of_option]

theorem mapM_decode?_encode [Lossless α] (xs : List α) :
    (xs.map encode).mapM decode? = some xs := by
  induction xs with
  | nil => rfl
  | cons a xs ih =>
      rw [List.map_cons, List.mapM_cons, decode?_encode, ih]
      rfl

theorem mapM_decode?_eq [Lossless α] {items items' : List Json}
    (h : List.Forall₂ (Alike (shape α)) items items') :
    items.mapM (decode? : Json → Option α) = items'.mapM decode? := by
  induction h with
  | nil => rfl
  | cons h _ ih => rw [List.mapM_cons, List.mapM_cons, decode?_eq h, ih]

instance [Lossless α] : Lossless (List α) where
  shape := .list (shape α)
  conforms xs := .list (List.forall_mem_map.mpr fun a _ => conforms a)
  decode?_encode := mapM_decode?_encode
  decode?_eq h := by
    obtain rfl | ⟨items, items', rfl, rfl, hitems⟩ := h.items
    · rfl
    · exact mapM_decode?_eq hitems.forall₂

end

/-! ## Records -/

instance : Lossless Stats where
  shape := .record [("values", .list (shape Points))]
  conforms s := .record (.cons (.list (List.forall_mem_map.mpr fun v _ => conforms v)) .nil)
  decode?_encode s := by
    refine (bind_membersOf?_record (by decide) rfl _).trans ?_
    show (do
      return Stats.mk (← decode? (encode s.experience)) (← decode? (encode s.enrollment))
        (← decode? (encode s.satisfaction)) (← decode? (encode s.accounting))) = some s
    simp only [decode?_encode]
    rfl
  decode?_eq h := by
    refine h.bind_membersOf? fun values values' hvalues => ?_
    rcases hvalues with _ | ⟨hlist, _ | _⟩
    obtain rfl | ⟨items, items', rfl, rfl, hitems⟩ := hlist.items
    · rfl
    · rcases hitems.forall₂ with _ | ⟨ha, _ | ⟨hb, _ | ⟨hc, _ | ⟨hd, _ | ⟨_, _⟩⟩⟩⟩⟩
      case cons.cons.cons.cons.nil =>
        simp only [decode?_eq ha, decode?_eq hb, decode?_eq hc, decode?_eq hd]
      all_goals rfl

instance : Lossless Change where
  shape := .record [("stat", shape Stat), ("before", shape Points), ("after", shape Points)]
  conforms c := .record (.cons (conforms c.stat) (.cons (conforms c.before)
    (.cons (conforms c.after) .nil)))
  decode?_encode c := by
    refine (bind_membersOf?_record (by decide) rfl _).trans ?_
    simp only [decode?_encode]
    rfl
  decode?_eq h := by
    refine h.bind_membersOf? fun values values' hvalues => ?_
    rcases hvalues with _ | ⟨ha, _ | ⟨hb, _ | ⟨hc, _ | _⟩⟩⟩
    simp only [decode?_eq ha, decode?_eq hb, decode?_eq hc]

instance : Present UInt8 := ⟨fun _ h => nomatch h⟩

instance : Lossless Card where
  shape := .record [("category", shape Category), ("rarity", shape Rarity), ("name", shape String),
    ("top_effect", shape String), ("effect", shape String), ("acquired_turn", shape (Option UInt8))]
  conforms c := .record (.cons (conforms c.category) (.cons (conforms c.rarity)
    (.cons (conforms c.name) (.cons (conforms c.topEffect) (.cons (conforms c.effect)
      (.cons (conforms c.acquiredTurn) .nil))))))
  decode?_encode c := by
    refine (bind_membersOf?_record (by decide) rfl _).trans ?_
    simp only [decode?_encode]
    rfl
  decode?_eq h := by
    refine h.bind_membersOf? fun values values' hvalues => ?_
    rcases hvalues with
      _ | ⟨ha, _ | ⟨hb, _ | ⟨hc, _ | ⟨hd, _ | ⟨he, _ | ⟨hf, _ | _⟩⟩⟩⟩⟩⟩
    simp only [decode?_eq ha, decode?_eq hb, decode?_eq hc, decode?_eq hd, decode?_eq he,
      decode?_eq hf]

instance : Present Card := ⟨fun _ h => nomatch h⟩

/-! ## Kinds whose variants have fields -/

theorem decode?_setTo (content : Json) : decode? (.object [("SetTo", content)]) =
    (content.fieldsOf? ["stat", "value"]).bind fun values =>
      match values with
      | [a, b] => do return Delta.setTo (← decode? a) (← decode? b)
      | _ => none := rfl

theorem decode?_changeBy (content : Json) : decode? (.object [("ChangeBy", content)]) =
    (content.fieldsOf? ["stat", "delta"]).bind fun values =>
      match values with
      | [a, b] => do return Delta.changeBy (← decode? a) (← decode? b)
      | _ => none := rfl

instance : Lossless Delta where
  shape := .variants [("SetTo", [("stat", shape Stat), ("value", shape Points)]),
    ("ChangeBy", [("stat", shape Stat), ("delta", shape Points)])]
  conforms
    | .setTo stat value => .variant (.head _)
        (.record (.cons (conforms stat) (.cons (conforms value) .nil)))
    | .changeBy stat amount => .variant (.tail _ (.head _))
        (.record (.cons (conforms stat) (.cons (conforms amount) .nil)))
  decode?_encode
    | .setTo stat value => by
        refine (decode?_setTo _).trans ((bind_fieldsOf?_record (by decide) rfl _).trans ?_)
        simp only [decode?_encode]
        rfl
    | .changeBy stat amount => by
        refine (decode?_changeBy _).trans ((bind_fieldsOf?_record (by decide) rfl _).trans ?_)
        simp only [decode?_encode]
        rfl
  decode?_eq h := by
    refine h.bind_variant? fun name content content' hcontent => ?_
    by_cases hset : name = "SetTo"
    · subst hset
      refine (hcontent _ (.head _)).bind_fieldsOf? fun values values' hvalues => ?_
      rcases hvalues with _ | ⟨ha, _ | ⟨hb, _ | _⟩⟩
      simp only [decode?_eq ha, decode?_eq hb]
    · by_cases hchange : name = "ChangeBy"
      · subst hchange
        refine (hcontent _ (.tail _ (.head _))).bind_fieldsOf? fun values values' hvalues => ?_
        rcases hvalues with _ | ⟨ha, _ | ⟨hb, _ | _⟩⟩
        simp only [decode?_eq ha, decode?_eq hb]
      · simp [hset, hchange]

theorem decode?_role (content : Json) : decode? (.object [("Role", content)]) =
    (content.fieldsOf? ["roles"]).bind fun values =>
      match values with
      | [a] => do return Condition.role (← decode? a)
      | _ => none := rfl

theorem decode?_stat (content : Json) : decode? (.object [("Stat", content)]) =
    (content.fieldsOf? ["stat", "threshold", "comparator"]).bind fun values =>
      match values with
      | [a, b, c] => do return Condition.stat (← decode? a) (← decode? b) (← decode? c)
      | _ => none := rfl

theorem decode?_unknown (content : Json) : decode? (.object [("Unknown", content)]) =
    (content.fieldsOf? ["raw"]).bind fun values =>
      match values with
      | [a] => do return Condition.unknown (← decode? a)
      | _ => none := rfl

instance : Lossless Condition where
  shape := .variants [("Role", [("roles", shape (List Role))]),
    ("Stat", [("stat", shape Stat), ("threshold", shape Points), ("comparator", shape Comparator)]),
    ("Unknown", [("raw", shape String)])]
  conforms
    | .role roles => .variant (.head _) (.record (.cons (conforms roles) .nil))
    | .stat k threshold comparator => .variant (.tail _ (.head _)) (.record (.cons (conforms k)
        (.cons (conforms threshold) (.cons (conforms comparator) .nil))))
    | .unknown raw => .variant (.tail _ (.tail _ (.head _))) (.record (.cons (conforms raw) .nil))
  decode?_encode
    | .role roles => by
        refine (decode?_role _).trans ((bind_fieldsOf?_record (by decide) rfl _).trans ?_)
        simp only [decode?_encode]
        rfl
    | .stat k threshold comparator => by
        refine (decode?_stat _).trans ((bind_fieldsOf?_record (by decide) rfl _).trans ?_)
        simp only [decode?_encode]
        rfl
    | .unknown raw => by
        refine (decode?_unknown _).trans ((bind_fieldsOf?_record (by decide) rfl _).trans ?_)
        simp only [decode?_encode]
        rfl
  decode?_eq h := by
    refine h.bind_variant? fun name content content' hcontent => ?_
    by_cases hrole : name = "Role"
    · subst hrole
      refine (hcontent _ (.head _)).bind_fieldsOf? fun values values' hvalues => ?_
      rcases hvalues with _ | ⟨ha, _ | _⟩
      simp only [decode?_eq ha]
    · by_cases hstat : name = "Stat"
      · subst hstat
        refine (hcontent _ (.tail _ (.head _))).bind_fieldsOf? fun values values' hvalues => ?_
        rcases hvalues with _ | ⟨ha, _ | ⟨hb, _ | ⟨hc, _ | _⟩⟩⟩
        simp only [decode?_eq ha, decode?_eq hb, decode?_eq hc]
      · by_cases hunknown : name = "Unknown"
        · subst hunknown
          refine (hcontent _ (.tail _ (.tail _ (.head _)))).bind_fieldsOf?
            fun values values' hvalues => ?_
          rcases hvalues with _ | ⟨ha, _ | _⟩
          simp only [decode?_eq ha]
        · simp [hrole, hstat, hunknown]

/-! ## Effects, settings, players and pools -/

instance : Lossless Block where
  shape := .record [("condition", shape Condition), ("effects", shape (List Delta))]
  conforms b := .record (.cons (conforms b.condition) (.cons (conforms b.deltas) .nil))
  decode?_encode b := by
    refine (bind_membersOf?_record (by decide) rfl _).trans ?_
    simp only [decode?_encode]
    rfl
  decode?_eq h := by
    refine h.bind_membersOf? fun values values' hvalues => ?_
    rcases hvalues with _ | ⟨ha, _ | ⟨hb, _ | _⟩⟩
    simp only [decode?_eq ha, decode?_eq hb]

instance : Lossless Effect where
  shape := .record [("role_restrictions", shape (List Role)), ("base_effects", shape (List Delta)),
    ("conditional_blocks", shape (List Block))]
  conforms e := .record (.cons (conforms e.restrictions) (.cons (conforms e.base)
    (.cons (conforms e.blocks) .nil)))
  decode?_encode e := by
    refine (bind_membersOf?_record (by decide) rfl _).trans ?_
    simp only [decode?_encode]
    rfl
  decode?_eq h := by
    refine h.bind_membersOf? fun values values' hvalues => ?_
    rcases hvalues with _ | ⟨ha, _ | ⟨hb, _ | ⟨hc, _ | _⟩⟩⟩
    simp only [decode?_eq ha, decode?_eq hb, decode?_eq hc]

instance : Lossless ForcedDraws where
  shape := .record [("training", shape (List String)), ("hand", shape (List String))]
  conforms f := .record (.cons (conforms f.training) (.cons (conforms f.hand) .nil))
  decode?_encode f := by
    refine (bind_membersOf?_record (by decide) rfl _).trans ?_
    simp only [decode?_encode]
    rfl
  decode?_eq h := by
    refine h.bind_membersOf? fun values values' hvalues => ?_
    rcases hvalues with _ | ⟨ha, _ | ⟨hb, _ | _⟩⟩
    simp only [decode?_eq ha, decode?_eq hb]

instance : Lossless Config where
  shape := .record [("seed", shape UInt64), ("opening_offer", shape UInt64),
    ("opening_picks", shape UInt64), ("training_offer", shape UInt64),
    ("training_picks", shape UInt64), ("hand_size", shape UInt64), ("forced", shape ForcedDraws)]
  conforms c := .record (.cons (conforms c.seed) (.cons (conforms c.openingOffer)
    (.cons (conforms c.openingPicks) (.cons (conforms c.trainingOffer)
      (.cons (conforms c.trainingPicks) (.cons (conforms c.handSize)
        (.cons (conforms c.forced) .nil)))))))
  decode?_encode c := by
    refine (bind_membersOf?_record (by decide) rfl _).trans ?_
    simp only [decode?_encode]
    rfl
  decode?_eq h := by
    refine h.bind_membersOf? fun values values' hvalues => ?_
    rcases hvalues with
      _ | ⟨ha, _ | ⟨hb, _ | ⟨hc, _ | ⟨hd, _ | ⟨he, _ | ⟨hf, _ | ⟨hg, _ | _⟩⟩⟩⟩⟩⟩⟩
    simp only [decode?_eq ha, decode?_eq hb, decode?_eq hc, decode?_eq hd, decode?_eq he,
      decode?_eq hf, decode?_eq hg]

instance {α : Type} [JsonForm α] [Lossless α] : Lossless (PerRole α) where
  shape := .record [("data", .list (shape α))]
  conforms p := by
    refine .record (.cons (.list ?_) .nil)
    simp only [List.forall_mem_cons]
    exact ⟨conforms p.leader, conforms p.teacher, conforms p.staff, List.forall_mem_nil _⟩
  decode?_encode p := by
    refine (bind_membersOf?_record (by decide) rfl _).trans ?_
    simp only [decode?_encode]
    rfl
  decode?_eq h := by
    refine h.bind_membersOf? fun values values' hvalues => ?_
    rcases hvalues with _ | ⟨hlist, _ | _⟩
    obtain rfl | ⟨items, items', rfl, rfl, hitems⟩ := hlist.items
    · rfl
    · rcases hitems.forall₂ with _ | ⟨ha, _ | ⟨hb, _ | ⟨hc, _ | ⟨_, _⟩⟩⟩⟩
      case cons.cons.cons.nil => simp only [decode?_eq ha, decode?_eq hb, decode?_eq hc]
      all_goals rfl

instance : Lossless Player where
  shape := .record [("stats", shape Stats), ("deck", shape (List Card)), ("hand", shape (List Card)),
    ("placed", shape (PerRole (Option Card)))]
  conforms p := .record (.cons (conforms p.stats) (.cons (conforms p.deck) (.cons (conforms p.hand)
    (.cons (conforms p.placed) .nil))))
  decode?_encode p := by
    refine (bind_membersOf?_record (by decide) rfl _).trans ?_
    simp only [decode?_encode]
    rfl
  decode?_eq h := by
    refine h.bind_membersOf? fun values values' hvalues => ?_
    rcases hvalues with _ | ⟨ha, _ | ⟨hb, _ | ⟨hc, _ | ⟨hd, _ | _⟩⟩⟩⟩
    simp only [decode?_eq ha, decode?_eq hb, decode?_eq hc, decode?_eq hd]

instance : Lossless Pools where
  shape := .record [("pools", .list (shape (List Card)))]
  conforms p := .record (.cons (.list (List.forall_mem_map.mpr fun pool _ => conforms pool)) .nil)
  decode?_encode p := by
    refine (bind_membersOf?_record (by decide) rfl _).trans ?_
    show (do
      return Pools.mk (← decode? (encode p.n)) (← decode? (encode p.r)) (← decode? (encode p.sr))
        (← decode? (encode p.ssr))) = some p
    simp only [decode?_encode]
    rfl
  decode?_eq h := by
    refine h.bind_membersOf? fun values values' hvalues => ?_
    rcases hvalues with _ | ⟨hlist, _ | _⟩
    obtain rfl | ⟨items, items', rfl, rfl, hitems⟩ := hlist.items
    · rfl
    · rcases hitems.forall₂ with _ | ⟨ha, _ | ⟨hb, _ | ⟨hc, _ | ⟨hd, _ | ⟨_, _⟩⟩⟩⟩⟩
      case cons.cons.cons.cons.nil =>
        simp only [decode?_eq ha, decode?_eq hb, decode?_eq hc, decode?_eq hd]
      all_goals rfl

/-! ## Stored types -/

/-- What is stored in JSON comes back. The form of a value has the fields of the shape and no others.
    Whatever form is like it, in another order, with fields of other names or with options left
    out, is read as the value, and the value read has the same binary form. Whether a form is read
    at all, and as what, does not change among forms that are alike. -/
structure Faithful (α : Type) [JsonForm α] [Binary α] [Lossless α] : Prop where
  conforms : ∀ a : α, Conforms (shape α) (encode a)
  roundTrips : ∀ a : α, decode? (encode a) = some a
  tolerant : ∀ j j' : Json, Alike (shape α) j j' → (decode? j : Option α) = decode? j'
  binary : ∀ (a : α) (j : Json), Alike (shape α) (encode a) j →
    (decode? j).map (Binary.write : α → Bytes) = some (Binary.write a)

theorem faithful (α : Type) [JsonForm α] [Binary α] [Lossless α] : Faithful α where
  conforms := conforms
  roundTrips := decode?_encode
  tolerant _ _ := decode?_eq
  binary a j h := by
    rw [← decode?_eq h, decode?_encode]
    rfl

/-- No type that is stored loses anything in JSON. -/
theorem persisted_types_lossless :
    Faithful Effect ∧ Faithful Condition ∧ Faithful Delta ∧ Faithful Stats ∧ Faithful Change ∧
      Faithful Card ∧ Faithful Config ∧ Faithful Player ∧ Faithful Pools :=
  ⟨faithful _, faithful _, faithful _, faithful _, faithful _, faithful _, faithful _, faithful _,
    faithful _⟩

/-- Fields in another order, and one of another name. -/
example :
    decode? (.object [("hand", .list []), ("note", .bool true), ("training", .list [.text "自習"])]) =
      some (ForcedDraws.mk ["自習"] []) := by decide

end JsonForm

end CramSchool
