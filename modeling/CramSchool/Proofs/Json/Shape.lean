/-
  Shapes of JSON forms, and forms that say the same.

  The shape of a type says where records stand in its forms and what their fields are. A form
  conforms to a shape (`Conforms`) if every record in it has just these fields, in this order.

  Two forms are alike (`Alike`) if one can be changed into the other step by step: the fields of a
  record are put in another order, a field of another name is put in or taken out, or an option
  that is not there is left out or written as `null`. Any of this may happen at any depth.

  Such changes are not seen in reading. A reader looks up the fields of a record by name, and finds
  forms that are alike (`Alike.bind_membersOf?`, `Alike.bind_fieldsOf?`); so do readers of variants,
  lists and options.
-/
import CramSchool.Json.Basic
import Mathlib.Data.List.Forall2

namespace CramSchool.Json

/-! ## Shapes -/

/-- Where the records of a form are, and what fields they have. -/
inductive Shape where
  /-- A number, a text or the name of a variant without fields. -/
  | plain
  | option (content : Shape)
  /-- A list, of any or of fixed length. -/
  | list (item : Shape)
  | record (fields : List (String × Shape))
  /-- One of some variants, each with its fields. -/
  | variants (cases : List (String × List (String × Shape)))

mutual

/-- The form has the shape, and the fields of its records are just those of the shape. -/
inductive Conforms : Shape → Json → Prop
  | int (n : Int) : Conforms .plain (.int n)
  | text (value : String) : Conforms .plain (.text value)
  | none {s : Shape} : Conforms (.option s) .null
  | some {s : Shape} {j : Json} (h : Conforms s j) : Conforms (.option s) j
  | list {s : Shape} {items : List Json} (h : ∀ j ∈ items, Conforms s j) :
      Conforms (.list s) (.list items)
  | record {fields : List (String × Shape)} {members : List (String × Json)}
      (h : MembersConform fields members) : Conforms (.record fields) (.object members)
  | variant {cases : List (String × List (String × Shape))} {name : String}
      {fields : List (String × Shape)} {content : Json} (h : (name, fields) ∈ cases)
      (hcontent : Conforms (.record fields) content) :
      Conforms (.variants cases) (.object [(name, content)])

inductive MembersConform : List (String × Shape) → List (String × Json) → Prop
  | nil : MembersConform [] []
  | cons {name : String} {s : Shape} {fields : List (String × Shape)} {j : Json}
      {members : List (String × Json)} (h : Conforms s j) (hrest : MembersConform fields members) :
      MembersConform ((name, s) :: fields) ((name, j) :: members)

end

/-! ## Forms that say the same -/

/-- For a reader that expects the shape, the two forms say the same. -/
inductive Alike : Shape → Json → Json → Prop
  | refl (s : Shape) (j : Json) : Alike s j j
  | symm {s : Shape} {j j' : Json} (h : Alike s j j') : Alike s j' j
  | trans {s : Shape} {i j k : Json} (h : Alike s i j) (h' : Alike s j k) : Alike s i k
  /-- Fields in another order. -/
  | order {fields : List (String × Shape)} {members members' : List (String × Json)}
      (hperm : members.Perm members') (hnodup : (members.map Prod.fst).Nodup) :
      Alike (.record fields) (.object members) (.object members')
  /-- A field of another name. -/
  | extra {fields : List (String × Shape)} {name : String} {j : Json}
      {before after : List (String × Json)} (h : name ∉ fields.map Prod.fst) :
      Alike (.record fields) (.object (before ++ after)) (.object (before ++ (name, j) :: after))
  /-- A field that is `null` or not there. -/
  | absent {fields : List (String × Shape)} {name : String} {members : List (String × Json)}
      (h : name ∉ members.map Prod.fst) :
      Alike (.record fields) (.object members) (.object ((name, .null) :: members))
  /-- A field with another content. -/
  | field {fields : List (String × Shape)} {name : String} {j j' : Json}
      {before after : List (String × Json)} (h : ∀ s, (name, s) ∈ fields → Alike s j j') :
      Alike (.record fields) (.object (before ++ (name, j) :: after))
        (.object (before ++ (name, j') :: after))
  /-- A field with another content, where the record is given as the list of its fields. -/
  | position {fields : List (String × Shape)} {items : List Json} {i : Nat} {j' : Json}
      (h : ∀ name s j, fields[i]? = some (name, s) → items[i]? = some j → Alike s j j') :
      Alike (.record fields) (.list items) (.list (items.set i j'))
  | item {s : Shape} {items : List Json} {i : Nat} {j' : Json}
      (h : ∀ j, items[i]? = some j → Alike s j j') :
      Alike (.list s) (.list items) (.list (items.set i j'))
  | option {s : Shape} {j j' : Json} (h : Alike s j j') : Alike (.option s) j j'
  | variant {cases : List (String × List (String × Shape))} {name : String} {content content' : Json}
      (h : ∀ fields, (name, fields) ∈ cases → Alike (.record fields) content content') :
      Alike (.variants cases) (.object [(name, content)]) (.object [(name, content')])

/-! ## Fields by name -/

theorem mem_of_lookup {members : List (String × Json)} {name : String} {j : Json}
    (h : members.lookup name = some j) : (name, j) ∈ members := by
  obtain ⟨before, after, rfl, _⟩ := List.lookup_eq_some_iff.mp h
  exact List.mem_append_right _ List.mem_cons_self

/-- If no name is there twice, a field is found wherever it stands. -/
theorem lookup_eq_some_iff_mem {members : List (String × Json)}
    (hnodup : (members.map Prod.fst).Nodup) {name : String} {j : Json} :
    members.lookup name = some j ↔ (name, j) ∈ members := by
  refine ⟨mem_of_lookup, fun h => ?_⟩
  obtain ⟨before, after, rfl⟩ := List.append_of_mem h
  refine List.lookup_eq_some_iff.mpr ⟨before, after, rfl, fun p hp => ?_⟩
  rw [List.map_append, List.map_cons] at hnodup
  have hne := (List.nodup_append.mp hnodup).2.2 p.1 (List.mem_map_of_mem hp) name List.mem_cons_self
  exact bne_iff_ne.mpr hne.symm

theorem field_of_perm {members members' : List (String × Json)} (h : members.Perm members')
    (hnodup : (members.map Prod.fst).Nodup) (name : String) :
    field members name = field members' name := by
  have hnodup' := (h.map Prod.fst).nodup hnodup
  unfold field
  congr 1
  refine Option.ext fun j => ?_
  rw [lookup_eq_some_iff_mem hnodup, lookup_eq_some_iff_mem hnodup', h.mem_iff]

theorem field_cons_of_ne {members : List (String × Json)} {name other : String} {j : Json}
    (h : other ≠ name) : field ((name, j) :: members) other = field members other := by
  unfold field
  rw [List.lookup_cons, beq_eq_false_iff_ne.mpr h]

theorem field_insert_of_ne {before after : List (String × Json)} {name other : String} {j : Json}
    (h : other ≠ name) :
    field (before ++ (name, j) :: after) other = field (before ++ after) other := by
  unfold field
  rw [List.lookup_append, List.lookup_append, List.lookup_cons, beq_eq_false_iff_ne.mpr h]

/-- A field that is not there counts as `null`. -/
theorem field_null_cons {members : List (String × Json)} {name : String}
    (h : name ∉ members.map Prod.fst) (other : String) :
    field members other = field ((name, .null) :: members) other := by
  by_cases hname : other = name
  · subst hname
    have hnone : members.lookup other = none := by
      refine List.lookup_eq_none_iff.mpr fun p hp => bne_iff_ne.mpr fun he => h ?_
      rw [he]
      exact List.mem_map_of_mem hp
    unfold field
    rw [hnone, List.lookup_cons_self]
    rfl
  · exact (field_cons_of_ne hname).symm

/-- The fields of a record are read from it in order. -/
theorem map_field_zip {names : List String} (hnodup : names.Nodup) {values : List Json}
    (hlength : values.length = names.length) :
    names.map (field (names.zip values)) = values := by
  induction names generalizing values with
  | nil => exact (List.eq_nil_of_length_eq_zero hlength).symm
  | cons name names ih =>
      obtain ⟨value, values, rfl⟩ := List.exists_cons_of_length_eq_add_one hlength
      obtain ⟨hname, hnodup⟩ := List.nodup_cons.mp hnodup
      have hrest := ih hnodup (Nat.succ.inj hlength)
      have hothers : names.map (field ((name, value) :: names.zip values)) =
          names.map (field (names.zip values)) :=
        List.map_congr_left fun other hother =>
          field_cons_of_ne fun he => hname (he ▸ hother)
      rw [List.zip_cons_cons, List.map_cons, hothers, hrest]
      simp [field]

theorem bind_membersOf?_record {α : Type} {names : List String} (hnodup : names.Nodup)
    {values : List Json} (hlength : values.length = names.length)
    (read : List Json → Option α) :
    ((record names values).membersOf? names).bind read = read values :=
  congrArg read (map_field_zip hnodup hlength)

theorem bind_fieldsOf?_record {α : Type} {names : List String} (hnodup : names.Nodup)
    {values : List Json} (hlength : values.length = names.length)
    (read : List Json → Option α) :
    ((record names values).fieldsOf? names).bind read = read values :=
  congrArg read (map_field_zip hnodup hlength)

/-! ## What readers find -/

/-- Contents of the fields, alike one by one. -/
inductive MembersAlike : List (String × Shape) → List Json → List Json → Prop
  | nil : MembersAlike [] [] []
  | cons {name : String} {s : Shape} {fields : List (String × Shape)} {j j' : Json}
      {values values' : List Json} (h : Alike s j j') (hrest : MembersAlike fields values values') :
      MembersAlike ((name, s) :: fields) (j :: values) (j' :: values')

theorem membersAlike_map {fields : List (String × Shape)} {f g : String → Json}
    (h : ∀ name s, (name, s) ∈ fields → Alike s (f name) (g name)) :
    MembersAlike fields ((fields.map Prod.fst).map f) ((fields.map Prod.fst).map g) := by
  induction fields with
  | nil => exact .nil
  | cons x fields ih =>
      exact .cons (h _ _ List.mem_cons_self) (ih fun name s hs => h name s (List.mem_cons_of_mem x hs))

/-- Lists of one length in which the items at a position are alike, in every shape that the position
    has. -/
structure ItemsAlike (HasShape : Nat → Shape → Prop) (items items' : List Json) : Prop where
  length_eq : items.length = items'.length
  alike : ∀ (i : Nat) (s : Shape) (j j' : Json), HasShape i s → items[i]? = some j →
    items'[i]? = some j' → Alike s j j'

section Items

variable {HasShape : Nat → Shape → Prop} {items items' items'' : List Json}

theorem ItemsAlike.symm (h : ItemsAlike HasShape items items') : ItemsAlike HasShape items' items :=
  ⟨h.length_eq.symm, fun i s j j' hs hj hj' => (h.alike i s j' j hs hj' hj).symm⟩

theorem ItemsAlike.trans (h : ItemsAlike HasShape items items')
    (h' : ItemsAlike HasShape items' items'') : ItemsAlike HasShape items items'' := by
  refine ⟨h.length_eq.trans h'.length_eq, fun i s j k hs hj hk => ?_⟩
  obtain ⟨hi, _⟩ := List.getElem?_eq_some_iff.mp hj
  have hi' : i < items'.length := h.length_eq ▸ hi
  have hmiddle : items'[i]? = some items'[i] := List.getElem?_eq_getElem hi'
  exact (h.alike i s _ _ hs hj hmiddle).trans (h'.alike i s _ _ hs hmiddle hk)

theorem itemsAlike_set {i : Nat} {j' : Json}
    (h : ∀ s j, HasShape i s → items[i]? = some j → Alike s j j') :
    ItemsAlike HasShape items (items.set i j') := by
  refine ⟨List.length_set.symm, fun n s k k' hs hk hk' => ?_⟩
  by_cases hn : i = n
  · subst hn
    obtain ⟨hi, _⟩ := List.getElem?_eq_some_iff.mp hk
    rw [List.getElem?_set_self hi] at hk'
    exact Option.some.inj hk' ▸ h s k hs hk
  · rw [List.getElem?_set_ne hn, hk] at hk'
    exact Option.some.inj hk' ▸ .refl _ _

theorem ItemsAlike.tail {j j' : Json} (h : ItemsAlike HasShape (j :: items) (j' :: items')) :
    ItemsAlike (fun i => HasShape (i + 1)) items items' :=
  ⟨Nat.succ.inj h.length_eq, fun i s k k' => h.alike (i + 1) s k k'⟩

end Items

/-- The shapes of the fields of a record that is given as a list. -/
def shapeAt (fields : List (String × Shape)) (i : Nat) (s : Shape) : Prop :=
  ∃ name, fields[i]? = some (name, s)

theorem ItemsAlike.members {fields : List (String × Shape)} {items items' : List Json}
    (h : ItemsAlike (shapeAt fields) items items') (hlength : items.length = fields.length) :
    MembersAlike fields items items' := by
  induction fields generalizing items items' with
  | nil =>
      obtain rfl := List.eq_nil_of_length_eq_zero hlength
      obtain rfl := List.eq_nil_of_length_eq_zero h.length_eq.symm
      exact .nil
  | cons x fields ih =>
      obtain ⟨j, items, rfl⟩ := List.exists_cons_of_length_eq_add_one hlength
      obtain ⟨j', items', rfl⟩ := List.exists_cons_of_length_eq_add_one h.length_eq.symm
      exact .cons (h.alike 0 _ _ _ ⟨_, rfl⟩ rfl rfl) (ih h.tail (Nat.succ.inj hlength))

theorem ItemsAlike.forall₂ {s : Shape} {items items' : List Json}
    (h : ItemsAlike (fun _ t => t = s) items items') : List.Forall₂ (Alike s) items items' := by
  induction items generalizing items' with
  | nil =>
      obtain rfl := List.eq_nil_of_length_eq_zero h.length_eq.symm
      exact .nil
  | cons j items ih =>
      obtain ⟨j', items', rfl⟩ := List.exists_cons_of_length_eq_add_one h.length_eq.symm
      exact .cons (h.alike 0 _ _ _ rfl rfl rfl) (ih h.tail)

/-- Two records in which the fields are alike, each given by name or each as a list. -/
inductive RecordsAlike (fields : List (String × Shape)) : Json → Json → Prop
  | same (j : Json) : RecordsAlike fields j j
  | objects {members members' : List (String × Json)}
      (h : ∀ name s, (name, s) ∈ fields → Alike s (field members name) (field members' name)) :
      RecordsAlike fields (.object members) (.object members')
  | lists {items items' : List Json} (h : ItemsAlike (shapeAt fields) items items') :
      RecordsAlike fields (.list items) (.list items')

theorem RecordsAlike.symm {fields : List (String × Shape)} {j j' : Json}
    (h : RecordsAlike fields j j') : RecordsAlike fields j' j := by
  cases h with
  | same => exact .same j
  | objects h => exact .objects fun name s hs => (h name s hs).symm
  | lists h => exact .lists h.symm

theorem RecordsAlike.trans {fields : List (String × Shape)} {i j k : Json}
    (h : RecordsAlike fields i j) (h' : RecordsAlike fields j k) : RecordsAlike fields i k := by
  cases h with
  | same => exact h'
  | objects h =>
      cases h' with
      | same => exact .objects h
      | objects h' => exact .objects fun name s hs => (h name s hs).trans (h' name s hs)
  | lists h =>
      cases h' with
      | same => exact .lists h
      | lists h' => exact .lists (h.trans h')

/-- In records that are alike the fields are alike, whatever changes led from one to the other. -/
theorem Alike.records {fields : List (String × Shape)} {j j' : Json}
    (h : Alike (.record fields) j j') : RecordsAlike fields j j' := by
  generalize hs : Shape.record fields = s at h
  induction h with
  | refl _ j => exact .same j
  | symm _ ih => exact (ih hs).symm
  | trans _ _ ih ih' => exact (ih hs).trans (ih' hs)
  | order hperm hnodup =>
      refine .objects fun name s _ => ?_
      rw [field_of_perm hperm hnodup]
      exact .refl _ _
  | extra hname =>
      obtain rfl := Shape.record.inj hs
      refine .objects fun other s hmem => ?_
      have hother : other ∈ fields.map Prod.fst := List.mem_map_of_mem hmem
      rw [field_insert_of_ne fun he => hname (he.subst hother)]
      exact .refl _ _
  | absent hname =>
      refine .objects fun name s _ => ?_
      rw [field_null_cons hname]
      exact .refl _ _
  | @field _ name j j' before after h _ =>
      obtain rfl := Shape.record.inj hs
      refine .objects fun other s hmem => ?_
      by_cases hother : other = name
      · -- The content in question is that of the first field of the name.
        subst hother
        unfold Json.field
        rw [List.lookup_append, List.lookup_append, List.lookup_cons_self, List.lookup_cons_self]
        rcases before.lookup other with _ | k
        · exact h s hmem
        · exact .refl _ _
      · rw [field_insert_of_ne hother, field_insert_of_ne hother]
        exact .refl _ _
  | position h _ =>
      obtain rfl := Shape.record.inj hs
      exact .lists (itemsAlike_set fun s j ⟨name, hname⟩ => h name s j hname)
  | item => cases hs
  | option => cases hs
  | variant => cases hs

section Readers

variable {α : Type} {j j' : Json}

/-- A record, given by name or as a list, is read the same from forms that are alike. -/
theorem Alike.bind_membersOf? {fields : List (String × Shape)} (h : Alike (.record fields) j j')
    {read : List Json → Option α}
    (hread : ∀ values values', MembersAlike fields values values' → read values = read values') :
    (j.membersOf? (fields.map Prod.fst)).bind read =
      (j'.membersOf? (fields.map Prod.fst)).bind read := by
  cases h.records with
  | same => rfl
  | objects hfields => exact hread _ _ (membersAlike_map hfields)
  | lists hitems =>
      unfold membersOf?
      dsimp only
      rw [← hitems.length_eq, List.length_map]
      split
      · next hlength => exact hread _ _ (hitems.members hlength)
      · rfl

/-- So are the fields of a variant, which are given by name. -/
theorem Alike.bind_fieldsOf? {fields : List (String × Shape)} (h : Alike (.record fields) j j')
    {read : List Json → Option α}
    (hread : ∀ values values', MembersAlike fields values values' → read values = read values') :
    (j.fieldsOf? (fields.map Prod.fst)).bind read =
      (j'.fieldsOf? (fields.map Prod.fst)).bind read := by
  cases h.records with
  | same => rfl
  | objects hfields => exact hread _ _ (membersAlike_map hfields)
  | lists => rfl

theorem Alike.eq_of_plain (h : Alike .plain j j') : j = j' := by
  generalize hs : Shape.plain = s at h
  induction h with
  | refl => rfl
  | symm _ ih => exact (ih hs).symm
  | trans _ _ ih ih' => exact (ih hs).trans (ih' hs)
  | _ => cases hs

theorem Alike.eq_null_iff {s : Shape} (h : Alike s j j') : j = .null ↔ j' = .null := by
  induction h with
  | refl => exact Iff.rfl
  | symm _ ih => exact ih.symm
  | trans _ _ ih ih' => exact ih.trans ih'
  | option _ ih => exact ih
  | _ => exact iff_of_false (fun h => nomatch h) fun h => nomatch h

theorem Alike.of_option {s : Shape} (h : Alike (.option s) j j') : Alike s j j' := by
  generalize hs : Shape.option s = t at h
  induction h with
  | refl => exact .refl _ _
  | symm _ ih => exact (ih hs).symm
  | trans _ _ ih ih' => exact (ih hs).trans (ih' hs)
  | option h _ => exact Shape.option.inj hs ▸ h
  | _ => cases hs

/-- In lists that are alike the items are alike. -/
theorem Alike.items {s : Shape} (h : Alike (.list s) j j') :
    j = j' ∨ ∃ items items', j = .list items ∧ j' = .list items' ∧
      ItemsAlike (fun _ t => t = s) items items' := by
  generalize hs : Shape.list s = t at h
  induction h with
  | refl => exact .inl rfl
  | symm _ ih =>
      obtain rfl | ⟨items, items', rfl, rfl, hitems⟩ := ih hs
      · exact .inl rfl
      · exact .inr ⟨items', items, rfl, rfl, hitems.symm⟩
  | trans _ _ ih ih' =>
      obtain rfl | ⟨items, items', rfl, rfl, hitems⟩ := ih hs
      · exact ih' hs
      · obtain rfl | ⟨_, items'', heq, rfl, hitems'⟩ := ih' hs
        · exact .inr ⟨items, items', rfl, rfl, hitems⟩
        · obtain rfl := Json.list.inj heq
          exact .inr ⟨items, items'', rfl, rfl, hitems.trans hitems'⟩
  | item h _ =>
      obtain rfl := Shape.list.inj hs
      refine .inr ⟨_, _, rfl, rfl, itemsAlike_set fun s j hs => ?_⟩
      subst hs
      exact h j
  | _ => cases hs

/-- The content of a variant is read from forms that are alike. -/
theorem Alike.bind_variant? {cases : List (String × List (String × Shape))}
    (h : Alike (.variants cases) j j') {read : String × Json → Option α}
    (hread : ∀ name content content',
      (∀ fields, (name, fields) ∈ cases → Alike (.record fields) content content') →
        read (name, content) = read (name, content')) :
    j.variant?.bind read = j'.variant?.bind read := by
  generalize hs : Shape.variants cases = s at h
  induction h with
  | refl => rfl
  | symm _ ih => exact (ih hs).symm
  | trans _ _ ih ih' => exact (ih hs).trans (ih' hs)
  | variant h _ => exact hread _ _ _ (Shape.variants.inj hs ▸ h)
  | _ => cases hs

end Readers

end CramSchool.Json
