/-
  What a pattern matches, said as a grammar.

  A grammar says of a piece of text which values it stands for, given the text behind it. It says
  nothing of how the piece is looked for. A pattern is exact for a grammar if it matches the
  pieces of the grammar and no others (`Exact`). Words, runs and sequences of exact patterns are
  exact (`exact_word`, `exact_run`, `Exact.bind`), so the grammar of a pattern is put together
  like the pattern.

  The places where an exact pattern matches are those where a piece of its grammar stands
  (`Exact.occurs_iff`). If no character of a piece but the first can be the first of a piece
  (`Headed`), no piece begins inside another (`Headed.stop_le`), and a search from the left finds
  them all (`Exact.mem_findAll_iff`).
-/
import CramSchool.Proofs.Text.Leftmost

namespace CramSchool.Text.Pattern

variable {α β : Type}

/-! ## Grammars -/

/-- Whether a piece stands for a value, with the given text behind it. -/
abbrev Grammar (α : Type) : Type := α → (w rest : List Char) → Prop

/-- A piece of the first grammar and a piece of the second one behind it. -/
def Grammar.seq (G : Grammar α) (H : α → Grammar β) : Grammar β := fun b w rest =>
  ∃ a u v, w = u ++ v ∧ G a u (v ++ rest) ∧ H a b v rest

/-- A piece of the grammar stands at the place of the match, for its value. -/
def StandsAt (G : Grammar α) (text : List Char) (m : Match α) : Prop :=
  ∃ w behind, m.At text w behind ∧ G m.value w behind

/-- The pattern matches the pieces of the grammar and no others. -/
def Exact (p : Pattern α) (G : Grammar α) : Prop :=
  ∀ (text : List Char) (a : α) (width : Nat), p text = some (a, width) ↔
    ∃ w rest, text = w ++ rest ∧ w.length = width ∧ G a w rest

theorem Exact.takes {p : Pattern α} {G : Grammar α} (hp : Exact p G) {a : α}
    {w rest : List Char} (h : G a w rest) : Takes p w rest a :=
  (hp _ _ _).mpr ⟨w, rest, rfl, rfl, h⟩

/-- The same grammar may be said in another way. -/
theorem Exact.congr {p : Pattern α} {G H : Grammar α} (hp : Exact p G)
    (h : ∀ a w rest, G a w rest ↔ H a w rest) : Exact p H := by
  intro text a width
  simp only [hp text a width, h]

/-- It is enough that pieces are taken and that what is matched is a piece. -/
theorem exact_of_takes {p : Pattern α} {G : Grammar α}
    (htakes : ∀ a w rest, G a w rest → Takes p w rest a)
    (hmatch : ∀ text a width, p text = some (a, width) →
      ∃ w rest, text = w ++ rest ∧ w.length = width ∧ G a w rest) : Exact p G := by
  refine fun text a width => ⟨hmatch text a width, ?_⟩
  rintro ⟨w, rest, rfl, rfl, h⟩
  exact htakes a w rest h

/-! ## Patterns and their grammars -/

theorem exact_pure (a : α) : Exact (pure a) fun b w _ => b = a ∧ w = [] := by
  refine exact_of_takes ?_ fun text b width h => ?_
  · rintro b w rest ⟨rfl, rfl⟩
    exact takes_pure b rest
  · obtain ⟨rfl, rfl⟩ := Prod.mk.inj (Option.some.inj h)
    exact ⟨[], text, rfl, rfl, rfl, rfl⟩

theorem exact_never : Exact (never : Pattern α) fun _ _ _ => False :=
  exact_of_takes (fun _ _ _ h => h.elim) fun _ _ _ h => nomatch h

theorem exact_word (u : List Char) : Exact (word u) fun _ w _ => w = u := by
  refine exact_of_takes ?_ fun text a width h => ?_
  · rintro _ w rest rfl
    exact takes_word w rest
  · unfold word at h
    split at h
    · next hopens =>
        obtain ⟨rest, rfl⟩ := List.isPrefixOf_iff_prefix.mp hopens
        exact ⟨u, rest, rfl, (Prod.mk.inj (Option.some.inj h)).2, rfl⟩
    · cases h

/-- A run is the longest one. -/
theorem exact_run (member : Char → Bool) :
    Exact (run member) fun run w rest => run = w ∧ (∀ c ∈ w, member c = true) ∧
      ∀ c ∈ rest.head?, member c = false := by
  refine exact_of_takes ?_ fun text a width h => ?_
  · rintro _ w rest ⟨rfl, hw, hrest⟩
    exact takes_run hw hrest
  · obtain ⟨rfl, rfl⟩ := Prod.mk.inj (Option.some.inj h)
    refine ⟨_, text.dropWhile member, List.takeWhile_append_dropWhile.symm, rfl, rfl,
      fun c hc => List.all_eq_true.mp List.all_takeWhile c hc, fun c hc => ?_⟩
    have hhead := List.head?_dropWhile_not member text
    rw [Option.mem_def.mp hc] at hhead
    exact hhead

/-- One of some words, if none of them is taken for another. -/
theorem exact_oneOf {values : List α} {wordOf : α → List Char}
    (h : ∀ a ∈ values, ∀ rest, Takes (oneOf values wordOf) (wordOf a) rest a) :
    Exact (oneOf values wordOf) fun a w _ => a ∈ values ∧ w = wordOf a := by
  refine exact_of_takes ?_ fun text a width hmatch => ?_
  · rintro a w rest ⟨ha, rfl⟩
    exact h a ha rest
  · obtain ⟨b, hfound, heq⟩ := Option.map_eq_some_iff.mp hmatch
    obtain ⟨rfl, rfl⟩ := Prod.mk.inj heq
    have hopens : (wordOf b).isPrefixOf text = true :=
      List.find?_some (p := fun a => (wordOf a).isPrefixOf text) hfound
    obtain ⟨rest, rfl⟩ := List.isPrefixOf_iff_prefix.mp hopens
    exact ⟨wordOf b, rest, rfl, rfl, List.mem_of_find?_eq_some hfound, rfl⟩

theorem Exact.bind {p : Pattern α} {f : α → Pattern β} {G : Grammar α} {H : α → Grammar β}
    (hp : Exact p G) (hf : ∀ a, Exact (f a) (H a)) : Exact (p >>= f) (G.seq H) := by
  refine exact_of_takes ?_ fun text b width h => ?_
  · rintro b w rest ⟨a, u, v, rfl, hu, hv⟩
    exact (hp.takes hu).bind ((hf a).takes hv)
  · rw [bind_apply, Pattern.bind] at h
    split at h
    · cases h
    · next a first hfirst =>
        obtain ⟨u, behind, rfl, rfl, hu⟩ := (hp _ _ _).mp hfirst
        rw [List.drop_left] at h
        split at h
        · cases h
        · next b' more hmore =>
            obtain ⟨v, rest, rfl, rfl, hv⟩ := (hf a _ _ _).mp hmore
            obtain ⟨rfl, rfl⟩ := Prod.mk.inj (Option.some.inj h)
            exact ⟨u ++ v, rest, (List.append_assoc u v rest).symm, List.length_append,
              a, u, v, rfl, hu, hv⟩

/-! ## Pieces in a text -/

/-- Of every piece the first character is outside the class, and the others are in it. -/
def Headed (Tail : Char → Prop) (G : Grammar α) : Prop :=
  ∀ a w rest, G a w rest → ∃ c more, w = c :: more ∧ ¬Tail c ∧ ∀ d ∈ more, Tail d

section Headed

variable {Tail : Char → Prop} {p : Pattern α} {G : Grammar α} {text : List Char}

theorem Headed.ne_nil (hG : Headed Tail G) {a : α} {w rest : List Char} (h : G a w rest) :
    w ≠ [] := by
  obtain ⟨c, more, rfl, _⟩ := hG a w rest h
  exact List.cons_ne_nil c more

/-- Of two pieces, also of different grammars, the one that begins later begins behind the other. -/
theorem Headed.stop_le (hG : Headed Tail G) {H : Grammar β} (hH : Headed Tail H) {m : Match α}
    {n : Match β} (hm : StandsAt G text m) (hn : StandsAt H text n) (hlt : m.start < n.start) :
    m.stop ≤ n.start := by
  obtain ⟨w, behind, hat, hw⟩ := hm
  obtain ⟨u, behind', hat', hu⟩ := hn
  obtain ⟨c, more, rfl, _, hmore⟩ := hG _ _ _ hw
  obtain ⟨d, more', rfl, hd, _⟩ := hH _ _ _ hu
  obtain ⟨hdrop, hwidth⟩ := (at_iff_drop (List.cons_ne_nil _ _)).mp hat
  obtain ⟨hdrop', _⟩ := (at_iff_drop (List.cons_ne_nil _ _)).mp hat'
  refine Nat.le_of_not_lt fun hinside => ?_
  -- The head of the second piece would be one of the other characters of the first.
  obtain ⟨i, hi⟩ : ∃ i, n.start = m.start + (i + 1) := ⟨n.start - m.start - 1, by omega⟩
  have hlt' : i < more.length := by
    rw [List.length_cons] at hwidth
    unfold Match.stop at hinside
    omega
  have hhead : text[n.start]? = some more[i] := by
    rw [hi, ← List.getElem?_drop, hdrop, List.cons_append, List.getElem?_cons_succ,
      List.getElem?_append_left hlt', List.getElem?_eq_getElem hlt']
  have hsame : d = more[i] := by
    rw [← Nat.add_zero n.start, ← List.getElem?_drop, hdrop'] at hhead
    exact Option.some.inj hhead
  exact hd (hsame ▸ hmore _ (List.getElem_mem hlt'))

theorem Exact.occurs_iff (hp : Exact p G) (hG : Headed Tail G) {m : Match α} :
    p.Occurs text m ↔ StandsAt G text m := by
  unfold Occurs StandsAt
  rw [hp]
  constructor
  · intro ⟨w, behind, hdrop, hwidth, hw⟩
    exact ⟨w, behind, (at_iff_drop (hG.ne_nil hw)).mpr ⟨hdrop, hwidth⟩, hw⟩
  · intro ⟨w, behind, hat, hw⟩
    obtain ⟨hdrop, hwidth⟩ := (at_iff_drop (hG.ne_nil hw)).mp hat
    exact ⟨w, behind, hdrop, hwidth, hw⟩

theorem Exact.consumes (hp : Exact p G) (hG : Headed Tail G) : Consumes p := by
  intro text a width h
  obtain ⟨w, rest, rfl, rfl, hw⟩ := (hp _ _ _).mp h
  refine ⟨List.length_pos_iff.mpr (hG.ne_nil hw), ?_⟩
  rw [List.length_append]
  exact Nat.le_add_right _ _

/-- The leftmost match is found, if there is one. -/
theorem Exact.findFirst?_eq_some_iff (hp : Exact p G) (hG : Headed Tail G) {a : α} :
    p.findFirst? text = some a ↔ ∃ m, IsLeftmost (StandsAt G text) m ∧ m.value = a := by
  have hsame : p.Occurs text = StandsAt G text := funext fun _ => propext (hp.occurs_iff hG)
  rw [Pattern.findFirst?_eq_some_iff (hp.consumes hG), hsame]

theorem Exact.findFirst?_eq_none_iff (hp : Exact p G) (hG : Headed Tail G) :
    p.findFirst? text = none ↔ ∀ m, ¬StandsAt G text m := by
  rw [Pattern.findFirst?_eq_none_iff (hp.consumes hG)]
  exact forall_congr' fun m => not_congr (hp.occurs_iff hG)

/-- Every piece is found, wherever it stands, and nothing else. -/
theorem Exact.mem_findAll_iff (hp : Exact p G) (hG : Headed Tail G) {m : Match α} :
    m ∈ p.findAll text ↔ StandsAt G text m := by
  have hapart : ∀ m n, p.Occurs text m → p.Occurs text n → m.start < n.start →
      m.stop ≤ n.start := fun m n hm hn =>
    hG.stop_le hG ((hp.occurs_iff hG).mp hm) ((hp.occurs_iff hG).mp hn)
  rw [(leftmost_findAll (hp.consumes hG) text).mem_iff (fun m n hm hn => hm.unique hn) hapart,
    and_iff_left (Nat.zero_le _), hp.occurs_iff hG]

end Headed

end CramSchool.Text.Pattern
