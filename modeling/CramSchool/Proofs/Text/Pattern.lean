/-
  Patterns on texts that are put together from pieces.

  `Takes p w rest a`: with `rest` behind it, the pattern `p` takes the piece `w`, no more and no
  less, for the value `a`. `Passes p w rest`: with `rest` behind it, the pattern matches nowhere
  in the piece.

  A piece that is passed adds nothing to what is found and is left standing when the matches
  are cut out (`values_passes`, `findFirst?_passes`, `cut_passes`). A piece that is taken
  adds its value and is cut out (`values_takes`, `findFirst?_takes`, `cut_takes`).
-/
import CramSchool.Text.Pattern

namespace CramSchool.Text.Pattern

variable {α β : Type}

/-! ## Pieces that are taken -/

/-- With `rest` behind it the pattern takes exactly the piece `w`. -/
def Takes (p : Pattern α) (w rest : List Char) (a : α) : Prop := p (w ++ rest) = some (a, w.length)

theorem takes_pure (a : α) (rest : List Char) : Takes (pure a) [] rest a := rfl

theorem bind_apply (p : Pattern α) (f : α → Pattern β) (text : List Char) :
    (p >>= f) text = Pattern.bind p f text := rfl

theorem Takes.bind {p : Pattern α} {f : α → Pattern β} {v w rest : List Char} {a : α} {b : β}
    (h : Takes p v (w ++ rest) a) (hnext : Takes (f a) w rest b) :
    Takes (p >>= f) (v ++ w) rest b := by
  unfold Takes at h hnext ⊢
  rw [bind_apply, Pattern.bind, List.append_assoc, h]
  dsimp only
  rw [List.drop_left, hnext, List.length_append]

/-- The second pattern takes nothing. -/
theorem Takes.bind_nil {p : Pattern α} {f : α → Pattern β} {w rest : List Char} {a : α} {b : β}
    (h : Takes p w rest a) (hnext : Takes (f a) [] rest b) : Takes (p >>= f) w rest b := by
  have hboth := Takes.bind (w := []) h hnext
  rwa [List.append_nil] at hboth

/-- A pattern whose value is converted. -/
theorem Takes.map {p : Pattern α} {w rest : List Char} {a : α} (h : Takes p w rest a) (f : α → β) :
    Takes (p >>= fun a => pure (f a)) w rest (f a) := h.bind_nil (takes_pure (f a) rest)

theorem takes_word (w rest : List Char) : Takes (word w) w rest () := by
  unfold Takes word
  rw [if_pos (List.isPrefixOf_iff_prefix.mpr (List.prefix_append w rest))]

theorem takeWhile_eq_nil {member : Char → Bool} {rest : List Char}
    (h : ∀ c ∈ rest.head?, member c = false) : rest.takeWhile member = [] := by
  cases rest with
  | nil => rfl
  | cons c rest =>
      rw [List.takeWhile_cons_of_neg]
      simp [h c rfl]

/-- A run ends where the text behind it has no member of the class at its head. -/
theorem takes_run {member : Char → Bool} {w rest : List Char} (hw : ∀ c ∈ w, member c = true)
    (hrest : ∀ c ∈ rest.head?, member c = false) : Takes (run member) w rest w := by
  unfold Takes run
  rw [List.takeWhile_append_of_pos hw, takeWhile_eq_nil hrest, List.append_nil]

/-- If the second pattern does not match behind the first, the sequence does not match. -/
theorem Takes.bind_eq_none {p : Pattern α} {f : α → Pattern β} {v rest : List Char} {a : α}
    (h : Takes p v rest a) (hnext : f a rest = none) : (p >>= f) (v ++ rest) = none := by
  unfold Takes at h
  rw [bind_apply, Pattern.bind, h]
  dsimp only
  rw [List.drop_left, hnext]

theorem bind_eq_none {p : Pattern α} (f : α → Pattern β) {text : List Char}
    (h : p text = none) : (p >>= f) text = none := by
  rw [bind_apply, Pattern.bind, h]

/-! ## Pieces that are passed -/

/-- With `rest` behind it the pattern matches nowhere in the piece. -/
def Passes (p : Pattern α) : (w rest : List Char) → Prop
  | [], _ => True
  | c :: w, rest => p (c :: (w ++ rest)) = none ∧ Passes p w rest

/-- The pattern matches no text with this head. -/
def Misses (p : Pattern α) (c : Char) : Prop := ∀ rest, p (c :: rest) = none

theorem Misses.bind {p : Pattern α} {c : Char} (h : Misses p c) (f : α → Pattern β) :
    Misses (p >>= f) c := fun rest => bind_eq_none f (h rest)

theorem passes_of_misses {p : Pattern α} {w : List Char} (h : ∀ c ∈ w, Misses p c)
    (rest : List Char) : Passes p w rest := by
  induction w with
  | nil => trivial
  | cons c w ih =>
      exact ⟨h c List.mem_cons_self _, ih fun d hd => h d (List.mem_cons_of_mem c hd)⟩

theorem Passes.append {p : Pattern α} {v w rest : List Char} (hv : Passes p v (w ++ rest))
    (hw : Passes p w rest) : Passes p (v ++ w) rest := by
  induction v with
  | nil => exact hw
  | cons c v ih =>
      have hhead := hv.1
      rw [← List.append_assoc] at hhead
      exact ⟨hhead, ih hv.2⟩

theorem Passes.bind {p : Pattern α} {w rest : List Char} (h : Passes p w rest)
    (f : α → Pattern β) : Passes (p >>= f) w rest := by
  induction w with
  | nil => trivial
  | cons c w ih => exact ⟨bind_eq_none f h.1, ih h.2⟩

/-! ## What is found in pieces -/

/-- The match with `d` more characters in front of it. -/
def Match.shift (d : Nat) (m : Match α) : Match α := { m with start := m.start + d }

/-- Places are counted from where the text is said to begin. -/
theorem findFrom_shift (p : Pattern α) (d place skip : Nat) (text : List Char) :
    findFrom p (place + d) skip text = (findFrom p place skip text).map (Match.shift d) := by
  fun_induction findFrom p place skip text with
  | case1 => simp [findFrom]
  | case2 place skip c rest ih => rw [findFrom, ← ih, Nat.add_right_comm]
  | case3 place c rest a width h ih =>
      rw [findFrom, h]
      dsimp only
      rw [List.map_cons, ← ih, Nat.add_right_comm]
      rfl
  | case4 place c rest h ih =>
      rw [findFrom, h]
      dsimp only
      rw [← ih, Nat.add_right_comm]

theorem findFrom_skip (p : Pattern α) (place : Nat) (w rest : List Char) :
    findFrom p place w.length (w ++ rest) = findFrom p (place + w.length) 0 rest := by
  induction w generalizing place with
  | nil => rfl
  | cons c w ih =>
      rw [List.length_cons, List.cons_append, findFrom, ih]
      congr 1
      omega

theorem findFrom_passes {p : Pattern α} {w rest : List Char} (h : Passes p w rest) (place : Nat) :
    findFrom p place 0 (w ++ rest) = findFrom p (place + w.length) 0 rest := by
  induction w generalizing place with
  | nil => rfl
  | cons c w ih =>
      rw [List.cons_append, findFrom, h.1]
      dsimp only
      rw [ih h.2, List.length_cons, Nat.add_assoc, Nat.add_comm 1]

theorem findFrom_takes {p : Pattern α} {w rest : List Char} {a : α} (h : Takes p w rest a)
    (hw : w ≠ []) (place : Nat) :
    findFrom p place 0 (w ++ rest) =
      ⟨place, w.length, a⟩ :: findFrom p (place + w.length) 0 rest := by
  obtain ⟨c, w, rfl⟩ := List.exists_cons_of_ne_nil hw
  unfold Takes at h
  rw [List.cons_append] at h ⊢
  rw [findFrom, h]
  dsimp only
  rw [List.length_cons, Nat.add_sub_cancel, findFrom_skip, Nat.add_assoc, Nat.add_comm 1]

theorem findAll_pass {p : Pattern α} {c : Char} {rest : List Char} (h : p (c :: rest) = none) :
    p.findAll (c :: rest) = (p.findAll rest).map (Match.shift 1) := by
  unfold findAll
  rw [findFrom, h, ← findFrom_shift]

theorem findAll_takes {p : Pattern α} {w rest : List Char} {a : α} (h : Takes p w rest a)
    (hw : w ≠ []) :
    p.findAll (w ++ rest) = ⟨0, w.length, a⟩ :: (p.findAll rest).map (Match.shift w.length) := by
  unfold findAll
  rw [findFrom_takes h hw, ← findFrom_shift]

theorem values_takes {p : Pattern α} {w rest : List Char} {a : α} (h : Takes p w rest a)
    (hw : w ≠ []) : p.values (w ++ rest) = a :: p.values rest := by
  unfold values
  rw [findAll_takes h hw, List.map_cons, List.map_map]
  rfl

theorem values_passes {p : Pattern α} {w rest : List Char} (h : Passes p w rest) :
    p.values (w ++ rest) = p.values rest := by
  induction w with
  | nil => rfl
  | cons c w ih =>
      unfold values at ih ⊢
      rw [List.cons_append, findAll_pass h.1, List.map_map, ← ih h.2]
      rfl

theorem values_eq_nil {p : Pattern α} {w : List Char} (h : Passes p w []) : p.values w = [] := by
  have hpass := values_passes h
  rwa [List.append_nil] at hpass

theorem findFirst?_takes {p : Pattern α} {w rest : List Char} {a : α} (h : Takes p w rest a)
    (hw : w ≠ []) : p.findFirst? (w ++ rest) = some a := by
  obtain ⟨c, w, rfl⟩ := List.exists_cons_of_ne_nil hw
  unfold Takes at h
  rw [List.cons_append] at h ⊢
  rw [findFirst?, h]

theorem findFirst?_passes {p : Pattern α} {w rest : List Char} (h : Passes p w rest) :
    p.findFirst? (w ++ rest) = p.findFirst? rest := by
  induction w with
  | nil => rfl
  | cons c w ih =>
      rw [List.cons_append, findFirst?, h.1]
      exact ih h.2

theorem findFirst?_eq_none {p : Pattern α} {w : List Char} (h : Passes p w []) :
    p.findFirst? w = none := by
  have hpass := findFirst?_passes h
  rwa [List.append_nil] at hpass

/-! ## What the values are like -/

/-- Whatever the pattern matches, its value has the property. -/
def Gives (P : α → Prop) (p : Pattern α) : Prop :=
  ∀ (text : List Char) (a : α) (width : Nat), p text = some (a, width) → P a

theorem gives_pure {P : α → Prop} {a : α} (h : P a) : Gives P (pure a) := by
  intro text b width hmatch
  obtain ⟨rfl, _⟩ := Prod.mk.inj (Option.some.inj hmatch)
  exact h

/-- In a sequence the last pattern gives the value, and knows what the first one gave. -/
theorem Gives.bind_of {Q : α → Prop} {P : β → Prop} {p : Pattern α} {f : α → Pattern β}
    (hp : Gives Q p) (h : ∀ a, Q a → Gives P (f a)) : Gives P (p >>= f) := by
  intro text b width hmatch
  rw [bind_apply, Pattern.bind] at hmatch
  split at hmatch
  · cases hmatch
  · next a first hfirst =>
      split at hmatch
      · cases hmatch
      · next c more hmore =>
          obtain ⟨rfl, _⟩ := Prod.mk.inj (Option.some.inj hmatch)
          exact h a (hp _ _ _ hfirst) _ _ _ hmore

/-- What the last pattern gives may not hang on the first. -/
theorem Gives.bind {P : β → Prop} (p : Pattern α) {f : α → Pattern β} (h : ∀ a, Gives P (f a)) :
    Gives P (p >>= f) := .bind_of (fun _ _ _ _ => trivial) fun a _ => h a

theorem gives_never {P : α → Prop} : Gives P never := fun _ _ _ hmatch => nomatch hmatch

theorem gives_run (member : Char → Bool) :
    Gives (fun w => ∀ c ∈ w, member c = true) (run member) := by
  intro text w width hmatch
  obtain ⟨rfl, _⟩ := Prod.mk.inj (Option.some.inj hmatch)
  exact fun c hc => List.all_eq_true.mp List.all_takeWhile c hc

theorem Gives.of_mem_findFrom {P : α → Prop} {p : Pattern α} (h : Gives P p) {place skip : Nat}
    {text : List Char} : ∀ m ∈ findFrom p place skip text, P m.value := by
  fun_induction findFrom p place skip text with
  | case1 => exact List.forall_mem_nil _
  | case2 place skip c rest ih => exact ih
  | case3 place c rest a width hmatch ih => exact List.forall_mem_cons.mpr ⟨h _ _ _ hmatch, ih⟩
  | case4 place c rest _ ih => exact ih

theorem Gives.of_mem_values {P : α → Prop} {p : Pattern α} (h : Gives P p) {text : List Char} :
    ∀ a ∈ p.values text, P a := by
  intro a ha
  obtain ⟨m, hm, rfl⟩ := List.mem_map.mp ha
  exact h.of_mem_findFrom m hm

theorem Gives.of_findFirst? {P : α → Prop} {p : Pattern α} (h : Gives P p) {text : List Char} :
    ∀ a ∈ p.findFirst? text, P a := by
  intro a ha
  fun_induction findFirst? p text with
  | case1 => cases ha
  | case2 c rest b width hmatch => exact Option.some.inj ha ▸ h _ _ _ hmatch
  | case3 c rest _ ih => exact ih ha

/-! ## Cutting matches out -/

/-- The text without the matches of a pattern. -/
def cut (p : Pattern α) (text : List Char) : List Char := without text (p.findAll text)

/-- Text in front of the place where the cutting begins does not count. -/
theorem withoutFrom_shift (w text : List Char) (place : Nat) (found : List (Match α)) :
    withoutFrom (w ++ text) (place + w.length) (found.map (Match.shift w.length)) =
      withoutFrom text place found := by
  induction found generalizing place with
  | nil => rw [List.map_nil, withoutFrom, withoutFrom, Nat.add_comm, List.drop_length_add_append]
  | cons m found ih =>
      have hstop : (m.shift w.length).stop = m.stop + w.length := by
        simp only [Match.stop, Match.shift]
        omega
      have hstart : (m.shift w.length).start - (place + w.length) = m.start - place := by
        simp only [Match.shift]
        omega
      rw [List.map_cons, withoutFrom, withoutFrom, hstop, hstart, ih, Nat.add_comm,
        List.drop_length_add_append]

theorem without_cons_shift (c : Char) (rest : List Char) (found : List (Match α)) :
    without (c :: rest) (found.map (Match.shift 1)) = c :: without rest found := by
  unfold without
  cases found with
  | nil => rfl
  | cons m found =>
      -- The first match begins behind `c`; the others are cut as in the text without it.
      have hrest := withoutFrom_shift [c] rest m.stop found
      have hstop : (m.shift 1).stop = m.stop + 1 := by
        simp only [Match.stop, Match.shift]
        omega
      rw [List.map_cons, withoutFrom, withoutFrom, hstop]
      rw [List.singleton_append, List.length_singleton] at hrest
      rw [hrest]
      rfl

theorem mem_of_mem_withoutFrom {text : List Char} {place : Nat} {found : List (Match α)} {c : Char}
    (h : c ∈ withoutFrom text place found) : c ∈ text := by
  induction found generalizing place with
  | nil => exact List.mem_of_mem_drop h
  | cons m found ih =>
      rcases List.mem_append.mp h with hkept | hrest
      · exact List.mem_of_mem_drop (List.mem_of_mem_take hkept)
      · exact ih hrest

/-- Cutting adds nothing to a text. -/
theorem mem_of_mem_cut {p : Pattern α} {text : List Char} {c : Char} (h : c ∈ cut p text) :
    c ∈ text := mem_of_mem_withoutFrom h

theorem cut_takes {p : Pattern α} {w rest : List Char} {a : α} (h : Takes p w rest a)
    (hw : w ≠ []) : cut p (w ++ rest) = cut p rest := by
  have hrest := withoutFrom_shift w rest 0 (p.findAll rest)
  unfold cut without
  rw [findAll_takes h hw, withoutFrom]
  exact hrest

theorem cut_passes {p : Pattern α} {w rest : List Char} (h : Passes p w rest) :
    cut p (w ++ rest) = w ++ cut p rest := by
  induction w with
  | nil => rfl
  | cons c w ih =>
      unfold cut at ih ⊢
      rw [List.cons_append, findAll_pass h.1, without_cons_shift, ih h.2]
      rfl

theorem cut_eq_self {p : Pattern α} {w : List Char} (h : Passes p w []) : cut p w = w := by
  have hpass := cut_passes h
  rw [List.append_nil] at hpass
  exact hpass.trans (List.append_nil w)

end CramSchool.Text.Pattern
