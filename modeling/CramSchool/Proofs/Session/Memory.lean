/-
  The memory of sentences cannot be seen.

  `withMemo s m` is the session `s` with another memory. Every operation replies to both alike
  and leaves sessions that again differ in memory at most (`alike_step`), and so does every
  run (`alike_run`).
-/
import CramSchool.Proofs.Effect.Play
import CramSchool.Proofs.Session.Run

namespace CramSchool

/-! ## Resolving with another memory -/

theorem resolveCard_memo (plan : TurnPlan) (role : Role) (card : Card) (stats : Stats)
    (m m' : Memo) :
    (resolveCard plan role card stats m).1 = (resolveCard plan role card stats m').1 ∧
      (resolveCard plan role card stats m).2.1 = (resolveCard plan role card stats m').2.1 := by
  simp only [resolveCard, Memo.outcome_play, Memo.stats_play, and_self]

theorem resolveCards_memo (plan : TurnPlan) (placed : List (Role × Card)) (stats : Stats)
    (m m' : Memo) :
    (resolveCards plan placed stats m).1 = (resolveCards plan placed stats m').1 ∧
      (resolveCards plan placed stats m).2.1 = (resolveCards plan placed stats m').2.1 := by
  induction placed generalizing stats m m' with
  | nil => exact ⟨rfl, rfl⟩
  | cons first rest ih =>
      obtain ⟨hfirst, hstats⟩ := resolveCard_memo plan first.1 first.2 stats m m'
      simp only [resolveCards]
      rw [hfirst, hstats]
      obtain ⟨hmore, hfinal⟩ := ih _ (resolveCard plan first.1 first.2 stats m).2.2
        (resolveCard plan first.1 first.2 stats m').2.2
      exact ⟨congrArg _ hmore, hfinal⟩

namespace Session

/-- The session with another memory. -/
def withMemo (s : Session) (m : Memo) : Session := { s with memo := m }

section

variable (s : Session) (m : Memo)

@[simp] theorem withMemo_turn : (s.withMemo m).turn = s.turn := rfl

@[simp] theorem withMemo_phase : (s.withMemo m).phase = s.phase := rfl

@[simp] theorem withMemo_offer : (s.withMemo m).offer = s.offer := rfl

@[simp] theorem withMemo_player : (s.withMemo m).player = s.player := rfl

@[simp] theorem withMemo_plan : (s.withMemo m).plan = s.plan := rfl

@[simp] theorem withMemo_requirePhase (expected : Phase) :
    (s.withMemo m).requirePhase expected = s.requirePhase expected := rfl

@[simp] theorem withMemo_checkTraining (picks : List Nat) :
    (s.withMemo m).checkTraining picks = s.checkTraining picks := rfl

@[simp] theorem withMemo_checkMeeting (places : List Nat) :
    (s.withMemo m).checkMeeting places = s.checkMeeting places := rfl

end

/-- The same answer, and sessions that differ in memory at most. -/
def Alike {β : Type} (x y : β × Session) : Prop := ∃ m, y = (x.1, x.2.withMemo m)

/-- Moves that are alike, or that stop the program for the same reason. -/
def AlikeMoves {β : Type} (x y : Except Stop (β × Session)) : Prop :=
  ∃ m, y = x.map fun a => (a.1, a.2.withMemo m)

theorem Alike.ok {β : Type} {x y : β × Session} (h : Alike x y) : AlikeMoves (.ok x) (.ok y) := by
  obtain ⟨m, rfl⟩ := h
  exact ⟨m, rfl⟩

/-- What goes on alike after alike moves. -/
theorem AlikeMoves.bind {β γ : Type} {x y : Except Stop (β × Session)}
    {f : β × Session → Except Stop (γ × Session)} (h : AlikeMoves x y)
    (hf : ∀ (b : β) (t : Session) (m : Memo), AlikeMoves (f (b, t)) (f (b, t.withMemo m))) :
    AlikeMoves (x >>= f) (y >>= f) := by
  obtain ⟨m, rfl⟩ := h
  cases x with
  | error reason => exact ⟨m, rfl⟩
  | ok a => exact hf a.1 a.2 m

/-! ## Moving on with another memory -/

theorem alike_drawTraining (s : Session) (rarity : Rarity) (count : Nat) (m : Memo) :
    AlikeMoves (s.drawTraining rarity count) ((s.withMemo m).drawTraining rarity count) := by
  refine ⟨m, ?_⟩
  unfold drawTraining
  dsimp only [withMemo]
  cases s.pools.draw s.machine s.catalog rarity count s.config.forced.training <;> rfl

theorem alike_drawHand (s : Session) (count : Nat) (m : Memo) :
    AlikeMoves (s.drawHand count) ((s.withMemo m).drawHand count) := by
  refine ⟨m, ?_⟩
  unfold drawHand
  dsimp only [withMemo]
  cases s.player.drawHand s.machine s.catalog count s.config.forced.hand <;> rfl

theorem alike_enterTraining (s : Session) (m : Memo) :
    AlikeMoves s.enterTraining (s.withMemo m).enterTraining := by
  unfold enterTraining
  rw [withMemo_plan]
  cases s.plan with
  | error refusal => exact ⟨m, rfl⟩
  | ok plan => exact (alike_drawTraining s _ _ m).bind fun _ _ m' => ⟨m', rfl⟩

theorem alike_enterAction (s : Session) (m : Memo) :
    AlikeMoves s.enterAction (s.withMemo m).enterAction :=
  (alike_drawHand { s with phase := .action, player := _, rng := _ } _ m).bind
    fun _ _ m' => ⟨m', rfl⟩

theorem alike_leaveMeeting (s : Session) (m : Memo) :
    AlikeMoves s.leaveMeeting (s.withMemo m).leaveMeeting := by
  unfold leaveMeeting
  dsimp only
  rw [withMemo_turn]
  cases succTurn s.turn with
  | error reason => exact ⟨m, rfl⟩
  | ok next =>
      dsimp only [bind, Except.bind]
      split
      · exact ⟨m, rfl⟩
      · exact alike_enterTraining { s with player := s.player.returnAll, turn := next } m

theorem alike_leaveAction (s : Session) (m : Memo) :
    AlikeMoves s.leaveAction (s.withMemo m).leaveAction := by
  unfold leaveAction
  rw [withMemo_plan]
  cases s.plan with
  | error refusal => exact ⟨m, rfl⟩
  | ok plan =>
      dsimp only
      split
      · exact alike_leaveMeeting s.enterMeeting m
      · exact ⟨m, rfl⟩

theorem alike_leavePhase (s : Session) (m : Memo) :
    AlikeMoves s.leavePhase (s.withMemo m).leavePhase := by
  unfold leavePhase
  rw [withMemo_phase, withMemo_offer]
  cases s.phase with
  | start => exact alike_enterTraining s m
  | training =>
      dsimp only
      split
      · exact ⟨m, rfl⟩
      · exact alike_enterAction s m
  | action => exact alike_leaveAction s m
  | meeting => exact alike_leaveMeeting s m
  | finished => exact ⟨m, rfl⟩

theorem alike_advance (s : Session) (m : Memo) : AlikeMoves s.advance (s.withMemo m).advance := by
  refine (alike_leavePhase s m).bind fun answer t m' => ?_
  cases answer <;> exact ⟨m', rfl⟩

/-! ## Operations with another memory -/

theorem alike_startGame (s : Session) (m : Memo) :
    AlikeMoves s.startGame (s.withMemo m).startGame := by
  unfold startGame
  rw [withMemo_requirePhase]
  cases s.requirePhase .start with
  | error refusal => exact ⟨m, rfl⟩
  | ok =>
      refine (alike_advance s m).bind fun answer t m' => ?_
      cases answer <;> exact ⟨m', rfl⟩

theorem alike_confirmTraining (s : Session) (picks : List Nat) (m : Memo) :
    AlikeMoves (s.confirmTraining picks) ((s.withMemo m).confirmTraining picks) := by
  unfold confirmTraining
  rw [withMemo_checkTraining]
  cases s.checkTraining picks with
  | error refusal => exact ⟨m, rfl⟩
  | ok offer =>
      dsimp only
      cases cardsAt? offer picks with
      | none => exact ⟨m, rfl⟩
      | some chosen => exact alike_advance { s with offer := none, player := _ } m

theorem alike_placeCard (s : Session) (i : Nat) (role : Role) (m : Memo) :
    Alike (s.placeCard i role) ((s.withMemo m).placeCard i role) := by
  refine ⟨m, ?_⟩
  unfold placeCard
  rw [withMemo_requirePhase, withMemo_player]
  cases s.requirePhase .action with
  | error refusal => rfl
  | ok =>
      dsimp only
      split
      · rfl
      · obtain ⟨_ | _, _⟩ := s.player.removeFromHand i <;> rfl

theorem alike_unplace (s : Session) (role : Role) (m : Memo) :
    Alike (s.unplace role) ((s.withMemo m).unplace role) := by
  refine ⟨m, ?_⟩
  unfold unplace
  rw [withMemo_requirePhase, withMemo_player]
  cases s.requirePhase .action with
  | error refusal => rfl
  | ok => obtain ⟨_ | _, _⟩ := s.player.takePlaced role <;> rfl

theorem alike_clearPlaced (s : Session) (m : Memo) :
    Alike s.clearPlaced (s.withMemo m).clearPlaced := by
  refine ⟨m, ?_⟩
  unfold clearPlaced
  rw [withMemo_requirePhase]
  cases s.requirePhase .action <;> rfl

/-- The one move that asks the memory. It asks for nothing but effects of sentences. -/
theorem alike_resolvePlaced (s : Session) (m : Memo) :
    Alike s.resolvePlaced (s.withMemo m).resolvePlaced := by
  unfold resolvePlaced
  rw [withMemo_requirePhase, withMemo_plan]
  cases s.requirePhase .action with
  | error refusal => exact ⟨m, rfl⟩
  | ok =>
      cases s.plan with
      | error refusal => exact ⟨m, rfl⟩
      | ok plan =>
          obtain ⟨hresolutions, hstats⟩ :=
            resolveCards_memo plan s.player.placed.occupied s.player.stats m s.memo
          refine ⟨(resolveCards plan s.player.placed.occupied s.player.stats m).2.2, ?_⟩
          dsimp only [withMemo]
          rw [hresolutions, hstats]

theorem alike_confirmActions (s : Session) (m : Memo) :
    AlikeMoves s.confirmActions (s.withMemo m).confirmActions := by
  unfold confirmActions
  obtain ⟨m', heq⟩ := alike_resolvePlaced s m
  rw [heq]
  obtain ⟨_ | resolutions, t⟩ := s.resolvePlaced
  · exact ⟨m', rfl⟩
  · refine (alike_advance t m').bind fun answer u m'' => ?_
    cases answer <;> exact ⟨m'', rfl⟩

theorem alike_confirmMeeting (s : Session) (places : List Nat) (m : Memo) :
    AlikeMoves (s.confirmMeeting places) ((s.withMemo m).confirmMeeting places) := by
  unfold confirmMeeting
  rw [withMemo_checkMeeting]
  cases s.checkMeeting places with
  | error refusal => exact ⟨m, rfl⟩
  | ok => exact alike_advance { s with player := _ } m

/-! ## Steps and runs -/

theorem Alike.reply {α : Type} {x y : Moved α} (h : Alike x y) (answer : α → Reply) :
    Alike (x.reply answer) (y.reply answer) := by
  obtain ⟨m, rfl⟩ := h
  obtain ⟨_ | _, t⟩ := x <;> exact ⟨m, rfl⟩

theorem AlikeMoves.reply {α : Type} {x y : Except Stop (Moved α)} (h : AlikeMoves x y)
    (answer : α → Reply) :
    AlikeMoves (do return (← x).reply answer) (do return (← y).reply answer) :=
  h.bind fun _ _ m => (Alike.reply ⟨m, rfl⟩ answer).ok

/-- A program that stops leaves the sessions before, which are alike. -/
theorem AlikeMoves.settle {s : Session} {m : Memo} {x y : Except Stop (Reply × Session)}
    (h : AlikeMoves x y) : Alike (s.settle x) ((s.withMemo m).settle y) := by
  obtain ⟨m', rfl⟩ := h
  cases x with
  | error reason => exact ⟨m, rfl⟩
  | ok a => exact ⟨m', rfl⟩

theorem alike_step (s : Session) (op : Operation) (m : Memo) :
    Alike (s.step op) ((s.withMemo m).step op) := by
  cases op with
  | restart => exact ⟨m, rfl⟩
  | startGame => exact ((alike_startGame s m).reply _).settle
  | advance => exact ((alike_advance s m).reply _).settle
  | confirmTraining picks => exact ((alike_confirmTraining s picks m).reply _).settle
  | placeCard i role => exact (alike_placeCard s i role m).reply _
  | unplace role => exact (alike_unplace s role m).reply _
  | clearPlaced => exact (alike_clearPlaced s m).reply _
  | previewHand i role => exact ⟨m, rfl⟩
  | resolvePlaced => exact (alike_resolvePlaced s m).reply _
  | confirmActions => exact ((alike_confirmActions s m).reply _).settle
  | confirmMeeting places => exact ((alike_confirmMeeting s places m).reply _).settle
  | drawTraining rarity count =>
      exact ((alike_drawTraining s rarity count m).bind fun _ _ m' => ⟨m', rfl⟩).settle
  | drawHand count => exact ((alike_drawHand s count m).bind fun _ _ m' => ⟨m', rfl⟩).settle
  | deckByAcquisition => exact ⟨m, rfl⟩
  | plan => exact ⟨m, rfl⟩

theorem alike_run (s : Session) (m : Memo) (ops : List Operation) :
    Alike (s.run ops) ((s.withMemo m).run ops) := by
  induction ops generalizing s m with
  | nil => exact ⟨m, rfl⟩
  | cons op ops ih =>
      obtain ⟨m', hstep⟩ := alike_step s op m
      obtain ⟨m'', hrest⟩ := ih (s.step op).2 m'
      refine ⟨m'', ?_⟩
      simp only [run]
      rw [hstep, hrest]

end Session

end CramSchool
