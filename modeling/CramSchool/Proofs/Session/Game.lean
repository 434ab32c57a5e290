/-
  Games on one machine, with one catalog and one set of settings.

  No operation touches the machine, the catalog or the settings (`Carried.fixed`), so a run from a
  new session stays within one `Game`. What a new session has, and what every operation of some
  kind keeps within the game, holds of every session that a run of such operations reaches
  (`run_new_invariant`).
-/
import CramSchool.Proofs.Session.Step

namespace CramSchool.Session

/-! ## Machine, catalog and settings -/

theorem MeetingOver.fixed {s t : Session} (h : MeetingOver s t) :
    t.machine = s.machine ∧ t.catalog = s.catalog ∧ t.config = s.config := by
  cases h with
  | last hlast => exact ⟨rfl, rfl, rfl⟩
  | next hnext hplan hroom => exact ⟨rfl, rfl, rfl⟩

theorem Transition.fixed {s t : Session} (h : Transition s t) :
    t.machine = s.machine ∧ t.catalog = s.catalog ∧ t.config = s.config := by
  cases h with
  | begin hphase hplan hroom => exact ⟨rfl, rfl, rfl⟩
  | play hphase hoffer hroom => exact ⟨rfl, rfl, rfl⟩
  | meet hphase hplan hquota => exact ⟨rfl, rfl, rfl⟩
  | skip hphase hplan hquota hover => exact hover.fixed
  | dismiss hphase hover => exact hover.fixed

/-- Machine, catalog and settings stay the same. -/
theorem Carried.fixed {s : Session} {op : Operation} {x : Reply × Session} (h : Carried s op x) :
    x.2.machine = s.machine ∧ x.2.catalog = s.catalog ∧ x.2.config = s.config := by
  cases h with
  | startGame hphase ht => exact ht.fixed
  | advance ht => exact ht.fixed
  | confirmTraining hphase hoffer hcount hnodup hchosen ht => exact ht.fixed
  | confirmActions hphase hplan ht => exact ht.fixed
  | confirmMeeting hphase hplan hquota hnodup hdoomed ht => exact ht.fixed
  | _ => exact ⟨rfl, rfl, rfl⟩

/-! ## Games -/

/-- A sound session on this machine, with this catalog and these settings. -/
structure Game (machine : Machine) (catalog : Catalog) (config : Config) (s : Session) :
    Prop where
  sound : s.Sound
  machine_eq : s.machine = machine
  catalog_eq : s.catalog = catalog
  config_eq : s.config = config

variable {machine : Machine} {catalog : Catalog} {config : Config}

theorem game_new (machine : Machine) (catalog : Catalog) (config : Config) :
    Game machine catalog config (new machine catalog config) := ⟨sound_restart _, rfl, rfl, rfl⟩

theorem Game.step {s : Session} (h : Game machine catalog config s) (op : Operation) :
    Game machine catalog config (s.step op).2 := by
  have hcarried := carried_step h.sound op
  obtain ⟨hmachine, hcatalog, hconfig⟩ := hcarried.fixed
  exact ⟨(hcarried.settled h.sound).sound, hmachine.trans h.machine_eq,
    hcatalog.trans h.catalog_eq, hconfig.trans h.config_eq⟩

/-- What operations of some kind keep within a game, a run of them from its start keeps. -/
theorem run_new_invariant {P : Session → Prop} {A : Operation → Prop}
    (hnew : P (new machine catalog config))
    (hstep : ∀ s op, Game machine catalog config s → A op → P s → P (s.step op).2)
    {ops : List Operation} (hops : ∀ op ∈ ops, A op) :
    let s := ((new machine catalog config).run ops).2
    Game machine catalog config s ∧ P s :=
  run_invariant_of_forall (P := fun s => Game machine catalog config s ∧ P s)
    (fun s op hop ⟨hgame, hs⟩ => ⟨hgame.step op, hstep s op hgame hop hs⟩)
    ⟨game_new machine catalog config, hnew⟩ hops

end CramSchool.Session
