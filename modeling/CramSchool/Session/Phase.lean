/-
  Phases of a turn.

  start, then on each turn training, action and meeting; after the meeting of the last turn,
  end.
-/
import CramSchool.Enumerated

namespace CramSchool

/-- Where a session is within a turn. -/
inductive Phase where
  /-- Before the opening draft. -/
  | start
  /-- An offer waits for a choice. -/
  | training
  /-- Cards are in hand and are placed into roles. -/
  | action
  /-- All cards are back in the deck and some may be deleted. -/
  | meeting
  /-- All turns are played. -/
  | finished
deriving DecidableEq, Repr

namespace Phase

def all : List Phase := [start, training, action, meeting, finished]

def name : Phase → String
  | start => "Start"
  | training => "Training"
  | action => "Action"
  | meeting => "Meeting"
  | finished => "End"

def label : Phase → String
  | start => "start"
  | training => "training"
  | action => "action"
  | meeting => "meeting"
  | finished => "end"

instance : Enumerated Phase where
  all := all
  name := name
  label := label
  mem_all a := by cases a <;> decide

end Phase

end CramSchool
