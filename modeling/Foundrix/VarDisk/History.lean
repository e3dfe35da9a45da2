import Foundrix.Effect.Wp
import Foundrix.VarDisk.Daemon

/-!
# The history of a run

What a run of the daemon does, as a list of events: the prompts it posts, the messages it
takes, the commands it runs with their outcomes, and the disks as it classified them.

* `Event`, `record`, `observed`: the events, and the world with a log of them.
* `Answered`, `disksListed`: what a history says of prompts and disks.
-/

namespace Foundrix.VarDisk

open Effect

inductive Event where
  /-- The prompt was put up: a snapshot shows it and the one before did not. -/
  | asked (p : Prompt)
  | received (m : ClientMsg)
  /-- The classified disks were published. -/
  | listed (infos : List DiskInfo)
  | existed (d : Device) (present : Bool)
  | ran (c : Cmd) (out : Except String Output)
  | fed (c : Cmd) (secret : String) (r : Fed)

/-- The event of a change of the snapshot. -/
def recordMutate (s s' : Snapshot) : Option Event :=
  if s'.prompt ≠ s.prompt ∧ s'.prompt ≠ none then s'.prompt.map .asked
  else if s'.disks ≠ s.disks then some (.listed s'.disks)
  else none

/-- The event of an operation, if it is one. -/
def record : {β : Type} → Op β → World → β → Option Event
  | _, .mutate f, w, _ => recordMutate w.snapshot (f w.snapshot)
  | _, .tryRecv, _, m => m.map .received
  | _, .exists d, _, present => some (.existed d present)
  | _, .output c, _, out => some (.ran c out)
  | _, .feed c secret, _, r => some (.fed c secret r)
  | _, _, _, _ => none

/-- The world with the history of the run. -/
def observed : Handler Op (World × List Event) := world.logged record

/-- The command of an event. -/
def Event.command : Event → Option Cmd
  | .ran c _ => some c
  | .fed c _ _ => some c
  | _ => none

/-- The disks that an event publishes. -/
def Event.disks : Event → Option (List DiskInfo)
  | .listed infos => some infos
  | _ => none

/-- The disks that the last snapshot with a new list of disks showed. -/
def disksListed (es : List Event) : List DiskInfo := ((es.filterMap Event.disks).getLast?).getD []

/-- Messages other than an answer to the prompt `id`. -/
def Dropped (id : Nat) (es : List Event) : Prop :=
  ∀ e ∈ es, ∃ m, e = .received m ∧ ∀ v, m ≠ .submit id v

/-- These events are a prompt and the answer that was taken for it. -/
def Exchange (p : Prompt) (v : String) (es : List Event) : Prop :=
  ∃ dropped, es = .asked p :: (dropped ++ [.received (.submit p.id v)]) ∧ Dropped p.id dropped

/-- Somewhere in the history the prompt was answered with `v`. -/
def Answered (p : Prompt) (v : String) (es : List Event) : Prop :=
  ∃ before exchange after, es = before ++ (exchange ++ after) ∧ Exchange p v exchange

end Foundrix.VarDisk
