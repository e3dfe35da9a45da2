import Mathlib.Algebra.Ring.Nat
import Foundrix.Machine.Trace

/-!
# The pollable channel

An `mpsc` channel with an eventfd: a send queues its item and then bumps the counter, and a
drain receives until the channel is empty and then resets the counter. The steps of any
number of sends and those of the receiver come in any order.

* `Channel`, `step`: the state of a channel and the steps of both sides.
* `no_lost_wakeup_iff`: when a run never leaves an item behind a counter at zero.
* `stop_left_behind`: a run that does.
-/

namespace Foundrix.Nsw2

open Machine

/-! ## The eventfd -/

namespace EventFd

/-- The largest value of a counter. -/
def limit : Nat := 2 ^ 64 - 2

/-- `write` of 1: a counter at its limit does not change, and the error is ignored. -/
def notify (counter : Nat) : Nat := if counter < limit then counter + 1 else counter

/-- `read`: the value of the counter, where it is not zero, and the counter after it. -/
def drain (counter : Nat) : Option Nat × Nat :=
  if counter = 0 then (none, 0) else (some counter, 0)

theorem notify_ne_zero (counter : Nat) : notify counter ≠ 0 := by
  unfold notify limit
  split <;> omega

theorem drain_counter (counter : Nat) : (drain counter).2 = 0 := by
  unfold drain
  split <;> rfl

end EventFd

/-! ## The channel -/

/-- Where the receiver stands. -/
inductive Receiver where
  /-- Not in `drain`; what the last one returned. -/
  | outside (returned : Option Bool)
  /-- In the loop of `drain`. -/
  | receiving
  /-- After the loop, before the eventfd is read. -/
  | resetting (disconnected : Bool)
  | dropped
deriving DecidableEq, Repr

def Receiver.isOutside : Receiver → Bool
  | .outside _ => true
  | _ => false

def Receiver.isResetting : Receiver → Bool
  | .resetting _ => true
  | _ => false

structure Channel (T : Type) where
  queue : List T := []
  counter : Nat := 0
  /-- Sends that have queued their item and not yet bumped the counter. -/
  pending : Nat := 0
  senderDropped : Bool := false
  receiver : Receiver := .outside none
  /-- The items queued so far. -/
  sent : List T := []
  /-- The items given to the callback of `drain` so far. -/
  received : List T := []
deriving DecidableEq, Repr

/-- `pollable_channel`. -/
def Channel.new (T : Type) : Channel T := {}

inductive Act (T : Type) where
  /-- `tx.send(value)` of a send. -/
  | enqueue (value : T)
  /-- `efd.notify()` of a send. -/
  | notify
  | dropSender
  /-- `poll` returns and reports the eventfd as readable. -/
  | poll
  | enterDrain
  | tryRecv
  /-- `efd.drain()` of a drain, which then returns. -/
  | reset
  | dropReceiver
deriving DecidableEq, Repr

variable {T : Type}

/-- When a step can be taken. -/
def Act.Enabled (c : Channel T) : Act T → Prop
  | .enqueue _ => c.senderDropped = false
  | .notify => 0 < c.pending
  | .dropSender => c.senderDropped = false ∧ c.pending = 0
  | .poll => c.receiver.isOutside ∧ c.counter ≠ 0
  | .enterDrain => c.receiver.isOutside
  | .tryRecv => c.receiver = .receiving
  | .reset => c.receiver.isResetting
  | .dropReceiver => c.receiver.isOutside

instance (c : Channel T) (a : Act T) : Decidable (a.Enabled c) := by
  cases a <;> unfold Act.Enabled <;> infer_instance

/-- `tx.send(value)`; where the receiver is gone, the send ends here with an error. -/
def Channel.enqueue (c : Channel T) (value : T) : Channel T :=
  if c.receiver = .dropped then c
  else { c with
    queue := c.queue ++ [value]
    pending := c.pending + 1
    sent := c.sent ++ [value] }

/-- `rx.try_recv()` and what `drain` does with its result. -/
def Channel.tryRecv (c : Channel T) : Channel T :=
  match c.queue with
  | item :: queue => { c with queue := queue, received := c.received ++ [item] }
  -- `Empty`, or `Disconnected` where the sender is gone
  | [] => { c with receiver := .resetting c.senderDropped }

/-- `drain` returns. -/
def Receiver.leave : Receiver → Receiver
  | .resetting disconnected => .outside (some disconnected)
  | r => r

/-- The channel after a step. -/
def Act.effect (c : Channel T) : Act T → Channel T
  | .enqueue value => c.enqueue value
  | .notify => { c with pending := c.pending - 1, counter := EventFd.notify c.counter }
  | .dropSender => { c with senderDropped := true }
  | .poll => c
  | .enterDrain => { c with receiver := .receiving }
  | .tryRecv => c.tryRecv
  | .reset => { c with
      counter := (EventFd.drain c.counter).2
      receiver := c.receiver.leave }
  | .dropReceiver => { c with queue := [], receiver := .dropped }

def step (c : Channel T) (a : Act T) : Option (Channel T) :=
  if a.Enabled c then some (a.effect c) else none

abbrev Step (c : Channel T) (a : Act T) (d : Channel T) : Prop := step c a = some d

theorem step_iff {c d : Channel T} {a : Act T} : Step c a d ↔ a.Enabled c ∧ a.effect c = d := by
  rw [Step, step, Option.ite_none_right_eq_some, Option.some_inj]

/-! ## Items and wakeups -/

/-- Between sends and drains, an item in the channel comes with a counter above zero. -/
def Awake (c : Channel T) : Prop :=
  c.pending = 0 → c.receiver.isOutside → c.queue ≠ [] → c.counter ≠ 0

/-- Each item has been announced, or its send is still to do so. -/
def Announced (c : Channel T) : Prop := c.queue ≠ [] → c.counter ≠ 0 ∨ c.pending ≠ 0

/-- A reset is harmless where nothing is queued, or a send is about to announce its item. -/
def ResetHarmless (c : Channel T) : Prop := c.queue = [] ∨ c.pending ≠ 0

section

variable [DecidableEq T] (c : Channel T)

instance : Decidable (Awake c) :=
  inferInstanceAs (Decidable (_ → _ → _ → _))

instance : Decidable (ResetHarmless c) := inferInstanceAs (Decidable (_ ∨ _))

end

theorem Announced.awake {c : Channel T} (h : Announced c) : Awake c :=
  fun hp _ hq => (h hq).resolve_right fun hne => hne hp

/-- Every step but a harmful reset keeps the items announced. -/
theorem step_announced {c d : Channel T} {a : Act T} (hs : Step c a d) (h : Announced c)
    (hreset : a = .reset → ResetHarmless c) : Announced d := by
  obtain ⟨-, rfl⟩ := step_iff.mp hs
  cases a with
  | enqueue value =>
    change Announced (c.enqueue value)
    unfold Channel.enqueue
    split
    · exact h
    · exact fun _ => Or.inr (Nat.succ_ne_zero _)
  | notify => exact fun _ => Or.inl (EventFd.notify_ne_zero _)
  | dropSender => exact h
  | poll => exact h
  | enterDrain => exact h
  | tryRecv =>
    change Announced c.tryRecv
    unfold Channel.tryRecv
    split
    · rename_i item queue hq
      exact fun _ => h (by rw [hq]; exact List.cons_ne_nil _ _)
    · exact h
  | reset => exact fun hq => Or.inr ((hreset rfl).resolve_left hq)
  | dropReceiver => exact fun hq => (hq rfl).elim

/-- After a harmful reset an item lies behind a counter at zero. -/
theorem reset_not_awake {c d : Channel T} (hs : Step c .reset d) (h : ¬ ResetHarmless c) :
    ¬ Awake d := by
  obtain ⟨hen, rfl⟩ := step_iff.mp hs
  obtain ⟨hq, hp⟩ := not_or.mp h
  intro hawake
  refine hawake (not_not.mp hp) ?_ hq (EventFd.drain_counter _)
  change c.receiver.isResetting = true at hen
  change c.receiver.leave.isOutside = true
  cases hr : c.receiver with
  | resetting disconnected => rfl
  | _ => rw [hr] at hen; cases hen

/-- No wakeup is lost in a run exactly if every reset of the eventfd in it comes while the
channel is empty or a send is between its two steps. -/
theorem no_lost_wakeup_iff (l : List (Channel T × Act T)) (c : Channel T)
    (h : Trace Step (Channel.new T) l c) :
    (∀ d ∈ visited l c, Awake d) ↔ ∀ x ∈ l, x.2 = .reset → ResetHarmless x.1 := by
  constructor
  · rintro hawake ⟨d, a⟩ hd rfl
    by_contra hharm
    obtain ⟨e, he, hs⟩ := h.next hd
    exact reset_not_awake hs hharm (hawake e he)
  · intro hreset d hd
    refine (h.keeps_visited (J := Announced) (fun hq => (hq rfl).elim) ?_ d hd).awake
    intro u a v hu hj hs
    exact step_announced hs hj (hreset (u, a) hu)

/-! ## Runs of the rumble channel -/

inductive RumbleCmd where
  /-- Play with these magnitudes. -/
  | play (strong weak : UInt16)
  /-- Silence both motors. -/
  | stop
deriving DecidableEq, Repr

/-- The second send queues its item during a drain, before the last `try_recv`. -/
def heardActs : List (Act RumbleCmd) :=
  [.enqueue (.play 512 256), .notify, .poll, .enterDrain, .tryRecv, .enqueue .stop, .tryRecv,
    .tryRecv, .notify, .reset]

/-- It queues its item after the last `try_recv`, and announces it before the reset. -/
def lostActs : List (Act RumbleCmd) :=
  [.enqueue (.play 512 256), .notify, .poll, .enterDrain, .tryRecv, .tryRecv, .enqueue .stop,
    .notify, .reset]

theorem no_lost_wakeup_iff_sample :
    ∃ l c, replay step (Channel.new RumbleCmd) heardActs = some (l, c) ∧
      c.received = [.play 512 256, .stop] ∧ ∀ d ∈ visited l c, Awake d := by
  have hend : ∃ r, replay step (Channel.new RumbleCmd) heardActs = some r ∧
      r.2.received = [.play 512 256, .stop] ∧ ∀ x ∈ r.1, x.2 = .reset → ResetHarmless x.1 :=
    ⟨_, rfl, rfl, by decide⟩
  obtain ⟨⟨l, c⟩, hr, hreceived, hreset⟩ := hend
  exact ⟨l, c, hr, hreceived, (no_lost_wakeup_iff l c (trace_of_replay hr)).mpr hreset⟩

/-- A `Stop` lies in the channel, and `poll` is not told of it. -/
theorem stop_left_behind :
    ¬ ∀ (l : List (Channel RumbleCmd × Act RumbleCmd)) (c : Channel RumbleCmd),
      Trace Step (Channel.new RumbleCmd) l c → Awake c := by
  intro h
  have hend : ∃ r, replay step (Channel.new RumbleCmd) lostActs = some r ∧ ¬ Awake r.2 :=
    ⟨_, rfl, by decide⟩
  obtain ⟨r, hr, hasleep⟩ := hend
  exact hasleep (h r.1 r.2 (trace_of_replay hr))

/-! ## Items and their order -/

/-- Every item was received in the order in which it was queued, or is still in the channel. -/
def InOrder (c : Channel T) : Prop :=
  c.receiver ≠ .dropped → c.sent = c.received ++ c.queue

theorem step_inOrder {c d : Channel T} {a : Act T} (hs : Step c a d) (h : InOrder c) :
    InOrder d := by
  obtain ⟨hen, rfl⟩ := step_iff.mp hs
  cases a with
  | enqueue value =>
    change InOrder (c.enqueue value)
    unfold Channel.enqueue
    split
    · exact h
    · intro hr
      dsimp only
      rw [h hr, List.append_assoc]
  | notify => exact h
  | dropSender => exact h
  | poll => exact h
  | enterDrain =>
    intro _
    refine h fun hr => ?_
    rw [Act.Enabled, hr] at hen
    cases hen
  | tryRecv =>
    have hc := h (by rw [show c.receiver = .receiving from hen]; exact Receiver.noConfusion)
    change InOrder c.tryRecv
    unfold Channel.tryRecv
    split
    · rename_i item queue hq
      intro _
      dsimp only
      rw [hc, hq, List.append_assoc, List.singleton_append]
    · exact fun _ => hc
  | reset =>
    intro _
    refine h fun hr => ?_
    rw [Act.Enabled, hr] at hen
    cases hen
  | dropReceiver => exact fun hr => (hr rfl).elim

/-- No item is lost, doubled or overtaken. -/
theorem received_in_order {l : List (Channel T × Act T)} {c : Channel T}
    (h : Trace Step (Channel.new T) l c) : InOrder c :=
  h.keeps (J := InOrder) (fun _ => rfl) fun _ hj hs => step_inOrder hs hj

/-- A drain that is not disturbed receives everything. -/
theorem drain_delivers (c : Channel T) (hr : c.receiver = .receiving) :
    (replay step c (List.replicate (c.queue.length + 1) .tryRecv ++ [.reset])).map Prod.snd =
      some { c with
        queue := []
        counter := 0
        receiver := .outside (some c.senderDropped)
        received := c.received ++ c.queue } := by
  obtain ⟨queue, counter, pending, senderDropped, receiver, sent, received⟩ := c
  obtain rfl : receiver = .receiving := hr
  induction queue generalizing received with
  | nil =>
    simp [replay, step, Act.Enabled, Act.effect, Channel.tryRecv, Receiver.isResetting,
      Receiver.leave, EventFd.drain_counter]
  | cons item queue ih =>
    rw [List.length_cons, List.replicate_succ, List.cons_append, replay]
    have hs : step (T := T) ⟨item :: queue, counter, pending, senderDropped, .receiving, sent,
        received⟩ .tryRecv = some ⟨queue, counter, pending, senderDropped, .receiving, sent,
        received ++ [item]⟩ := rfl
    rw [hs]
    have := ih (received ++ [item])
    simpa using this

end Foundrix.Nsw2
