import Foundrix.Effect.Wp
import Foundrix.OperatorSecrets.Daemon
import Foundrix.OperatorSecrets.Tui

/-!
# The daemon and its clients

operator-secretsd with any number of clients. A client is sent some of the snapshots, in their
order, and takes key presses; what it sends waits in its connection until it is put at the end of
the daemon's queue, or is lost with the connection. The daemon takes the first message of the
queue.

* `Client`, `Net`, `ClientStep`: the clients, the queue, and the steps that are not the daemon's.
* `net`: the daemon's operations between such steps.
* `Later`: what never goes back.
* `Inv`: what holds of the snapshots, the clients and the messages.
-/

namespace Foundrix.OperatorSecrets

open Effect

/-! ## Clients and messages -/

/-- A message, with its sender and the place of its sending among what happened to it. -/
structure Letter where
  client : Nat
  number : Nat
  msg : ClientMsg
deriving DecidableEq, Repr

def Letter.tag (l : Letter) : Nat × Nat := (l.client, l.number)

structure Client where
  cli : Tui.Cli := {}
  /-- What has happened to it, the earliest first. -/
  history : List Tui.Event := []
  /-- The snapshots before this one were sent to it or passed over. -/
  next : Nat := 0
  /-- What it sent and is still on its way. -/
  outbox : List Letter := []

namespace Client

def app (c : Client) : Tui.App := Tui.after c.cli c.history

/-- A turn of the client with the number `n`. -/
def turn (c : Client) (n : Nat) (e : Tui.Event) : Client :=
  { c with
    history := c.history ++ [e]
    outbox := c.outbox ++
      (((c.app.handle c.cli e).sent).map fun msg => ⟨n, c.history.length, msg⟩).toList }

end Client

/-- The clients, and the daemon's end of their connections. -/
structure Net where
  clients : Nat → Client
  queue : List Letter := []
  /-- What the daemon took from the queue, the earliest first. -/
  received : List Letter := []

def Net.set (n : Net) (i : Nat) (c : Client) : Net :=
  { n with clients := Function.update n.clients i c }

/-- The snapshots that the clients may be sent; the first one is there before the first change. -/
def published (w : World) : List Snapshot := {} :: w.sent

/-- The steps that are not the daemon's. -/
inductive ClientStep (w : World) (n : Net) : Net → Prop
  /-- A connection carries any snapshot after the last one. -/
  | line (i k : Nat) (snap : Snapshot) (written : Bool) (hlater : (n.clients i).next ≤ k)
      (hsnap : (published w)[k]? = some snap) (hthere : (n.clients i).app.daemonGone = false)
      (hopen : (n.clients i).app.returned = false) :
      ClientStep w n
        (n.set i { (n.clients i).turn i (.line snap written) with next := k + 1 })
  | closed (i : Nat) (hopen : (n.clients i).app.returned = false) :
      ClientStep w n (n.set i ((n.clients i).turn i .closed))
  | key (i : Nat) (key : Tui.Key) (written : Bool) (hopen : (n.clients i).app.returned = false) :
      ClientStep w n (n.set i ((n.clients i).turn i (.key key written)))
  /-- The first message of a connection reaches the queue. -/
  | carry (i : Nat) (l : Letter) (rest : List Letter) (houtbox : (n.clients i).outbox = l :: rest) :
      ClientStep w n
        { n.set i { n.clients i with outbox := rest } with queue := n.queue ++ [l] }
  /-- What a connection still held is lost. -/
  | lose (i : Nat) : ClientStep w n (n.set i { n.clients i with outbox := [] })

/-- A step of the clients, which changes nothing of the daemon. -/
def clientsMove (x y : World × Net) : Prop := y.1 = x.1 ∧ ClientStep x.1 x.2 y.2

/-- What the daemon does, and what comes of it. -/
def netAnswer : {β : Type} → Op β → World × Net → β → World × Net → Prop
  | _, .tryRecv, x, b, y =>
    match x.2.queue with
    | [] => b = none ∧ y = x
    | l :: rest => b = some l.msg ∧
        y = (x.1, { x.2 with queue := rest, received := x.2.received ++ [l] })
  | _, e, x, b, y => Answer e x.1 b y.1 ∧ y.2 = x.2

/-- The daemon's operations, with any steps of the clients before each. -/
def net : Handler Op (World × Net) where
  step e x b y := ∃ m, Relation.ReflTransGen clientsMove x m ∧ netAnswer e m b y

theorem tryRecv_cases {x y : World × Net} {b : Option ClientMsg} (h : netAnswer .tryRecv x b y) :
    (b = none ∧ y = x) ∨ ∃ l rest, x.2.queue = l :: rest ∧ b = some l.msg ∧
      y = (x.1, { x.2 with queue := rest, received := x.2.received ++ [l] }) := by
  have hanswer : match x.2.queue with
      | [] => b = none ∧ y = x
      | l :: rest => b = some l.msg ∧
          y = (x.1, { x.2 with queue := rest, received := x.2.received ++ [l] }) := h
  split at hanswer
  · exact Or.inl hanswer
  · rename_i l rest hqueue
    exact Or.inr ⟨l, rest, hqueue, hanswer⟩

/-! ## What never goes back -/

structure Later (x y : World × Net) : Prop where
  sent : x.1.sent <+: y.1.sent
  promptId : x.1.promptId ≤ y.1.promptId
  received : x.2.received <+: y.2.received
  history : ∀ i, (x.2.clients i).history <+: (y.2.clients i).history
  cli : ∀ i, (y.2.clients i).cli = (x.2.clients i).cli

section Later

variable {x y z : World × Net} {n : Net} {i : Nat} {c : Client}

@[simp] theorem Net.set_clients_self : (n.set i c).clients i = c := Function.update_self _ _ _

theorem Net.set_clients_of_ne {j : Nat} (h : j ≠ i) : (n.set i c).clients j = n.clients j :=
  Function.update_of_ne h _ _

@[simp] theorem Net.set_queue : (n.set i c).queue = n.queue := rfl

@[simp] theorem Net.set_received : (n.set i c).received = n.received := rfl

theorem Later.refl (x : World × Net) : Later x x :=
  ⟨List.prefix_rfl, le_rfl, List.prefix_rfl, fun _ => List.prefix_rfl, fun _ => rfl⟩

theorem Later.trans (h : Later x y) (h' : Later y z) : Later x z :=
  ⟨h.sent.trans h'.sent, h.promptId.trans h'.promptId, h.received.trans h'.received,
    fun i => (h.history i).trans (h'.history i), fun i => (h'.cli i).trans (h.cli i)⟩

/-- A client whose history goes on. -/
theorem later_set {w : World} {queue : List Letter} (hcli : c.cli = (n.clients i).cli)
    (hhistory : (n.clients i).history <+: c.history) :
    Later (w, n) (w, { n.set i c with queue }) := by
  refine ⟨List.prefix_rfl, le_rfl, List.prefix_rfl, fun j => ?_, fun j => ?_⟩
  · by_cases hj : j = i
    · subst hj
      show _ <+: ((n.set j c).clients j).history
      rwa [Net.set_clients_self]
    · show _ <+: ((n.set i c).clients j).history
      rw [Net.set_clients_of_ne hj]
  · by_cases hj : j = i
    · subst hj
      show ((n.set j c).clients j).cli = _
      rwa [Net.set_clients_self]
    · show ((n.set i c).clients j).cli = _
      rw [Net.set_clients_of_ne hj]

theorem later_of_clients (h : clientsMove x y) : Later x y := by
  obtain ⟨w, n⟩ := x
  obtain ⟨w', n'⟩ := y
  obtain ⟨rfl, hstep⟩ := h
  have hstep : ClientStep w' n n' := hstep
  cases hstep with
  | line i k snap written => exact later_set rfl (List.prefix_append _ _)
  | closed i => exact later_set rfl (List.prefix_append _ _)
  | key i key written => exact later_set rfl (List.prefix_append _ _)
  | carry i l rest => exact later_set rfl List.prefix_rfl
  | lose i => exact later_set rfl List.prefix_rfl

theorem later_of_many (h : Relation.ReflTransGen clientsMove x y) : Later x y := by
  induction h with
  | refl => exact .refl x
  | tail _ hstep ih => exact ih.trans (later_of_clients hstep)

theorem later_of_answer {β : Type} {e : Op β} {b : β} (h : netAnswer e x b y) : Later x y := by
  have hkept : ∀ {w : World}, x.1.sent <+: w.sent → x.1.promptId ≤ w.promptId →
      Later x (w, x.2) :=
    fun hsent hid => ⟨hsent, hid, List.prefix_rfl, fun _ => List.prefix_rfl, fun _ => rfl⟩
  obtain ⟨w, n⟩ := y
  cases e with
  | tryRecv =>
    rcases tryRecv_cases h with ⟨-, hy⟩ | ⟨l, rest, -, -, hy⟩
    · rw [hy]
      exact .refl x
    · rw [hy]
      exact ⟨List.prefix_rfl, le_rfl, List.prefix_append _ _, fun _ => List.prefix_rfl, fun _ => rfl⟩
  | mutate f =>
    obtain ⟨⟨how, -, hw⟩, rfl⟩ := h
    rw [show w = (x.1.mutate f).overwrite how from hw]
    exact hkept (List.prefix_append _ _) le_rfl
  | nextPromptId =>
    obtain ⟨⟨-, hw⟩, rfl⟩ := h
    rw [show w = _ from hw]
    exact hkept List.prefix_rfl (Nat.le_succ _)
  | eprintln =>
    obtain ⟨hw, rfl⟩ := h
    rw [show w = _ from hw]
    exact hkept List.prefix_rfl le_rfl
  | writeState =>
    obtain ⟨⟨how, -, hw⟩, rfl⟩ := h
    rw [show w = _ from hw]
    exact hkept List.prefix_rfl le_rfl
  | _ =>
    obtain ⟨hw, rfl⟩ := h
    rw [show w = _ from answer_mute (by trivial) hw]
    exact hkept List.prefix_rfl le_rfl

theorem run_later {α : Type} {p : Daemon α} {o : Option (Except Stop α)} (h : Run net p x o y) :
    Later x y := by
  refine h.keeps (J := Later x) (fun e u b v hu hs => ?_) (.refl x)
  obtain ⟨m, hclients, hanswer⟩ := hs
  exact (hu.trans (later_of_many hclients)).trans (later_of_answer hanswer)

end Later

/-! ## What holds of the messages -/

/-- The client sent the message at the place that it carries. -/
def Letter.Sent (n : Net) (l : Letter) : Prop :=
  ∃ past e rest, (n.clients l.client).history = past ++ e :: rest ∧ past.length = l.number ∧
    ((Tui.after (n.clients l.client).cli past).handle (n.clients l.client).cli e).sent = some l.msg

/-- The clients saw published snapshots, and every message is the one of its place, which is
nowhere else. -/
structure Mail (w : World) (n : Net) : Prop where
  seen : ∀ i snap written, .line snap written ∈ (n.clients i).history → snap ∈ published w
  sender : ∀ i, ∀ l ∈ (n.clients i).outbox, l.client = i
  outgoing : ∀ i, ∀ l ∈ (n.clients i).outbox, l.Sent n
  arrived : ∀ l ∈ n.received ++ n.queue, l.Sent n
  outboxes : ∀ i, ((n.clients i).outbox.map Letter.tag).Nodup
  once : ((n.received ++ n.queue).map Letter.tag).Nodup
  apart : ∀ i, ∀ l ∈ (n.clients i).outbox, l.tag ∉ (n.received ++ n.queue).map Letter.tag

section Mail

variable {w w' : World} {n n' : Net} {i : Nat} {c : Client}

theorem Letter.Sent.later {l : Letter} (h : l.Sent n) (hl : Later (w, n) (w', n')) : l.Sent n' := by
  obtain ⟨past, e, rest, hhistory, hnumber, hsent⟩ := h
  obtain ⟨more, hmore⟩ := hl.history l.client
  have hcli : (n'.clients l.client).cli = (n.clients l.client).cli := hl.cli l.client
  have hmore : (n.clients l.client).history ++ more = (n'.clients l.client).history := hmore
  refine ⟨past, e, rest ++ more, ?_, hnumber, hcli ▸ hsent⟩
  rw [← hmore, hhistory, List.append_assoc]
  rfl

/-- The place of a message is in the history of its sender. -/
theorem Letter.Sent.lt {l : Letter} (h : l.Sent n) :
    l.number < (n.clients l.client).history.length := by
  obtain ⟨past, e, rest, hhistory, hnumber, -⟩ := h
  rw [hhistory, ← hnumber]
  simp

theorem Mail.grow (h : Mail w n) (hw : ∀ s ∈ published w, s ∈ published w') : Mail w' n :=
  ⟨fun i s r hs => hw s (h.seen i s r hs), h.sender, h.outgoing, h.arrived, h.outboxes, h.once,
    h.apart⟩

/-- Of a client, only its outbox gets shorter. -/
theorem Mail.shorten (h : Mail w n) {outbox queue : List Letter} (i : Nat)
    (hout : outbox.Sublist (n.clients i).outbox)
    (harrived : ∀ l ∈ n.received ++ queue, l.Sent n)
    (honce : ((n.received ++ queue).map Letter.tag).Nodup)
    (hapart : ∀ j, ∀ l ∈ ((n.set i { n.clients i with outbox }).clients j).outbox,
      l.tag ∉ (n.received ++ queue).map Letter.tag) :
    Mail w { n.set i { n.clients i with outbox } with queue } := by
  have hlater : Later (w, n) (w, { n.set i { n.clients i with outbox } with queue }) :=
    later_set rfl List.prefix_rfl
  have hhistory : ∀ j, ((n.set i { n.clients i with outbox }).clients j).history =
      (n.clients j).history := by
    intro j
    by_cases hj : j = i
    · rw [hj, Net.set_clients_self]
    · rw [Net.set_clients_of_ne hj]
  have hsub : ∀ j, ((n.set i { n.clients i with outbox }).clients j).outbox.Sublist
      (n.clients j).outbox := by
    intro j
    by_cases hj : j = i
    · subst hj
      rw [Net.set_clients_self]
      exact hout
    · rw [Net.set_clients_of_ne hj]
  refine ⟨fun j s r hs => h.seen j s r ?_, fun j l hl => h.sender j l ((hsub j).subset hl),
    fun j l hl => (h.outgoing j l ((hsub j).subset hl)).later hlater,
    fun l hl => (harrived l hl).later hlater, fun j => ((hsub j).map _).nodup (h.outboxes j),
    honce, hapart⟩
  exact (hhistory j) ▸ hs

/-- A message that is sent now was not there before. -/
theorem Mail.fresh (h : Mail w n) {l : Letter} (hl : l ∈ (n.clients i).outbox ∨
    l ∈ n.received ++ n.queue) (hclient : l.client = i) :
    l.number ≠ (n.clients i).history.length := by
  have hsent : l.Sent n := by
    rcases hl with hl | hl
    · exact h.outgoing i l hl
    · exact h.arrived l hl
  subst hclient
  exact hsent.lt.ne

theorem Mail.turn (h : Mail w n) (i k : Nat) (e : Tui.Event)
    (he : ∀ snap written, e = .line snap written → snap ∈ published w) :
    Mail w (n.set i { (n.clients i).turn i e with next := k }) := by
  have hlater : Later (w, n) (w, n.set i { (n.clients i).turn i e with next := k }) :=
    later_set rfl (List.prefix_append _ _)
  -- the messages of a client afterwards: those of before, and perhaps the new one
  have hout : ∀ j, ∀ l ∈ ((n.set i { (n.clients i).turn i e with next := k }).clients j).outbox,
      l ∈ (n.clients j).outbox ∨ (j = i ∧ l.client = i ∧
        l.number = (n.clients i).history.length ∧
        ((n.clients i).app.handle (n.clients i).cli e).sent = some l.msg) := by
    intro j l hl
    by_cases hj : j = i
    · subst hj
      rw [Net.set_clients_self] at hl
      rcases List.mem_append.mp hl with hl | hl
      · exact Or.inl hl
      · rw [Option.mem_toList, Option.map_eq_some_iff] at hl
        obtain ⟨msg, hmsg, rfl⟩ := hl
        exact Or.inr ⟨rfl, rfl, rfl, hmsg⟩
    · rw [Net.set_clients_of_ne hj] at hl
      exact Or.inl hl
  refine ⟨fun j s r hs => ?_, fun j l hl => ?_, fun j l hl => ?_,
    fun l hl => (h.arrived l hl).later hlater, fun j => ?_, h.once, fun j l hl => ?_⟩
  · by_cases hj : j = i
    · subst hj
      rw [Net.set_clients_self] at hs
      rcases List.mem_append.mp hs with hs | hs
      · exact h.seen j s r hs
      · exact he s r (List.mem_singleton.mp hs).symm
    · rw [Net.set_clients_of_ne hj] at hs
      exact h.seen j s r hs
  · rcases hout j l hl with hl | ⟨rfl, hclient, -⟩
    · exact h.sender j l hl
    · exact hclient
  · rcases hout j l hl with hl | ⟨rfl, hclient, hnumber, hsent⟩
    · exact (h.outgoing j l hl).later hlater
    · subst hclient
      refine ⟨(n.clients l.client).history, e, [], ?_, hnumber.symm, ?_⟩
      · rw [Net.set_clients_self]
        rfl
      · rw [Net.set_clients_self]
        exact hsent
  · by_cases hj : j = i
    · subst hj
      rw [Net.set_clients_self]
      show (((n.clients j).outbox ++ _).map Letter.tag).Nodup
      rw [List.map_append, List.nodup_append]
      refine ⟨h.outboxes j, ?_, ?_⟩
      · cases ((n.clients j).app.handle (n.clients j).cli e).sent <;> simp
      · rintro t ht t' ht' rfl
        obtain ⟨l, hl, rfl⟩ := List.mem_map.mp ht
        obtain ⟨l', hl', htag⟩ := List.mem_map.mp ht'
        rw [Option.mem_toList, Option.map_eq_some_iff] at hl'
        obtain ⟨msg, -, rfl⟩ := hl'
        obtain ⟨hclient, hnumber⟩ := Prod.mk.inj htag
        exact h.fresh (Or.inl hl) hclient.symm hnumber.symm
    · rw [Net.set_clients_of_ne hj]
      exact h.outboxes j
  · rcases hout j l hl with hl | ⟨rfl, hclient, hnumber, -⟩
    · exact h.apart j l hl
    · intro hmem
      obtain ⟨l', hl', htag⟩ := List.mem_map.mp hmem
      obtain ⟨hclient', hnumber'⟩ := Prod.mk.inj htag
      exact h.fresh (Or.inr hl') (hclient'.trans hclient) (hnumber'.trans hnumber)

theorem mail_clientStep (h : Mail w n) (hs : ClientStep w n n') : Mail w n' := by
  cases hs with
  | line i k snap written hlater hsnap =>
    refine h.turn i (k + 1) _ fun s r he => ?_
    cases he
    exact List.mem_of_getElem? hsnap
  | closed i => exact h.turn i (n.clients i).next _ nofun
  | key i key written => exact h.turn i (n.clients i).next _ nofun
  | carry i l rest houtbox =>
    have hmem : l ∈ (n.clients i).outbox := houtbox ▸ List.mem_cons_self
    have hnodup := h.outboxes i
    rw [houtbox, List.map_cons, List.nodup_cons] at hnodup
    refine h.shorten i (houtbox ▸ List.sublist_cons_self l rest) (fun l' hl' => ?_) ?_
      fun j l' hl' => ?_
    · rw [← List.append_assoc] at hl'
      rcases List.mem_append.mp hl' with hl' | hl'
      · exact h.arrived l' hl'
      · exact List.mem_singleton.mp hl' ▸ h.outgoing i l hmem
    · rw [← List.append_assoc, List.map_append, List.nodup_append]
      refine ⟨h.once, by simp, ?_⟩
      rintro t ht t' ht' rfl
      rw [List.map_singleton, List.mem_singleton] at ht'
      exact h.apart i l hmem (ht' ▸ ht)
    · rw [← List.append_assoc, List.map_append, List.mem_append, not_or, List.map_singleton,
        List.mem_singleton]
      by_cases hj : j = i
      · subst hj
        rw [Net.set_clients_self] at hl'
        have hold : l' ∈ (n.clients j).outbox := houtbox ▸ List.mem_cons_of_mem _ hl'
        exact ⟨h.apart j l' hold, fun htag => hnodup.1 (htag ▸ List.mem_map_of_mem hl')⟩
      · rw [Net.set_clients_of_ne hj] at hl'
        refine ⟨h.apart j l' hl', fun htag => hj ?_⟩
        have hclient := congrArg Prod.fst htag
        rw [← h.sender j l' hl', ← h.sender i l hmem]
        exact hclient
  | lose i =>
    refine h.shorten i (List.nil_sublist _) h.arrived h.once fun j l hl => ?_
    by_cases hj : j = i
    · subst hj
      rw [Net.set_clients_self] at hl
      cases hl
    · rw [Net.set_clients_of_ne hj] at hl
      exact h.apart j l hl

/-- The daemon takes the first message. -/
theorem mail_received (h : Mail w n) {l : Letter} {rest : List Letter} (hq : n.queue = l :: rest) :
    Mail w { n with queue := rest, received := n.received ++ [l] } := by
  have hlist : n.received ++ [l] ++ rest = n.received ++ n.queue := by rw [hq]; simp
  exact ⟨h.seen, h.sender, h.outgoing, fun l' hl' => h.arrived l' (hlist ▸ hl'), h.outboxes,
    by rw [hlist]; exact h.once, fun i l' hl' => by rw [hlist]; exact h.apart i l' hl'⟩

end Mail

end Foundrix.OperatorSecrets
