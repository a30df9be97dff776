import SimBroker.TradingError

/-!
# The broadcast hub

The hub delivers every message to the queue of every subscriber, and waits for none.  A subscriber
whose queue is full, or whose receiving end is gone, is dropped at the next message; what is queued
for it can still be received, and then its stream ends.

No queue can be longer than `maxCapacity`.  A hub that is asked for a longer one stops: it drops
every subscriber, and takes no command any more.
-/

namespace SimBroker

/-- A subscriber of messages `μ`. -/
structure Subscriber (μ : Type) where
  id : Nat
  /-- The longest queue. -/
  capacity : Nat
  /-- The messages delivered and not received, oldest first. -/
  queue : List μ := []
  /-- Whether the hub still delivers to it. -/
  registered : Bool := true
  /-- Whether its receiving end is still there. -/
  held : Bool := true
  deriving DecidableEq

/-- What a receiver finds. -/
inductive Received (μ : Type) where
  | message (m : μ)
  /-- Nothing yet. -/
  | pending
  /-- Nothing any more. -/
  | ended
  deriving DecidableEq

namespace Subscriber

variable {μ : Type}

/-- Whether the next message will drop the subscriber. -/
def isStuck (s : Subscriber μ) : Bool := !s.held || decide (s.capacity ≤ s.queue.length)

/-- Delivers a message to a registered subscriber, or drops it. -/
def deliver (s : Subscriber μ) (m : μ) : Subscriber μ :=
  if !s.registered then s
  else if s.isStuck then { s with registered := false }
  else { s with queue := s.queue ++ [m] }

/-- Takes the next message. -/
def receive (s : Subscriber μ) : Received μ × Subscriber μ :=
  match s.queue with
  | m :: queue => (.message m, { s with queue })
  | [] => (if s.registered then .pending else .ended, s)

end Subscriber

/-- The longest queue there can be: `2 ^ 61 - 1` messages. -/
def maxCapacity : Nat := 2305843009213693951

/-- A hub for messages `μ`. -/
structure Hub (μ : Type) where
  /-- The capacity of subscribers that ask for none. -/
  queueDepth : Nat
  nextId : Nat := 1
  /-- Everyone who has subscribed, in that order. -/
  subscribers : List (Subscriber μ) := []
  /-- How many subscribers a message has dropped. -/
  dropped : Nat := 0
  /-- The number of registered subscribers last reported, if any was. -/
  reported : Option Nat := none
  /-- Whether the hub takes no command any more. -/
  stopped : Bool := false
  deriving DecidableEq

namespace Hub

variable {μ : Type}

/-- A hub without subscribers; a queue holds at least one message. -/
def new (queueDepth : Nat) : Hub μ where
  queueDepth := max queueDepth 1

/-- How many subscribers are registered. -/
def size (h : Hub μ) : Nat := (h.subscribers.filter (·.registered)).length

/-- Reports the number of registered subscribers, as every command does when it is done. -/
def report (h : Hub μ) : Hub μ := if h.stopped then h else { h with reported := some h.size }

/-- The hub at its end. -/
def stop (h : Hub μ) : Hub μ :=
  { h with
    subscribers := h.subscribers.map fun s => { s with registered := false }
    stopped := true }

/-- The subscriber with an id. -/
def subscriber? (h : Hub μ) (id : Nat) : Option (Subscriber μ) :=
  h.subscribers.find? fun s => s.id = id

/-- The hub with a subscriber changed. -/
def modify (h : Hub μ) (id : Nat) (f : Subscriber μ → Subscriber μ) : Hub μ :=
  { h with subscribers := h.subscribers.map fun s => if s.id = id then f s else s }

/-- Registers a subscriber, and gives it an id that was never used.  A capacity that no queue can
have stops the hub. -/
def subscribe (h : Hub μ) (capacity : Option Nat) : Outcome Nat × Hub μ :=
  let s : Subscriber μ := { id := h.nextId, capacity := max (capacity.getD h.queueDepth) 1 }
  if h.stopped || decide (maxCapacity < s.capacity) then
    (.error (.invalidState "broadcast hub is stopped"), h.stop)
  else (.ok h.nextId, report { h with nextId := h.nextId + 1, subscribers := h.subscribers ++ [s] })

/-- Stops deliveries to a subscriber; an unknown id means nothing. -/
def unsubscribe (h : Hub μ) (id : Nat) : Hub μ :=
  (h.modify id fun s => { s with registered := false }).report

/-- Delivers a message to everyone registered. -/
def publish (h : Hub μ) (m : μ) : Hub μ :=
  let stuck := h.subscribers.filter fun s => s.registered && s.isStuck
  let subscribers := h.subscribers.map fun s => s.deliver m
  report { h with subscribers, dropped := h.dropped + stuck.length }

/-- How many subscribers are registered, as a command of its own. -/
def count (h : Hub μ) : Nat × Hub μ := (h.size, h.report)

/-- Takes a subscriber's next message. -/
def receive (h : Hub μ) (id : Nat) : Option (Received μ × Hub μ) := do
  let s ← h.subscriber? id
  if s.held then
    let (found, s) := s.receive
    return (found, h.modify id fun _ => s)
  else none

/-- Takes all messages queued for a subscriber. -/
def receiveAll (h : Hub μ) (id : Nat) : List μ × Hub μ :=
  (((h.subscriber? id).map Subscriber.queue).getD [], h.modify id fun s => { s with queue := [] })

/-- Lets go of a subscriber's receiving end; whether it was there. -/
def release (h : Hub μ) (id : Nat) : Bool × Hub μ :=
  ((h.subscriber? id).any (·.held), h.modify id fun s => { s with held := false, queue := [] })

/-! ## Runs -/

/-- A command to the hub, or what a subscriber does at its end. -/
inductive Command (μ : Type) where
  | subscribe (capacity : Option Nat)
  | unsubscribe (id : Nat)
  | publish (m : μ)
  | count
  | receive (id : Nat)
  | release (id : Nat)

/-- Carries out one command. -/
def step (h : Hub μ) : Command μ → Hub μ
  | .subscribe capacity => (h.subscribe capacity).2
  | .unsubscribe id => h.unsubscribe id
  | .publish m => h.publish m
  | .count => h.count.2
  | .receive id => ((h.receive id).map Prod.snd).getD h
  | .release id => (h.release id).2

/-- Carries out a list of commands in order. -/
def run (h : Hub μ) (commands : List (Command μ)) : Hub μ := commands.foldl step h

end Hub

end SimBroker
