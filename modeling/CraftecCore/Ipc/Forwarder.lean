import CraftecCore.Ipc.Server

/-!
# Forwarder — events on their way to a Unix client

Beside the loop of a connection runs a task that takes events from its receiver and puts them into
the local channel of the loop, which holds 64; when it is full the task waits with one event in
hand.  No event that the receiver returned is lost on the way to the client, and the connection
itself sees no more than a local channel that grows at any time: every run of the two tasks is a run
of the connection alone.
-/

namespace CraftecCore
namespace Ipc

open Transition

variable {V : Type}

def Output.event? : Output V → Option String
  | .response _ => none
  | .event text => some text

structure UnixPeer (V : Type) where
  connection : Connection V
  /-- All that the receiver of events has returned so far. -/
  received : List String
  /-- The event that waits for room in the local channel. -/
  held : Option String
  /-- The forwarder was not left. -/
  forwarding : Bool

def UnixPeer.Accepted (s : UnixPeer V) : Prop :=
  s = { connection := Connection.opened, received := [], held := none, forwarding := true }

def localCapacity : ℕ := 64

inductive UnixEvent
  | receive (r : Received)
  | push
  | broken
  | serve (e : ConnectionEvent)

/-- What happens to a connection by itself; events reach it through the forwarder. -/
def ConnectionEvent.Own : ConnectionEvent → Prop
  | .broadcast _ => False
  | _ => True

/-- One step of the two tasks. -/
inductive UnixServe (x : JsonPackage V) (handler : Handler V) :
    UnixPeer V → UnixEvent → UnixPeer V → Prop
  | value {s : UnixPeer V} (text : String) :
      s.forwarding = true → s.held = none →
        UnixServe x handler s (.receive (.value text))
          { s with
            received := s.received ++ [text]
            held := some text }
  | lagged {s : UnixPeer V} (missed : ℕ) :
      s.forwarding = true → s.held = none → UnixServe x handler s (.receive (.lagged missed)) s
  | closed {s : UnixPeer V} :
      s.forwarding = true → s.held = none →
        UnixServe x handler s (.receive .closed) { s with forwarding := false }
  | push {s : UnixPeer V} {text : String} :
      s.forwarding = true → s.held = some text → s.connection.running = true →
        s.connection.events.length < localCapacity →
          UnixServe x handler s .push
            { s with
              connection := { s.connection with events := s.connection.events ++ [text] }
              held := none }
  | broken {s : UnixPeer V} {text : String} :
      s.forwarding = true → s.held = some text → s.connection.running = false →
        UnixServe x handler s .broken { s with forwarding := false }
  | serve {s : UnixPeer V} {e : ConnectionEvent} {c : Connection V} :
      e.Own → Serve x handler s.connection e c →
        UnixServe x handler s (.serve e) { s with connection := c }

/-! ## What the connection does with its events -/

/-- The events that a connection has taken from its forwarder. -/
def Connection.accountedEvents (c : Connection V) : List String :=
  c.written.filterMap Output.event? ++ c.events

section Serve

variable {x : JsonPackage V} {handler : Handler V} {c c' : Connection V} {e : ConnectionEvent}

theorem accountedEvents_handleLine (x : JsonPackage V) (handler : Handler V) (bytes : List UInt8)
    (c : Connection V) :
    (c.handleLine x handler bytes).accountedEvents = c.accountedEvents ∧
      (c.handleLine x handler bytes).events = c.events := by
  unfold Connection.handleLine
  cases Text.fromUtf8 bytes with
  | none => exact ⟨rfl, rfl⟩
  | some text =>
      by_cases hblank : Text.trim text = ""
      · simp [hblank, Connection.accountedEvents]
      · simp [hblank, Connection.accountedEvents, Output.event?]

/-- The loop writes the events of its local channel in order and loses none. -/
theorem accountedEvents_serve (hown : e.Own) (h : Serve x handler c e c') :
    c'.accountedEvents = c.accountedEvents ∧ c'.events.length ≤ c.events.length := by
  cases h with
  | send bytes hopen => exact ⟨rfl, Nat.le_refl _⟩
  | close => exact ⟨rfl, Nat.le_refl _⟩
  | broadcast text => exact hown.elim
  | poll hrunning harrived hfree => exact ⟨rfl, Nat.le_refl _⟩
  | line hrunning hmem =>
      rcases accountedEvents_handleLine x handler
        (c.consumed ++ (Text.readLine c.arrived).1)
        { c with arrived := (Text.readLine c.arrived).2 } with ⟨haccounted, hevents⟩
      exact ⟨haccounted, by rw [hevents]⟩
  | disconnected hrunning hclosed harrived hconsumed => exact ⟨rfl, Nat.le_refl _⟩
  | lastLine hrunning hclosed harrived hconsumed =>
      rcases accountedEvents_handleLine x handler c.consumed c with
        ⟨haccounted, hevents⟩
      exact ⟨haccounted, by rw [hevents]⟩
  | event hrunning hevents =>
      constructor
      · simp [Connection.accountedEvents, Output.event?, hevents]
      · simp [hevents]

end Serve

/-! ## Every run -/

/-- What holds of a connection and its forwarder at any time. -/
structure UnixPeer.Forwards (x : JsonPackage V) (handler : Handler V) (s : UnixPeer V) : Prop where
  /-- The connection alone could have got here. -/
  serves : Run CraftecCore.Ipc.Accepted (Serve x handler) (fun _ _ => True) s.connection
  /-- What was received is written, in the local channel or in hand, in this order. -/
  events : s.connection.accountedEvents ++ s.held.toList = s.received
  bounded : s.connection.events.length ≤ localCapacity

section Forward

variable {x : JsonPackage V} {handler : Handler V} {s s' : UnixPeer V} {e : UnixEvent}

theorem UnixPeer.Accepted.forwards (h : s.Accepted) : s.Forwards x handler := by
  unfold UnixPeer.Accepted at h
  subst h
  exact
    { serves := Run.start rfl
      events := rfl
      bounded := Nat.zero_le _ }

/-- Step: what one act of the two tasks preserves. -/
theorem UnixPeer.Forwards.step (h : s.Forwards x handler) (hstep : UnixServe x handler s e s') :
    s'.Forwards x handler := by
  cases hstep with
  | value text hforwarding hheld =>
      exact
        { h with
          events := by
            have hevents := h.events
            rw [hheld, Option.toList_none, List.append_nil] at hevents
            rw [← hevents]
            rfl }
  | lagged missed hforwarding hheld => exact h
  | closed hforwarding hheld => exact { h with }
  | @push text hforwarding hheld hrunning hroom =>
      exact
        { h with
          serves := h.serves.step trivial (Serve.broadcast _ text)
          events := by
            have hevents := h.events
            rw [hheld] at hevents
            simpa [Connection.accountedEvents] using hevents
          bounded := by
            simp only [List.length_append, List.length_singleton]
            exact hroom }
  | broken hforwarding hheld hstopped => exact { h with }
  | serve hown hserve =>
      rcases accountedEvents_serve hown hserve with ⟨haccounted, hlen⟩
      exact
        { h with
          serves := h.serves.step trivial hserve
          events := by
            rw [haccounted]
            exact h.events
          bounded := hlen.trans h.bounded }

/-- In every run of a connection and its forwarder: the events written to the client, those in the
local channel and the one in hand are, in this order, what the receiver returned; the local channel
never holds more than its capacity; and the connection is in a state that it reaches by itself when
events just appear in its local channel. -/
theorem unix_events_forwarded {allowed : UnixPeer V → UnixEvent → Prop}
    (hrun : Run UnixPeer.Accepted (UnixServe x handler) allowed s) : s.Forwards x handler := by
  refine Run.invariant (I := fun s => s.Forwards x handler) ?_ ?_ hrun
  · intro s hs
    exact hs.forwards
  · intro s e s' h _ hstep
    exact h.step hstep

end Forward

/-- An event is received and put into the local channel. -/
theorem unix_events_forwarded_tick :
    ∃ s : UnixPeer PlainValue, s.connection.events = [tickEventText] ∧
      s.Forwards plainJson readyHandler := by
  have hstart : Run UnixPeer.Accepted (UnixServe plainJson readyHandler) (fun _ _ => True)
      { connection := Connection.opened
        received := []
        held := none
        forwarding := true } := Run.start rfl
  have hreceived := hstart.step trivial (UnixServe.value tickEventText rfl rfl)
  have hpushed := hreceived.step trivial (UnixServe.push rfl rfl rfl (by decide))
  exact ⟨_, rfl, unix_events_forwarded hpushed⟩

end Ipc
end CraftecCore
