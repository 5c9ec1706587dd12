import CraftecCore.Ipc.Protocol
import CraftecCore.Library.Run
import CraftecCore.Library.Split

/-!
# WebSocket — the WebSocket transport of the IPC server

A client is let in by the path and the key of its request.  Its connection then waits, in each turn
of its loop, for a message of the client or for an event.  A message is taken whole or not at all,
so an event that comes first costs the client nothing: in every run, with any number of clients,
each text message is answered once and in order.  What the receiver of events returns, and when, is
left open; each event that it returns is handed on once and in order.
-/

namespace CraftecCore
namespace Ipc

open Transition

variable {V : Type}

/-! ## The handshake -/

structure WsAuth where
  /-- The key that a request must carry; none is needed when it is not set. -/
  apiKey : Option String
  deriving DecidableEq, Repr

/-- The parts of an upgrade request that the handshake looks at. -/
structure WsRequest where
  path : String
  query : Option String
  deriving DecidableEq, Repr

structure Refusal where
  status : ℕ
  body : String
  deriving DecidableEq, Repr

def keyOfPair (pair : String) : Option String :=
  match Split.splitOnce '=' pair with
  | none => none
  | some (k, v) => if k = "key" then some v else none

/-- The value of the first such pair of a query. -/
def keyValue (query : String) : Option String :=
  (Split.pieces '&' query).findSome? keyOfPair

def acceptWs (auth : WsAuth) (req : WsRequest) : Except Refusal Unit :=
  if req.path ≠ "/ws" ∧ req.path ≠ "/ws/" then
    .error { status := 404, body := "Not Found" }
  else
    match auth.apiKey with
    | none => .ok ()
    | some expected =>
        match keyValue (req.query.getD "") with
        | some k =>
            if k = expected then .ok () else .error { status := 401, body := "Unauthorized" }
        | none => .error { status := 401, body := "Unauthorized" }

/-- Who may connect: the path is right and the first `key=` of the query is followed by the key. -/
def Authorized (auth : WsAuth) (req : WsRequest) : Prop :=
  (req.path = "/ws" ∨ req.path = "/ws/") ∧
    ∀ key, auth.apiKey = some key →
      ∃ query pre post, req.query = some query ∧
        Split.pieces '&' query = pre ++ ("key=" ++ key) :: post ∧
          ∀ pair ∈ pre, ∀ value, pair ≠ "key=" ++ value

theorem keyOfPair_eq_some_iff {pair value : String} :
    keyOfPair pair = some value ↔ pair = "key=" ++ value := by
  have hglue : Split.glue '=' "key" value = "key=" ++ value := by
    apply String.toList_inj.1
    simp
  constructor
  · intro h
    unfold keyOfPair at h
    split at h
    · cases h
    · rename_i k v hsplit
      split at h
      · rename_i hk
        cases h
        rw [(Split.splitOnce_eq_some_iff.1 hsplit).2, hk, hglue]
      · cases h
  · rintro rfl
    rw [← hglue, keyOfPair, Split.splitOnce_glue (by decide)]
    simp

theorem keyValue_eq_some_iff {query key : String} :
    keyValue query = some key ↔
      ∃ pre post, Split.pieces '&' query = pre ++ ("key=" ++ key) :: post ∧
        ∀ pair ∈ pre, ∀ value, pair ≠ "key=" ++ value := by
  rw [keyValue, List.findSome?_eq_some_iff]
  constructor
  · rintro ⟨pre, pair, post, heq, hpair, hpre⟩
    rw [keyOfPair_eq_some_iff.1 hpair] at heq
    refine ⟨pre, post, heq, ?_⟩
    rintro other hmem value rfl
    have hnone := hpre _ hmem
    rw [keyOfPair_eq_some_iff.2 rfl] at hnone
    cases hnone
  · rintro ⟨pre, post, heq, hpre⟩
    refine ⟨pre, "key=" ++ key, post, heq, keyOfPair_eq_some_iff.2 rfl, ?_⟩
    intro pair hmem
    cases hpair : keyOfPair pair with
    | none => rfl
    | some value => exact absurd (keyOfPair_eq_some_iff.1 hpair) (hpre pair hmem value)

/-- A request without a query has no key. -/
theorem keyValue_empty : keyValue "" = none := by
  decide

theorem acceptWs_eq_ok_iff {auth : WsAuth} {req : WsRequest} :
    acceptWs auth req = .ok () ↔ Authorized auth req := by
  have hpath : (req.path = "/ws" ∨ req.path = "/ws/") ↔
      ¬(req.path ≠ "/ws" ∧ req.path ≠ "/ws/") := by
    constructor
    · rintro (h | h) ⟨h₁, h₂⟩
      · exact h₁ h
      · exact h₂ h
    · intro h
      by_contra hno
      exact h ⟨fun h' => hno (Or.inl h'), fun h' => hno (Or.inr h')⟩
  unfold acceptWs Authorized
  rw [hpath]
  by_cases hwrong : req.path ≠ "/ws" ∧ req.path ≠ "/ws/"
  · simp [hwrong]
  · rw [if_neg hwrong]
    cases auth.apiKey with
    | none => simp [hwrong]
    | some expected =>
        cases req.query with
        | none => simp [keyValue_empty]
        | some query =>
            simp only [Option.getD_some, Option.some.injEq, forall_eq', exists_eq_left', hwrong,
              not_false_eq_true, true_and, exists_and_left]
            have hiff := @keyValue_eq_some_iff query expected
            cases hkey : keyValue query with
            | none =>
                rw [hkey] at hiff
                simpa using hiff
            | some k =>
                rw [hkey] at hiff
                by_cases hk : k = expected
                · simpa [hk] using hiff
                · simpa [hk] using hiff

/-! ## Connections -/

inductive Message
  | text (s : String)
  | binary (data : List UInt8)
  | ping (data : List UInt8)
  | pong (data : List UInt8)
  | close
  deriving DecidableEq, Repr

inductive Incoming
  | message (m : Message)
  | readError
  deriving DecidableEq, Repr

def Incoming.isText : Incoming → Bool
  | .message (.text _) => true
  | _ => false

/-- What the loop hands to the sink. -/
inductive Frame
  | response (text : String)
  | pong (data : List UInt8)
  | event (text : String)
  deriving DecidableEq, Repr

def Frame.event? : Frame → Option String
  | .event text => some text
  | _ => none

/-- The printed response; it is empty when it cannot be printed. -/
def responseText (x : JsonPackage V) (r : RpcResponse V) : String :=
  (x.printResponse r).toOption.getD ""

structure WsConnection where
  request : WsRequest
  /-- The handshake is done. -/
  upgraded : Bool
  /-- What has arrived and was not taken. -/
  incoming : List Incoming
  /-- The client has closed its side. -/
  closed : Bool
  /-- All that the receiver of events has returned so far. -/
  received : List String
  /-- The frames that the sink took. -/
  written : List Frame
  /-- The frame that the sink did not take. -/
  failed : Option (Frame)
  running : Bool
  /-- All that the loop has taken so far. -/
  taken : List Incoming
  /-- All that the client has sent so far. -/
  sent : List Incoming
  deriving DecidableEq, Repr

namespace WsConnection

def accepted (req : WsRequest) : WsConnection :=
  { request := req
    upgraded := false
    incoming := []
    closed := false
    received := []
    written := []
    failed := none
    running := true
    taken := []
    sent := [] }

/-- Hand a frame to the sink; the loop is left when it is not taken. -/
def emit (c : WsConnection) (f : Frame) (ok : Bool) : WsConnection :=
  if ok then
    { c with written := c.written ++ [f] }
  else
    { c with
      failed := some f
      running := false }

def handleIncoming (x : JsonPackage V) (handler : Handler V) (c : WsConnection) (ok : Bool) :
    Incoming → WsConnection
  | .readError => { c with running := false }
  | .message (.text line) =>
      c.emit (.response
        (responseText x (respond x (handler (c.taken.countP Incoming.isText)) line))) ok
  | .message (.ping data) => c.emit (.pong data) ok
  | .message .close => { c with running := false }
  | .message (.binary _) => c
  | .message (.pong _) => c

def handleEvent (c : WsConnection) (ok : Bool) : Received → WsConnection
  | .value text => c.emit (.event text) ok
  | .lagged _ => c
  | .closed => { c with running := false }

def issued (c : WsConnection) : List Frame :=
  c.written ++ c.failed.toList

end WsConnection

/-- What happens on a connection: the client sends or closes, the handshake ends, or the loop takes
a message, an event or the end of the stream.  `ok` says whether the sink takes the frame. -/
inductive WsAct
  | send (i : Incoming)
  | close
  | handshake
  | next (ok : Bool)
  | event (r : Received) (ok : Bool)
  | endOfStream
  deriving DecidableEq, Repr

inductive WsStep (x : JsonPackage V) (handler : Handler V) (auth : WsAuth) :
    WsConnection → WsAct → WsConnection → Prop
  | send {c : WsConnection} (i : Incoming) :
      c.closed = false →
        WsStep x handler auth c (.send i)
          { c with
            incoming := c.incoming ++ [i]
            sent := c.sent ++ [i] }
  | close (c : WsConnection) : WsStep x handler auth c .close { c with closed := true }
  | upgrade {c : WsConnection} :
      c.running = true → c.upgraded = false → acceptWs auth c.request = .ok () →
        WsStep x handler auth c .handshake { c with upgraded := true }
  | refuse {c : WsConnection} :
      -- a refused request, or a handshake that is broken off
      c.running = true → c.upgraded = false →
        WsStep x handler auth c .handshake { c with running := false }
  | next {c : WsConnection} {i : Incoming} {rest : List Incoming} (ok : Bool) :
      c.running = true → c.upgraded = true → c.incoming = i :: rest →
        WsStep x handler auth c (.next ok)
          { c.handleIncoming x handler ok i with
            incoming := rest
            taken := c.taken ++ [i] }
  | event {c : WsConnection} (r : Received) (ok : Bool) :
      c.running = true → c.upgraded = true →
        WsStep x handler auth c (.event r ok)
          { c.handleEvent ok r with received := c.received ++ r.value?.toList }
  | endOfStream {c : WsConnection} :
      c.running = true → c.upgraded = true → c.incoming = [] → c.closed = true →
        WsStep x handler auth c .endOfStream { c with running := false }

/-! ## The server -/

structure WsServer where
  connections : List WsConnection

def WsServer.Started (s : WsServer) : Prop :=
  s = { connections := [] }

inductive WsEvent
  | connect (req : WsRequest)
  | connection (i : ℕ) (act : WsAct)
  deriving DecidableEq, Repr

/-- One step of the server; `handler i` is what the service answers on the connection `i`. -/
inductive WsServe (x : JsonPackage V) (handler : ℕ → Handler V) (auth : WsAuth) :
    WsServer → WsEvent → WsServer → Prop
  | connect (s : WsServer) (req : WsRequest) :
      WsServe x handler auth s (.connect req)
        { s with connections := s.connections ++ [WsConnection.accepted req] }
  | connection {s : WsServer} {i : ℕ} {c c' : WsConnection} {act : WsAct} :
      s.connections[i]? = some c → WsStep x (handler i) auth c act c' →
        WsServe x handler auth s (.connection i act)
          { s with connections := s.connections.set i c' }

/-! ## What a connection is owed -/

/-- The frames that answer what was taken: a response to each text, a pong to each ping. -/
def replies (x : JsonPackage V) (handler : Handler V) : ℕ → List Incoming → List Frame
  | _, [] => []
  | k, .message (.text line) :: taken =>
      .response (responseText x (respond x (handler k) line)) :: replies x handler (k + 1) taken
  | k, .message (.ping data) :: taken => .pong data :: replies x handler k taken
  | k, _ :: taken => replies x handler k taken

/-- What holds of a connection at any time. -/
structure WsConnection.Served (x : JsonPackage V) (handler : Handler V) (auth : WsAuth)
    (c : WsConnection) : Prop where
  authorized : c.upgraded = true → Authorized auth c.request
  untouched : c.upgraded = false → c.taken = [] ∧ c.issued = []
  sent : c.sent = c.taken ++ c.incoming
  answered : (c.issued.filter fun f => f.event?.isNone) = replies x handler 0 c.taken
  events : c.issued.filterMap Frame.event? = c.received
  failed : c.failed.isSome = true → c.running = false

section Frames

variable (x : JsonPackage V) (handler : Handler V)

theorem replies_append (k : ℕ) (taken more : List Incoming) :
    replies x handler k (taken ++ more) =
      replies x handler k taken ++
        replies x handler (k + taken.countP Incoming.isText) more := by
  induction taken generalizing k with
  | nil => simp [replies]
  | cons i taken ih =>
      rcases i with ⟨⟨line⟩ | ⟨data⟩ | ⟨data⟩ | ⟨data⟩ | _⟩ | _ <;>
        simp [replies, ih, Incoming.isText, List.countP_cons, Nat.add_assoc, Nat.add_comm 1]

/-- No reply is an event. -/
theorem event?_of_mem_replies {k : ℕ} {taken : List Incoming} {f : Frame}
    (h : f ∈ replies x handler k taken) : f.event? = none := by
  induction taken generalizing k with
  | nil => simp [replies] at h
  | cons i taken ih =>
      rcases i with ⟨⟨line⟩ | ⟨data⟩ | ⟨data⟩ | ⟨data⟩ | _⟩ | _
      · rcases List.mem_cons.1 h with rfl | h
        · rfl
        · exact ih h
      · exact ih h
      · rcases List.mem_cons.1 h with rfl | h
        · rfl
        · exact ih h
      · exact ih h
      · exact ih h
      · exact ih h

theorem filter_replies (k : ℕ) (taken : List Incoming) :
    ((replies x handler k taken).filter fun f => f.event?.isNone) = replies x handler k taken := by
  rw [List.filter_eq_self]
  intro f hf
  rw [event?_of_mem_replies x handler hf]
  rfl

theorem filterMap_replies (k : ℕ) (taken : List Incoming) :
    (replies x handler k taken).filterMap Frame.event? = [] := by
  rw [List.filterMap_eq_nil_iff]
  intro f hf
  exact event?_of_mem_replies x handler hf

theorem filter_events (events : List String) :
    ((events.map Frame.event : List Frame).filter fun f => f.event?.isNone) = [] := by
  simp [List.filter_eq_nil_iff, Frame.event?]

theorem filterMap_events (events : List String) :
    (events.map Frame.event : List Frame).filterMap Frame.event? = events := by
  induction events with
  | nil => rfl
  | cons text events ih => simp [Frame.event?, ih]

namespace WsConnection

variable {c : WsConnection}

theorem issued_emit (hf : c.failed = none) (f : Frame) (ok : Bool) :
    (c.emit f ok).issued = c.issued ++ [f] := by
  cases ok <;> simp [emit, issued, hf]

theorem failed_emit (hf : c.failed = none) (f : Frame) (ok : Bool) :
    (c.emit f ok).failed.isSome = true → (c.emit f ok).running = false := by
  cases ok <;> simp [emit, hf]

/-- What the loop hands to the sink for what it takes, and what it leaves alone. -/
theorem handleIncoming_spec (hf : c.failed = none) (ok : Bool) (i : Incoming) :
    (c.handleIncoming x handler ok i).issued =
        c.issued ++ replies x handler (c.taken.countP Incoming.isText) [i] ∧
      ((c.handleIncoming x handler ok i).failed.isSome = true →
        (c.handleIncoming x handler ok i).running = false) ∧
      (c.handleIncoming x handler ok i).request = c.request ∧
      (c.handleIncoming x handler ok i).upgraded = c.upgraded ∧
      (c.handleIncoming x handler ok i).received = c.received ∧
      (c.handleIncoming x handler ok i).sent = c.sent := by
  rcases i with ⟨⟨line⟩ | ⟨data⟩ | ⟨data⟩ | ⟨data⟩ | _⟩ | _
  · refine ⟨issued_emit hf _ ok, failed_emit hf _ ok, ?_⟩
    cases ok <;> exact ⟨rfl, rfl, rfl, rfl⟩
  · simp [handleIncoming, replies, hf]
  · refine ⟨issued_emit hf _ ok, failed_emit hf _ ok, ?_⟩
    cases ok <;> exact ⟨rfl, rfl, rfl, rfl⟩
  · simp [handleIncoming, replies, hf]
  · simp [handleIncoming, replies, issued]
  · simp [handleIncoming, replies, issued]

/-- The same for an event. -/
theorem handleEvent_spec (hf : c.failed = none) (ok : Bool) (r : Received) :
    (c.handleEvent ok r).issued = c.issued ++ r.value?.toList.map Frame.event ∧
      ((c.handleEvent ok r).failed.isSome = true → (c.handleEvent ok r).running = false) ∧
      (c.handleEvent ok r).request = c.request ∧
      (c.handleEvent ok r).upgraded = c.upgraded ∧
      (c.handleEvent ok r).taken = c.taken ∧
      (c.handleEvent ok r).incoming = c.incoming ∧
      (c.handleEvent ok r).sent = c.sent := by
  cases r with
  | value text =>
      refine ⟨issued_emit hf _ ok, failed_emit hf _ ok, ?_⟩
      cases ok <;> exact ⟨rfl, rfl, rfl, rfl, rfl⟩
  | lagged n => simp [handleEvent, Received.value?, hf]
  | closed => simp [handleEvent, Received.value?, issued]

end WsConnection

end Frames

/-! ## Every run -/

section Run

variable {x : JsonPackage V} {handler : Handler V} {auth : WsAuth} {c c' : WsConnection}
  {act : WsAct}

theorem WsConnection.served_accepted (req : WsRequest) :
    (WsConnection.accepted req).Served x handler auth where
  authorized := by simp [accepted]
  untouched := by simp [accepted, issued]
  sent := rfl
  answered := rfl
  events := rfl
  failed := by simp [accepted]

theorem WsConnection.Served.failed_eq_none (h : c.Served x handler auth)
    (hrunning : c.running = true) : c.failed = none := by
  cases hf : c.failed with
  | none => rfl
  | some f =>
      have hstop := h.failed (by simp [hf])
      simp [hrunning] at hstop

/-- Step: what one act on a connection preserves. -/
theorem WsConnection.Served.step (h : c.Served x handler auth)
    (hstep : WsStep x handler auth c act c') : c'.Served x handler auth := by
  cases hstep with
  | send i hopen =>
      exact
        { h with
          sent := by
            simp only [h.sent, List.append_assoc] }
  | close => exact { h with }
  | upgrade hrunning hfresh haccept =>
      rcases h.untouched hfresh with ⟨htaken, hissued⟩
      exact
        { h with
          authorized := fun _ => acceptWs_eq_ok_iff.1 haccept
          untouched := by simp }
  | refuse hrunning hfresh =>
      exact
        { h with
          failed := fun _ => rfl }
  | @next i rest ok hrunning hup hincoming =>
      have hf := h.failed_eq_none hrunning
      rcases handleIncoming_spec x handler hf ok i with
        ⟨hissued, hfailed, hrequest, hupgraded, hreceived, hsent⟩
      exact
        { authorized := by
            intro _
            rw [hrequest]
            exact h.authorized hup
          untouched := by
            intro hno
            rw [hupgraded, hup] at hno
            cases hno
          sent := by
            rw [hsent, h.sent, hincoming]
            simp
          answered := by
            have hreply := congrArg (List.filter fun f => f.event?.isNone) hissued
            rw [List.filter_append, h.answered, filter_replies] at hreply
            rw [replies_append, Nat.zero_add]
            exact hreply
          events := by
            have hevents := congrArg (List.filterMap Frame.event?) hissued
            rw [List.filterMap_append, h.events, filterMap_replies, List.append_nil] at hevents
            rw [hreceived]
            exact hevents
          failed := hfailed }
  | event r ok hrunning hup =>
      have hf := h.failed_eq_none hrunning
      rcases handleEvent_spec hf ok r with
        ⟨hissued, hfailed, hrequest, hupgraded, htaken, hincoming, hsent⟩
      exact
        { authorized := by
            intro _
            rw [hrequest]
            exact h.authorized hup
          untouched := by
            intro hno
            rw [hupgraded, hup] at hno
            cases hno
          sent := by
            rw [hsent, htaken, hincoming]
            exact h.sent
          answered := by
            have hreply := congrArg (List.filter fun f => f.event?.isNone) hissued
            rw [List.filter_append, h.answered, filter_events, List.append_nil] at hreply
            rw [htaken]
            exact hreply
          events := by
            have hevents := congrArg (List.filterMap Frame.event?) hissued
            rw [List.filterMap_append, h.events, filterMap_events] at hevents
            exact hevents
          failed := hfailed }
  | endOfStream hrunning hup hincoming hclosed =>
      exact
        { h with
          failed := fun _ => rfl }

end Run

section Server

variable {x : JsonPackage V} {handler : ℕ → Handler V} {auth : WsAuth} {s s' : WsServer}
  {e : WsEvent}

/-- What holds of the server at any time. -/
def WsServer.Serves (x : JsonPackage V) (handler : ℕ → Handler V) (auth : WsAuth)
    (s : WsServer) : Prop :=
  ∀ (i : ℕ) (c : WsConnection), s.connections[i]? = some c → c.Served x (handler i) auth

theorem WsServer.Serves.step (h : s.Serves x handler auth) (hstep : WsServe x handler auth s e s') :
    s'.Serves x handler auth := by
  cases hstep with
  | connect req =>
      intro i c hc
      rcases Nat.lt_or_ge i s.connections.length with hlt | hge
      · rw [List.getElem?_append_left hlt] at hc
        exact h i c hc
      · rw [List.getElem?_append_right hge, List.getElem?_singleton] at hc
        split at hc
        · cases hc
          exact WsConnection.served_accepted req
        · cases hc
  | @connection i c c' act hc hact =>
      intro j d hd
      by_cases hij : i = j
      · subst hij
        have hlt := (List.getElem?_eq_some_iff.1 hc).1
        rw [List.getElem?_set_self hlt] at hd
        cases hd
        exact (h i c hc).step hact
      · rw [List.getElem?_set_ne hij] at hd
        exact h j d hd

/-- In every run, every client that is served has shown the key; what it sent is taken in order and
nothing of it is lost; each text taken has its response and each ping its pong, in order and with
nothing else between them but events; and the events are those that the receiver returned to this
connection, in order and each once. -/
theorem ws_served {allowed : WsServer → WsEvent → Prop}
    (hrun : Run WsServer.Started (WsServe x handler auth) allowed s) {i : ℕ} {c : WsConnection}
    (hc : s.connections[i]? = some c) : c.Served x (handler i) auth := by
  have hserves : s.Serves x handler auth := by
    refine Run.invariant ?_ ?_ hrun
    · rintro s rfl
      simp [WsServer.Serves]
    · intro s e s' h _ hstep
      exact h.step hstep
  exact hserves i c hc

end Server

/-! ## A request and an event -/

def someAuth : WsAuth :=
  { apiKey := some "k" }

def someRequest : WsRequest :=
  { path := "/ws"
    query := some "v=1&key=k" }

/-- A client connects, asks for the status while an event waits, and is answered first. -/
theorem ws_served_status :
    ∃ c : WsConnection, c.written = [.response statusResponseText, .event tickEventText] ∧
      c.Served plainJson readyHandler someAuth := by
  have hstart : Run WsServer.Started (WsServe plainJson (fun _ => readyHandler) someAuth)
      (fun _ _ => True) { connections := [] } := Run.start rfl
  have hconnected := hstart.step (e := WsEvent.connect someRequest) trivial (WsServe.connect _ _)
  have hupgraded := hconnected.step (e := WsEvent.connection 0 .handshake) trivial
    (WsServe.connection rfl (WsStep.upgrade rfl rfl (by decide +kernel)))
  have hsent := hupgraded.step
    (e := WsEvent.connection 0 (.send (.message (.text statusRequestText)))) trivial
    (WsServe.connection rfl (WsStep.send _ rfl))
  have hanswered := hsent.step (e := WsEvent.connection 0 (.next true)) trivial
    (WsServe.connection rfl (WsStep.next true rfl rfl rfl))
  have hevent := hanswered.step (e := WsEvent.connection 0 (.event (.value tickEventText) true))
    trivial (WsServe.connection rfl (WsStep.event _ true rfl rfl))
  exact ⟨_, by decide +kernel, ws_served hevent (i := 0) rfl⟩

end Ipc
end CraftecCore
