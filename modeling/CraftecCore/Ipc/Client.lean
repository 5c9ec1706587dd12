import CraftecCore.Ipc.Server

/-!
# Client — one request over one connection

`send_request` writes one line and reads one line; it does not look at the id of what it reads.
Events are written to the same connection.  The client gets the answer to its request in every run
where the response is written before any event; otherwise it takes the event for the response.
-/

namespace CraftecCore
namespace Ipc

open Text Transition

variable {V : Type}

/-! ## The client -/

inductive IpcError
  | connectionFailed (msg : String)
  | invalidResponse (msg : String)
  | daemonError (code : Int32) (message : String)
  deriving DecidableEq

def requestLine (x : JsonPackage V) (request : RpcRequest V) : Except IpcError (List UInt8) :=
  match x.printRequest request with
  | .error e => .error (.connectionFailed e)
  | .ok json => .ok (utf8 (json ++ "\n"))

def readResponse (x : JsonPackage V) (received : List UInt8) : Except IpcError V :=
  match fromUtf8 (readLine received).1 with
  | none => .error (.connectionFailed "stream did not contain valid UTF-8")
  | some line =>
      match x.parseResponse (trim line) with
      | .error e => .error (.invalidResponse e)
      | .ok response =>
          match response.error with
          | some err => .error (.daemonError err.code err.message)
          | none =>
              match response.result with
              | some value => .ok value
              | none => .error (.invalidResponse "No result in response")

/-! ## What is relied on -/

/-- The request is printed on one line, and the server parses it to `received`. -/
structure Transmits (x : JsonPackage V) (request : RpcRequest V) (text : String)
    (received : RpcRequest V) : Prop where
  print : x.printRequest request = .ok text
  oneLine : newline ∉ utf8 text
  trimmed : trim text = text
  nonempty : text ≠ ""
  parse : x.parseRequest text = .ok received

/-- The response is printed on one line, and parsing gives it back. -/
def RoundTrips (x : JsonPackage V) (response : RpcResponse V) : Prop :=
  ∃ text, x.printResponse response = .ok text ∧ newline ∉ utf8 text ∧ trim text = text ∧
    x.parseResponse text = .ok response

def responseTo (received : RpcRequest V) : Except String V → RpcResponse V
  | .ok result => RpcResponse.success received.id result
  | .error msg => RpcResponse.failure received.id (-32000) msg

def Returns (x : JsonPackage V) (answer : Except String V) (result : Except IpcError V) : Prop :=
  match answer with
  | .ok value => value ≠ x.null → result = .ok value
  | .error msg => result = .error (.daemonError (-32000) msg)

/-! ## One exchange -/

/-- The client sends the line of its request, in one piece, and closes after it has read. -/
def OneRequest (x : JsonPackage V) (request : RpcRequest V) (c : Connection V) :
    ConnectionEvent → Prop
  | .send bytes => c.sent = [] ∧ requestLine x request = .ok bytes
  | .close => c.written ≠ []
  | _ => True

/-- No event is written before a response is. -/
def ResponseFirst (c : Connection V) : ConnectionEvent → Prop
  | .event => c.responses ≠ []
  | _ => True

/-- Nothing was written, and the request is not sent or will be read; or the client returns what
the service answered. -/
def ReturnsAnswer (x : JsonPackage V) (answer : Except String V) (c : Connection V) : Prop :=
  (c.written = [] ∧ (c.sent = [] ∨ c.running = true ∧ newline ∈ c.arrived)) ∨
    (c.written ≠ [] ∧ Returns x answer (readResponse x (c.output x)))

inductive Exchange (x : JsonPackage V) (handler : Handler V) (text : String) (c : Connection V) :
    Prop
  | unsent :
      c.sent = [] → c.arrived = [] → c.consumed = [] → c.written = [] → c.closed = false →
        c.running = true → Exchange x handler text c
  | pending :
      c.sent ≠ [] → c.consumed ++ c.arrived = utf8 text ++ [newline] → newline ∉ c.consumed →
        c.written = [] → c.closed = false → c.running = true → Exchange x handler text c
  | answered (later : List (Output V)) :
      c.written = .response (respond x (handler 0) text) :: later → Exchange x handler text c

section Exchange

variable {x : JsonPackage V} {handler : Handler V} {request received : RpcRequest V}
  {text : String} {c c' : Connection V} {e : ConnectionEvent}

/-- Whatever happens, what was written stays. -/
theorem written_of_serve (h : Serve x handler c e c') : ∃ more, c'.written = c.written ++ more := by
  have hline : ∀ (bytes : List UInt8) (c : Connection V),
      ∃ more, (c.handleLine x handler bytes).written = c.written ++ more := by
    intro bytes c
    unfold Connection.handleLine
    cases fromUtf8 bytes with
    | none => exact ⟨[], by simp⟩
    | some line =>
        by_cases hblank : trim line = ""
        · exact ⟨[], by simp [hblank]⟩
        · simp [hblank]
  cases h with
  | send bytes _ => exact ⟨[], by simp⟩
  | close => exact ⟨[], by simp⟩
  | broadcast _ => exact ⟨[], by simp⟩
  | poll _ _ _ => exact ⟨[], by simp⟩
  | line _ _ => exact hline _ _
  | disconnected _ _ _ _ => exact ⟨[], by simp⟩
  | lastLine _ _ _ _ => exact hline _ _
  | event _ _ => exact ⟨_, rfl⟩

/-- The server reads the line of the request and answers it. -/
theorem handleLine_request (ht : Transmits x request text received)
    (hbytes : c.consumed ++ c.arrived = utf8 text ++ [newline]) (hfree : newline ∉ c.consumed)
    (hwritten : c.written = []) (hmem : newline ∈ c.arrived) :
    (Connection.handleLine x handler (c.consumed ++ (readLine c.arrived).1)
      { c with arrived := (readLine c.arrived).2 }).written =
        [.response (respond x (handler 0) text)] := by
  rcases exists_line_of_mem hmem with ⟨pre, rest, hpre, harrived⟩
  have hline : newline ∉ c.consumed ++ pre := by simp [hfree, hpre]
  have heq : (c.consumed ++ pre) ++ newline :: rest = utf8 text ++ newline :: [] := by
    rw [← hbytes, harrived, List.append_assoc]
  rcases append_newline_inj hline ht.oneLine heq with ⟨htext, -⟩
  have hread : c.consumed ++ (readLine c.arrived).1 = utf8 text ++ [newline] := by
    rw [harrived, readLine_append hpre, ← htext, List.append_assoc]
  simp [Connection.handleLine, hread, fromUtf8_line, trim_line, ht.trimmed, ht.nonempty,
    Connection.responses, hwritten]

theorem Exchange.next (ht : Transmits x request text received)
    (h : Exchange x handler text c) (hrequest : OneRequest x request c e)
    (hfirst : ResponseFirst c e) (hnext : Serve x handler c e c') :
    Exchange x handler text c' := by
  have hbytes : requestLine x request = .ok (utf8 text ++ [newline]) := by
    simp [requestLine, ht.print, utf8_newline]
  cases h with
  | answered later hwritten =>
      rcases written_of_serve hnext with ⟨more, hmore⟩
      exact .answered (later ++ more) (by rw [hmore, hwritten, List.cons_append])
  | unsent hsent harrived hconsumed hwritten hopen hrunning =>
      cases hnext with
      | send bytes hopen' =>
          rcases hrequest with ⟨-, hline⟩
          have heq : utf8 text ++ [newline] = bytes := by simpa [hbytes] using hline
          refine .pending ?_ ?_ ?_ hwritten hopen hrunning
          · simp [hsent, ← heq]
          · simp [hconsumed, harrived, heq]
          · simp [hconsumed]
      | close => exact absurd hwritten hrequest
      | broadcast _ => exact .unsent hsent harrived hconsumed hwritten hopen hrunning
      | poll _ htaken _ =>
          rw [harrived] at htaken
          rcases List.append_eq_nil_iff.1 htaken.symm with ⟨rfl, rfl⟩
          exact .unsent hsent rfl (by simp [hconsumed]) hwritten hopen hrunning
      | line _ hmem => simp [harrived] at hmem
      | disconnected _ hclosed _ _ => simp [hopen] at hclosed
      | lastLine _ hclosed _ _ => simp [hopen] at hclosed
      | event _ _ => exact absurd (by simp [Connection.responses, hwritten]) hfirst
  | pending hsent hall hfree hwritten hopen hrunning =>
      cases hnext with
      | send bytes _ => exact absurd hrequest.1 hsent
      | close => exact absurd hwritten hrequest
      | broadcast _ => exact .pending hsent hall hfree hwritten hopen hrunning
      | poll _ htaken hfree' =>
          refine .pending hsent ?_ ?_ hwritten hopen hrunning
          · rw [← hall, htaken, List.append_assoc]
          · simp [hfree, hfree']
      | line _ hmem => exact .answered [] (handleLine_request ht hall hfree hwritten hmem)
      | disconnected _ hclosed _ _ => simp [hopen] at hclosed
      | lastLine _ hclosed _ _ => simp [hopen] at hclosed
      | event _ _ => exact absurd (by simp [Connection.responses, hwritten]) hfirst

/-- The first line that the client reads is the response. -/
theorem readResponse_answered (ht : Transmits x request text received)
    (hresponse : (∀ value, handler 0 received.method received.params = .ok value →
        value ≠ x.null) →
      RoundTrips x (responseTo received (handler 0 received.method received.params)))
    {later : List (Output V)}
    (hwritten : c.written = .response (respond x (handler 0) text) :: later) :
    Returns x (handler 0 received.method received.params) (readResponse x (c.output x)) := by
  have hrespond : respond x (handler 0) text =
      responseTo received (handler 0 received.method received.params) := by
    simp only [respond, ht.parse]
    cases handler 0 received.method received.params <;> rfl
  -- what the client reads when the response survives the way
  have hread : ∀ {response : RpcResponse V} {line : String},
      c.written = .response response :: later → x.printResponse response = .ok line →
        newline ∉ utf8 line → trim line = line →
        fromUtf8 (readLine (c.output x)).1 = some (line ++ "\n") := by
    intro response line hw hprint hfree htrim
    have houtput : c.output x = utf8 line ++ newline ::
        joinLines (later.map fun o => utf8 (o.text x)) := by
      simp [Connection.output, hw, Output.text, hprint, Except.toOption]
    rw [houtput, readLine_append hfree, fromUtf8_line]
  rw [hrespond] at hwritten
  cases hanswer : handler 0 received.method received.params with
  | ok value =>
      intro hnull
      rw [hanswer] at hresponse hwritten
      rcases hresponse (by simpa using hnull) with ⟨line, hprint, hfree, htrim, hparse⟩
      simp [readResponse, hread hwritten hprint hfree htrim, trim_line, htrim, hparse, responseTo,
        RpcResponse.success]
  | error msg =>
      rw [hanswer] at hresponse hwritten
      rcases hresponse (by simp) with ⟨line, hprint, hfree, htrim, hparse⟩
      simp [Returns, readResponse, hread hwritten hprint hfree htrim, trim_line, htrim, hparse,
        responseTo, RpcResponse.failure]

end Exchange

/-- In a run where no event is written before the response, the client returns the answer of the
service: its value, unless that is null, or its error. -/
theorem returnsAnswer_of_responseFirst (x : JsonPackage V) (handler : Handler V) {method : String}
    {params : Option V} {id : UInt64} {text : String} {received : RpcRequest V}
    (ht : Transmits x (RpcRequest.new method params (x.ofU64 id)) text received)
    (hresponse : (∀ value, handler 0 received.method received.params = .ok value →
        value ≠ x.null) →
      RoundTrips x (responseTo received (handler 0 received.method received.params)))
    {c : Connection V}
    (hrun : Run Accepted (Serve x handler)
      (fun c e => OneRequest x (RpcRequest.new method params (x.ofU64 id)) c e ∧ ResponseFirst c e)
      c) :
    ReturnsAnswer x (handler 0 received.method received.params) c := by
  have hinv : Exchange x handler text c := by
    refine Run.invariant (I := Exchange x handler text) ?_ ?_ hrun
    · rintro c rfl
      exact .unsent rfl rfl rfl rfl rfl rfl
    · rintro c e c' h ⟨hrequest, hfirst⟩ hnext
      exact h.next ht hrequest hfirst hnext
  cases hinv with
  | unsent hsent _ _ hwritten _ _ => exact Or.inl ⟨hwritten, Or.inl hsent⟩
  | pending _ hall hfree hwritten _ hrunning =>
      have hmem : newline ∈ c.consumed ++ c.arrived := by simp [hall]
      exact Or.inl ⟨hwritten,
        Or.inr ⟨hrunning, (List.mem_append.1 hmem).resolve_left hfree⟩⟩
  | answered later hwritten =>
      exact Or.inr ⟨by simp [hwritten], readResponse_answered ht hresponse hwritten⟩

/-! ## An event before the response, and after it -/

theorem transmits_statusRequest :
    Transmits plainJson (RpcRequest.new "status" none (plainJson.ofU64 1)) statusRequestText
      statusRequest :=
  { print := by decide +kernel
    oneLine := newline_notMem_statusRequest
    trimmed := by decide +kernel
    nonempty := by decide +kernel
    parse := by decide +kernel }

theorem roundTrips_statusResponse : RoundTrips plainJson statusResponse :=
  ⟨statusResponseText, by decide +kernel, by decide +kernel, by decide +kernel, by decide +kernel⟩

/-- The client gets the value of the service, and an event that waits does not matter. -/
theorem status_returned :
    Returns plainJson (readyHandler 0 "status" none)
      (readResponse plainJson (statusAnswered.output plainJson)) := by
  have hrun : Run Accepted (Serve plainJson readyHandler)
      (fun c e => OneRequest plainJson (RpcRequest.new "status" none (plainJson.ofU64 1)) c e ∧
        ResponseFirst c e) statusAnswered :=
    run_statusAnswered ⟨⟨rfl, by decide +kernel⟩, trivial⟩ (fun _ => ⟨trivial, trivial⟩)
      ⟨trivial, trivial⟩
  rcases returnsAnswer_of_responseFirst plainJson readyHandler transmits_statusRequest
    (fun _ => roundTrips_statusResponse) hrun with ⟨hnone, -⟩ | ⟨-, hreturns⟩
  · exact absurd hnone (by decide)
  · exact hreturns

/-- An event that is broadcast before the server comes to the request is what the client reads. -/
theorem event_taken_for_response :
    ∃ c : Connection PlainValue,
      Run Accepted (Serve plainJson readyHandler)
        (OneRequest plainJson (RpcRequest.new "status" none (plainJson.ofU64 1))) c ∧
      readyHandler 0 "status" none = .ok (.text "ready") ∧
      readResponse plainJson (c.output plainJson) =
        .error (.invalidResponse "missing field `jsonrpc` at line 1 column 28") ∧
      ¬ ReturnsAnswer plainJson (readyHandler 0 "status" none) c := by
  have hstart : Run Accepted (Serve plainJson readyHandler)
      (OneRequest plainJson (RpcRequest.new "status" none (plainJson.ofU64 1)))
      Connection.opened := Run.start rfl
  have hsend : OneRequest plainJson (RpcRequest.new "status" none (plainJson.ofU64 1))
      Connection.opened (.send (utf8 statusRequestText ++ [newline])) := ⟨rfl, by decide +kernel⟩
  have harrived := hstart.step hsend (Serve.send _ rfl)
  have hsent : Run Accepted (Serve plainJson readyHandler)
      (OneRequest plainJson (RpcRequest.new "status" none (plainJson.ofU64 1))) statusSent :=
    harrived.step (by trivial) (Serve.broadcast _ tickEventText)
  have hevent := hsent.step (by trivial) (Serve.event rfl rfl)
  have hread : readResponse plainJson (joinLines [utf8 tickEventText]) =
      .error (.invalidResponse "missing field `jsonrpc` at line 1 column 28") := by
    decide +kernel
  refine ⟨_, hevent, rfl, hread, ?_⟩
  rintro (⟨hnone, -⟩ | ⟨-, hreturns⟩)
  · simp [statusSent] at hnone
  · have hvalue := hreturns (by decide)
    exact absurd (hread.symm.trans hvalue) (by decide)

end Ipc
end CraftecCore
