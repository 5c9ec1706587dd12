import CraftecCore.Ipc.Protocol
import CraftecCore.Library.Run

/-!
# Server — one connection of the IPC server

`handle_connection` waits, in each turn of its loop, for a line of the client or for an event.  The
`read_line` that waits for the line has a buffer of its own turn: when an event comes first, the
part of a line that it has taken is gone, and the rest of that line is read as if it were a line.
In a run where no event comes in the middle of a line, every line is answered.
-/

namespace CraftecCore
namespace Ipc

open Text Transition

variable {V : Type}

/-! ## The connection -/

inductive Output (V : Type)
  | response (r : RpcResponse V)
  | event (text : String)
  deriving DecidableEq

/-- The text of an output; a response that cannot be printed leaves it empty. -/
def Output.text (x : JsonPackage V) : Output V → String
  | .response r => (x.printResponse r).toOption.getD ""
  | .event text => text

def Output.response? : Output V → Option (RpcResponse V)
  | .response r => some r
  | .event _ => none

/-- One connection, with the local channel of its event forwarder. -/
structure Connection (V : Type) where
  /-- Bytes of the client that no `read_line` has taken. -/
  arrived : List UInt8
  /-- Bytes that the pending `read_line` has taken. -/
  consumed : List UInt8
  /-- The client has closed its side. -/
  closed : Bool
  /-- Events that wait in the local channel. -/
  events : List String
  written : List (Output V)
  /-- The loop was not left. -/
  running : Bool
  /-- All bytes that have arrived so far. -/
  sent : List UInt8
  deriving DecidableEq

namespace Connection

def opened : Connection V :=
  { arrived := []
    consumed := []
    closed := false
    events := []
    written := []
    running := true
    sent := [] }

def responses (c : Connection V) : List (RpcResponse V) :=
  c.written.filterMap Output.response?

/-- The bytes on their way to the client. -/
def output (x : JsonPackage V) (c : Connection V) : List UInt8 :=
  joinLines (c.written.map fun o => utf8 (o.text x))

/-- What the loop does with the bytes that `read_line` returned. -/
def handleLine (x : JsonPackage V) (handler : Handler V) (bytes : List UInt8)
    (c : Connection V) : Connection V :=
  match fromUtf8 bytes with
  | none =>
      -- a read error: the loop is left
      { c with
        consumed := []
        running := false }
  | some text =>
      let line := trim text
      if line = "" then
        { c with consumed := [] }
      else
        { c with
          consumed := []
          written := c.written ++
            [.response (respond x (handler c.responses.length) line)] }

end Connection

/-- What happens on a connection: the client sends or closes, an event is broadcast, `read_line`
takes bytes without returning, returns a line or the end of the stream, or an event comes first. -/
inductive ConnectionEvent
  | send (bytes : List UInt8)
  | close
  | broadcast (text : String)
  | poll
  | line
  | endOfStream
  | event

/-- One step.  Writes succeed. -/
inductive Serve (x : JsonPackage V) (handler : Handler V) :
    Connection V → ConnectionEvent → Connection V → Prop
  | send {c : Connection V} (bytes : List UInt8) :
      c.closed = false →
        Serve x handler c (.send bytes)
          { c with
            arrived := c.arrived ++ bytes
            sent := c.sent ++ bytes }
  | close (c : Connection V) : Serve x handler c .close { c with closed := true }
  | broadcast (c : Connection V) (text : String) :
      Serve x handler c (.broadcast text) { c with events := c.events ++ [text] }
  | poll {c : Connection V} {taken rest : List UInt8} :
      c.running = true → c.arrived = taken ++ rest → newline ∉ taken →
        Serve x handler c .poll
          { c with
            consumed := c.consumed ++ taken
            arrived := rest }
  | line {c : Connection V} :
      c.running = true → newline ∈ c.arrived →
        Serve x handler c .line
          (Connection.handleLine x handler (c.consumed ++ (readLine c.arrived).1)
            { c with arrived := (readLine c.arrived).2 })
  | disconnected {c : Connection V} :
      c.running = true → c.closed = true → c.arrived = [] → c.consumed = [] →
        Serve x handler c .endOfStream { c with running := false }
  | lastLine {c : Connection V} :
      c.running = true → c.closed = true → c.arrived = [] → c.consumed ≠ [] →
        Serve x handler c .endOfStream (Connection.handleLine x handler c.consumed c)
  | event {c : Connection V} {text : String} {events : List String} :
      c.running = true → c.events = text :: events →
        Serve x handler c .event
          { c with
            consumed := []
            events := events
            written := c.written ++ [.event text] }

/-! ## Answers -/

def answerRead (x : JsonPackage V) (handler : Handler V) (responses : List (RpcResponse V))
    (bytes : List UInt8) : List (RpcResponse V) :=
  match fromUtf8 bytes with
  | none => responses
  | some text =>
      if trim text = "" then
        responses
      else
        responses ++ [respond x (handler responses.length) (trim text)]

/-- One response for each line that is not blank, in order. -/
def answersTo (x : JsonPackage V) (handler : Handler V) (lines : List String) :
    List (RpcResponse V) :=
  ((lines.map trim).filter fun line => line ≠ "").mapIdx fun i line => respond x (handler i) line

section Answers

variable {x : JsonPackage V} {handler : Handler V}

theorem responses_handleLine (bytes : List UInt8) (c : Connection V) :
    (c.handleLine x handler bytes).responses = answerRead x handler c.responses bytes := by
  unfold Connection.handleLine answerRead
  cases fromUtf8 bytes with
  | none => rfl
  | some text =>
      by_cases hblank : trim text = ""
      · simp [hblank, Connection.responses]
      · simp [hblank, Connection.responses, Output.response?]

/-- A line stops the loop only when it is not UTF-8; nothing else of the connection changes but
what is written. -/
theorem handleLine_cases (x : JsonPackage V) (handler : Handler V) (bytes : List UInt8)
    (c : Connection V) :
    ((c.handleLine x handler bytes).running = false →
        fromUtf8 bytes = none ∨ c.running = false) ∧
      (c.handleLine x handler bytes).consumed = [] ∧
      (c.handleLine x handler bytes).arrived = c.arrived ∧
      (c.handleLine x handler bytes).closed = c.closed ∧
      (c.handleLine x handler bytes).sent = c.sent := by
  unfold Connection.handleLine
  cases hutf8 : fromUtf8 bytes with
  | none => simp
  | some text =>
      by_cases hblank : trim text = ""
      · simp [hblank]
      · simp [hblank]

theorem fromUtf8_line (line : String) :
    fromUtf8 (utf8 line ++ [newline]) = some (line ++ "\n") := by
  rw [← utf8_newline, ← utf8_append, fromUtf8_utf8]

theorem trim_line (line : String) : trim (line ++ "\n") = trim line :=
  trim_append (by decide +kernel)

/-- Reading lines one after the other answers them in order. -/
theorem foldl_answerRead (lines : List String) :
    (lines.map fun line => utf8 line ++ [newline]).foldl (answerRead x handler) [] =
      answersTo x handler lines := by
  induction lines using List.reverseRecOn with
  | nil => rfl
  | append_singleton lines line ih =>
      rw [List.map_append, List.foldl_append, ih]
      simp only [List.map_cons, List.map_nil, List.foldl_cons, List.foldl_nil, answerRead,
        fromUtf8_line, trim_line]
      by_cases hblank : trim line = ""
      · simp [hblank, answersTo]
      · simp [hblank, answersTo, List.mapIdx_append]

end Answers

/-! ## Runs without broken lines -/

def Accepted (c : Connection V) : Prop :=
  c = Connection.opened

/-- No event comes while a part of a line was taken. -/
def Unbroken (c : Connection V) : ConnectionEvent → Prop
  | .event => c.consumed = []
  | _ => True

/-- The lines read so far, and what was left at the end of the stream, make up what was sent
together with the bytes not yet read. -/
structure Reading (x : JsonPackage V) (handler : Handler V) (c : Connection V)
    (lines : List (List UInt8)) (last : List UInt8) : Prop where
  sent : c.sent = joinLines lines ++ (last ++ (c.consumed ++ c.arrived))
  unbroken : ∀ line ∈ lines, newline ∉ line
  last_free : newline ∉ last
  consumed_free : newline ∉ c.consumed
  ended : last ≠ [] → c.closed = true ∧ c.consumed = [] ∧ c.arrived = []
  responses : c.responses =
    (lines.map (fun line => line ++ [newline]) ++ if last = [] then [] else [last]).foldl
      (answerRead x handler) []
  stopped : c.running = false → (∃ line ∈ lines, fromUtf8 (line ++ [newline]) = none) ∨
    c.closed = true ∧ c.consumed = [] ∧ c.arrived = []

section Reading

variable {x : JsonPackage V} {handler : Handler V} {c c' : Connection V}
  {lines : List (List UInt8)} {last : List UInt8}

theorem Reading.start (h : Accepted c) : Reading x handler c [] [] := by
  rw [h]
  exact
    { sent := rfl
      unbroken := by simp
      last_free := by simp
      consumed_free := by simp [Connection.opened]
      ended := by simp
      responses := rfl
      stopped := by simp [Connection.opened] }

/-- While bytes are left, the stream has not ended. -/
theorem Reading.last_eq_nil (h : Reading x handler c lines last)
    (hleft : c.closed = false ∨ c.consumed ≠ [] ∨ c.arrived ≠ []) : last = [] := by
  by_contra hne
  rcases h.ended hne with ⟨hclosed, hconsumed, harrived⟩
  rcases hleft with hopen | hc | ha
  · simp [hclosed] at hopen
  · exact hc hconsumed
  · exact ha harrived

/-- A complete line is read. -/
theorem Reading.line (h : Reading x handler c lines last) (hrunning : c.running = true)
    (hmem : newline ∈ c.arrived) :
    ∃ line, Reading x handler
      (Connection.handleLine x handler (c.consumed ++ (readLine c.arrived).1)
        { c with arrived := (readLine c.arrived).2 }) (lines ++ [line]) [] := by
  rcases exists_line_of_mem hmem with ⟨pre, rest, hpre, harrived⟩
  have hlast : last = [] := h.last_eq_nil (Or.inr (Or.inr (List.ne_nil_of_mem hmem)))
  subst hlast
  have hread : readLine c.arrived = (pre ++ [newline], rest) := by
    rw [harrived, readLine_append hpre]
  have hline : newline ∉ c.consumed ++ pre := by
    simp [h.consumed_free, hpre]
  have hbytes : c.consumed ++ (pre ++ [newline]) = (c.consumed ++ pre) ++ [newline] := by simp
  rw [hread, hbytes]
  rcases handleLine_cases x handler ((c.consumed ++ pre) ++ [newline])
    { c with arrived := rest } with ⟨hstop, hconsumed, harrived', hclosed, hsent⟩
  refine ⟨c.consumed ++ pre, ?_⟩
  exact
    { sent := by
        rw [hsent, hconsumed, harrived', h.sent, harrived]
        simp
      unbroken := by
        intro line hmem
        rcases List.mem_append.1 hmem with hmem | hmem
        · exact h.unbroken line hmem
        · rw [List.mem_singleton.1 hmem]
          exact hline
      last_free := List.not_mem_nil
      consumed_free := by
        rw [hconsumed]
        exact List.not_mem_nil
      ended := by simp
      responses := by
        rw [responses_handleLine]
        have hold := h.responses
        simp only [if_true, List.append_nil] at hold ⊢
        rw [List.map_append, List.foldl_append, ← hold]
        rfl
      stopped := by
        intro hfalse
        rcases hstop hfalse with hinvalid | hwas
        · exact Or.inl ⟨_, List.mem_append_right _ (List.mem_singleton_self _), hinvalid⟩
        · simp [hrunning] at hwas }

/-- Bytes without a newline are read at the end of the stream. -/
theorem Reading.lastLine (h : Reading x handler c lines last) (hclosed : c.closed = true)
    (harrived : c.arrived = []) (hne : c.consumed ≠ []) :
    Reading x handler (c.handleLine x handler c.consumed) lines c.consumed := by
  have hlast : last = [] := h.last_eq_nil (Or.inr (Or.inl hne))
  subst hlast
  rcases handleLine_cases x handler c.consumed c with
    ⟨-, hconsumed, harrived', hclosed', hsent⟩
  have hleft : (c.handleLine x handler c.consumed).closed = true ∧
      (c.handleLine x handler c.consumed).consumed = [] ∧
      (c.handleLine x handler c.consumed).arrived = [] :=
    ⟨by rw [hclosed', hclosed], hconsumed, by rw [harrived', harrived]⟩
  exact
    { sent := by
        rw [hsent, hleft.2.1, hleft.2.2, h.sent, harrived]
        simp
      unbroken := h.unbroken
      last_free := h.consumed_free
      consumed_free := by
        rw [hconsumed]
        exact List.not_mem_nil
      ended := fun _ => hleft
      responses := by
        rw [responses_handleLine]
        have hold := h.responses
        simp only [if_true, List.append_nil] at hold
        rw [if_neg hne, List.foldl_append, ← hold]
        rfl
      stopped := fun _ => Or.inr hleft }

theorem Reading.next {e : ConnectionEvent} (h : Reading x handler c lines last)
    (hallowed : Unbroken c e) (hnext : Serve x handler c e c') :
    ∃ lines' last', Reading x handler c' lines' last' := by
  cases hnext with
  | send bytes hopen =>
      have hlast : last = [] := h.last_eq_nil (Or.inl hopen)
      subst hlast
      exact ⟨lines, [],
        { sent := by simp [h.sent]
          unbroken := h.unbroken
          last_free := h.last_free
          consumed_free := h.consumed_free
          ended := by simp
          responses := h.responses
          stopped := by
            intro hstop
            rcases h.stopped hstop with hinvalid | ⟨hclosed, -, -⟩
            · exact Or.inl hinvalid
            · simp [hclosed] at hopen }⟩
  | close =>
      exact ⟨lines, last,
        { h with
          ended := fun hne => ⟨rfl, (h.ended hne).2⟩
          stopped := by
            intro hstop
            rcases h.stopped hstop with hinvalid | ⟨-, hleft⟩
            · exact Or.inl hinvalid
            · exact Or.inr ⟨rfl, hleft⟩ }⟩
  | broadcast text => exact ⟨lines, last, { h with }⟩
  | poll hrunning harrived htaken =>
      rename_i taken rest
      exact ⟨lines, last,
        { sent := by simp [h.sent, harrived]
          unbroken := h.unbroken
          last_free := h.last_free
          consumed_free := by simp [h.consumed_free, htaken]
          ended := by
            intro hne
            rcases h.ended hne with ⟨hclosed, hconsumed, hnil⟩
            rw [harrived, List.append_eq_nil_iff] at hnil
            exact ⟨hclosed, by simp [hconsumed, hnil.1], hnil.2⟩
          responses := h.responses
          stopped := by simp [hrunning] }⟩
  | line hrunning hmem =>
      rcases h.line hrunning hmem with ⟨line, hline⟩
      exact ⟨_, _, hline⟩
  | disconnected hrunning hclosed harrived hconsumed =>
      exact ⟨lines, last, { h with stopped := fun _ => Or.inr ⟨hclosed, hconsumed, harrived⟩ }⟩
  | lastLine hrunning hclosed harrived hne => exact ⟨_, _, h.lastLine hclosed harrived hne⟩
  | event hrunning hevents =>
      -- nothing was taken, so nothing is dropped
      have hconsumed : c.consumed = [] := hallowed
      exact ⟨lines, last,
        { sent := by simp [h.sent, hconsumed]
          unbroken := h.unbroken
          last_free := h.last_free
          consumed_free := List.not_mem_nil
          ended := fun hne => ⟨(h.ended hne).1, rfl, (h.ended hne).2.2⟩
          responses := by
            rw [← h.responses]
            simp [Connection.responses, Output.response?]
          stopped := by simp [hrunning] }⟩

end Reading

/-- When whole lines were sent, the first of them are answered, each by one response; and those
are all, or the loop runs on and has a newline to come to. -/
def AnswersLines (x : JsonPackage V) (handler : Handler V) (c : Connection V) : Prop :=
  ∀ lines : List String, (∀ line ∈ lines, newline ∉ utf8 line) →
    c.sent = joinLines (lines.map utf8) →
      ∃ read ahead, lines = read ++ ahead ∧ c.responses = answersTo x handler read ∧
        (ahead = [] ∨ c.running = true ∧ newline ∈ c.arrived)

/-- In a run where no event breaks a line, no line is lost. -/
theorem answersLines_of_unbroken (x : JsonPackage V) (handler : Handler V) {c : Connection V}
    (hrun : Run Accepted (Serve x handler) Unbroken c) : AnswersLines x handler c := by
  have hinv : ∃ lines last, Reading x handler c lines last := by
    refine Run.invariant (I := fun c => ∃ lines last, Reading x handler c lines last) ?_ ?_ hrun
    · exact fun c hc => ⟨[], [], Reading.start hc⟩
    · rintro c e c' ⟨lines, last, h⟩ hallowed hnext
      exact h.next hallowed hnext
  rcases hinv with ⟨frames, last, h⟩
  intro lines hlines hsent
  have hframes : ∀ line ∈ lines.map utf8, newline ∉ line := by
    simpa using hlines
  -- the lines read are the first of those sent
  rcases lines_of_joinLines h.unbroken hframes (h.sent.symm.trans hsent) with ⟨rest, hrest, htail⟩
  rcases List.map_eq_append_iff.1 hrest with ⟨read, ahead, rfl, rfl, rfl⟩
  have hlast : last = [] := by
    by_contra hne
    rcases h.ended hne with ⟨-, hconsumed, harrived⟩
    rw [hconsumed, harrived, List.append_nil, List.append_nil] at htail
    have hnil := eq_nil_of_notMem_joinLines (htail ▸ h.last_free)
    rw [hnil, joinLines_nil] at htail
    exact hne htail
  subst hlast
  refine ⟨read, ahead, rfl, ?_, ?_⟩
  · rw [h.responses, ← foldl_answerRead]
    simp [Function.comp_def]
  · by_cases hnil : ahead = []
    · exact Or.inl hnil
    · refine Or.inr ?_
      have hmem : newline ∈ c.consumed ++ c.arrived := by
        by_contra hnot
        rw [List.nil_append] at htail
        exact hnil (List.map_eq_nil_iff.1 (eq_nil_of_notMem_joinLines (htail ▸ hnot)))
      have harrived : newline ∈ c.arrived :=
        (List.mem_append.1 hmem).resolve_left h.consumed_free
      refine ⟨?_, harrived⟩
      cases hrunning : c.running with
      | true => rfl
      | false =>
          rcases h.stopped hrunning with ⟨line, hline, hinvalid⟩ | ⟨-, -, hempty⟩
          · rcases List.mem_map.1 hline with ⟨text, -, rfl⟩
            rw [fromUtf8_line] at hinvalid
            simp at hinvalid
          · rw [hempty] at harrived
            exact absurd harrived List.not_mem_nil

/-! ## An event in the middle of a line, and after it -/

theorem newline_notMem_statusRequest : newline ∉ utf8 statusRequestText := by
  decide +kernel

/-- The request arrives without its newline, an event is written, and the newline arrives: the line
is blank by then, and the request has no response. -/
theorem broken_request_unanswered :
    ∃ c : Connection PlainValue,
      Run Accepted (Serve plainJson readyHandler) (fun _ _ => True) c ∧
        c.sent = joinLines [utf8 statusRequestText] ∧ c.arrived = [] ∧ c.responses = [] ∧
        answersTo plainJson readyHandler [statusRequestText] = [statusResponse] ∧
        ¬ AnswersLines plainJson readyHandler c := by
  have hstart : Run Accepted (Serve plainJson readyHandler) (fun _ _ => True)
      Connection.opened := Run.start rfl
  have harrived := hstart.step trivial (Serve.send (utf8 statusRequestText) rfl)
  have htaken := harrived.step trivial
    (Serve.poll rfl (List.append_nil _).symm newline_notMem_statusRequest)
  have hqueued := htaken.step trivial (Serve.broadcast _ tickEventText)
  have hevent := hqueued.step trivial (Serve.event rfl rfl)
  have hrest := hevent.step trivial (Serve.send [newline] rfl)
  have hline := hrest.step trivial (Serve.line rfl (by simp))
  refine ⟨_, hline, by decide +kernel, by decide +kernel, by decide +kernel, by decide +kernel, ?_⟩
  intro hanswers
  rcases hanswers [statusRequestText] (by simpa using newline_notMem_statusRequest)
    (by decide +kernel) with ⟨read, ahead, hlines, hresponses, hrestCases⟩
  rcases hrestCases with rfl | ⟨-, hmem⟩
  · -- the whole line was to be answered
    rw [List.append_nil] at hlines
    rw [← hlines] at hresponses
    exact absurd hresponses (by decide +kernel)
  · exact absurd hmem (by decide +kernel)

/-- The request has arrived, and an event waits. -/
def statusSent : Connection PlainValue :=
  { Connection.opened with
    arrived := utf8 statusRequestText ++ [newline]
    events := [tickEventText]
    sent := utf8 statusRequestText ++ [newline] }

def statusAnswered : Connection PlainValue :=
  { statusSent with
    arrived := []
    written := [.response statusResponse] }

theorem run_statusAnswered {allowed : Connection PlainValue → ConnectionEvent → Prop}
    (hsend : allowed Connection.opened (.send (utf8 statusRequestText ++ [newline])))
    (hbroadcast : ∀ c, allowed c (.broadcast tickEventText)) (hline : allowed statusSent .line) :
    Run Accepted (Serve plainJson readyHandler) allowed statusAnswered := by
  have hstart : Run Accepted (Serve plainJson readyHandler) allowed Connection.opened :=
    Run.start rfl
  have harrived := hstart.step hsend (Serve.send _ rfl)
  have hsent : Run Accepted (Serve plainJson readyHandler) allowed statusSent :=
    harrived.step (hbroadcast _) (Serve.broadcast _ tickEventText)
  have hanswer : Connection.handleLine plainJson readyHandler
      (statusSent.consumed ++ (readLine statusSent.arrived).1)
      { statusSent with arrived := (readLine statusSent.arrived).2 } = statusAnswered := by
    decide +kernel
  have hread := hsent.step hline (Serve.line rfl (by decide +kernel))
  rwa [hanswer] at hread

/-- The same event, when the request was answered. -/
theorem unbroken_request_answered :
    AnswersLines plainJson readyHandler
      { statusAnswered with
        consumed := []
        events := []
        written := statusAnswered.written ++ [.event tickEventText] } := by
  have hanswered : Run Accepted (Serve plainJson readyHandler) Unbroken statusAnswered :=
    run_statusAnswered trivial (fun _ => trivial) trivial
  exact answersLines_of_unbroken plainJson readyHandler
    (hanswered.step (show Unbroken statusAnswered .event from rfl) (Serve.event rfl rfl))

end Ipc
end CraftecCore
