import CraftecCore.Ipc.Client
import CraftecCore.Library.Json

/-!
# Encoding — what of a response arrives at the client

A response is printed as an object that leaves out an empty `result` or `error`, and is read back
with a null `result` taken for an empty one.  So the client gets every value that a handler returns
but null, and every error.
-/

namespace CraftecCore
namespace Ipc

open Text Json

/-! ## Responses as JSON values -/

def RpcError.toJson (e : RpcError) : Value :=
  .object [("code", .ofInt32 e.code), ("message", .string e.message)]

def RpcResponse.toJson (r : RpcResponse Value) : Value :=
  .object
    ([("jsonrpc", .string r.jsonrpc)] ++ optionalField "result" (fun value => value) r.result ++
      optionalField "error" RpcError.toJson r.error ++ [("id", r.id)])

structure RpcErrorSlots where
  code : Option Int32
  message : Option String

def RpcErrorSlots.read (slots : RpcErrorSlots) (field : String × Value) :
    Except DecodeError RpcErrorSlots :=
  match field.1 with
  | "code" => do
      let code ← readSlot "code" slots.code Value.asInt32 field.2
      pure { slots with code := code }
  | "message" => do
      let message ← readSlot "message" slots.message Value.asString field.2
      pure { slots with message := message }
  -- an unknown field is skipped
  | _ => pure slots

def RpcError.ofJson : Value → Except DecodeError RpcError
  | .object fields => do
      let slots ← fields.foldlM RpcErrorSlots.read { code := none, message := none }
      let code ← required "code" slots.code
      let message ← required "message" slots.message
      pure { code := code, message := message }
  | .array items => do
      let code ← (← element items 0).asInt32
      let message ← (← element items 1).asString
      if 2 < items.length then
        throw .trailingCharacters
      pure { code := code, message := message }
  | _ => .error (.invalidType "struct RpcError")

structure RpcResponseSlots where
  jsonrpc : Option String
  result : Option (Option Value)
  error : Option (Option RpcError)
  id : Option Value

def RpcResponseSlots.read (slots : RpcResponseSlots) (field : String × Value) :
    Except DecodeError RpcResponseSlots :=
  match field.1 with
  | "jsonrpc" => do
      let jsonrpc ← readSlot "jsonrpc" slots.jsonrpc Value.asString field.2
      pure { slots with jsonrpc := jsonrpc }
  | "result" => do
      let result ← readSlot "result" slots.result (Value.asOption .ok) field.2
      pure { slots with result := result }
  | "error" => do
      let error ← readSlot "error" slots.error (Value.asOption RpcError.ofJson) field.2
      pure { slots with error := error }
  | "id" => do
      let id ← readSlot "id" slots.id .ok field.2
      pure { slots with id := id }
  | _ => pure slots

def RpcResponse.ofJson : Value → Except DecodeError (RpcResponse Value)
  | .object fields => do
      let slots ← fields.foldlM RpcResponseSlots.read
        { jsonrpc := none, result := none, error := none, id := none }
      let jsonrpc ← required "jsonrpc" slots.jsonrpc
      let id ← required "id" slots.id
      -- an optional field that is missing is `None`
      pure
        { jsonrpc := jsonrpc
          result := slots.result.getD none
          error := slots.error.getD none
          id := id }
  | .array items => do
      let jsonrpc ← (← element items 0).asString
      let result ← (← element items 1).asOption .ok
      let error ← (← element items 2).asOption RpcError.ofJson
      let id ← element items 3
      if 4 < items.length then
        throw .trailingCharacters
      pure { jsonrpc := jsonrpc, result := result, error := error, id := id }
  | _ => .error (.invalidType "struct RpcResponse")

/-! ## Texts -/

/-- Values as texts: `serde_json` prints and parses them, and says what is wrong with a text. -/
structure JsonText where
  print : Value → String
  parse : String → Except String Value
  explain : String → DecodeError → String

/-- `serde_json::from_str::<RpcResponse>`. -/
def JsonText.parseResponse (t : JsonText) (text : String) : Except String (RpcResponse Value) :=
  match t.parse text with
  | .error msg => .error msg
  | .ok value =>
      match RpcResponse.ofJson value with
      | .error err => .error (t.explain text err)
      | .ok response => .ok response

/-- The package that prints and reads responses as texts; requests are left to `base`. -/
def JsonText.package (t : JsonText) (base : JsonPackage Value) : JsonPackage Value :=
  { base with
    null := .null
    parseResponse := t.parseResponse
    printResponse := fun response => .ok (t.print response.toJson) }

/-- A value is printed on one line without white space around it, and is parsed back. -/
structure JsonText.Faithful (t : JsonText) (value : Value) : Prop where
  parse : t.parse (t.print value) = .ok value
  oneLine : newline ∉ utf8 (t.print value)
  trimmed : trim (t.print value) = t.print value

/-! ## Responses are read back, but for a null result -/

theorem RpcError.ofJson_toJson (e : RpcError) : RpcError.ofJson e.toJson = .ok e := by
  simp [toJson, ofJson, RpcErrorSlots.read, Value.asInt32_ofInt32, Value.asString]

/-- A null result is read back as no result. -/
def resultReadBack : Option Value → Option Value
  | some .null => none
  | result => result

theorem asOption_result (value : Value) :
    value.asOption .ok = .ok (resultReadBack (some value)) := by
  cases value <;> rfl

theorem RpcResponse.ofJson_toJson (r : RpcResponse Value) :
    RpcResponse.ofJson r.toJson = .ok { r with result := resultReadBack r.result } := by
  have herror : ∀ e : RpcError, e.toJson.asOption RpcError.ofJson = .ok (some e) := by
    intro e
    exact Value.asOption_eq e.ofJson_toJson (by simp [RpcError.toJson])
  rcases r with ⟨jsonrpc, result, error, id⟩
  -- the fields that are written depend on what is there
  cases result with
  | none =>
      cases error with
      | none =>
          simp [toJson, ofJson, optionalField, RpcResponseSlots.read, Value.asString,
            resultReadBack]
      | some e =>
          simp [toJson, ofJson, optionalField, RpcResponseSlots.read, Value.asString,
            resultReadBack, herror]
  | some value =>
      cases error with
      | none =>
          simp [toJson, ofJson, optionalField, RpcResponseSlots.read, Value.asString,
            asOption_result]
      | some e =>
          simp [toJson, ofJson, optionalField, RpcResponseSlots.read, Value.asString,
            asOption_result, herror]

/-! ## From the handler to the client -/

section Client

variable (t : JsonText) (base : JsonPackage Value)

def responseLine (r : RpcResponse Value) : List UInt8 :=
  utf8 ((Output.response r).text (t.package base)) ++ [newline]

/-- The client reads the response off its line, whatever is written behind it. -/
theorem readResponse_responseLine {r : RpcResponse Value} (h : t.Faithful r.toJson)
    (rest : List UInt8) :
    readResponse (t.package base) (responseLine t base r ++ rest) =
      match r.error with
      | some err => .error (.daemonError err.code err.message)
      | none =>
          match resultReadBack r.result with
          | some value => .ok value
          | none => .error (.invalidResponse "No result in response") := by
  have hline : responseLine t base r ++ rest = utf8 (t.print r.toJson) ++ newline :: rest := by
    simp [responseLine, Output.text, JsonText.package, Except.toOption]
  have hparse : (t.package base).parseResponse (t.print r.toJson) =
      .ok { r with result := resultReadBack r.result } := by
    simp only [JsonText.package, JsonText.parseResponse, h.parse, RpcResponse.ofJson_toJson]
  rw [hline, readResponse, readLine_append h.oneLine, fromUtf8_line]
  simp only [trim_line, h.trimmed, hparse]
  cases r.error with
  | some err => rfl
  | none => cases resultReadBack r.result <;> rfl

/-- The client returns the value that a handler returned, unless it is null; and the error that it
is sent, always. -/
theorem results_roundTrip_iff (id : Value) (rest : List UInt8) :
    (∀ value : Value, t.Faithful (RpcResponse.success id value).toJson →
      (readResponse (t.package base)
          (responseLine t base (RpcResponse.success id value) ++ rest) = .ok value ↔
        value ≠ .null)) ∧
    (∀ (code : Int32) (message : String),
      t.Faithful (RpcResponse.failure id code message).toJson →
        readResponse (t.package base)
            (responseLine t base (RpcResponse.failure id code message) ++ rest) =
          .error (.daemonError code message)) := by
  constructor
  · intro value hfaithful
    rw [readResponse_responseLine t base hfaithful rest]
    cases value with
    | null => simp [RpcResponse.success, resultReadBack]
    | _ => simp [RpcResponse.success, resultReadBack]
  · intro code message hfaithful
    rw [readResponse_responseLine t base hfaithful rest]
    rfl

end Client

/-! ## Three responses -/

def readyResponse : RpcResponse Value :=
  RpcResponse.success (.number (.posInt 1)) (.string "ready")

def nullResponse : RpcResponse Value :=
  RpcResponse.success (.number (.posInt 1)) .null

def notFoundResponse : RpcResponse Value :=
  RpcResponse.failure (.number (.posInt 1)) (-32000) "Not found"

def nullResponseText : String :=
  "\x7b\"jsonrpc\":\"2.0\",\"result\":null,\"id\":1\x7d"

def notFoundResponseText : String :=
  "\x7b\"jsonrpc\":\"2.0\",\"error\":\x7b\"code\":-32000,\"message\":\"Not found\"\x7d,\"id\":1\x7d"

def plainText : JsonText :=
  { print := fun value =>
      match value with
      | .object [_, ("result", .string _), _] => statusResponseText
      | .object [_, ("result", _), _] => nullResponseText
      | _ => notFoundResponseText
    parse := fun text =>
      if text = statusResponseText then
        .ok readyResponse.toJson
      else if text = nullResponseText then
        .ok nullResponse.toJson
      else if text = notFoundResponseText then
        .ok notFoundResponse.toJson
      else
        .error "expected value at line 1 column 1"
    explain := fun _ _ => "missing field" }

def noRequests : JsonPackage Value :=
  { null := .null
    ofU64 := fun n => .number (.posInt n)
    parseRequest := fun _ => .error "expected value at line 1 column 1"
    printRequest := fun _ => .error "unsupported"
    parseResponse := fun _ => .error "expected value at line 1 column 1"
    printResponse := fun _ => .error "unsupported" }

theorem faithful_readyResponse : plainText.Faithful readyResponse.toJson :=
  { parse := rfl
    oneLine := by decide +kernel
    trimmed := by decide +kernel }

theorem faithful_nullResponse : plainText.Faithful nullResponse.toJson :=
  { parse := rfl
    oneLine := by decide +kernel
    trimmed := by decide +kernel }

theorem faithful_notFoundResponse : plainText.Faithful notFoundResponse.toJson :=
  { parse := rfl
    oneLine := by decide +kernel
    trimmed := by decide +kernel }

/-- A string and an error arrive at the client. -/
theorem results_roundTrip_ready :
    readResponse (plainText.package noRequests)
        (responseLine plainText noRequests readyResponse ++ []) = .ok (.string "ready") ∧
      readResponse (plainText.package noRequests)
        (responseLine plainText noRequests notFoundResponse ++ []) =
          .error (.daemonError (-32000) "Not found") :=
  ⟨((results_roundTrip_iff plainText noRequests (.number (.posInt 1)) []).1 (.string "ready")
      faithful_readyResponse).2 (by simp),
    (results_roundTrip_iff plainText noRequests (.number (.posInt 1)) []).2 (-32000) "Not found"
      faithful_notFoundResponse⟩

/-- A handler returns null, and the client is told that there is no result. -/
theorem not_results_roundTrip :
    readResponse (plainText.package noRequests)
        (responseLine plainText noRequests nullResponse ++ []) =
          .error (.invalidResponse "No result in response") ∧
      ¬ ∀ (t : JsonText) (base : JsonPackage Value) (id value : Value),
        t.Faithful (RpcResponse.success id value).toJson →
          readResponse (t.package base)
            (responseLine t base (RpcResponse.success id value) ++ []) = .ok value := by
  have hnull : readResponse (plainText.package noRequests)
      (responseLine plainText noRequests nullResponse ++ []) =
        .error (.invalidResponse "No result in response") :=
    readResponse_responseLine plainText noRequests faithful_nullResponse []
  refine ⟨hnull, fun h => ?_⟩
  have hvalue := h plainText noRequests (.number (.posInt 1)) .null faithful_nullResponse
  have heq := hnull.symm.trans hvalue
  cases heq

end Ipc
end CraftecCore
