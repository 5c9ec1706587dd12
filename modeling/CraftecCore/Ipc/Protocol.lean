import CraftecCore.Library.Text

/-!
# Protocol — JSON-RPC requests and responses

`V` is the type of JSON values.  Printing and parsing are functions of another package, and so is
the handler that the server dispatches to.
-/

namespace CraftecCore
namespace Ipc

variable {V : Type}

structure RpcRequest (V : Type) where
  jsonrpc : String
  method : String
  params : Option V
  id : V
  deriving DecidableEq

def RpcRequest.new (method : String) (params : Option V) (id : V) : RpcRequest V :=
  { jsonrpc := "2.0"
    method := method
    params := params
    id := id }

structure RpcError where
  code : Int32
  message : String
  deriving DecidableEq

structure RpcResponse (V : Type) where
  jsonrpc : String
  result : Option V
  error : Option RpcError
  id : V
  deriving DecidableEq

namespace RpcResponse

def success (id result : V) : RpcResponse V :=
  { jsonrpc := "2.0"
    result := some result
    error := none
    id := id }

/-- `RpcResponse::error`. -/
def failure (id : V) (code : Int32) (message : String) : RpcResponse V :=
  { jsonrpc := "2.0"
    result := none
    error := some { code := code, message := message }
    id := id }

end RpcResponse

/-- The functions of `serde_json`; an error is its text. -/
structure JsonPackage (V : Type) where
  null : V
  /-- `Value::from` on a `u64`. -/
  ofU64 : UInt64 → V
  parseRequest : String → Except String (RpcRequest V)
  printRequest : RpcRequest V → Except String String
  parseResponse : String → Except String (RpcResponse V)
  printResponse : RpcResponse V → Except String String

/-- What a service answers to a method with parameters.  A service may keep state and serve other
connections in between, so the answer may be another one for each line of a connection. -/
abbrev Handler (V : Type) :=
  ℕ → String → Option V → Except String V

/-- The response to a line, given what the service answers. -/
def respond (x : JsonPackage V) (handle : String → Option V → Except String V) (line : String) :
    RpcResponse V :=
  match x.parseRequest line with
  | .ok req =>
      match handle req.method req.params with
      | .ok result => RpcResponse.success req.id result
      | .error msg => RpcResponse.failure req.id (-32000) msg
  | .error e => RpcResponse.failure x.null (-32700) ("Parse error: " ++ e)

/-- What `recv` of a receiver of events returns. -/
inductive Received
  | value (text : String)
  | lagged (missed : ℕ)
  | closed
  deriving DecidableEq, Repr

def Received.value? : Received → Option String
  | .value text => some text
  | _ => none

/-! ## A status request -/

inductive PlainValue
  | null
  | number (n : UInt64)
  | text (s : String)
  deriving DecidableEq

def statusRequest : RpcRequest PlainValue :=
  RpcRequest.new "status" none (.number 1)

def statusRequestText : String :=
  "\x7b\"jsonrpc\":\"2.0\",\"method\":\"status\",\"id\":1\x7d"

def statusResponse : RpcResponse PlainValue :=
  RpcResponse.success (.number 1) (.text "ready")

def statusResponseText : String :=
  "\x7b\"jsonrpc\":\"2.0\",\"result\":\"ready\",\"id\":1\x7d"

/-- An event as `send_event` prints it. -/
def tickEventText : String :=
  "\x7b\"data\":null,\"event\":\"tick\"\x7d"

def plainJson : JsonPackage PlainValue :=
  { null := .null
    ofU64 := .number
    parseRequest := fun text =>
      if text = statusRequestText then
        .ok statusRequest
      else
        .error "expected value at line 1 column 1"
    printRequest := fun r =>
      if r = statusRequest then .ok statusRequestText else .error "unsupported"
    parseResponse := fun text =>
      if text = statusResponseText then
        .ok statusResponse
      else
        .error "missing field `jsonrpc` at line 1 column 28"
    printResponse := fun r =>
      if r = statusResponse then .ok statusResponseText else .error "unsupported" }

def readyHandler : Handler PlainValue :=
  fun _ _ _ => .ok (.text "ready")

end Ipc
end CraftecCore
