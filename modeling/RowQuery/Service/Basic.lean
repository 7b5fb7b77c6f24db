import RowQuery.Engine
import RowQuery.Service.Form

/-!
# `Service` — one query over many payloads

A service runs its query once for every payload it is given. The payload is decoded, bound in the
context under the name `payload`, and the results go back in the kind of the service: as JSON text
or as a value.
-/

set_option autoImplicit false

namespace RowQuery

/-- The kind of payloads a service answers with and expects. -/
inductive PayloadKind where
  /-- Texts that hold JSON. -/
  | json
  /-- Values. -/
  | native
deriving DecidableEq

def PayloadKind.inspect : PayloadKind → String
  | .json => "Json"
  | .native => "Native"

/-- What a service is given and gives back. -/
inductive Payload where
  | text (body : String) (contentType : Option String)
  | native (v : Value)

namespace Payload

def formType : String := "application/x-www-form-urlencoded"

def jsonType : String := "application/json"

def json (body : String) : Payload := .text body (some jsonType)

def form (body : String) : Payload := .text body (some formType)

/-- Whether the characters occur in the text one after another. -/
def occurs (part : List Char) : List Char → Bool
  | [] => part.isEmpty
  | c :: rest => part.isPrefixOf (c :: rest) || occurs part rest

/-- Whether a content type says that the text is a form. -/
def isForm (contentType : Option String) : Bool :=
  contentType.any fun t => occurs formType.toList t.toList

/-- The value of a JSON text: an array if it begins with a bracket, else an object. -/
def decodeJson (body : String) : Except Fault Value :=
  match Json.parse? body with
  | none => .error .notJson
  | some j =>
    let expectsArray := (body.toList.dropWhile isBlank).head? == some '['
    match j, expectsArray with
    | .array _, true => .ok (.ofJson j)
    | .object _, false => .ok (.ofJson j)
    | _, true => .error (.invalidPayload (.notArray (Value.ofJson j).kind))
    | _, false => .error (.invalidPayload (.notObject (Value.ofJson j).kind))

/-- The value of a payload for a service of this kind. A value is itself, a form is an object of
strings, and any other text is JSON or, for a native service, a string. -/
def decode (kind : PayloadKind) : Payload → Except Fault Value
  | .native v => .ok v
  | .text body contentType =>
    if isForm contentType then .ok (Form.decode body)
    else match kind with
      | .json => decodeJson body
      | .native => .ok (.string body)

def encode (kind : PayloadKind) (results : List Object) : Payload :=
  let results : Value := .array (results.map .object)
  match kind with
  | .json => .json results.toOrderedJson.compact
  | .native => .native results

end Payload

/-- A query that answers payloads. -/
structure Service where
  name : String
  query : Query
  kind : PayloadKind

namespace Service

/-- The name under which the query finds the payload. -/
def payloadName : String := "payload"

def process (env : Environment) (context : Context) (s : Service) (payload : Payload) :
    Execution Payload := do
  match payload.decode s.kind with
  | .error f => Run.abort (.fault f)
  | .ok input =>
    return .encode s.kind (← s.query.execute env (context.bind payloadName input))

end Service
end RowQuery
