import Polyscan.Json.Reader
import Polyscan.Service.Answer
import Polyscan.Text.Case

/-!
The service over HTTP: which request goes to which handler, how bodies are read, and with which status a
request is answered.
-/
namespace Polyscan.Http

structure Request where
  method : String
  path : String
  contentType : String := "application/json"
  body : String := ""
  deriving DecidableEq, Repr

inductive Content where
  | json (v : Json)
  | text (s : String)

structure Response where
  status : Nat
  content : Content

namespace Response

def ok (v : Json) : Response := ⟨200, .json v⟩

/-- A response with the detail of a failure. -/
def refusal (status : Nat) (detail : String) : Response := ⟨status, .json (.obj [("detail", .str detail)])⟩

/-- The response to an unexpected failure. -/
def crash : Response := ⟨500, .text "Internal Server Error"⟩

/-- The response to a failure: 400 for bad input, 502 for a breach of the engine contract, and 500 for any
other one. -/
def ofFault (f : Fault) : Response :=
  match f.kind with
  | .invalidInput => refusal 400 f.text
  | .contract => refusal 502 f.text
  | _ => crash

/-- Content that cannot be written, because a number in it has no notation, is a failure of its own. -/
def writable (r : Response) : Response :=
  match r.content with
  | .json v => if v.isFinite then r else crash
  | .text _ => r

end Response

/-! ## Bodies -/

/-- A complaint about a part of a body, with the code and the text for it, and the value it is about. -/
structure Problem where
  place : List Schema.Step
  code : String
  text : String
  value : Json

/-- What is wrong with a body. -/
inductive Rejection where
  | problems (list : List Problem)
  | unreadable

namespace Problem

def stepJson : Schema.Step → Json
  | .field name => .str name
  | .index position => .nat position

def toJson (p : Problem) : Json :=
  .obj [("type", .str p.code), ("loc", .arr (.str "body" :: p.place.map stepJson)), ("msg", .str p.text),
    ("input", p.value)]

/-- The value at a place inside a value. -/
def valueAt : List Schema.Step → Json → Json
  | [], v => v
  | .field name :: rest, .obj fields => valueAt rest ((OrderedMap.find name fields).getD .null)
  | .index position :: rest, .arr items => valueAt rest (items[position]?.getD .null)
  | _ :: _, v => v

/-- A complaint about a body. Where something is missing, the value is the one that lacks it. -/
def ofIssue (body : Json) (i : Schema.Issue) : Problem where
  place := i.path
  code := i.complaint.code
  text := i.complaint.text
  value := valueAt (match i.complaint with
    | .missing => i.path.dropLast
    | _ => i.path) body

end Problem

/-- Whether a content type says that the body is structured data. -/
def isJsonType (contentType : String) : Bool :=
  let kind := Text.lower (Text.trim (((Text.split ';' contentType)[0]?).getD ""))
  match Text.split '/' kind with
  | [main, sub] => main = "application" && (sub = "json" || Text.endsWith sub "+json")
  | _ => false

/-- The text without a mark of its encoding in front. -/
def withoutMark : List Char → List Char
  | '\ufeff' :: rest => rest
  | s => s

/-- The value in a body. A body of another content type is taken as text. -/
def readBody (r : Request) : Except Rejection Json :=
  if r.body.isEmpty then .error (.problems [.ofIssue .null ⟨[], .missing⟩])
  else if !r.contentType.isEmpty && !isJsonType r.contentType then .ok (.str r.body)
  else
    let text := withoutMark r.body.toList
    match Json.read text with
    | .ok v => .ok v
    | .error ⟨.tooManyDigits _, _⟩ => .error .unreadable
    | .error e =>
      .error (.problems [⟨[.index (text.length - e.remaining)], "json_invalid", "JSON decode error",
        .obj []⟩])

/-- What a body asks for, by the fields of the object that it must be. -/
def parseBody {α : Type} (schema : List (String × Json) → Schema.Checked α) (r : Request) :
    Except Rejection α := do
  let v ← readBody r
  let checked : Schema.Checked α :=
    match v with
    | .obj fields => schema fields
    | _ => .complain .attributes
  match checked with
  | .good a => pure a
  | .bad issues => throw (.problems (issues.map (.ofIssue v)))

/-- The characters of a body that its rejection quotes. -/
def quotedLength : Nat := 100

def Rejection.toResponse (body : String) : Rejection → Response
  | problems list =>
    ⟨422, .json (.obj [("detail", .arr (list.map Problem.toJson)),
      ("body", .str (String.ofList (body.toList.take quotedLength)))])⟩
  | unreadable => .refusal 400 "There was an error parsing the body"

/-! ## Routes -/

inductive Route where
  | health
  | rules
  | run
  deriving DecidableEq, Repr

namespace Route

/-- The route of a path; what follows a question mark does not belong to the path. -/
def ofPath? (path : String) : Option Route :=
  match (Text.split '?' path)[0]? with
  | some "/health" => some health
  | some "/rules" => some rules
  | some "/run" => some run
  | _ => none

def method : Route → String
  | health => "GET"
  | rules | run => "POST"

end Route

/-- The version that the service reports. -/
def version : String := "1.0.0"

def healthJson (a : Analyzer) : Json :=
  .obj [("status", .str "ok"), ("version", .str version), ("engines", .strings a.engineNames)]

/-- The response for a result, or for a failure. -/
def answerOf {β : Type} (encode : β → Json) : Except Fault β → Response
  | .ok y => .ok (encode y)
  | .error f => .ofFault f

/-- Parses the body, runs the work that it asks for, and responds with the outcome. -/
def handle {α β : Type} (r : Request) (schema : List (String × Json) → Schema.Checked α)
    (work : α → Work Service β) (encode : β → Json) : Work Service Response :=
  match parseBody schema r with
  | .error e => pure (e.toResponse r.body)
  | .ok a => (work a).attempt.bind fun result => pure (answerOf encode result)

/-- The response to a request. -/
def respond (t : Timing) (r : Request) : Work Service Response :=
  match Route.ofPath? r.path with
  | none => pure (.refusal 404 "Not Found")
  | some route =>
    if r.method ≠ route.method then pure (.refusal 405 "Method Not Allowed")
    else
      match route with
      | .health => .get fun s => pure (.ok (healthJson s.analyzer))
      | .rules => handle r Schema.rulesFields Service.listRules Selection.toJson
      | .run => handle r Schema.runFields (Service.run t) RunReport.toJson

/-- The response to a request as it is written. -/
def serve (t : Timing) (r : Request) : Work Service Response :=
  (respond t r).bind fun answer => pure answer.writable

end Polyscan.Http
