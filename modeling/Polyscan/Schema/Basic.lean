import Polyscan.Fault
import Polyscan.Text.Basic

/-!
Validated data. A schema turns a value into data or complains about all parts of it, each complaint with its
place. `Checked` collects the complaints.
-/
namespace Polyscan.Schema

/-- A step into a value: a field or a list position. -/
inductive Step where
  | field (name : String)
  | index (position : Nat)
  deriving DecidableEq, Repr

def Step.text : Step → String
  | .field name => name
  | .index position => toString position

inductive Complaint where
  | missing
  | string
  | wholeNumber
  | number
  | numberText
  | list
  | object
  | model (name : String)
  | attributes
  | option (choices : String)
  | rejected (reason : String)
  | tooShort (least : Nat)
  | unexpected
  deriving DecidableEq, Repr

namespace Complaint

/-- The code under which a complaint is reported. -/
def code : Complaint → String
  | missing => "missing"
  | string => "string_type"
  | wholeNumber => "int_type"
  | number => "float_type"
  | numberText => "float_parsing"
  | list => "list_type"
  | object => "dict_type"
  | model _ => "model_type"
  | attributes => "model_attributes_type"
  | option _ => "enum"
  | rejected _ => "value_error"
  | tooShort _ => "too_short"
  | unexpected => "extra_forbidden"

def text : Complaint → String
  | missing => "Field required"
  | string => "Input should be a valid string"
  | wholeNumber => "Input should be a valid integer"
  | number => "Input should be a valid number"
  | numberText => "Input should be a valid number, unable to parse string as a number"
  | list => "Input should be a valid list"
  | object => "Input should be a valid dictionary"
  | model name => "Input should be a valid dictionary or instance of " ++ name
  | attributes => "Input should be a valid dictionary or object to extract fields from"
  | option choices => "Input should be " ++ choices
  | rejected reason => "Value error, " ++ reason
  | tooShort least =>
    "List should have at least " ++ toString least ++
      (if least = 1 then " item" else " items") ++ " after validation, not 0"
  | unexpected => "Extra inputs are not permitted"

end Complaint

/-- A complaint about one place. -/
structure Issue where
  path : List Step
  complaint : Complaint
  deriving DecidableEq, Repr

def Issue.under (step : Step) (i : Issue) : Issue := { i with path := step :: i.path }

def Issue.text (i : Issue) : String :=
  let place := Text.join "." (i.path.map Step.text)
  (if i.path.isEmpty then "" else "\n" ++ place) ++
    "\n  " ++ i.complaint.text ++ " [type=" ++ i.complaint.code ++ "]"

/-- The text of a report on a value that should have been a `model`. -/
def report (model : String) (issues : List Issue) : String :=
  let n := issues.length
  toString n ++ (if n = 1 then " validation error" else " validation errors") ++ " for " ++ model ++
    String.join (issues.map Issue.text)

/-- A checked value, or the complaints about it. -/
inductive Checked (α : Type) where
  | good (value : α)
  | bad (issues : List Issue)

namespace Checked

variable {α β : Type}

def map (f : α → β) : Checked α → Checked β
  | good a => good (f a)
  | bad issues => bad issues

/-- Checks both parts and keeps the complaints of both. -/
def both (f : Checked (α → β)) (x : Checked α) : Checked β :=
  match f, x with
  | good f, good a => good (f a)
  | good _, bad issues => bad issues
  | bad issues, good _ => bad issues
  | bad first, bad second => bad (first ++ second)

instance : Applicative Checked where
  pure := good
  map := map
  seq f x := both f (x ())

def complain (c : Complaint) : Checked α := bad [⟨[], c⟩]

/-- Moves the complaints to a place inside a larger value. -/
def under (step : Step) : Checked α → Checked α
  | good a => good a
  | bad issues => bad (issues.map (Issue.under step))

def toOption : Checked α → Option α
  | good a => some a
  | bad _ => none

def isGood : Checked α → Bool
  | good _ => true
  | bad _ => false

/-- Turns complaints into one failure with a report. -/
def orFault (model : String) : Checked α → Except Fault α
  | good a => .ok a
  | bad issues => .error (.raised .validation (report model issues))

end Checked

variable {α : Type}

def string : Json → Checked String
  | .str s => .good s
  | _ => .complain .string

def anything (v : Json) : Checked Json := .good v

/-- A whole number and nothing else: neither a truth value nor a number with a fraction part. -/
def wholeNumber : Json → Checked Int
  | .int n => .good n
  | _ => .complain .wholeNumber

def nullable (schema : Json → Checked α) : Json → Checked (Option α)
  | .null => .good none
  | v => (schema v).map some

/-- Checks the items of a list, the first of which stands at `position`. -/
def itemsFrom (schema : Json → Checked α) (position : Nat) : List Json → Checked (List α)
  | [] => .good []
  | v :: rest =>
    List.cons <$> (schema v).under (.index position) <*> itemsFrom schema (position + 1) rest

def list (schema : Json → Checked α) : Json → Checked (List α)
  | .arr items => itemsFrom schema 0 items
  | _ => .complain .list

def fieldsOf (schema : Json → Checked α) : List (String × Json) → Checked (List (String × α))
  | [] => .good []
  | (name, v) :: rest =>
    (fun a more => (name, a) :: more) <$> (schema v).under (.field name) <*> fieldsOf schema rest

/-- An object whose fields are all of one shape, under names of any kind. -/
def table (schema : Json → Checked α) : Json → Checked (List (String × α))
  | .obj fields => fieldsOf schema fields
  | _ => .complain .object

/-- A field that must be there. -/
def required (fields : List (String × Json)) (name : String) (schema : Json → Checked α) : Checked α :=
  match OrderedMap.find name fields with
  | some v => (schema v).under (.field name)
  | none => (Checked.complain .missing).under (.field name)

/-- A field that may be left out. -/
def withDefault (fields : List (String × Json)) (name : String) (default : α)
    (schema : Json → Checked α) : Checked α :=
  match OrderedMap.find name fields with
  | some v => (schema v).under (.field name)
  | none => .good default

/-- An object with named fields; names that the schema does not ask for are ignored. -/
def object (model : String) (schema : List (String × Json) → Checked α) : Json → Checked α
  | .obj fields => schema fields
  | _ => .complain (.model model)

/-! Validation around readers that can fail in other ways than by refusing a value. -/

/-- A value that the reader refuses is complained of. Any other failure of the reader ends the validation. -/
def guarded (read : Json → Except Fault α) (v : Json) : Except Fault (Checked α) :=
  match read v with
  | .ok a => .ok (.good a)
  | .error f => if f.kind = .value then .ok (.complain (.rejected f.text)) else .error f

/-- Null passes unread. -/
def guardedNullable (read : Json → Except Fault α) : Json → Except Fault (Checked (Option α))
  | .null => .ok (.good none)
  | v => Checked.map some <$> guarded read v

/-- A field that may be left out and is read where it is there. -/
def guardedField (fields : List (String × Json)) (name : String) (default : α)
    (check : Json → Except Fault (Checked α)) : Except Fault (Checked α) :=
  match OrderedMap.find name fields with
  | some v => Checked.under (.field name) <$> check v
  | none => .ok (.good default)

/-- Validates an object whose fields are read. -/
def validate (model : String) (schema : List (String × Json) → Except Fault (Checked α)) : Json → Except Fault α
  | .obj fields => schema fields >>= Checked.orFault model
  | _ => (Checked.complain (.model model)).orFault model

end Polyscan.Schema
