import Polyscan.Fault
import Polyscan.Json.Display
import Polyscan.Text.Case

/-!
Severity levels and their spellings. A level is given by its number, by a string of decimal digits of
any script, or by its name in any case; strings may be padded with white space.
-/
namespace Polyscan

/-- From most to least severe. -/
inductive Severity where
  | critical
  | high
  | moderate
  | low
  | info
  deriving DecidableEq, Repr, Inhabited

namespace Severity

def all : List Severity := [critical, high, moderate, low, info]

def number : Severity → Nat
  | critical => 1
  | high => 2
  | moderate => 3
  | low => 4
  | info => 5

def name : Severity → String
  | critical => "CRITICAL"
  | high => "HIGH"
  | moderate => "MODERATE"
  | low => "LOW"
  | info => "INFO"

/-- The name with only its first letter in upper case. -/
def title : Severity → String
  | critical => "Critical"
  | high => "High"
  | moderate => "Moderate"
  | low => "Low"
  | info => "Info"

def ofNumber? (n : Int) : Option Severity := all.find? fun s => (s.number : Int) == n

def ofName? (text : String) : Option Severity := all.find? fun s => s.name == text

/-- The reasons for which a value is not a level. -/
inductive Problem where
  /-- No level has this value. -/
  | noSuchLevel (value : Json)
  /-- No level has this name. -/
  | unknownName (text : String)
  /-- The text has digits that are not decimal. -/
  | notDecimal (text : String)
  /-- The number has more than `digitLimit` digits. -/
  | tooLong (digits : Nat)

def Problem.text : Problem → String
  | .noSuchLevel value => value.shown ++ " is not a valid SeverityLevel"
  | .unknownName text => "Unknown severity level: " ++ Text.quoted text
  | .notDecimal text =>
    "invalid literal for int() with base 10: " ++ String.ofList ((Text.quoted text).toList.take 200)
  | .tooLong digits => overlongText (some digits)

def Problem.fault (p : Problem) : Fault := .raised .value p.text

/-- The number that decimal digits of any script spell. -/
def decimalNumber? (text : List Char) : Option Nat :=
  text.foldl (fun n c => do pure ((← n) * 10 + (← Text.decimalValue? c.toNat))) (some 0)

/-- Reads a level from a string of digits. -/
def ofDigits (text : String) : Except Problem Severity :=
  let lead := (text.toList.takeWhile fun c => Text.isDecimal c.toNat).length
  if digitLimit < lead then .error (.tooLong lead)
  else
    match decimalNumber? text.toList with
    | none => .error (.notDecimal text)
    | some n =>
      match ofNumber? n with
      | some level => .ok level
      | none => .error (.noSuchLevel (.int n))

/-- The test for texts of digits, decimal or not. -/
def isDigits (text : String) : Bool := !text.isEmpty && text.toList.all fun c => Text.isDigit c.toNat

/-- Reads a level from its spelling. -/
def ofText (s : String) : Except Problem Severity :=
  let text := Text.trim s
  if isDigits text then ofDigits text
  else
    match ofName? (Text.upper text) with
    | some level => .ok level
    | none => .error (.unknownName s)

/-- The level of a value: a text by its spelling, any other value by equality with a number. -/
def parse : Json → Except Problem Severity
  | .str s => ofText s
  | value =>
    match value.asInt? >>= ofNumber? with
    | some level => .ok level
    | none => .error (.noSuchLevel value)

/-! Reading with the failure of every lookup. -/

/-- The level with this number. -/
def withValue (v : Json) : Except Fault Severity :=
  match all.find? fun s => (Json.nat s.number).same v with
  | some level => .ok level
  | none => .error (Problem.noSuchLevel v).fault

/-- The level with this name. -/
def withName (name : String) : Except Fault Severity :=
  match ofName? name with
  | some level => .ok level
  | none => .error (.unknown name)

/-- The number of a text of digits. -/
def numberOf (text : String) : Except Fault Nat :=
  let lead := (text.toList.takeWhile fun c => Text.isDecimal c.toNat).length
  if digitLimit < lead then .error (Problem.tooLong lead).fault
  else
    match decimalNumber? text.toList with
    | some n => .ok n
    | none => .error (Problem.notDecimal text).fault

/-- Replaces the lookup error of an unknown name by a value error; other failures pass. -/
def refuseUnknown (s : String) (f : Fault) : Except Fault Severity :=
  if f.kind = .key then .error (Problem.unknownName s).fault else .error f

/-- `parse` with the lookups and handlers that it is made of. -/
def read : Json → Except Fault Severity
  | .str s =>
    if isDigits (Text.trim s) then do withValue (.int (← numberOf (Text.trim s)))
    else tryCatch (withName (Text.upper (Text.trim s))) (refuseUnknown s)
  | v => withValue v

theorem ofNumber?_number (s : Severity) : ofNumber? s.number = some s := by
  cases s <;> rfl

theorem ofNumber?_eq_some_iff {n : Int} {s : Severity} : ofNumber? n = some s ↔ n = s.number := by
  constructor
  · intro h
    have hfound := List.find?_some h
    exact (beq_iff_eq.mp hfound).symm
  · rintro rfl
    exact ofNumber?_number s

theorem ofName?_name (s : Severity) : ofName? s.name = some s := by
  cases s <;> decide

theorem ofName?_eq_some_iff {text : String} {s : Severity} : ofName? text = some s ↔ text = s.name := by
  constructor
  · intro h
    have hfound := List.find?_some h
    exact (beq_iff_eq.mp hfound).symm
  · rintro rfl
    exact ofName?_name s

end Severity

end Polyscan
