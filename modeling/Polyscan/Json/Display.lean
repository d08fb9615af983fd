import Polyscan.Json.Basic
import Polyscan.Number.Decimal
import Polyscan.Text.Basic
import Polyscan.Text.Quoted

/-! Values as they are shown inside diagnostics: strings in quotes, lists and objects in brackets. -/
namespace Polyscan.Json

mutual

def shown : Json → String
  | null => "None"
  | bool b => if b then "True" else "False"
  | int n => toString n
  | real x => x.text
  | str s => Text.quoted s
  | arr items => "[" ++ Text.join ", " (shownItems items) ++ "]"
  | obj fields => "\x7b" ++ Text.join ", " (shownFields fields) ++ "\x7d"

def shownItems : List Json → List String
  | [] => []
  | v :: rest => shown v :: shownItems rest

def shownFields : List (String × Json) → List String
  | [] => []
  | (k, v) :: rest => (Text.quoted k ++ ": " ++ shown v) :: shownFields rest

end

/-- A string stands for itself where it is the whole text. -/
def display : Json → String
  | str s => s
  | v => v.shown

/-- The list of the given texts as it is shown. -/
def shownStrings (texts : List String) : String := shown (strings texts)

/-- The name of a value's kind as diagnostics give it. -/
def kindName {τ : Type} : Json τ → String
  | null => "NoneType"
  | bool _ => "bool"
  | int _ => "int"
  | real _ => "float"
  | str _ => "str"
  | arr _ => "list"
  | obj _ => "dict"

end Polyscan.Json
