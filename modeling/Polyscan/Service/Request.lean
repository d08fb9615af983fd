import Polyscan.Rule.Description

/-! The requests of clients. -/
namespace Polyscan

/-- A request for the rules that selectors select. -/
structure RulesRequest where
  selectors : List String := []
  /-- Files and folders; none stand for the working directory. -/
  workspace : List String := []
  deriving DecidableEq, Repr

/-- A request for a run of the rules that selectors select. -/
structure RunRequest where
  selectors : List String := []
  workspace : List String
  startPoints : List String := []
  deriving DecidableEq, Repr

namespace Schema

/-- A list that is not empty. -/
def filled {α : Type} (schema : Json → Checked (List α)) (v : Json) : Checked (List α) :=
  match schema v with
  | .good [] => .complain (.tooShort 1)
  | c => c

def rulesFields (fields : List (String × Json)) : Checked RulesRequest :=
  RulesRequest.mk <$> withDefault fields "selectors" [] strings
    <*> withDefault fields "workspace" [] strings

def runFields (fields : List (String × Json)) : Checked RunRequest :=
  RunRequest.mk <$> withDefault fields "selectors" [] strings
    <*> required fields "workspace" (filled strings)
    <*> withDefault fields "path_start_points" [] strings

def rulesRequest : Json → Checked RulesRequest := object "RulesRequest" rulesFields

def runRequest : Json → Checked RunRequest := object "RunRequest" runFields

end Schema

def RulesRequest.toJson (r : RulesRequest) : Json :=
  .obj [("selectors", .strings r.selectors), ("workspace", .strings r.workspace)]

def RunRequest.toJson (r : RunRequest) : Json :=
  .obj [("selectors", .strings r.selectors), ("workspace", .strings r.workspace),
    ("path_start_points", .strings r.startPoints)]

end Polyscan
