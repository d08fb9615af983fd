import Polyscan.Rule.Description

/-! Rules of the catalogue: an engine's name with one of its descriptions, and the selectors that name
them. -/
namespace Polyscan

structure Rule where
  engine : String
  description : RuleDescription
  deriving DecidableEq, Repr, Inhabited

namespace Rule

def name (r : Rule) : String := r.description.name

def severity (r : Rule) : Severity := r.description.severity

def tags (r : Rule) : List String := r.description.tags

def resourceUrls (r : Rule) : List String := r.description.resourceUrls

/-- What makes two rules the same rule. -/
def identity (r : Rule) : String × String := (r.engine, r.name)

/-- The words by which a rule can be picked: the keyword for all rules, its engine, its name, its tags. -/
def selectables (r : Rule) : List String := "all" :: r.engine :: r.name :: r.tags

/-- A selector is a list of terms with colons between them, each of which must name the rule. -/
def matchesSelector (r : Rule) (selector : String) : Bool :=
  (Text.split ':' selector).all fun term => r.selectables.contains term

/-- The rule as it is shown to developers. -/
def shown (r : Rule) : String :=
  "Rule(engine_name=" ++ Text.quoted r.engine ++ ", name=" ++ Text.quoted r.name ++ ")"

end Rule

end Polyscan
