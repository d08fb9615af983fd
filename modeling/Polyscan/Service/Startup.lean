import Polyscan.Analyzer.Registry
import Polyscan.Settings.Basic
import Polyscan.Work.Once

/-!
The start of the service. The shared analyzer is built for the first request, with the plugins of the
settings; requests that arrive meanwhile wait for it. If a plugin cannot be added there is no analyzer, and
the next request builds it anew.
-/
namespace Polyscan

structure Startup where
  host : Host
  settings : Settings
  /-- How modules are loaded, which depends on what is on the machine by then. -/
  loader : Host → String → Except Fault Plugin := Plugin.load
  analyzer : Once Analyzer := {}

namespace Startup

/-- A new analyzer with the listener of the log. -/
def fresh (s : Startup) : Analyzer :=
  (({ host := s.host, config := s.settings.config, loader := s.loader } : Analyzer).listen
    [.log, .engineLog] fun _ => none).2

/-- Adds the plugins of modules in order to an analyzer that is not shared yet. -/
def addModules : List String → Analyzer → Work Startup Analyzer
  | [], a => pure a
  | reference :: rest, a =>
    .get fun s =>
      ((Analyzer.addModule reference).withOwn { a with host := s.host }).bind (addModules rest)

/-- Builds an analyzer. -/
def build : Work Startup Analyzer := .get fun s => addModules s.settings.plugins s.fresh

def spot : Once.Spot Startup Analyzer where
  look s := s.analyzer
  store o s := { s with analyzer := o }

/-- The analyzer that all requests share. -/
def obtain : Work Startup Analyzer := Once.obtain spot build

end Startup

end Polyscan
