/-
  HybridAccess — telling a program of events.

  A configured program is told of each event: the name of the event is its
  only argument, and its environment holds nothing but the values that belong
  to the event, sorted by name. Nobody waits for its end.
-/
import HybridAccess.Event
import HybridAccess.Host.Command
import HybridAccess.Log

namespace HybridAccess

/-- How a program is told of an event. -/
def Event.command (e : Event) (program : String) (env : Environment) : Host.Command :=
  ⟨program, [e.name], env.sorted⟩

/-- What is logged when the program is started, or could not be for the reason given. -/
def Event.entry (e : Event) : Option String → Log.Entry
  | none => ⟨.debug, "Triggered event '" ++ e.name ++ "'"⟩
  | some reason => ⟨.error, "Triggering event '" ++ e.name ++ "' failed: " ++ reason⟩

/-- Tell a program of an event, and return what is logged. -/
def Event.notify (e : Event) (files : Host.Files) (program : String) (env : Environment) :
    Log.Entry :=
  match (e.command program env).start files with
  | .ok _ => e.entry none
  | .error reason => e.entry (some reason.message)

end HybridAccess
