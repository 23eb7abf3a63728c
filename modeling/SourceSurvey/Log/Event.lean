/-!
# Log events

An event has a level, a target that says which part of the program reports it, a message and fields.
-/

set_option autoImplicit false

namespace SourceSurvey

/-- How important an event is. -/
inductive Log.Level where
  | error
  | warn
  | info
  | debug
  | trace
  deriving DecidableEq, Repr

namespace Log

/-- The rank of a level: the more important, the smaller. -/
def Level.rank : Level → Nat
  | .error => 1
  | .warn => 2
  | .info => 3
  | .debug => 4
  | .trace => 5

/-- The name of a level. -/
def Level.name : Level → String
  | .error => "ERROR"
  | .warn => "WARN"
  | .info => "INFO"
  | .debug => "DEBUG"
  | .trace => "TRACE"

/-- Something that is reported while the program runs. -/
structure Event where
  /-- Its level. -/
  level : Level
  /-- The part of the program it comes from. -/
  target : String
  /-- What has happened. -/
  message : String
  /-- Details, with their names. -/
  fields : List (String × String)
  deriving DecidableEq, Repr

/-- An event as a line of the log. -/
def Event.line (event : Event) : String :=
  event.level.name ++ " " ++ event.target ++ ": " ++ event.message ++
    String.join (event.fields.map fun (name, value) => " " ++ name ++ "=" ++ value)

end Log

end SourceSurvey
