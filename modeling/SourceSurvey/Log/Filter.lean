import SourceSurvey.Log.Event
import SourceSurvey.Text.Blank

/-!
# Which events are logged

A filter is a list of directives. Each sets the level for the targets that begin with some text,
and the directive with the longest such text decides. A directive without a target is the default,
since the empty text begins every target; of two directives for one target the later decides.
Without any directive that applies nothing is logged.
-/

set_option autoImplicit false

namespace SourceSurvey.Log

/-- The level set for some targets; `none` silences them. -/
structure Directive where
  /-- How the targets begin. -/
  target : List Char
  /-- The least important level that is logged. -/
  level : Option Level
  deriving DecidableEq, Repr

/-- A list of directives in the order in which they were given. -/
structure Filter where
  /-- The directives. -/
  directives : List Directive
  deriving DecidableEq, Repr

/-- The names that set a level, in lower case. A level may also be named by its rank. -/
def levelNames : List (String × Option Level) :=
  [("off", none), ("error", some .error), ("warn", some .warn), ("info", some .info),
   ("debug", some .debug), ("trace", some .trace),
   ("0", none), ("1", some .error), ("2", some .warn), ("3", some .info), ("4", some .debug),
   ("5", some .trace)]

/-- The level that a name in any case sets. -/
def levelOf? (name : List Char) : Option (Option Level) :=
  levelNames.lookup (String.ofList (name.map Char.toLower))

namespace Directive

/-- Whether a directive may begin with a character. -/
def isStart (c : Char) : Bool :=
  c.isAlphanum || c = '-' || c = ':' || c = '_' || 0x7F < c.toNat || Blank.isBlank c

/-- Reads a directive: a level, a target, or a target and a level with an equals sign between. A
target without a level, and an equals sign without one after it, stand for all levels. -/
def parse? (text : List Char) : Option Directive :=
  let target := text.takeWhile (· ≠ '=')
  if !(target.head?.any isStart) then none
  else
    match text.dropWhile (· ≠ '=') with
    | [] =>
      match levelOf? text with
      | some level => some ⟨[], level⟩
      | none => some ⟨text, some .trace⟩
    | [_] => some ⟨target, some .trace⟩
    | _ :: level => (levelOf? level).map fun level => ⟨target, level⟩

/-- Whether a directive is about a target. -/
def appliesTo (directive : Directive) (target : String) : Bool :=
  directive.target.isPrefixOf target.toList

end Directive

namespace Filter

/-- The filter that logs everything down to a level. -/
def ofLevel (level : Level) : Filter := ⟨[⟨[], some level⟩]⟩

/-- Splits a text at its commas. -/
def splitCommas : List Char → List Char × List (List Char)
  | [] => ([], [])
  | c :: rest =>
    let parts := splitCommas rest
    if c = ',' then ([], parts.1 :: parts.2) else (c :: parts.1, parts.2)

/-- Reads a filter: directives with commas between them. One that cannot be read makes the whole
text unusable. -/
def parse? (text : List Char) : Option Filter :=
  let parts := splitCommas text
  (((parts.1 :: parts.2).filter (· ≠ [])).mapM Directive.parse?).map Filter.mk

/-- The one of two directives that decides when both apply: the one with the longer target, or the
later one. -/
def prefer (current : Option Directive) (next : Directive) : Option Directive :=
  match current with
  | none => some next
  | some d => if next.target.length < d.target.length then some d else some next

/-- The directive that decides about a target. -/
def decisive? (filter : Filter) (target : String) : Option Directive :=
  (filter.directives.filter (·.appliesTo target)).foldl prefer none

/-- Whether an event is logged. -/
def admits (filter : Filter) (event : Event) : Bool :=
  match (filter.decisive? event.target).bind (·.level) with
  | none => false
  | some level => event.level.rank ≤ level.rank

/-- The filter of a run: the one that the environment asks for, if it can be read and is not blank,
and else one that depends on whether the user wants to hear more. -/
def choose (requested : Option (List Char)) (verbose : Bool) : Filter :=
  match requested with
  | none => ofLevel (if verbose then .debug else .warn)
  | some text =>
    if Blank.trim text = [] then ofLevel (if verbose then .debug else .warn)
    else (parse? text).getD (ofLevel (if verbose then .debug else .warn))

end Filter

end SourceSurvey.Log
