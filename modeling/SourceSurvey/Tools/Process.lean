import SourceSurvey.FileSystem.Access
import SourceSurvey.FileSystem.Edit
import SourceSurvey.Text.Quoted
import SourceSurvey.Tools.Run

/-!
# Launching programs

A program is named by a path, or by a name alone, which is looked for in one directory. A file can
be started if it is a program and may be searched. A program shows on the standard output how it
was called, may make an empty file, and ends; one that a signal kills has the exit status -1.

`Host.process` is the host of a process whose world is a file system, its standard output, and its
log.
-/

set_option autoImplicit false

namespace SourceSurvey

/-- The world of a process. -/
structure World where
  /-- The file system. -/
  files : FileSystem
  /-- What has been written to the standard output. -/
  output : String
  /-- The events noted so far, in order. -/
  events : List Log.Event

namespace World

/-- The exit status that an ending stands for. -/
def status : Ending → Int
  | .exit code => code.toNat
  | .killed => -1

/-- The path of the file that a program name stands for. -/
def programPath (searchDirectory program : Path) : Path :=
  if Path.slash ∈ program.bytes then program else searchDirectory.child program.bytes

/-- The program that a path leads to, with its name. -/
def findProgram (fs : FileSystem) (path : Path) : Except IoError (Name × Script) :=
  match fs.find path true with
  | .error e => .error e
  | .ok ((name, .file (.program script) permissions) :: _) =>
    if permissions.search then .ok (name, script) else .error .permissionDenied
  | .ok _ => .error .permissionDenied

/-- What a program shows when it is called. -/
def callLine (name : Name) (arguments : List String) : String :=
  String.join ((Utf8.toStringLossy name :: arguments).map fun word => "<" ++ word ++ ">") ++ "\n"

/-- Runs a program to its end. -/
def execute (world : World) (name : Name) (script : Script) (arguments : List String) : World :=
  let files := match script.creates with
    | none => world.files
    | some path => (world.files.writeFile path (.data [])).toOption.getD world.files
  { world with files, output := world.output ++ callLine name arguments }

/-- Notes an event. -/
def note (world : World) (event : Log.Event) : World :=
  { world with events := world.events ++ [event] }

/-- The part of the program that launches programs. -/
def target : String := "spelunk::core::spelunk::runner"

/-- The event of a launch. -/
def launchEvent (program : Path) (arguments : List String) : Log.Event :=
  ⟨.debug, target, "launching",
    [("program", program.display), ("args", Quoted.quoteList arguments)]⟩

/-- Whether a zero byte stands in a program name or an argument. -/
def hasZero (program : Path) (arguments : List String) : Bool :=
  (0 : UInt8) ∈ program.bytes || arguments.any (·.toList.contains '\x00')

/-- Launches a program. -/
def launch (searchDirectory : Path) (world : World) (program : Path) (arguments : List String) :
    Except IoError Int × World :=
  -- The launch is noted whether or not it succeeds.
  let world := world.note (launchEvent program arguments)
  if hasZero program arguments then (.error .zeroInCommand, world)
  else if program.bytes = [] then (.error .notFound, world)
  else
    match findProgram world.files (programPath searchDirectory program) with
    | .error e => (.error e, world)
    | .ok (name, script) => (.ok (status script.ending), world.execute name script arguments)

end World

/-- The host of a process that looks for programs in `searchDirectory` and for the `Doxyfile` in
`directory`. -/
def Host.process (searchDirectory directory : Path) : Host World where
  launch := World.launch searchDirectory
  hasDoxyfile world := world.files.exists? (directory ++ Path.ofString doxyfile)
  write world text := (.ok (), { world with output := world.output ++ text })
  note := World.note

/-! ## Rehearsals -/

/-- How a launch is answered in a rehearsal. -/
structure Response where
  /-- A file that is made, empty. -/
  creates : Option Path
  /-- A file that is removed. -/
  removes : Option Path
  /-- The wording of the error with which the launch fails. -/
  fails : Option String
  /-- The exit status. -/
  status : Int
  deriving Repr

/-- The answer that does nothing and reports success. -/
def Response.success : Response := ⟨none, none, none, 0⟩

/-- The state of a rehearsal: the file system and the answers to come. -/
structure Rehearsal where
  /-- The file system. -/
  files : FileSystem
  /-- The answers to come; when there are none left, launches succeed. -/
  responses : List Response

namespace Rehearsal

/-- Makes and removes the files of an answer. -/
def edit (files : FileSystem) (response : Response) : Except IoError FileSystem :=
  match response.creates with
  | none => remove files
  | some path => (files.writeFile path (.data [])).bind remove
where
  /-- Removes the file of the answer. -/
  remove (files : FileSystem) : Except IoError FileSystem :=
    match response.removes with
    | none => .ok files
    | some path => files.removeFile path

/-- The file system after an answer, as far as its changes succeed. -/
def filesAfter (files : FileSystem) (response : Response) : FileSystem :=
  match edit files response with
  | .ok files => files
  | .error _ => (edit files { response with removes := none }).toOption.getD files

/-- Answers a launch. -/
def launch (rehearsal : Rehearsal) : Except IoError Int × Rehearsal :=
  let response := rehearsal.responses.headD .success
  let result := match edit rehearsal.files response with
    | .error e => .error e
    | .ok _ =>
      match response.fails with
      | some message => .error (.other message)
      | none => .ok response.status
  (result, ⟨filesAfter rehearsal.files response, rehearsal.responses.tail⟩)

end Rehearsal

/-- The runner of a rehearsal; `directory` is where the `Doxyfile` belongs. -/
def Runner.rehearsal (directory : Path) : Runner Rehearsal where
  launch rehearsal _ _ := rehearsal.launch
  hasDoxyfile rehearsal := rehearsal.files.exists? (directory ++ Path.ofString doxyfile)

end SourceSurvey
