import PreprocessorSyntax.CommandLine.Program

/-!
# File systems as values

A file system is a list of files below one directory, each under the
components of its path.  Directories are there because files are in them.
Reading and creating files fail for the same reasons as with real files; how
much can be written to them is left open.
-/

namespace PreprocessorSyntax

/-- The files below a directory; the text of a file is missing if its bytes are none. -/
structure FileSystem where
  /-- The files with their texts. -/
  files : List (List PathComponent × Option String)
  deriving DecidableEq, Repr

namespace FileSystem

/-- The components that lead to a file from the directory. -/
def route (path : String) : List PathComponent :=
  (Path.components path).filter fun component => component != .here

/-- Whether a path ends in a component that is a dot. -/
def endsInDot (path : String) : Bool :=
  (Path.segments path.toList).getLast? == some ['.']

/-- Whether a path can only name a directory: it ends in a slash or in a dot. -/
def namesDirectory (path : String) : Bool :=
  endsInDot path || (Path.segments path.toList).getLast? == some []

/-- The file with a given route. -/
def file? (system : FileSystem) (route : List PathComponent) : Option (Option String) :=
  system.files.lookup route

/-- Whether a component leads away from all files. -/
def leadsUp (component : PathComponent) : Bool :=
  component == .root || component == .named ['.', '.']

/-- Whether a route leads to a directory. -/
def isDirectory (system : FileSystem) (route : List PathComponent) : Bool :=
  route.all leadsUp ||
    system.files.any fun file => route.isPrefixOf file.1 && route != file.1

/-- Why a route does not lead to a directory. -/
def obstacle (system : FileSystem) (route : List PathComponent) : FileFault :=
  if system.files.any fun file => file.1.isPrefixOf route then .notADirectory else .notFound

/-- The text of a file. -/
def read (system : FileSystem) (path : String) : Except FileFault String :=
  if path.isEmpty then .error .notFound
  else
    match system.file? (route path) with
    | some content =>
      if namesDirectory path then .error .notADirectory
      else
        match content with
        | some text => .ok text
        | none => .error .invalidText
    | none =>
      if system.isDirectory (route path) then .error .isADirectory
      else .error (system.obstacle (route path))

/-- The file system in which a route leads to a file with a given text. -/
def put (system : FileSystem) (route : List PathComponent) (text : String) : FileSystem :=
  ⟨(route, some text) :: system.files.filter fun file => file.1 != route⟩

/-- Create an empty file, or empty the file that is there. -/
def create (system : FileSystem) (path : String) : Except FileFault FileSystem :=
  let target := route path
  let parent := if endsInDot path then target else target.dropLast
  if path.isEmpty then .error .notFound
  else if !system.isDirectory parent then .error (system.obstacle parent)
  else if namesDirectory path || system.isDirectory target then .error .isADirectory
  else .ok (system.put target "")

/--
What becomes of a text that is written to a file, or to standard output if there
is no file.
-/
abbrev Medium :=
  Option String → String → Except CommandLine.WriteFault Unit

/-- Access to the files of a file system that is carried along, on a medium. -/
def accessOn (medium : Medium) : CommandLine.FileAccess (StateM FileSystem) where
  create path := fun system =>
    match system.create path with
    | .error fault => (.error fault, system)
    | .ok created => (.ok (), created)
  read path := fun system => (system.read path, system)
  write path text := fun system =>
    let result := medium (some path) text
    (result, system.put (route path) (CommandLine.written text result))
  print text := fun system => (medium none text, system)

/-- Access to the files of a file system, on a medium that takes every text. -/
def access : CommandLine.FileAccess (StateM FileSystem) :=
  accessOn fun _ _ => .ok ()

end FileSystem
end PreprocessorSyntax
