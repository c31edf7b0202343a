import Conformance.FileSystem
set_option autoImplicit false

/-!
# A file system held as a value

A snapshot names every directory, file and symbolic link by the components of its place under the root,
and answers questions about paths as a Unix kernel does: `resolve` walks a path from the working
directory, follows at most 40 links on the way and stops at a name longer than 255 bytes.
-/
namespace Conformance

inductive Node where
  | directory
  | file (contents : Bytes) (executable : Bool)
  | link (target : String)
deriving Repr

/-- The components of a place under the root. -/
abbrev Place := List String

structure Snapshot where
  nodes : List (Place × Node)
  workingDirectory : Place
  /-- Whether a file or a directory can be opened at all. -/
  descriptors : Bool := true
deriving Repr

namespace Snapshot

/-- The node at a place. The root, the working directory and what lies above it are directories. -/
def node? (s : Snapshot) (place : Place) : Option Node :=
  if place.isPrefixOf s.workingDirectory then some .directory else s.nodes.lookup place

/-! ## Paths -/

def splitSlashes : List Char → List (List Char)
  | [] => [[]]
  | c :: cs =>
    if c = '/' then [] :: splitSlashes cs
    else
      match splitSlashes cs with
      | [] => [[c]]
      | part :: parts => (c :: part) :: parts

/-- The names to walk. A slash at the end asks for a directory, as a last `.` does. -/
def components (path : String) : List String :=
  let parts := splitSlashes path.toList
  let names := (parts.filter fun part => !part.isEmpty).map String.ofList
  if parts.getLast? = some [] then names ++ ["."] else names

def isAbsolute (path : String) : Bool := path.toList.head? == some '/'

def maxName : Nat := 255

def maxPath : Nat := 4096

def maxLinks : Nat := 40

/-- How far a walk gets without following a link. -/
inductive Stride where
  | arrived (place : Place)
  | refused (e : SystemError)
  | link (directory : Place) (target : String) (remaining : List String)

def isDirectoryAt (s : Snapshot) (place : Place) : Bool :=
  match s.node? place with
  | some .directory => true
  | _ => false

def stride (s : Snapshot) (place : Place) : List String → Stride
  | [] => .arrived place
  | name :: rest =>
    if s.isDirectoryAt place = false then .refused .notADirectory
    else if name = "." then stride s place rest
    else if name = ".." then stride s place.dropLast rest
    else if maxName < name.utf8ByteSize then .refused .nameTooLong
    else
      match s.node? (place ++ [name]) with
      | none => .refused .notFound
      | some (.link target) => .link place target rest
      | some _ => stride s (place ++ [name]) rest

/-- Walks names from a place and follows at most `links` links. -/
def walk (s : Snapshot) : Nat → Place → List String → Except SystemError Place
  | links, place, names =>
    match stride s place names with
    | .arrived place => .ok place
    | .refused e => .error e
    | .link directory target remaining =>
      match links with
      | 0 => .error .tooManyLinks
      | links + 1 =>
        walk s links (if isAbsolute target then [] else directory) (components target ++ remaining)

/-- What the system refuses of a path before it looks at any file. -/
def pathError? (path : String) : Option SystemError :=
  if path.isEmpty then some .notFound
  else if maxPath ≤ path.utf8ByteSize then some .nameTooLong
  else none

def resolve (s : Snapshot) (path : String) : Except SystemError Place :=
  match pathError? path with
  | some e => .error e
  | none => walk s maxLinks (if isAbsolute path then [] else s.workingDirectory) (components path)

/-! ## Questions -/

def nodeOf (s : Snapshot) (path : String) : Except SystemError Node :=
  match s.resolve path with
  | .error e => .error e
  | .ok place =>
    match s.node? place with
    | some node => .ok node
    | none => .error .notFound

/-- The place of a path that is to be opened. -/
def reach (s : Snapshot) (path : String) : Except FileFault Place :=
  if hasNul path then .error .nulInName
  else
    match pathError? path with
    | some e => .error (.system e)
    | none =>
      if s.descriptors = false then .error (.system .tooManyOpenFiles)
      else (s.resolve path).mapError .system

def kind (s : Snapshot) (path : String) : Option FileKind :=
  if hasNul path then none
  else
    match s.nodeOf path with
    | .ok .directory => some .directory
    | .ok (.file _ _) => some .file
    | _ => none

def contents (s : Snapshot) (path : String) : Except FileFault Bytes :=
  match s.reach path with
  | .error fault => .error fault
  | .ok place =>
    match s.node? place with
    | some (.file bytes _) => .ok bytes
    | some .directory => .error (.system .isADirectory)
    | _ => .error (.system .notFound)

def entries (s : Snapshot) (place : Place) : List String :=
  s.nodes.filterMap fun (p, _) =>
    if p.dropLast = place then p.getLast? else none

def names (s : Snapshot) (path : String) : Except FileFault (List String) :=
  match s.reach path with
  | .error fault => .error fault
  | .ok place =>
    if s.isDirectoryAt place then .ok (s.entries place) else .error (.system .notADirectory)

def toFileSystem (s : Snapshot) : FileSystem := ⟨s.kind, s.contents, s.names⟩

/-! ## Building a snapshot -/

def put (s : Snapshot) (place : Place) (node : Node) : Snapshot :=
  { s with nodes := s.nodes.filter (fun p => p.1 ≠ place) ++ [(place, node)] }

/-- Adds the directories of a path that are not there yet. -/
def addDirectories (s : Snapshot) (place : Place) : List String → Snapshot
  | [] => s
  | name :: rest =>
    let inner := place ++ [name]
    addDirectories (if (s.node? inner).isSome then s else s.put inner .directory) inner rest

def plainNames (path : String) : List String := (components path).filter (· ≠ ".")

def addDirectory (s : Snapshot) (path : String) : Snapshot :=
  s.addDirectories s.workingDirectory (plainNames path)

/-- Adds a file or a link, and the directories above it. -/
def addNode (s : Snapshot) (path : String) (node : Node) : Snapshot :=
  let names := plainNames path
  (s.addDirectories s.workingDirectory names.dropLast).put (s.workingDirectory ++ names) node

/-! ## Programs -/

def startPath (s : Snapshot) (path : String) : Except SystemError Unit :=
  match s.nodeOf path with
  | .error e => .error e
  | .ok (.file _ true) => .ok ()
  | .ok _ => .error .accessDenied

/-- Tries a name in each directory of the search path. A file that may not be started is remembered
and the search goes on; it also goes on where there is nothing. -/
def searchPath (s : Snapshot) (name : String) (denied : Bool) : List String → Except SystemError Unit
  | [] => .error (if denied then .accessDenied else .notFound)
  | directory :: rest =>
    match s.startPath (directory ++ "/" ++ name) with
    | .ok () => .ok ()
    | .error .accessDenied => searchPath s name true rest
    | .error .notFound => searchPath s name denied rest
    | .error .notADirectory => searchPath s name denied rest
    | .error e => .error e

/-- Whether a program can be started: by its path where the name has a slash, else by a search. -/
def startProgram (s : Snapshot) (search : List String) (program : String) : Except SystemError Unit :=
  if program.isEmpty then .error .notFound
  else if program.toList.contains '/' then s.startPath program
  else s.searchPath program false search

end Snapshot
end Conformance
