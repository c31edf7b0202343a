import Conformance.FileSystem
set_option autoImplicit false

/-!
# Which fixtures a command line names

A path that is no directory stands for itself, whether or not it is there. A directory stands for the
files directly inside it whose names have the extension `json`, in the order of the names' bytes. One
directory that cannot be listed spoils the whole list.
-/
namespace Conformance

structure DiscoveryError where
  directory : String
  fault : FileFault
deriving DecidableEq, Repr

def DiscoveryError.message (e : DiscoveryError) : String :=
  "cannot list fixture directory " ++ e.directory ++ ": " ++ e.fault.message

namespace Discovery

/-- What follows the last dot of a name; a name has none where that dot is its first character. -/
def extension? (name : String) : Option String :=
  let chars := name.toList.reverse
  match chars.dropWhile (· ≠ '.') with
  | [] => none
  | [_] => none
  | _ => some (String.ofList (chars.takeWhile (· ≠ '.')).reverse)

/-- The order of names by their bytes. -/
def nameLE (a b : String) : Bool := decide (Utf8.ofString a ≤ Utf8.ofString b)

def isFixture (files : FileSystem) (directory name : String) : Bool :=
  extension? name == some "json" && files.isFile (FileSystem.entryPath directory name)

def inDirectory (files : FileSystem) (directory : String) (names : List String) : List String :=
  ((names.filter (isFixture files directory)).mergeSort nameLE).map (FileSystem.entryPath directory)

def expand (files : FileSystem) (path : String) : Except DiscoveryError (List String) :=
  if files.isDirectory path then
    match files.names path with
    | .error fault => .error ⟨path, fault⟩
    | .ok names => .ok (inDirectory files path names)
  else .ok [path]

def discover (files : FileSystem) : List String → Except DiscoveryError (List String)
  | [] => .ok []
  | path :: rest =>
    match expand files path with
    | .error e => .error e
    | .ok found =>
      match discover files rest with
      | .error e => .error e
      | .ok others => .ok (found ++ others)

end Discovery
end Conformance
