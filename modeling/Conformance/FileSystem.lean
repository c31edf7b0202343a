import Conformance.SystemError
import Conformance.Text.Utf8
set_option autoImplicit false

/-!
# What can be asked of a file system

Three questions, each about a path as it is written: what it leads to, what the file holds and which
names the directory has. Links are followed. The names come in no particular order.
-/
namespace Conformance

inductive FileKind where
  | directory | file
deriving DecidableEq, Repr

structure FileSystem where
  /-- None where the path leads nowhere. -/
  kind : String → Option FileKind
  contents : String → Except FileFault Bytes
  names : String → Except FileFault (List String)

namespace FileSystem

def isDirectory (files : FileSystem) (path : String) : Bool := files.kind path == some .directory

def isFile (files : FileSystem) (path : String) : Bool := files.kind path == some .file

def entryPath (directory name : String) : String :=
  if directory.toList.getLast? = some '/' then directory ++ name else directory ++ "/" ++ name

/-- The text of a file that is UTF-8 throughout. -/
def text (files : FileSystem) (path : String) : Except FileFault String :=
  match files.contents path with
  | .error fault => .error fault
  | .ok bytes =>
    match Utf8.decode? bytes with
    | some chars => .ok (String.ofList chars)
    | none => .error .notUtf8

end FileSystem
end Conformance
