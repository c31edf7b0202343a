import Conformance.FileSystem
set_option autoImplicit false

/-!
# A file system seen path by path

What was observed of some paths, as a file system. A path that was not observed leads nowhere.
-/
namespace Conformance

structure Observation where
  path : String
  kind : Option FileKind
  contents : Except FileFault Bytes
  names : Except FileFault (List String)

namespace Observation

def find? (seen : List Observation) (path : String) : Option Observation :=
  seen.find? (·.path == path)

def toFileSystem (seen : List Observation) : FileSystem where
  kind path := (find? seen path).bind (·.kind)
  contents path := ((find? seen path).map (·.contents)).getD (.error (.system .notFound))
  names path := ((find? seen path).map (·.names)).getD (.error (.system .notFound))

end Observation
end Conformance
