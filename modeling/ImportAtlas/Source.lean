import ImportAtlas.Import
import ImportAtlas.Path
/-!
# Source files and packages

A `SourceFile` is a module together with the file that defines it, and a `FoundPackage` is a package
together with its source files, in the order in which a walk meets them.  Nothing keeps two files
from defining one module; whoever keys results by module has to say which file wins.
-/
namespace ImportAtlas

structure SourceFile where
  module : ModuleName
  path : String
  /-- When the file was last changed, in nanoseconds since 1970. -/
  mtime : Int64
deriving DecidableEq

/-- The file that makes a directory a package. -/
def packageFile : String := "__init__.py"

/-- The file defines a package, not a plain module. -/
def SourceFile.isPackage (f : SourceFile) : Bool := Path.fileName? f.path = some packageFile

structure FoundPackage where
  name : ModuleName
  directory : String
  files : List SourceFile
deriving DecidableEq

def FoundPackage.modules (p : FoundPackage) : List ModuleName := p.files.map (·.module)

end ImportAtlas
