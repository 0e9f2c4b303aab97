import ImportAtlas.Cache.Document
import ImportAtlas.Digest
import ImportAtlas.FileTree.Disk
/-!
# Caches on disk

A cache has a directory, which builds of different keys may share, and in it one file, named by the
digest of its key.  Two more files mark the directory as one that need not be kept.

A file that cannot be understood is as good as none, and so is a missing one.  A file is written
under another name first and then moved, so that there is never half a file under its own name.
-/
namespace ImportAtlas
namespace Cache

def fileNameOf (key : String) : String := Digest.ofText key ++ ".data.json"

/-- The results that a file holds, if it can be read at all. -/
def stored (t : FileTree) (path : String) : Except Error ScanResults :=
  match t.locate path with
  | .found _ (.file f) => .ok ((f.text?.bind ScanResults.ofText?).getD ∅)
  | .vacant _ => .ok ∅
  | .absent => .ok ∅
  | .found _ (.directory _) => .error .storage
  | .blocked => .error .storage

/-- The cache of a build in a directory. -/
def setup (t : FileTree) (directory : String) (packages : List FoundPackage)
    (includeExternal excludeTypeChecking : Bool) : Except Error Cache := do
  let fileName := fileNameOf (key (packages.map (·.name)) includeExternal excludeTypeChecking)
  let results ← stored t (Path.join directory fileName)
  return ⟨directory, fileName, results⟩

/-! ## Writing -/

/-- The files that mark a directory, with what is in them. -/
def markers : List (String × String) :=
  [ (".gitignore", "# Automatically created by layergraph.\n*\n"),
    ("CACHEDIR.TAG", "Signature: 8a477f597d28d172789f06886806bc55\n" ++
      "# This file is a cache directory tag automatically created by layergraph.\n" ++
      "# For information about cache directory tags see https://bford.info/cachedir/\n") ]

/-- Nothing reads the time of a file that a cache writes. -/
def writtenFile (text : String) : File := .ofText text 0

/-- Writes a marker unless something of its name is there. -/
def mark (directory : String) (marker : String × String) : Disk Unit := do
  let path := Path.join directory marker.1
  if ((← get).entryAt? path).isNone then Disk.write path (writtenFile marker.2)

def temporaryEnding : String := ".tmp"

/-- Writes a file by way of another name; if it cannot be moved, the other is taken away. -/
def replace (path text : String) : Disk Unit := do
  let temporary := path ++ temporaryEnding
  Disk.write temporary (writtenFile text)
  try Disk.move temporary path
  catch e =>
    Disk.remove temporary
    throw e

/-- Writes the results for the files of packages, cached and new alike. -/
def write (cache : Cache) (packages : List FoundPackage) (table : ImportTable) : Disk Unit := do
  Disk.makeDirectories cache.directory
  markers.forM (mark cache.directory)
  replace (Path.join cache.directory cache.fileName)
    (ScanResults.toText (resultsOf packages table))

end Cache
end ImportAtlas
