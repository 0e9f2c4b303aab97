import ImportAtlas.Cache.Store
import ImportAtlas.Finder
import ImportAtlas.Graph.Change
import ImportAtlas.Options
import ImportAtlas.Scan
/-!
# Building a graph

A build goes through stages: the packages are found, results of earlier scans are looked up, the
other files are scanned, everything is put together to a graph, and if anything was scanned the
results are kept for the next time.  A refusal at any stage ends the build, and up to the last stage
nothing on disk has changed.

Files to scan are dealt out in chunks, one for each worker, unless they are too few to bother.  The
chunks follow each other in the list of files, so putting their results together is the same as
scanning the list from the front.  Which of several refusals is answered depends on how the results
of the chunks are collected; `run` answers the first in the list of files.

How packages are found, files are scanned and results are collected are parameters; `build` itself is
for Python packages in a file tree.
-/
namespace ImportAtlas
namespace Build

/-- How a package is found in a tree. -/
abbrev PackageFinder := FileTree → ModuleName → Except Error FoundPackage

/-! ## What is built -/

/-- Reads the names of packages from the front; `earlier` are those before them. -/
def distinctNames (earlier : List ModuleName) : List String → Except Error (List ModuleName)
  | [] => .ok []
  | text :: texts => do
    let m ← ModuleName.parse text
    if m ∈ earlier then .error (.repeatedPackage m.text)
    else
      let ms ← distinctNames (earlier ++ [m]) texts
      return m :: ms

def packageNames (texts : List String) : Except Error (List ModuleName) :=
  if texts = [] then .error .noPackages else distinctNames [] texts

/-! ## Earlier results -/

/-- The results that the cache has for files. -/
def recalled (cache : Option Cache) (files : List SourceFile) : ImportTable :=
  files.foldl (fun table file =>
    match cache.bind (·.lookup? file) with
    | some records => table.insert file.module records
    | none => table) ∅

/-- The files that the cache has no result for. -/
def unknown (cache : Option Cache) (files : List SourceFile) : List SourceFile :=
  files.filter fun file => (cache.bind (·.lookup? file)).isNone

/-! ## Scanning -/

/-- Into how many chunks that many files are dealt: one, if they are fewer than the threshold, or
else one for each worker, but no more than there are files. -/
def chunkCount (files threshold workers : Nat) : Nat :=
  if files < threshold then 1 else max 1 (min workers (max files 1))

/-- Pieces of a list of the given size, the last perhaps smaller and none of them empty. -/
def chunksOf {α : Type} (size : Nat) : List α → List (List α)
  | [] => []
  | a :: as => (a :: as.take (size - 1)) :: chunksOf size (as.drop (size - 1))
termination_by items => items.length
decreasing_by
  simp only [List.length_drop, List.length_cons]
  omega

/-- The list in at most `count` pieces of one size. -/
def chunks {α : Type} (count : Nat) (items : List α) : List (List α) :=
  if count ≤ 1 then (if items = [] then [] else [items])
  else chunksOf ((items.length + count - 1) / count) items

/-- Reads and scans one file. -/
def scanFile (t : FileTree) (scanner : Scanner) (context : ScanContext) (file : SourceFile) :
    Except Error (ModuleName × List ImportRecord) := do
  let text ← t.source file.path
  let records ← scanner context file text
  return (file.module, records)

/-- Of two results for one module the later counts. -/
def insertAll (table : ImportTable) (results : List (ModuleName × List ImportRecord)) : ImportTable :=
  results.foldl (fun table (m, records) => table.insert m records) table

def scanChunk (t : FileTree) (scanner : Scanner) (context : ScanContext) (files : List SourceFile) :
    Except Error ImportTable :=
  (files.mapM (scanFile t scanner context)).map (insertAll ∅)

/-- How the results of chunks that are scanned side by side are brought together. -/
abbrev Collector := List (Except Error ImportTable) → Except Error (List ImportTable)

/-- The tables in the order of their chunks.  Of several refusals the first counts. -/
def inOrder : Collector := fun results => results.mapM id

/-- Scans all files, chunk by chunk.  The refusal of a chunk is the refusal of the scan. -/
def scanFilesBy (collect : Collector) (t : FileTree) (scanner : Scanner) (context : ScanContext)
    (count : Nat) (files : List SourceFile) : Except Error ImportTable :=
  (collect ((chunks count files).map (scanChunk t scanner context))).map fun tables =>
    tables.foldl (fun table more => insertAll table more.toList) ∅

def scanFiles : FileTree → Scanner → ScanContext → Nat → List SourceFile → Except Error ImportTable :=
  scanFilesBy inOrder

/-! ## Putting together -/

/-- Records an import; a module outside the build comes in squashed. -/
def addFound (modules : NameSet) (r : ImportRecord) : Changing Unit := do
  unless r.imported ∈ modules do
    Graph.insertModule r.imported true
  Graph.addRecord r

/-- All modules of the packages, and the imports of each file's module. -/
def assemble (packages : List FoundPackage) (modules : NameSet) (table : ImportTable) :
    Changing Unit := do
  let found := packages.flatMap (·.modules)
  found.forM (Graph.insertModule · false)
  found.forM fun m => ((table[m]?).getD []).forM (addFound modules)

/-! ## The whole build -/

/-- What a build did. -/
structure Outcome where
  graph : Graph
  /-- The modules whose files were scanned. -/
  scanned : NameSet

/-- The graph of a table, which is kept unless there was nothing left to scan for it. -/
def conclude (packages : List FoundPackage) (modules : NameSet) (cache : Option Cache)
    (rest : List SourceFile) (table : ImportTable) : Disk Outcome := do
  match (assemble packages modules table).on .empty with
  | (_, .error e) => throw e
  | (graph, .ok ()) =>
    unless rest = [] do
      cache.forM fun cache => cache.write packages table
    return ⟨graph, .ofList (rest.map (·.module))⟩

/-- A build with a finder and a scanner.  `workers` is how many chunks can be scanned at a time, and
`threshold` from how many files on that is worth it; neither shows in the graph. -/
def runBy (collect : Collector) (find : PackageFinder) (scanner : Scanner) (options : BuildOptions)
    (threshold workers : Nat) (names : List String) : Disk Outcome := do
  let names ← ofExcept (packageNames names)
  let t ← get
  let packages ← ofExcept (names.mapM (find t))
  let cache ← ofExcept (options.cache.directory?.mapM fun directory =>
    Cache.setup t directory packages options.includeExternal options.excludeTypeChecking)
  let files := packages.flatMap (·.files)
  let context := ScanContext.ofPackages packages options.includeExternal options.excludeTypeChecking
  let rest := unknown cache files
  let scanned ← ofExcept
    (scanFilesBy collect t scanner context (chunkCount rest.length threshold workers) rest)
  conclude packages context.modules cache rest (insertAll (recalled cache files) scanned.toList)

def run : PackageFinder → Scanner → BuildOptions → Nat → Nat → List String → Disk Outcome :=
  runBy inOrder

/-- Builds the graph of Python packages. -/
def build (options : BuildOptions) (threshold workers : Nat) (names : List String) : Disk Outcome :=
  run (Finder.find options.searchPaths) Scan.python options threshold workers names

end Build
end ImportAtlas
