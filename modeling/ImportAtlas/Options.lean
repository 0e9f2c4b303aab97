import ImportAtlas.Text.Digits
import ImportAtlas.Text.Space
/-!
# Build options

What a build may be told: where to look for packages, whether imported packages that are not built
come into the graph, whether imports for type checkers count, where results are cached, and from how
many files on scanning is spread over workers.

Options can be set one by one, read from the environment, or read from a document
(`ImportAtlas.Options.Document`).  Values from the environment are forgiving: what is no number or no
flag is as good as not set.
-/
namespace ImportAtlas

/-- Where results of earlier builds are kept. -/
inductive CacheSetting where
  | default
  | directory (path : String)
  | disabled
deriving DecidableEq

namespace CacheSetting

def defaultDirectory : String := ".layergraph_cache"

def directory? : CacheSetting → Option String
  | default => some defaultDirectory
  | directory path => some path
  | disabled => none

end CacheSetting

structure BuildOptions where
  searchPaths : List String := []
  includeExternal : Bool := false
  excludeTypeChecking : Bool := false
  cache : CacheSetting := .default
  /-- Below this many files there is one worker; unset, the environment is asked. -/
  minParallel : Option UInt64 := none
deriving DecidableEq

namespace BuildOptions

/-! ## From the environment -/

def includeExternalVariable : String := "LAYERGRAPH_INCLUDE_EXTERNAL_PACKAGES"

def minParallelVariable : String := "LAYERGRAPH_MIN_PARALLEL_MODULES"

def defaultMinParallel : UInt64 := 50

/-- `1`, `true` and `yes`, in ASCII letters of either case and with white space around them. -/
def parseFlag (text : String) : Bool :=
  let word := (Text.trimmed text.toList).map Char.toLower
  word = "1".toList || word = "true".toList || word = "yes".toList

/-- ASCII digits after an optional plus sign. -/
def unsigned64? : List Char → Option UInt64
  | '+' :: ds => Text.word64? 10 ds
  | ds => Text.word64? 10 ds

/-- The threshold that a variable's value asks for. -/
def minParallelOf (value : Option String) : UInt64 :=
  ((value.bind fun text => unsigned64? (Text.trimmed text.toList))).getD defaultMinParallel

def ofEnvironment (lookup : String → Option String) : BuildOptions where
  includeExternal := ((lookup includeExternalVariable).map parseFlag).getD false
  minParallel := some (minParallelOf (lookup minParallelVariable))

/-- The threshold in force. -/
def threshold (options : BuildOptions) (lookup : String → Option String) : UInt64 :=
  options.minParallel.getD (minParallelOf (lookup minParallelVariable))

end BuildOptions
end ImportAtlas
