import ImportAtlas.Python.Reference
import ImportAtlas.Source
import ImportAtlas.Text.Order
/-!
# Which module a reference means

A reference becomes a module in two steps.  First its dots are taken away (`absolute?`): one dot is
the package the importing module sits in, each further dot goes up one level, and above the top there
is nothing.  Then the absolute path is taken for the module that defines the object (`home?`): the
path itself, if it is a module that is being built, or else the module one level up.

A path that leads outside the packages being built is *distilled* (`distilled?`) to the shallowest
name that is clear of all of them: `django.db.models` to `django`, but with `foo.blue` being built
`foo.green.one` to `foo.green`, since `foo` contains a package of our own.  A path that overlaps a
package cannot be made clear of it, and is dropped.
-/
namespace ImportAtlas

/-- What has to be known of a build to scan a single file. -/
structure ScanContext where
  packages : List ModuleName
  modules : NameSet
  includeExternal : Bool
  excludeTypeChecking : Bool

def ScanContext.ofPackages (packages : List FoundPackage) (includeExternal excludeTypeChecking : Bool) :
    ScanContext where
  packages := packages.map (·.name)
  modules := .ofList (packages.flatMap (·.modules))
  includeExternal := includeExternal
  excludeTypeChecking := excludeTypeChecking

namespace Resolution

open Python (Reference)

/-- How many levels up from the importing module the dots lead.  A package is its own first level. -/
def climb (isPackage : Bool) (dots : Nat) : Nat := if isPackage then dots - 1 else dots

/-- The path of a reference without its dots; none if they lead above the top. -/
def absolute? (importer : ModuleName) (isPackage : Bool) (r : Reference) : Option ModuleName :=
  if r.dots = 0 then some r.path
  else (importer.up (climb isPackage r.dots)).map (·.append r.path)

/-- The module being built that an object lives in: itself or the one around it. -/
def home? (modules : NameSet) (object : ModuleName) : Option ModuleName :=
  if object ∈ modules then some object else object.parent?.filter (· ∈ modules)

/-- How many items two lists have in common at the front. -/
def shared {α : Type} [DecidableEq α] : List α → List α → Nat
  | a :: as, b :: bs => if a = b then shared as bs + 1 else 0
  | _, _ => 0

/-- The front of an object that turns away from a package: what the two share and one segment more.
There is none if the object ends before that, and only packages beneath its top-level name are asked. -/
def portion? (object p : ModuleName) : Option ModuleName :=
  let common := shared object.segments p.segments
  if p.IsBeneath object.root ∧ common < object.depth then some (object.keep common) else none

/-- Names in the order of their texts. -/
def inOrder (names : List ModuleName) : List ModuleName :=
  (Text.sorted (names.map (·.text))).filterMap ModuleName.ofString?

/-- The portions of an object for all the packages. -/
def portions (packages : List ModuleName) (object : ModuleName) : List ModuleName :=
  (inOrder packages).filterMap (portion? object)

/-- The deepest of some names, the last of them if there are several. -/
def deepest? : List ModuleName → Option ModuleName
  | [] => none
  | m :: rest =>
    match deepest? rest with
    | some d => if m.depth ≤ d.depth then some d else some m
    | none => some m

/-- The node that stands for an object outside the packages, if one can. -/
def distilled? (packages : List ModuleName) (object : ModuleName) : Option ModuleName :=
  if ∃ p ∈ packages, object.Overlaps p then none
  else some ((deepest? (portions packages object)).getD object.root)

/-- The module that an absolute path means in a build. -/
def meaning? (context : ScanContext) (object : ModuleName) : Option ModuleName :=
  (home? context.modules object).or
    (if context.includeExternal then distilled? context.packages object else none)

end Resolution
end ImportAtlas
