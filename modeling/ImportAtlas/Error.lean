/-!
# What can go wrong

Every refusal of the library is one constructor here, named for its cause, and `message` is the one
place where a cause gets its words.  Three causes have no words of their own: what the operating
system, a JSON reader or an options reader would say is theirs to say.
-/
namespace ImportAtlas

inductive Error where
  | moduleNotPresent (name : String)
  | packageNotFound (name : String)
  | namespacePackage (name : String)
  | notTopLevel (name : String)
  | noSuchContainer (name : String)
  | squashedHasNoChildren (name : String)
  | squashedHasNoDescendants (name : String)
  | squashConflict (name : String)
  | beneathSquashed (name squashed : String)
  | squashOverDescendants (name : String)
  | sharedDescendants (importer imported : String)
  | unsupported (operation replacement : String)
  | invalidName (text : String)
  | noPackages
  | repeatedPackage (name : String)
  | invalidModulePattern (text : String)
  | invalidImportPattern (text : String)
  | sourceSyntax (path : String) (line : UInt32) (text : String)
  | notText (path : String)
  | scanner (text : String)
  | options
  | storage
  | json
deriving DecidableEq, Repr

namespace Error

def quoted (text : String) : String := "\"" ++ text ++ "\""

def message : Error → Option String
  | moduleNotPresent name => some (quoted name ++ " not present in the graph")
  | packageNotFound name => some ("could not find package " ++ quoted name ++ " in the search paths")
  | namespacePackage name => some ("package " ++ quoted name ++
      " is a namespace package; specify the portion name instead, or add an __init__.py file")
  | notTopLevel name => some (quoted name ++ " is not a top-level package")
  | noSuchContainer name => some ("container " ++ quoted name ++ " does not exist")
  | squashedHasNoChildren name =>
    some ("cannot find children of squashed module " ++ quoted name)
  | squashedHasNoDescendants name =>
    some ("cannot find descendants of squashed module " ++ quoted name)
  | squashConflict name => some ("cannot add " ++ quoted name ++ " as a squashed module when it is " ++
      "already present as an unsquashed module, or vice versa")
  | beneathSquashed name squashed =>
    some (quoted name ++ " is a descendant of squashed module " ++ quoted squashed)
  | squashOverDescendants name =>
    some ("cannot squash " ++ quoted name ++ ": descendants of it are already in the graph")
  | sharedDescendants importer imported =>
    some ("modules have shared descendants: " ++ quoted importer ++ " and " ++ quoted imported)
  | unsupported operation replacement =>
    some (operation ++ " is no longer supported, use " ++ replacement ++ " instead")
  | invalidName text => some ("invalid module name: " ++ quoted text)
  | noPackages => some "invalid argument: at least one package name is required"
  | repeatedPackage name =>
    some ("invalid argument: package " ++ quoted name ++ " given more than once")
  | invalidModulePattern text => some (quoted text ++ " is not a valid module expression")
  | invalidImportPattern text => some (quoted text ++ " is not a valid import expression")
  | sourceSyntax path line text =>
    some ("syntax error in " ++ path ++ ", line " ++ toString line.toNat ++ ": " ++ text)
  | notText path => some (path ++ " is not valid UTF-8")
  | scanner text => some ("parser error: " ++ text)
  | options | storage | json => none

/-- The causes that say only that something looked up by name is missing. -/
def isNotFound : Error → Bool
  | moduleNotPresent _ | packageNotFound _ | noSuchContainer _ => true
  | _ => false

end Error
end ImportAtlas
