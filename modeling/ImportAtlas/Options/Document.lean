import ImportAtlas.Error
import ImportAtlas.Options
import ImportAtlas.Yaml.Reader
/-!
# Options in a document

Options are read from a mapping whose keys are the names of the options.  A key that names no option
is passed over, a missing one leaves the default, and one that comes twice is refused, as is a value
that does not fit its option.  A text without any document gives the defaults.
-/
namespace ImportAtlas
namespace BuildOptions

/-- Where the cache goes: a word, written as text or as a tag, or the tag `!directory` with a
path. -/
def cacheOf? : Yaml → Option CacheSetting
  | .scalar tag plain text =>
    match tag with
    | some "!directory" => some (.directory text)
    | some "!default" => if Yaml.isNull (.scalar none plain text) then some .default else none
    | some "!disabled" => if Yaml.isNull (.scalar none plain text) then some .disabled else none
    | some t => if t.startsWith "!!" then named text else none
    | none => named text
  | _ => none
where
  named : String → Option CacheSetting
    | "default" => some .default
    | "disabled" => some .disabled
    | _ => none

def pathsOf? : Yaml → Option (List String)
  | .sequence _ items => items.mapM Yaml.text?
  | node => if node.isEmpty then some [] else none

def optionNames : List String :=
  ["search_paths", "include_external_packages", "exclude_type_checking_imports", "cache",
    "min_parallel_modules"]

/-- Sets one option; a name that is no option's changes nothing. -/
def set? (options : BuildOptions) (name : String) (value : Yaml) : Option BuildOptions :=
  match name with
  | "search_paths" => (pathsOf? value).map fun paths => { options with searchPaths := paths }
  | "include_external_packages" => value.bool?.map fun b => { options with includeExternal := b }
  | "exclude_type_checking_imports" =>
    value.bool?.map fun b => { options with excludeTypeChecking := b }
  | "cache" => (cacheOf? value).map fun c => { options with cache := c }
  | "min_parallel_modules" =>
    if value.isNull then some { options with minParallel := none }
    else value.unsigned64?.map fun n => { options with minParallel := some n }
  | _ => some options

/-- No option is named twice. -/
def namedOnce (names : List String) : Prop := (names.filter (optionNames.contains ·)).Nodup

instance (names : List String) : Decidable (namedOnce names) :=
  inferInstanceAs (Decidable (names.filter (optionNames.contains ·)).Nodup)

def ofYaml? : Yaml → Option BuildOptions
  | .mapping _ entries => do
    let named ← entries.mapM fun (key, value) => key.text?.map (·, value)
    if namedOnce (named.map (·.1)) then
      named.foldlM (fun options (name, value) => options.set? name value) {}
    else none
  | node => if node.isEmpty then some {} else none

def ofText (text : String) : Except Error BuildOptions :=
  match Yaml.parse? text with
  | some none => .ok {}
  | some (some document) => match ofYaml? document with
    | some options => .ok options
    | none => .error .options
  | none => .error .options

end BuildOptions
end ImportAtlas
