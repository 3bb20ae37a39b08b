import ModuleSystem.Config.Format
import ModuleSystem.FileSystem.Disk
import ModuleSystem.Options

/-!
# Configuration

Options are gathered from several sources: what the program itself sets, the flags of a command
line, the environment, a file and the defaults.  The first of these that has a value for a setting
decides.  A source is a table from the names of settings to values; names are compared without
regard to case.
-/

namespace ModuleSystem

/-- Why there is no configuration. -/
inductive ConfigError where
  /-- The file cannot be read. -/
  | unreadable (format : ConfigFormat) (path : Text) (e : AccessError)
  /-- The ending of the name of the file stands for no format. -/
  | unknownFormat (path : Text)
  /-- The file does not have its format. -/
  | malformed (format : ConfigFormat) (path : Text) (fault : ConfigFault)
  | options (e : OptionsError)
deriving DecidableEq, Repr

namespace ConfigError

/-- What failed, for errors of the file. -/
def subject? : ConfigError → Option Text
  | .malformed .toml _ _ => some "failed to parse config file"
  | .options _ => none
  | _ => some "failed to read config file"

/-- The wording of an error. -/
def message (e : ConfigError) : Text :=
  let subject := e.subject?.getD []
  let about (path reason : Text) : Text :=
    subject ++ Text.ofString " " ++ Quoted.display path ++ Text.ofString ": " ++ reason
  match e with
  | .unreadable .toml _ e => subject ++ Text.ofString ": " ++ e.message
  | .unreadable _ path e => about path e.message
  | .unknownFormat path =>
    about path ("Unsupported Config Type " ++ Quoted.display ((Path.ext path).drop 1))
  | .malformed .toml path fault => about path fault.message
  | .malformed _ path fault => about path ("While parsing config: " ++ fault.message)
  | .options e => e.message

end ConfigError

/-- The sources of settings. -/
structure Config where
  /-- What the program sets. -/
  fixed : List (Text × ConfigValue) := []
  /-- The flags that are given. -/
  flags : List (Text × ConfigValue) := []
  /-- The variables of the environment. -/
  environment : List (Text × Text) := []
  /-- The entries of the configuration file. -/
  file : List (Text × ConfigValue) := []
deriving Repr

namespace Config

/-- The configuration with a setting of the program. A point in the name leads into a table. -/
def set (c : Config) (name : Text) (v : ConfigValue) : Config :=
  { c with
    fixed := ConfigValue.insert (name.toLower.splitOn 46) v.lowerKeys c.fixed }

/-- The names of the settings. -/
def names : List Text :=
  ["cwd", "resolve-extensions", "module-roots", "main-fields", "loaders", "log-level", "color",
    "verbose"]

/-- The variable of the environment for a setting. -/
def variableName (name : Text) : Text :=
  "ESMLOADER_" ++ name.map fun b => if b = 45 then 95 else Ascii.toUpper b

/-- The value of a setting in the environment. An empty one does not count. -/
def inEnvironment? (c : Config) (name : Text) : Option ConfigValue :=
  match c.environment.lookup (variableName name) with
  | some [] => none
  | some t => some (.text t)
  | none => none

/-- The value of a setting in a table. -/
def entry? (entries : List (Text × ConfigValue)) (name : Text) : Option ConfigValue :=
  match entries.lookup name with
  | some .null => none
  | found => found

/-- The value of a setting: that of the first source that has one. -/
def find? (c : Config) (name : Text) : Option ConfigValue :=
  entry? c.fixed name <|> entry? c.flags name <|> c.inEnvironment? name <|> entry? c.file name

/-- A list of texts: entries may hold several, divided by commas, and empty ones do not count. -/
def splitList (ts : List Text) : List Text :=
  ((ts.flatMap (·.splitOn 44)).map Text.trim).filter fun t => !t.isEmpty

/-- The configuration with the entries of a file. -/
def withFile (c : Config) (d : Disk) (path : Text) : Except ConfigError Config :=
  match ConfigFormat.ofPath? path with
  | none => .error (.unknownFormat path)
  | some format =>
    match d.contents path with
    | .error e => .error (.unreadable format path e)
    | .ok contents =>
      match format.read c.environment contents with
      | .error fault => .error (.malformed format path fault)
      | .ok entries => .ok { c with file := ConfigValue.lowerEntries entries [] }

/-- The options with the formats that a table of words names, one for each extension. The point of
an extension may be left out. -/
def addLoaders (o : Options) : List (Text × Text) → Except OptionsError Options
  | [] => .ok o
  | (key, word) :: rest =>
    let extension := 46 :: (Text.dropStart? "." key).getD key
    match Format.parse word with
    | .error e => .error (.formatOf extension e)
    | .ok format => addLoaders (o.setLoader extension (some format)) rest

/-- The options that the sources amount to, for a process with the working directory of a disk. -/
def options (c : Config) (d : Disk) : Except OptionsError Options := do
  let base : Options := {}
  let lists (name : Text) (default : List Text) : List Text :=
    splitList (((c.find? name).map (·.asTexts)).getD default)
  let word (name default : Text) : Text := ((c.find? name).map (·.asText)).getD default
  let o ← addLoaders
    { base with
      cwd := d.abs (word "cwd" [])
      extensions := lists "resolve-extensions" base.extensions
      roots := lists "module-roots" base.roots
      mainFields := lists "main-fields" base.mainFields
      verbose := ((c.find? "verbose").map (·.asSwitch)).getD false }
    (((c.find? "loaders").map (·.asEntries)).getD [])
  let logLevel ← Diagnostic.Level.parse (word "log-level" "info")
  let color ← Diagnostic.ColorChoice.parse (word "color" "auto")
  Options.validate { o with logLevel, color }

/-- The options of a configuration with a file, which is left out when its path is empty. -/
def load (c : Config) (d : Disk) (path : Text) : Except ConfigError Options := do
  let c ← if path.isEmpty then .ok c else c.withFile d path
  match c.options d with
  | .ok o => .ok o
  | .error e => .error (.options e)

end Config

end ModuleSystem
