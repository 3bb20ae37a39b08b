import ModuleSystem.Resolver.Attempt
import ModuleSystem.Specifier

/-!
# Searching for a module

The rules that lead from a specifier to a file.  A relative, absolute or `file:` specifier is a URL
reference: its segments are decoded and read from the importing directory.  A bare specifier is
looked up in the module roots and nowhere else.  A path that is no file may lack an extension, or be
a directory with a manifest or an index.
-/

namespace ModuleSystem.Resolver

/-- What a search depends on. -/
structure Scope where
  style : PathStyle
  rel? : Text → Text → Option Text
  extensions : List Text
  mainFields : List Text
  /-- The module roots as absolute paths. -/
  roots : List Text
  /-- What the directories hold. -/
  directories : Text → Option Directory

namespace Scope

/-- The path of a file of a directory: where its entry is a link, the path that it leads to. -/
def pathOf (s : Scope) (dir : Text) (e : Entry) : Text :=
  e.target.getD (s.style.join [dir, e.name])

/-- A file of a directory by its name. -/
def named (s : Scope) (d : Directory) (name : Text) : Attempt :=
  Attempt.note ("Checking for file " ++ Quoted.display name) <|>
    match d.file? name with
    | some e => Attempt.hit (s.pathOf d.path e) ("Found file " ++ Quoted.display name)
    | none => {}

/-- The path as a file, with or without one of the extensions. -/
def asFile (s : Scope) (path : Text) : Attempt :=
  let base := s.style.base path
  Attempt.under ("Attempting to load " ++ Quoted.display path ++ Text.ofString " as a file") <|
    Attempt.within s.directories (s.style.dir path) fun d =>
      Attempt.firstOf (s.named d) (base :: s.extensions.map (base ++ ·)) <|>
        Attempt.note ("Failed to find file " ++ Quoted.display base)

/-- The index file of a directory. -/
def asIndex (s : Scope) (d : Directory) : Attempt :=
  Attempt.firstOf (fun (extension : Text) =>
    let name := "index" ++ extension
    let shown := Quoted.display (s.style.join [d.path, name])
    match d.file? name with
    | some e => Attempt.hit (s.pathOf d.path e) ("Found file " ++ shown)
    | none => Attempt.note ("Failed to find file " ++ shown)) s.extensions

/-- The file that a main field of the manifest names, or the index of a directory it names. -/
def asMainField (s : Scope) (d : Directory) : Attempt :=
  match d.manifest with
  | none => {}
  | some m =>
    let manifest := s.style.join [d.path, "package.json"]
    Attempt.under ("Searching for main fields in " ++ Quoted.display manifest) <|
      Attempt.firstOf (fun field =>
        match m.mainFields.lookup field with
        | none => Attempt.note ("Did not find main field " ++ Quoted.display field)
        | some path =>
          let target := s.style.join [d.path, path]
          Attempt.note ("Found main field " ++ Quoted.display field ++ Text.ofString " with path "
              ++ Quoted.display path) <|>
            s.asFile target <|> Attempt.within s.directories target s.asIndex) s.mainFields

/-- The path as a file or as a directory. -/
def asFileOrDirectory (s : Scope) (path : Text) : Attempt :=
  s.asFile path <|>
    Attempt.under ("Attempting to load " ++ Quoted.display path ++ Text.ofString " as a directory")
      (Attempt.within s.directories path fun d => s.asMainField d <|> s.asIndex d)

/-! ### URL references -/

/-- The segment holds a percent escape of a separator. -/
def hidesSeparator (s : Scope) (segment : Text) : Bool :=
  let lower := segment.map Ascii.toLower
  Text.contains lower "%2f" || (s.style = .windows && Text.contains lower "%5c")

/-- The segments of a URL path, decoded. An escaped separator would turn one segment into two, so
it is refused. -/
def decodeSegments (s : Scope) : List Text → Except Text (List Text)
  | [] => .ok []
  | segment :: rest =>
    if !segment.elem 37 then (s.decodeSegments rest).map (segment :: ·)
    else if s.hidesSeparator segment then
      .error ("The segment " ++ Quoted.display segment
        ++ Text.ofString " contains an encoded path separator")
    else match Specifier.percentDecode? segment with
      | none =>
        .error ("The segment " ++ Quoted.display segment
          ++ Text.ofString " is not a valid URL path segment")
      | some decoded => (s.decodeSegments rest).map (decoded :: ·)

/-- The file or directory below `base` that decoded segments name. -/
def below (s : Scope) (decoded : Except Text (List Text)) (place : List Text → Text × List Text) :
    Attempt :=
  match decoded with
  | .error why => Attempt.note why
  | .ok segments =>
    let (base, segments) := place segments
    s.asFileOrDirectory (s.style.join (base :: segments))

/-- A reference read from the importing directory; one that starts with a slash is read from the
root above it. -/
def asReference (s : Scope) (sourceDir specifier : Text) : Attempt :=
  s.below (s.decodeSegments ((Specifier.withoutQuery specifier).splitOn 47)) fun segments =>
    (if segments.headD [] = [] then s.style.root sourceDir else sourceDir, segments)

/-- The part of a `file:` URL from its path on, given what follows the scheme. -/
def urlPath (rest : Text) : Except (List Text) Text :=
  let rest := Specifier.withoutQuery rest
  let path : Except (List Text) Text := match Text.dropStart? "//" rest with
    | none => .ok rest
    | some rest =>
      match rest.idxOf? 47 with
      | none => .error []
      | some slash =>
        let host := rest.take slash
        if host.isEmpty || Specifier.isLocalhost host then .ok (rest.drop slash)
        else
          .error ["The file URL host " ++ Quoted.display host ++ Text.ofString " is not supported"]
  path.bind fun path =>
    if Path.isRooted path then .ok path
    else .error ["Relative file URLs are not supported"]

/-- A `file:` URL, given what follows the scheme. The first segment may be a drive. -/
def asUrl (s : Scope) (sourceDir rest : Text) : Attempt :=
  match urlPath rest with
  | .error notes => { steps := notes.map (.note 0) }
  | .ok path =>
    s.below (s.decodeSegments (path.splitOn 47)) fun segments =>
      match segments.drop 1 with
      | first :: below =>
        if s.style = .windows && Specifier.isDrive first then (first ++ Text.ofString "\\", below)
        else (s.style.root sourceDir, first :: below)
      | [] => (s.style.root sourceDir, [])

/-! ### Bare specifiers -/

/-- The path leads out of the root. -/
def escapes (s : Scope) (root path : Text) : Bool :=
  match s.rel? root path with
  | none => true
  | some r => r = Text.ofString ".." || r.startsWith (("..": Text) ++ [s.style.separator])

/-- A package in the module roots. -/
def asPackage (s : Scope) (specifier : Text) : Attempt :=
  if !Specifier.isPackagePath specifier then
    Attempt.note ("The specifier " ++ Quoted.display specifier
      ++ Text.ofString " is not a valid package name")
  else
    Attempt.under
      ("Searching for " ++ Quoted.display specifier ++ Text.ofString " in the module roots")
      (Attempt.firstOf (fun root =>
          let path := s.style.join (root :: specifier.splitOn 47)
          if s.escapes root path then {} else s.asFileOrDirectory path) s.roots <|>
        Attempt.note
          ("Failed to find " ++ Quoted.display specifier ++ Text.ofString " in any module root"))

/-- Everything a specifier can mean when it stands in a module of a directory. -/
def find (s : Scope) (sourceDir specifier : Text) : Attempt :=
  if specifier.isEmpty then {}
  else match Text.dropStart? "file:" specifier with
    | some rest => s.asUrl sourceDir rest
    | none =>
      if Specifier.isRelative specifier || Path.isRooted specifier then
        s.asReference sourceDir specifier
      else if s.style = .windows && Specifier.isOnDrive specifier then
        s.asFileOrDirectory (s.style.join [specifier])
      else if Specifier.hasScheme specifier then
        Attempt.note "Only \"file:\" URLs are supported"
      else s.asPackage specifier

end Scope

end ModuleSystem.Resolver
