import ModuleSystem.FileCache

/-!
# Many readers of one file cache

Reads that go on beside each other share a cache, and the files change meanwhile.  A read takes four steps:
it looks up what the cache holds of the file, asks for the modification key, reads the file unless the key is
the one that it was cached with, and puts what it has read into the cache.  Each step is taken at once, and
between two steps of a read anything may happen: other reads take steps, files are written and removed.
-/

namespace ModuleSystem

/-- A file that is there. -/
structure KeyedFile where
  contents : Text
  key : ModKey
deriving DecidableEq, Repr

/-- How far a read has come. -/
inductive ReadStage where
  /-- The cache is to be asked. -/
  | begun
  /-- The cache has given its entry; the file system is to be asked for the key of the file. -/
  | looked (entry : Option CachedFile)
  /-- The file system has given a key, or has given none; the file is to be read, unless the key fits. -/
  | keyed (entry : Option CachedFile) (key : Except FileError ModKey)
  /-- The file has been read; the contents are to be put into the cache. -/
  | loaded (key : Except FileError ModKey) (contents : Text)
  | ended (result : Except FileError Text)

/-- What a read has come to. -/
def ReadStage.result? : ReadStage → Option (Except FileError Text)
  | .ended result => some result
  | _ => none

/-- The contents of an entry, if the file has the key that it was cached with. -/
def CachedFile.current? : Option CachedFile → Except FileError ModKey → Option Text
  | some file, .ok key => if file.key = some key then some file.contents else none
  | _, _ => none

/-- A step of a read of a path. -/
def FileCache.advance (c : FileCache) (fs : FileSystem) (path : Text) : ReadStage → FileCache × ReadStage
  | .begun => (c, .looked (c.entries.lookup path))
  | .looked entry => (c, .keyed entry (fs.modKey path))
  | .keyed entry key =>
    match CachedFile.current? entry key with
    | some contents => (c, .ended (.ok contents))
    | none =>
      match fs.read path with
      | .ok contents => (c, .loaded key contents)
      | .error e => (c, .ended (.error e))
  | .loaded key contents => (c.store path contents key, .ended (.ok contents))
  | .ended result => (c, .ended result)

/-- A read of a path. -/
structure FileRead where
  path : Text
  stage : ReadStage := .begun

/-- Files, and the reads that share a cache of them. -/
structure SharedFiles where
  files : Text → Option KeyedFile := fun _ => none
  cache : FileCache := {}
  /-- The reads, in the order in which they began. -/
  reads : List FileRead := []

/-- What can happen to shared files. -/
inductive FileAction where
  /-- A file is written, and gets a modification key. -/
  | write (path contents : Text) (key : ModKey)
  | remove (path : Text)
  /-- Someone begins to read a file. -/
  | start (path : Text)
  /-- A read takes a step. The file system may refuse to give a key. -/
  | step (i : Nat) (refusal : Option FileError)

namespace SharedFiles

/-- What is in a file now. -/
def contents? (s : SharedFiles) (path : Text) : Option Text := (s.files path).map (·.contents)

/-- The files as a file system, which may refuse to give keys. A file that is not there has neither contents
nor a key. -/
def fileSystem (base : FileSystem) (s : SharedFiles) (refusal : Option FileError) : FileSystem :=
  { base with
    read := fun path =>
      match s.files path with
      | some file => .ok file.contents
      | none => .error .missing
    modKey := fun path =>
      match refusal, s.files path with
      | some e, _ => .error e
      | none, some file => .ok file.key
      | none, none => .error .missing }

/-- The shared files with another file at a path, or none. -/
def setFile (s : SharedFiles) (path : Text) (file : Option KeyedFile) : SharedFiles :=
  { s with files := fun p => if p = path then file else s.files p }

/-- What an action leads to; nothing if it cannot happen now. -/
def act (base : FileSystem) (s : SharedFiles) : FileAction → Option SharedFiles
  | .write path contents key => some (s.setFile path (some ⟨contents, key⟩))
  | .remove path => some (s.setFile path none)
  | .start path => some { s with reads := s.reads ++ [{ path }] }
  | .step i refusal =>
    match s.reads[i]? with
    | none => none
    | some ⟨path, stage⟩ =>
      if stage.result?.isSome then none
      else
        let (cache, stage) := s.cache.advance (s.fileSystem base refusal) path stage
        some { s with cache, reads := s.reads.set i ⟨path, stage⟩ }

/-- The shared files after a schedule of actions; nothing if one of them cannot happen when it is due. -/
def run (base : FileSystem) (s : SharedFiles) (schedule : List FileAction) : Option SharedFiles :=
  schedule.foldlM (act base) s

end SharedFiles

end ModuleSystem
