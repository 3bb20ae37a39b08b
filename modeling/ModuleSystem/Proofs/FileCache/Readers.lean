import Mathlib.Data.List.Induction
import Mathlib.Data.List.Nodup
import ModuleSystem.FileCache.Readers
import ModuleSystem.FileSystem.Memory

/-!
# What concurrent readers see

The key of a file is read before its contents, and the two are cached together, so that a cache holds pairs
that no file ever was: another key than the contents had, or contents that a slow reader brings late.  None of
them is ever taken for the file, as long as no file gets the same key twice.

* `FileCache.advance_read`: the four steps of a read, with nothing in between, are a read.
* `Fits`: a pair can do no harm, for its key is either that of the same contents or will never come again.
* `SharedFiles.Sound`: what the cache and the readers hold fits the files.  Every action keeps this.
* `reads_linearizable`: a read gives what was in the file at some instant while it was under way.
-/

namespace ModuleSystem

/-! ### A read with nothing in between -/

namespace FileCache

variable {c : FileCache} {fs : FileSystem} {path : Text}

/-- A hit is a cached file whose key is the present one. -/
theorem hit?_eq_current? (c : FileCache) (path : Text) (key : Except FileError ModKey) :
    c.hit? path key = CachedFile.current? (c.entries.lookup path) key := by
  unfold hit? CachedFile.current?
  cases c.entries.lookup path <;> cases key <;> rfl

/-- Some steps of a read, with nothing in between. -/
def advances (fs : FileSystem) (path : Text) : Nat → FileCache × ReadStage → FileCache × ReadStage
  | 0, at_ => at_
  | n + 1, (c, stage) => advances fs path n (c.advance fs path stage)

/-- **The steps of a read with nothing in between are a read.** -/
theorem advance_read (c : FileCache) (fs : FileSystem) (path : Text) :
    advances fs path 4 (c, .begun) = ((c.read fs path).1, .ended (c.read fs path).2) := by
  simp only [advances, advance, FileCache.read, hit?_eq_current?]
  cases CachedFile.current? (c.entries.lookup path) (fs.modKey path) with
  | some contents => rfl
  | none => cases fs.read path <;> rfl

end FileCache

namespace SharedFiles

variable {base : FileSystem} {s s' : SharedFiles} {a : FileAction} {schedule : List FileAction} {i : Nat}
  {path contents : Text} {key : Except FileError ModKey} {entry : Option CachedFile} {stage : ReadStage}

/-! ### What can happen -/

/-- A read gets to another stage. -/
def setStage (s : SharedFiles) (i : Nat) (path : Text) (stage : ReadStage) : SharedFiles :=
  { s with reads := s.reads.set i ⟨path, stage⟩ }

/-- What an action does. -/
inductive Happens (s : SharedFiles) : FileAction → SharedFiles → Prop where
  | written (path contents : Text) (key : ModKey) :
      Happens s (.write path contents key) (s.setFile path (some ⟨contents, key⟩))
  | removed (path : Text) : Happens s (.remove path) (s.setFile path none)
  | started (path : Text) : Happens s (.start path) { s with reads := s.reads ++ [{ path }] }
  | looked {i : Nat} {path : Text} {refusal : Option FileError} (now : s.reads[i]? = some ⟨path, .begun⟩) :
      Happens s (.step i refusal) (s.setStage i path (.looked (s.cache.entries.lookup path)))
  | keyed {i : Nat} {path : Text} {refusal : Option FileError} {entry : Option CachedFile}
      {key : Except FileError ModKey} (now : s.reads[i]? = some ⟨path, .looked entry⟩)
      (current : ∀ k, key = .ok k → ∃ file, s.files path = some file ∧ file.key = k) :
      Happens s (.step i refusal) (s.setStage i path (.keyed entry key))
  | hit {i : Nat} {path contents : Text} {refusal : Option FileError} {entry : Option CachedFile}
      {key : Except FileError ModKey} (now : s.reads[i]? = some ⟨path, .keyed entry key⟩)
      (fits : CachedFile.current? entry key = some contents) :
      Happens s (.step i refusal) (s.setStage i path (.ended (.ok contents)))
  | loaded {i : Nat} {path : Text} {refusal : Option FileError} {entry : Option CachedFile}
      {key : Except FileError ModKey} {file : KeyedFile} (now : s.reads[i]? = some ⟨path, .keyed entry key⟩)
      (there : s.files path = some file) :
      Happens s (.step i refusal) (s.setStage i path (.loaded key file.contents))
  | failed {i : Nat} {path : Text} {refusal : Option FileError} {entry : Option CachedFile}
      {key : Except FileError ModKey} {e : FileError} (now : s.reads[i]? = some ⟨path, .keyed entry key⟩)
      (gone : s.files path = none) :
      Happens s (.step i refusal) (s.setStage i path (.ended (.error e)))
  | stored {i : Nat} {path contents : Text} {refusal : Option FileError} {key : Except FileError ModKey}
      (now : s.reads[i]? = some ⟨path, .loaded key contents⟩) :
      Happens s (.step i refusal)
        { s.setStage i path (.ended (.ok contents)) with cache := s.cache.store path contents key }

/-- A key that is given is the key of the file. -/
theorem key_of_modKey {refusal : Option FileError} {k : ModKey}
    (h : (s.fileSystem base refusal).modKey path = .ok k) : ∃ file, s.files path = some file ∧ file.key = k := by
  simp only [fileSystem] at h
  split at h
  · cases h
  · rename_i file hfile
    cases h
    exact ⟨file, hfile, rfl⟩
  · cases h

/-- **An action does one of these.** -/
theorem act_happens (h : s.act base a = some s') : Happens s a s' := by
  cases a with
  | write path contents key =>
      cases h
      exact .written path contents key
  | remove path =>
      cases h
      exact .removed path
  | start path =>
      cases h
      exact .started path
  | step i refusal =>
      simp only [act] at h
      split at h
      · cases h
      · rename_i path stage now
        cases stage with
        | begun =>
            cases h
            exact .looked now
        | looked entry =>
            cases h
            exact .keyed now fun _ => key_of_modKey
        | keyed entry key =>
            -- the entry is used when its key is the current one, and the file is read otherwise
            rw [if_neg (by simp [ReadStage.result?])] at h
            simp only [FileCache.advance] at h
            cases hfits : CachedFile.current? entry key with
            | some contents =>
                rw [hfits] at h
                cases h
                exact .hit now hfits
            | none =>
                rw [hfits] at h
                cases hfile : s.files path with
                | some file =>
                    simp only [fileSystem, hfile] at h
                    cases h
                    exact .loaded now hfile
                | none =>
                    simp only [fileSystem, hfile] at h
                    cases h
                    exact .failed now hfile
        | loaded key contents =>
            cases h
            exact .stored now
        | ended result => cases h

/-- The last action of a schedule comes after the others. -/
theorem run_concat (schedule : List FileAction) (a : FileAction) (s : SharedFiles) :
    s.run base (schedule ++ [a]) = (s.run base schedule).bind fun s => s.act base a := by
  simp [run, List.foldlM_append]

end SharedFiles

/-! ### Keys and instants -/

/-- The key that a write gives to a path. -/
def FileAction.given? : FileAction → Option (Text × ModKey)
  | .write path _ key => some (path, key)
  | _ => none

/-- The path has been given the key. -/
def Given (schedule : List FileAction) (path : Text) (key : ModKey) : Prop :=
  (path, key) ∈ schedule.filterMap FileAction.given?

/-- No path is given a key that it was given before. -/
def KeysFresh (schedule : List FileAction) : Prop := (schedule.filterMap FileAction.given?).Nodup

instance (schedule : List FileAction) : Decidable (KeysFresh schedule) :=
  inferInstanceAs (Decidable (List.Nodup _))

/-- A key that was given was given. -/
theorem Given.concat {schedule : List FileAction} {path : Text} {k : ModKey} (h : Given schedule path k)
    (a : FileAction) : Given (schedule ++ [a]) path k := by
  rw [Given, List.filterMap_append]
  exact List.mem_append_left _ h

/-- A write gives its key to the file. -/
theorem given_write (schedule : List FileAction) (path contents : Text) (k : ModKey) :
    Given (schedule ++ [.write path contents k]) path k := by
  simp [Given, FileAction.given?]

/-- Keys are fresh in every part of a schedule. -/
theorem KeysFresh.of_concat {schedule : List FileAction} {a : FileAction} (h : KeysFresh (schedule ++ [a])) :
    KeysFresh schedule := by
  rw [KeysFresh, List.filterMap_append] at h
  exact h.of_append_left

/-- A key that is given now was not given before. -/
theorem KeysFresh.not_given {schedule : List FileAction} {path contents : Text} {k : ModKey}
    (h : KeysFresh (schedule ++ [.write path contents k])) : ¬ Given schedule path k := by
  rw [KeysFresh, List.filterMap_append] at h
  exact fun hgiven => List.disjoint_of_nodup_append h hgiven (by simp [FileAction.given?])

namespace SharedFiles

variable {base : FileSystem} {s s' : SharedFiles} {a : FileAction} {schedule : List FileAction} {i : Nat}
  {path contents : Text} {key : Option ModKey} {stage : ReadStage} {P : SharedFiles → Prop}

/-- At some instant while a read of a path was under way, the shared files were like this. -/
def During (base : FileSystem) (schedule : List FileAction) (i : Nat) (path : Text)
    (P : SharedFiles → Prop) : Prop :=
  ∃ before after now stage, schedule = before ++ after ∧ run base {} before = some now ∧
    now.reads[i]? = some ⟨path, stage⟩ ∧ stage.result? = none ∧ P now

/-- What held during a read held during it. -/
theorem During.concat (h : During base schedule i path P) (a : FileAction) :
    During base (schedule ++ [a]) i path P := by
  obtain ⟨before, after, now, stage, rfl, h⟩ := h
  exact ⟨before, after ++ [a], now, stage, List.append_assoc .., h⟩

/-- The instant before an action. -/
theorem during_concat (hrun : run base {} schedule = some s) (now : s.reads[i]? = some ⟨path, stage⟩)
    (hunderWay : stage.result? = none) (h : P s) (a : FileAction) : During base (schedule ++ [a]) i path P :=
  ⟨schedule, [a], s, stage, rfl, hrun, now, hunderWay, h⟩

/-! ### Pairs that do no harm -/

/-- Contents that are kept with a key do no harm: where the file has the key now it has the contents, and
where it has not it will never have the key again. -/
def Fits (schedule : List FileAction) (s : SharedFiles) (path contents : Text) (key : Option ModKey) : Prop :=
  ∀ k, key = some k → Given schedule path k ∧
    ∀ file, s.files path = some file → file.key = k → file.contents = contents

/-- **What fits the files goes on to fit them**, whatever happens: a file that is written gets a new key. -/
theorem Fits.happens (h : s.Fits schedule path contents key) (ha : Happens s a s')
    (hfresh : KeysFresh (schedule ++ [a])) : s'.Fits (schedule ++ [a]) path contents key := by
  intro k hk
  obtain ⟨hgiven, hcontents⟩ := h k hk
  refine ⟨hgiven.concat a, ?_⟩
  cases ha with
  | written path' contents' key' =>
      intro file hfile hkey
      simp only [setFile] at hfile
      split at hfile
      · rename_i heq
        subst heq
        cases hfile
        cases hkey
        -- the pair would be out of date if the file got the old key again, which was given before
        exact absurd hgiven hfresh.not_given
      · exact hcontents file hfile hkey
  | removed path' =>
      intro file hfile hkey
      simp only [setFile] at hfile
      split at hfile
      · cases hfile
      · exact hcontents file hfile hkey
  | started | looked | keyed | hit | loaded | failed | stored => exact hcontents

/-- What is taken for the contents of a file are the contents, if the entry fits the file and the key is the
key of the file. -/
theorem contents_of_current {entry : Option CachedFile} {key : Except FileError ModKey}
    (hentry : ∀ file, entry = some file → s.Fits schedule path file.contents file.key)
    (hkey : ∀ k, key = .ok k → ∃ file, s.files path = some file ∧ file.key = k)
    (h : CachedFile.current? entry key = some contents) : s.contents? path = some contents := by
  unfold CachedFile.current? at h
  split at h
  · rename_i cached k
    split at h
    · rename_i hcached
      obtain ⟨file, hfile, hk⟩ := hkey k rfl
      have hsame := (hentry cached rfl k hcached).2 file hfile hk
      rw [contents?, hfile, Option.map_some, hsame, Option.some.inj h]
    · cases h
  · cases h

/-! ### What is known of a read -/

/-- What a read holds fits the file, or is what was in the file while the read was under way. -/
def StageSound (base : FileSystem) (schedule : List FileAction) (s : SharedFiles) (i : Nat) (path : Text) :
    ReadStage → Prop
  | .begun => True
  | .looked entry => ∀ file, entry = some file → s.Fits schedule path file.contents file.key
  | .keyed entry key =>
    (∀ k, key = .ok k → Given schedule path k) ∧
      ∀ contents, CachedFile.current? entry key = some contents →
        During base schedule i path fun now => now.contents? path = some contents
  | .loaded key contents =>
    s.Fits schedule path contents key.toOption ∧
      During base schedule i path fun now => now.contents? path = some contents
  | .ended result => During base schedule i path fun now => now.contents? path = result.toOption

/-- Whatever happens, what is known of a read stays true. -/
theorem StageSound.happens (h : StageSound base schedule s i path stage) (ha : Happens s a s')
    (hfresh : KeysFresh (schedule ++ [a])) : StageSound base (schedule ++ [a]) s' i path stage := by
  cases stage with
  | begun => trivial
  | looked entry => exact fun file hfile => (h file hfile).happens ha hfresh
  | keyed entry key =>
      exact ⟨fun k hk => (h.1 k hk).concat a, fun contents hfits => (h.2 contents hfits).concat a⟩
  | loaded key contents => exact ⟨h.1.happens ha hfresh, h.2.concat a⟩
  | ended result => exact h.concat a

/-- What the cache and the readers hold fits the files. -/
structure Sound (base : FileSystem) (schedule : List FileAction) (s : SharedFiles) : Prop where
  files : ∀ path file, s.files path = some file → Given schedule path file.key
  cache : ∀ e ∈ s.cache.entries, s.Fits schedule e.1 e.2.contents e.2.key
  reads : ∀ (i : Nat) (path : Text) (stage : ReadStage), s.reads[i]? = some ⟨path, stage⟩ →
    StageSound base schedule s i path stage

theorem sound_empty (base : FileSystem) : Sound base [] {} where
  files := nofun
  cache := nofun
  reads := by simp

/-- Whatever happens, each file has a key that it was given. -/
theorem Sound.files_happens (h : Sound base schedule s) (ha : Happens s a s') :
    ∀ path file, s'.files path = some file → Given (schedule ++ [a]) path file.key := by
  intro path file hfile
  cases ha with
  | written path' contents' key' =>
      simp only [setFile] at hfile
      split at hfile
      · rename_i heq
        subst heq
        cases hfile
        exact given_write ..
      · exact (h.files path file hfile).concat _
  | removed path' =>
      simp only [setFile] at hfile
      split at hfile
      · cases hfile
      · exact (h.files path file hfile).concat _
  | started | looked | keyed | hit | loaded | failed | stored => exact (h.files path file hfile).concat _

/-- Whatever happens, the cache has no file with a key that was given to other contents. -/
theorem Sound.cache_happens (h : Sound base schedule s) (ha : Happens s a s')
    (hfresh : KeysFresh (schedule ++ [a])) :
    ∀ e ∈ s'.cache.entries, s'.Fits (schedule ++ [a]) e.1 e.2.contents e.2.key := by
  have hkept : ∀ e ∈ s.cache.entries, s'.Fits (schedule ++ [a]) e.1 e.2.contents e.2.key :=
    fun e he => (h.cache e he).happens ha hfresh
  cases ha with
  | stored now =>
      refine List.forall_mem_cons.2 ⟨(h.reads _ _ _ now).1.happens (.stored now) hfresh, fun e he => ?_⟩
      exact hkept e (List.mem_filter.1 he).1
  | written | removed | started | looked | keyed | hit | loaded | failed => exact hkept

/-- What a read gets to by a step is sound. -/
theorem Sound.step {refusal : Option FileError} (h : Sound base schedule s) (hrun : run base {} schedule = some s)
    (ha : Happens s (.step i refusal) s') (hfresh : KeysFresh (schedule ++ [.step i refusal])) :
    ∃ path stage, s'.reads = s.reads.set i ⟨path, stage⟩ ∧ (∃ before, s.reads[i]? = some ⟨path, before⟩) ∧
      StageSound base (schedule ++ [.step i refusal]) s' i path stage := by
  cases ha with
  | @looked _ path _ now =>
      refine ⟨path, _, rfl, ⟨_, now⟩, fun file hfile => ?_⟩
      obtain ⟨before, after, hentries, -⟩ := List.lookup_eq_some_iff.1 hfile
      exact (h.cache (path, file) (by simp [hentries])).happens (.looked now) hfresh
  | @keyed _ path _ entry key now current =>
      refine ⟨path, _, rfl, ⟨_, now⟩, fun k hk => ?_, fun contents hfits => ?_⟩
      · obtain ⟨file, hfile, rfl⟩ := current k hk
        exact (h.files path file hfile).concat _
      · -- the entry has the key that the file has now, so this is the instant
        exact during_concat hrun now rfl (contents_of_current (h.reads _ _ _ now) current hfits) _
  | hit now fits => exact ⟨_, _, rfl, ⟨_, now⟩, ((h.reads _ _ _ now).2 _ fits).concat _⟩
  | @loaded _ path _ entry key file now there =>
      have hcontents : s.contents? path = some file.contents := by rw [contents?, there, Option.map_some]
      refine ⟨path, _, rfl, ⟨_, now⟩, fun k hk => ?_, during_concat hrun now rfl hcontents _⟩
      -- the key is older than the contents: it was given, and if the file still has it, it has these contents
      have hkey : key = .ok k := by cases key <;> cases hk; rfl
      refine ⟨((h.reads _ _ _ now).1 k hkey).concat _, fun file' hfile' _ => ?_⟩
      rw [Option.some.inj (hfile'.symm.trans there)]
  | @failed _ path _ entry key e now gone =>
      have hcontents : s.contents? path = none := by rw [contents?, gone, Option.map_none]
      exact ⟨path, _, rfl, ⟨_, now⟩, during_concat hrun now rfl hcontents _⟩
  | stored now => exact ⟨_, _, rfl, ⟨_, now⟩, (h.reads _ _ _ now).2.concat _⟩

/-- Whatever happens, what is known of the reads stays true. -/
theorem Sound.reads_happens (h : Sound base schedule s) (hrun : run base {} schedule = some s)
    (ha : Happens s a s') (hfresh : KeysFresh (schedule ++ [a])) (i : Nat) (path : Text) (stage : ReadStage)
    (hread : s'.reads[i]? = some ⟨path, stage⟩) : StageSound base (schedule ++ [a]) s' i path stage := by
  have hkept : s.reads[i]? = some ⟨path, stage⟩ → StageSound base (schedule ++ [a]) s' i path stage :=
    fun hbefore => (h.reads i path stage hbefore).happens ha hfresh
  cases a with
  | write | remove =>
      cases ha
      exact hkept hread
  | start path' =>
      cases ha
      -- a new read has not asked for anything yet
      rw [List.getElem?_append] at hread
      split at hread
      · exact hkept hread
      · cases List.mem_singleton.1 (List.mem_of_getElem? hread)
        trivial
  | step j refusal =>
      obtain ⟨path', stage', hreads, ⟨before, hbefore⟩, hstage⟩ := h.step hrun ha hfresh
      rw [hreads, List.getElem?_set] at hread
      split at hread
      · rename_i heq
        subst heq
        split at hread
        · cases hread
          exact hstage
        · cases hread
      · exact hkept hread

/-- Every action keeps it. -/
theorem Sound.happens (h : Sound base schedule s) (hrun : run base {} schedule = some s) (ha : Happens s a s')
    (hfresh : KeysFresh (schedule ++ [a])) : Sound base (schedule ++ [a]) s' where
  files := h.files_happens ha
  cache := h.cache_happens ha hfresh
  reads := h.reads_happens hrun ha hfresh

/-- **Whatever happens, the cache and the readers hold what fits the files.** -/
theorem sound_of_run (hfresh : KeysFresh schedule) (hrun : run base {} schedule = some s) :
    Sound base schedule s := by
  induction schedule using List.reverseRecOn generalizing s with
  | nil =>
      cases hrun
      exact sound_empty base
  | append_singleton schedule a ih =>
      rw [run_concat] at hrun
      obtain ⟨before, hbefore, ha⟩ := Option.bind_eq_some_iff.1 hrun
      exact (ih hfresh.of_concat hbefore).happens hbefore (act_happens ha) hfresh

/-- **Reads are linearizable.**  Files are written and removed, and any number of reads go on beside each
other, in any order of their steps.  If no path is given a key twice, a read that ends with contents gives what
was in the file at some instant while the read was under way, and for a read that ends with an error there was
no file at some such instant. -/
theorem reads_linearizable (result : Except FileError Text) (hfresh : KeysFresh schedule)
    (hrun : run base {} schedule = some s) (hended : s.reads[i]? = some ⟨path, .ended result⟩) :
    During base schedule i path fun now => now.contents? path = result.toOption :=
  (sound_of_run hfresh hrun).reads i path _ hended

/-- A slow reader puts new contents into the cache with the old key, and the next reader is as slow. -/
def slowReaders : List FileAction :=
  [.write "/a" "old" ⟨0, 1⟩, .start "/a", .step 0 none, .step 0 none, .write "/a" "new" ⟨0, 2⟩, .start "/a",
    .step 0 none, .step 0 none, .step 1 none, .step 1 none, .write "/a" "newest" ⟨0, 3⟩, .step 1 none,
    .remove "/a", .step 1 none]

theorem reads_linearizable_slowReaders :
    KeysFresh slowReaders ∧
      During (Memory.fileSystem ⟨.unix, "/", []⟩) slowReaders 1 "/a" fun now =>
        now.contents? "/a" = some ("newest" : Text) :=
  have hfresh : KeysFresh slowReaders := by decide
  ⟨hfresh, reads_linearizable (.ok "newest") hfresh rfl rfl⟩

end SharedFiles

end ModuleSystem
