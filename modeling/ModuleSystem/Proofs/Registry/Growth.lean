import Mathlib.Data.List.Nodup
import ModuleSystem.Proofs.Registry.Rest

/-!
# Registry — adding modules between requests

Modules are added to a registry that may have been used before: records are created for paths, and the
contents of new records are attached.  In between there are records without contents, so the registry
is not at rest, but what was linked and evaluated before is untouched (`Registry.Growing`).  As soon as
no record is left new, the registry is at rest again (`Growing.atRest`).

* `Enlarges`: what creating and attaching keep.
* `Growing.create`, `Growing.attach`: they leave a registry that can grow further.
* `Growing.handle`: so does a request that comes to no record without contents.
-/

namespace ModuleSystem

namespace Graph

variable {g : Graph} {m : ModuleId} {p : Text}

/-- Each path belongs to at most one module. -/
def PathsDiffer (g : Graph) : Prop := (g.map Node.path).Nodup

theorem node_of_lt (h : m < g.length) : g.node m = g[m] := by
  simp [node, h]

theorem path_of_lt (h : m < g.length) : g.path m = g[m].path := by
  rw [path, node_of_lt h]

/-- A path belongs to one module. -/
theorem PathsDiffer.eq (h : g.PathsDiffer) {n : ModuleId} (hm : m < g.length) (hn : n < g.length)
    (e : g.path m = g.path n) : m = n := by
  rw [path_of_lt hm, path_of_lt hn] at e
  have hm' : m < (g.map Node.path).length := by simpa using hm
  have hn' : n < (g.map Node.path).length := by simpa using hn
  have e' : (g.map Node.path)[m] = (g.map Node.path)[n] := by simpa using e
  exact (List.Nodup.getElem_inj_iff h).1 e'

/-- A module that is found has the path. -/
theorem find?_some (h : g.find? p = some m) : m < g.length ∧ g.path m = p := by
  obtain ⟨hm, hp, -⟩ := List.findIdx?_eq_some_iff_getElem.1 h
  exact ⟨hm, by rw [path_of_lt hm]; simpa using hp⟩

/-- If none is found, no module has the path. -/
theorem find?_none (h : g.find? p = none) (hm : m < g.length) : g.path m ≠ p := by
  have := List.findIdx?_eq_none_iff.1 h g[m] (List.getElem_mem hm)
  rw [path_of_lt hm]
  simpa using this

/-- Where paths differ, the module with a path is the one that is found. -/
theorem PathsDiffer.find?_eq_some_iff (h : g.PathsDiffer) :
    g.find? p = some m ↔ m < g.length ∧ g.path m = p := by
  refine ⟨find?_some, fun ⟨hm, hp⟩ => ?_⟩
  cases hf : g.find? p with
  | none => exact absurd hp (find?_none hf hm)
  | some n =>
      obtain ⟨hn, hp'⟩ := find?_some hf
      rw [h.eq hn hm (hp'.trans hp.symm)]

end Graph

namespace Registry

variable {σ : Type} {host : Host σ} {r r' : Registry σ} {m x : ModuleId} {p q : Text}

/-- What holds of a registry while modules are added to it.  It is as between requests, except that
there may be records without contents, which have no dependencies yet and for which the host was asked
for nothing. -/
structure Growing (host : Host σ) (r : Registry σ) : Prop extends Idle host r where
  paths : r.graph.PathsDiffer
  contents : ∀ m, (r.graph.node m).compiled.isSome = true ↔ r.state m ≠ .new
  bare : ∀ m, r.state m = .new → r.graph.deps m = []
  called : ∀ k, ∀ m ∈ r.calls k, r.state m ≠ .new

/-- Every record has its contents. -/
def Complete (r : Registry σ) : Prop := ∀ m < r.graph.length, r.state m ≠ .new

theorem Growing.atRest (h : r.Growing host) (complete : r.Complete) : r.AtRest host :=
  ⟨h.toIdle, complete⟩

/-- An empty registry can grow. -/
theorem Growing.empty (host : Host σ) (world : σ) : Growing host { world } := by
  have attached : Attached (σ := σ) { world } :=
    ⟨⟨rfl, by simp, by simp, fun _ => rfl⟩, by simp⟩
  have rest := attached.atRest host
  exact
    { toIdle := rest.toIdle
      paths := List.nodup_nil
      contents := fun m => by simp [Graph.node, state, progressOf]
      bare := fun m _ => by simp [Graph.deps, Graph.node]
      called := fun k m hm => by simp [calls] at hm }

/-! ### What creating and attaching keep -/

/-- `r'` has all that `r` has: its records, and everything about those that are not new. -/
structure Enlarges (r r' : Registry σ) : Prop where
  length : r.graph.length ≤ r'.graph.length
  path : ∀ m < r.graph.length, r'.graph.path m = r.graph.path m
  state : ∀ m, r'.state m = r.state m ∨ r.state m = .new ∧ r'.state m = .unlinked
  node : ∀ m, r.state m ≠ .new → r'.graph.node m = r.graph.node m
  calls : ∀ k, r'.calls k = r.calls k
  flags : ∀ m, r'.isInstantiated m = r.isInstantiated m

theorem Enlarges.refl (r : Registry σ) : Enlarges r r where
  length := Nat.le_refl _
  path _ _ := rfl
  state _ := .inl rfl
  node _ _ := rfl
  calls _ := rfl
  flags _ := rfl

/-- A module with contents keeps its dependencies. -/
theorem Enlarges.deps (h : Enlarges r r') (m : ModuleId) (hm : r.state m ≠ .new) :
    r'.graph.deps m = r.graph.deps m :=
  congrArg Node.deps (h.node m hm)

theorem Enlarges.state_eq (h : Enlarges r r') (hm : r.state m ≠ .new) : r'.state m = r.state m :=
  (h.state m).resolve_right fun e => hm e.1

/-- What could be reached still can. -/
theorem Enlarges.reaches (h : Enlarges r r') (bare : ∀ m, r.state m = .new → r.graph.deps m = [])
    {n : ModuleId} (hr : r.graph.Reaches m n) : r'.graph.Reaches m n := by
  induction hr with
  | refl => exact .refl _
  | @step m d n hd _ ih =>
      have hm : r.state m ≠ .new := by
        intro e
        rw [bare m e] at hd
        cases hd
      exact .step (h.deps m hm ▸ hd) ih

/-- A phase that could start can still start when modules were added. -/
theorem Growing.sound (h : r.Growing host) (e : Enlarges r r') {phase : Phase σ} {k : Service}
    (law : phase.Lawful k) (active : .unlinked ≠ phase.active) (settled : ¬ phase.Settled .unlinked)
    (hr : Walk.Sound phase k { registry := r }) : Walk.Sound phase k { registry := r' } := by
  have not_new : ∀ {s}, phase.Settled s → s ≠ .new := by
    rintro s hs rfl
    rw [Phase.Settled, law.arrival_new] at hs
    cases hs.1
  -- what was attached since then is not settled, so what is settled is what was settled before
  have back : ∀ {x}, phase.Settled (r'.state x) → phase.Settled (r.state x) := by
    intro x hx
    rcases e.state x with hs | ⟨-, hs⟩
    · rwa [hs] at hx
    · rw [hs] at hx
      exact absurd hx settled
  refine .start (fun x => ?_) (fun x hx d hd => ?_) (fun x hx => ?_)
    (fun before x after hc d hd => ?_) (hr.once.congr (e.calls _) e.flags)
  · rcases e.state x with hs | ⟨-, hs⟩
    · rw [hs]
      exact hr.not_active x
    · rwa [hs]
  · rw [e.deps x (not_new (back hx))] at hd
    have hd' := hr.settled x (back hx) d hd
    rwa [e.state_eq (not_new hd')]
  · rw [e.calls]
    exact hr.called x (back hx)
  · rw [e.calls] at hc
    rw [e.deps x (h.called k x (by simp [hc]))] at hd
    exact (hr.order before x after hc d hd).imp_right (e.reaches h.bare)

/-- **Adding modules leaves a registry that can grow further**, if the new parts are in order. -/
theorem Growing.enlarge (h : r.Growing host) (e : Enlarges r r')
    (length : r'.progress.length = r'.graph.length)
    (deps : ∀ m, ∀ d ∈ r'.graph.deps m, d < r'.graph.length) (paths : r'.graph.PathsDiffer)
    (contents : ∀ m, (r'.graph.node m).compiled.isSome = true ↔ r'.state m ≠ .new)
    (bare : ∀ m, r'.state m = .new → r'.graph.deps m = []) : r'.Growing host where
  length := length
  deps := deps
  linking := h.sound e (linkPhase_lawful host) (by simp [linkPhase]) (by
    simp [linkPhase_settled_iff, ModuleState.isLinked]) h.linking
  evaluating := h.sound e (evaluatePhase_lawful host) (by simp [evaluatePhase]) (by
    simp [evaluatePhase_settled_iff]) h.evaluating
  final m hm := by
    rw [e.calls] at hm
    rw [e.state_eq (h.called _ m hm)]
    exact h.final m hm
  nodup := by
    rw [e.calls]
    exact h.nodup
  paths := paths
  contents := contents
  bare := bare
  called k m hm := by
    rw [e.calls] at hm
    rw [e.state_eq (h.called k m hm)]
    exact h.called k m hm

/-! ### Creating a record -/

/-- The registry after a record was created for a path. -/
def withRecord (r : Registry σ) (p : Text) : Registry σ :=
  { r with graph := r.graph ++ [{ path := p }], progress := r.progress ++ [{}] }

theorem getOrCreate_of_some (h : r.graph.find? p = some m) : r.getOrCreate p = (r, m, false) := by
  rw [getOrCreate, h]

/-- A record that is not there is created at the end. -/
theorem getOrCreate_of_none (h : r.graph.find? p = none) :
    r.getOrCreate p = (r.withRecord p, r.graph.length, true) := by
  rw [getOrCreate, h]
  rfl

theorem node_withRecord_self : (r.withRecord p).graph.node r.graph.length = { path := p } := by
  simp [withRecord, Graph.node]

/-- When a record is created, the others are as they were. -/
theorem node_withRecord_of_ne (h : x ≠ r.graph.length) :
    (r.withRecord p).graph.node x = r.graph.node x := by
  simp only [withRecord, Graph.node]
  grind

/-- A new record has come no further than one that is not there. -/
theorem progressOf_withRecord : (r.withRecord p).progressOf x = r.progressOf x := by
  simp only [withRecord, progressOf]
  grind

@[simp] theorem state_withRecord : (r.withRecord p).state x = r.state x :=
  congrArg Progress.state progressOf_withRecord

@[simp] theorem length_withRecord : (r.withRecord p).graph.length = r.graph.length + 1 := by
  simp [withRecord]

theorem Growing.state_length (h : r.Growing host) : r.state r.graph.length = .new :=
  state_of_length_le (Nat.le_of_eq h.length)

/-- A registry has all that it had before a record was created. -/
theorem Growing.enlarges_withRecord (h : r.Growing host) (p : Text) : Enlarges r (r.withRecord p) where
  length := by simp
  path m hm := congrArg Node.path (node_withRecord_of_ne (Nat.ne_of_lt hm))
  state m := .inl state_withRecord
  node m hm := by
    refine node_withRecord_of_ne ?_
    rintro rfl
    exact hm h.state_length
  calls k := rfl
  flags m := congrArg Progress.instantiated progressOf_withRecord

/-- A record with another path leaves a registry that can grow further. -/
theorem Growing.withRecord (h : r.Growing host) (hp : r.graph.find? p = none) :
    (r.withRecord p).Growing host := by
  -- the new record has no contents and imports nothing, and its path was not there
  refine h.enlarge (h.enlarges_withRecord p) ?_ (fun m d hd => ?_) ?_ (fun m => ?_) (fun m hm => ?_)
  · simp [Registry.withRecord, h.length]
  · rw [length_withRecord]
    by_cases hm : m = r.graph.length
    · rw [hm, Graph.deps, node_withRecord_self] at hd
      cases hd
    · rw [Graph.deps, node_withRecord_of_ne hm] at hd
      exact Nat.lt_succ_of_lt (h.deps m d hd)
  · rw [Graph.PathsDiffer, Registry.withRecord, List.map_append, List.map_singleton]
    refine List.nodup_append.2 ⟨h.paths, List.nodup_singleton _, fun a ha b hb e => ?_⟩
    obtain ⟨m, hm, rfl⟩ := List.mem_iff_getElem.1 ha
    rw [List.length_map] at hm
    refine Graph.find?_none hp hm ?_
    rw [Graph.path_of_lt hm]
    simpa [List.mem_singleton.1 hb] using e
  · rw [state_withRecord]
    by_cases hm : m = r.graph.length
    · rw [hm, node_withRecord_self, h.state_length]
      simp
    · rw [node_withRecord_of_ne hm]
      exact h.contents m
  · rw [state_withRecord] at hm
    by_cases hm' : m = r.graph.length
    · rw [hm', Graph.deps, node_withRecord_self]
    · rw [Graph.deps, node_withRecord_of_ne hm']
      exact h.bare m hm

/-- What is at hand after a record was looked up or created. -/
structure Created (r : Registry σ) (p : Text) (r' : Registry σ) (m : ModuleId) : Prop where
  enlarges : Enlarges r r'
  state : ∀ x, r'.state x = r.state x
  find : r'.graph.find? p = some m
  new : ∀ x < r'.graph.length, x < r.graph.length ∨ x = m

/-- **Looking up or creating a record** leaves a registry that can grow further, and adds no record
but the one that is asked for. -/
theorem Growing.create (h : r.Growing host) (p : Text) :
    (r.getOrCreate p).1.Growing host ∧ Created r p (r.getOrCreate p).1 (r.getOrCreate p).2.1 := by
  cases hf : r.graph.find? p with
  | some m =>
      rw [getOrCreate_of_some hf]
      exact ⟨h, ⟨.refl r, fun _ => rfl, hf, fun x hx => .inl hx⟩⟩
  | none =>
      rw [getOrCreate_of_none hf]
      have grown := h.withRecord hf
      refine ⟨grown, ⟨h.enlarges_withRecord p, fun _ => state_withRecord, ?_, fun x hx => ?_⟩⟩
      · refine grown.paths.find?_eq_some_iff.2 ⟨by simp, ?_⟩
        rw [Graph.path, node_withRecord_self]
      · rw [length_withRecord] at hx
        exact Nat.lt_succ_iff_lt_or_eq.1 hx

/-! ### Attaching contents -/

variable {c : Compiled} {deps : List ModuleId}

/-- Contents are attached to a new record, one dependency for each of their records. -/
theorem attach_ok (hnew : r.state m = .new) (hlen : deps.length = c.interface.records.length) :
    r.attach m c deps = .ok (move
      { r with graph := r.graph.modify m fun n => { n with compiled := some c, deps } } m .unlinked) := by
  simp [attach, hnew, hlen]

/-- The node that is modified is modified. -/
theorem node_modify_self {f : Node → Node} {g : Graph} (hm : m < g.length) :
    Graph.node (g.modify m f) m = f (g.node m) := by
  simp [Graph.node, hm]

/-- The others are not. -/
theorem node_modify_of_ne {f : Node → Node} {g : Graph} (hx : x ≠ m) :
    Graph.node (g.modify m f) x = g.node x := by
  simp [Graph.node, Ne.symm hx]

/-- What is at hand after the contents of a record were attached. -/
structure Attaches (r : Registry σ) (m : ModuleId) (r' : Registry σ) : Prop where
  enlarges : Enlarges r r'
  self : r'.state m = .unlinked
  others : ∀ x, x ≠ m → r'.state x = r.state x
  length : r'.graph.length = r.graph.length

/-- **Attaching the contents of a new record** leaves a registry that can grow further. -/
theorem Growing.attach (h : r.Growing host) (hm : m < r.graph.length) (hnew : r.state m = .new)
    (hlen : deps.length = c.interface.records.length) (hdeps : ∀ d ∈ deps, d < r.graph.length) :
    ∃ r', r.attach m c deps = .ok r' ∧ r'.Growing host ∧ Attaches r m r' := by
  refine ⟨_, attach_ok hnew hlen, ?_⟩
  -- only `m` has new contents, and it was new; every other module stays as it is
  have hself : ∀ {g}, (move { r with graph := g } m .unlinked).state m = .unlinked :=
    fun {g} => state_move_self (r := { r with graph := g }) (h.length ▸ hm)
  have hother : ∀ {g x}, x ≠ m → (move { r with graph := g } m .unlinked).state x = r.state x :=
    fun {g x} hx => state_move_of_ne (r := { r with graph := g }) hx
  have attaches : Attaches r m (move
      { r with graph := r.graph.modify m fun n => { n with compiled := some c, deps } } m .unlinked) := by
    refine ⟨⟨by simp, fun x _ => ?_, fun x => ?_, fun x hx => ?_, fun k => calls_move k, fun x => ?_⟩,
      hself, fun x hx => hother hx, by simp⟩
    · by_cases hx : x = m
      · rw [hx, graph_move, Graph.path, node_modify_self hm]
        rfl
      · rw [graph_move, Graph.path, node_modify_of_ne hx]
        rfl
    · by_cases hx : x = m
      · rw [hx]
        exact .inr ⟨hnew, hself⟩
      · exact .inl (hother hx)
    · have hx' : x ≠ m := by
        rintro rfl
        exact hx hnew
      rw [graph_move, node_modify_of_ne hx']
    · exact isInstantiated_move
  refine ⟨h.enlarge attaches.enlarges (by simp [h.length]) (fun x d hd => ?_) ?_ (fun x => ?_)
    (fun x hx => ?_), attaches⟩
  · rw [graph_move, List.length_modify]
    by_cases hx : x = m
    · rw [hx, graph_move, Graph.deps, node_modify_self hm] at hd
      exact hdeps d hd
    · rw [graph_move, Graph.deps, node_modify_of_ne hx] at hd
      exact h.deps x d hd
  · have : (r.graph.modify m fun n => { n with compiled := some c, deps }).map Node.path =
        r.graph.map Node.path := by
      refine List.ext_getElem (by simp) fun i hi hi' => ?_
      rw [List.getElem_map, List.getElem_map, List.getElem_modify]
      split <;> rfl
    rw [graph_move, Graph.PathsDiffer, this]
    exact h.paths
  · by_cases hx : x = m
    · rw [hx, hself, graph_move, node_modify_self hm]
      simp
    · rw [hother hx, graph_move, node_modify_of_ne hx]
      exact h.contents x
  · have hx' : x ≠ m := by
      rintro rfl
      rw [hself] at hx
      cases hx
    rw [hother hx'] at hx
    rw [graph_move, Graph.deps, node_modify_of_ne hx']
    exact h.bare x hx

/-! ### Another world -/

/-- The registry in another world. -/
def withWorld (r : Registry σ) (world : σ) : Registry σ := { r with world }

@[simp] theorem graph_withWorld {world : σ} : (r.withWorld world).graph = r.graph := rfl
@[simp] theorem state_withWorld {world : σ} : (r.withWorld world).state x = r.state x := rfl
@[simp] theorem world_withWorld {world : σ} : (r.withWorld world).world = world := rfl

@[simp] theorem calls_withWorld {world : σ} (k : Service) :
    (r.withWorld world).calls k = r.calls k :=
  rfl

/-- The world is no part of what a growing registry is. -/
theorem Growing.withWorld (h : r.Growing host) (world : σ) : (r.withWorld world).Growing host where
  length := h.length
  deps := h.deps
  linking := h.linking.congr rfl h.linking.not_active (fun _ => Iff.rfl) rfl
    (h.linking.once.congr rfl fun _ => rfl)
  evaluating := h.evaluating.congr rfl h.evaluating.not_active (fun _ => Iff.rfl) rfl
    (h.evaluating.once.congr rfl fun _ => rfl)
  final := h.final
  nodup := h.nodup
  paths := h.paths
  contents := h.contents
  bare := h.bare
  called := h.called

/-! ### Requests -/

/-- A request leaves a complete registry complete. -/
theorem Growing.complete_handle (h : r.Growing host) (complete : r.Complete) (request : Request) :
    (r.handle host request).1.Complete :=
  ((h.atRest complete).handle request).attached

/-- **A request** leaves a registry that can grow further, if the registry can answer it. -/
theorem Growing.handle (h : r.Growing host) {request : Request} (ok : r.Admits host request) :
    (r.handle host request).1.Growing host := by
  have idle' := h.toIdle.handle ok
  have graph := h.graph_handle ok
  refine
    { toIdle := idle'
      paths := graph ▸ h.paths
      contents := fun m => ?_
      bare := fun m hm => ?_
      called := fun k m hm => ?_ }
  · rw [graph, Ne, h.new_iff ok m]
    exact h.contents m
  · rw [graph]
    exact h.bare m ((h.new_iff ok m).1 hm)
  · rw [Ne, h.new_iff ok m]
    exact (h.mem_calls_handle ok hm).elim (h.called k m) id

/-! ### Modules by their paths -/

/-- A module with contents is got by its path. -/
theorem Growing.get?_eq_some_iff (h : r.Growing host) :
    r.get? p = some m ↔ r.graph.find? p = some m ∧ r.state m ≠ .new := by
  rw [get?]
  split
  · rename_i n hf
    rw [Option.ite_none_right_eq_some, h.contents, hf, Option.some.injEq]
    constructor
    · rintro ⟨hn, rfl⟩
      exact ⟨rfl, hn⟩
    · rintro ⟨rfl, hn⟩
      exact ⟨hn, rfl⟩
  · rename_i hf
    simp [hf]

/-- The registry has the module with a path. -/
def Knows (r : Registry σ) (p : Text) : Prop := (r.get? p).isSome = true

/-- A path is known when its module has contents. -/
theorem Growing.knows_iff (h : r.Growing host) :
    r.Knows p ↔ ∃ m, r.graph.find? p = some m ∧ r.state m ≠ .new := by
  simp only [Knows, Option.isSome_iff_exists, h.get?_eq_some_iff]

/-- What `r` finds by its path, `r'` finds in the same place; and what `r` knows, `r'` knows. -/
structure Keeps (r r' : Registry σ) : Prop where
  find : ∀ {p m}, r.graph.find? p = some m → r'.graph.find? p = some m
  knows : ∀ {p}, r.Knows p → r'.Knows p

theorem Keeps.refl (r : Registry σ) : Keeps r r := ⟨id, id⟩

theorem Keeps.trans {r'' : Registry σ} (h : Keeps r r') (h' : Keeps r' r'') : Keeps r r'' :=
  ⟨fun found => h'.find (h.find found), fun known => h'.knows (h.knows known)⟩

theorem Keeps.withWorld (h : Keeps r r') (world : σ) : Keeps r (r'.withWorld world) :=
  ⟨h.find, h.knows⟩

/-- A registry that is enlarged knows the paths that it knew. -/
theorem Enlarges.keeps (e : Enlarges r r') (h : r.Growing host) (h' : r'.Growing host) :
    Keeps r r' := by
  have find : ∀ {p m}, r.graph.find? p = some m → r'.graph.find? p = some m := by
    intro p m hf
    obtain ⟨hm, hp⟩ := Graph.find?_some hf
    exact h'.paths.find?_eq_some_iff.2 ⟨Nat.lt_of_lt_of_le hm e.length, (e.path m hm).trans hp⟩
  refine ⟨find, fun hp => ?_⟩
  obtain ⟨m, hf, hm⟩ := h.knows_iff.1 hp
  refine h'.knows_iff.2 ⟨m, find hf, ?_⟩
  rw [e.state_eq hm]
  exact hm

/-- So does one that handled a request. -/
theorem Growing.keeps_handle (h : r.Growing host) {request : Request}
    (ok : r.Admits host request) : Keeps r (r.handle host request).1 := by
  have find : ∀ {p m}, r.graph.find? p = some m →
      (r.handle host request).1.graph.find? p = some m := by
    intro p m hf
    rwa [h.graph_handle ok]
  refine ⟨find, fun hp => ?_⟩
  obtain ⟨m, hf, hm⟩ := h.knows_iff.1 hp
  refine (h.handle ok).knows_iff.2 ⟨m, find hf, ?_⟩
  rwa [Ne, h.new_iff ok m]

/-- What is reached from a module of the graph is one. -/
theorem Growing.lt_of_reaches (h : r.Growing host) (hr : r.graph.Reaches m x)
    (hm : m < r.graph.length) : x < r.graph.length := by
  induction hr with
  | refl => exact hm
  | step hd _ ih => exact ih (h.deps _ _ hd)

/-- A registry is complete if it knows the paths of all its records. -/
theorem Growing.complete (h : r.Growing host) (hk : ∀ m < r.graph.length, r.Knows (r.graph.path m)) :
    r.Complete := by
  intro m hm
  obtain ⟨n, hf, hn⟩ := h.knows_iff.1 (hk m hm)
  obtain ⟨hlt, hp⟩ := Graph.find?_some hf
  rwa [← h.paths.eq hlt hm hp]

end Registry

end ModuleSystem
