import AmbientFs.Proofs.EventLoop

/-!
# The project of an event

The loop takes the first project, in whatever order the map has them, whose root's text the path
starts with. The project an event belongs to is the one with the longest root that the path starts
with as components. The two are compared for every order of the map.
-/

namespace AmbientFs

/-- The components of the root are the first ones of the path. -/
def PathBuf.StartsWith (path root : PathBuf) : Prop := root.components <+: path.components

namespace Registry

variable (r : Registry) (path : PathBuf)

/-- An order in which the map of the projects can be iterated. -/
structure Iterates (order : List String) : Prop where
  nodup : order.Nodup
  mem : ∀ id, id ∈ order ↔ (r.projects id).isSome

/-- The path starts with the root of the project, and with no longer one. -/
def Nearest (id : String) : Prop :=
  ∃ root, r.projects id = some root ∧ path.StartsWith root ∧
    ∀ id' root', r.projects id' = some root' → path.StartsWith root' →
      root'.components.length ≤ root.components.length

/-- The text of the path starts with that of the project's root. -/
def TextStarts (id : String) : Prop :=
  ∃ root, r.projects id = some root ∧ root.toStringLossy.toList <+: path.toStringLossy.toList

/-- As texts the path starts with the nearest roots only, and with one if there is one. -/
structure TextsNearest : Prop where
  nearest : ∀ id, r.TextStarts path id → r.Nearest path id
  found : ∀ id root, r.projects id = some root → path.StartsWith root →
    ∃ id', r.TextStarts path id'

end Registry

/-- The map of the projects of a server is finite. -/
structure FiniteServer extends EventServer where
  finite : {id | (registry.projects id).isSome}.Finite

namespace EventServer

/-- An event of the path gets the id of the project it belongs to, and keeps its own if there is
none. -/
def Routes (s : EventServer) (h : Handling) (path : PathBuf) : Prop :=
  ∀ event : FileEvent, event.filePath = path.toStringLossy →
    match s.registry.assign h.order event.filePath with
    | some id => (s.prepare h event).projectId = id ∧ s.registry.Nearest path id
    | none => (s.prepare h event).projectId = event.projectId ∧
        ∀ id root, s.registry.projects id = some root → ¬ path.StartsWith root

end EventServer

namespace Registry

variable {r : Registry} {path : PathBuf} {order : List String} {id : String}

theorem any_isPrefixOf_iff : (r.projects id).any (fun root =>
    root.toStringLossy.toList.isPrefixOf path.toStringLossy.toList) = true ↔
      r.TextStarts path id := by
  unfold TextStarts
  rw [Option.any_eq_true]
  simp only [List.isPrefixOf_iff_prefix]

/-- The loop stops at the first project whose root's text the path's starts with. -/
theorem assign_eq_some (h : r.assign order path.toStringLossy = some id) :
    r.TextStarts path id :=
  any_isPrefixOf_iff.1 (List.find?_some h :)

theorem assign_eq_none_iff (horder : r.Iterates order) :
    r.assign order path.toStringLossy = none ↔ ∀ id, ¬ r.TextStarts path id := by
  unfold assign
  rw [List.find?_eq_none]
  constructor
  · intro h id hid
    have hmem : id ∈ order := by
      obtain ⟨root, hroot, -⟩ := hid
      exact (horder.mem id).2 (by rw [hroot]; rfl)
    exact h id hmem (any_isPrefixOf_iff.2 hid)
  · exact fun h id _ hid => h id (any_isPrefixOf_iff.1 hid)

theorem assign_cons (h : r.TextStarts path id) :
    r.assign (id :: order) path.toStringLossy = some id :=
  List.find?_cons_of_pos (any_isPrefixOf_iff.2 h)

/-- Every project can be the first one. -/
theorem Iterates.cons_erase (h : r.Iterates order) (hid : id ∈ order) :
    r.Iterates (id :: order.erase id) := by
  have hperm := List.perm_cons_erase hid
  exact ⟨hperm.nodup_iff.1 h.nodup, fun id' => hperm.mem_iff.symm.trans (h.mem id')⟩

end Registry

theorem FiniteServer.exists_iterates (s : FiniteServer) : ∃ order, s.registry.Iterates order := by
  refine ⟨s.finite.toFinset.toList, Finset.nodup_toList _, fun id => ?_⟩
  rw [Finset.mem_toList, Set.Finite.mem_toFinset]
  exact Iff.rfl

namespace EventServer

theorem Routes.assign {s : EventServer} {h : Handling} {path : PathBuf} (hr : s.Routes h path) :
    match s.registry.assign h.order path.toStringLossy with
    | some id => s.registry.Nearest path id
    | none => ∀ id root, s.registry.projects id = some root → ¬ path.StartsWith root := by
  have hevent := hr (.new .epoch .created path.toStringLossy "default" "") rfl
  have hpath : (FileEvent.new .epoch .created path.toStringLossy "default" "").filePath =
    path.toStringLossy := rfl
  rw [hpath] at hevent
  rcases hassign : s.registry.assign h.order path.toStringLossy with _ | id
  · rw [hassign] at hevent
    exact hevent.2
  · rw [hassign] at hevent
    exact hevent.2

end EventServer

/-- In every order of the map events get to the projects they belong to exactly if as texts their
paths start with the nearest roots only. -/
theorem FiniteServer.routes_iff (s : FiniteServer) (path : PathBuf) :
    (∀ h : Handling, s.registry.Iterates h.order → s.Routes h path) ↔
      s.registry.TextsNearest path := by
  obtain ⟨order, horder⟩ := s.exists_iterates
  constructor
  · intro hall
    have hroutes := fun order (horder : s.registry.Iterates order) =>
      (hall ⟨true, order, fun _ => none, true, true⟩ horder).assign
    refine ⟨fun id hid => ?_, fun id root hroot hstarts => ?_⟩
    · have hmem : id ∈ order := by
        obtain ⟨root, hroot, -⟩ := hid
        exact (horder.mem id).2 (by rw [hroot]; rfl)
      have hfirst := hroutes _ (horder.cons_erase hmem)
      rw [Registry.assign_cons hid] at hfirst
      exact hfirst
    · by_contra hno
      have hlast := hroutes order horder
      rw [(Registry.assign_eq_none_iff horder).2 fun id' hid' => hno ⟨id', hid'⟩] at hlast
      exact hlast id root hroot hstarts
  · rintro ⟨hnearest, hfound⟩ h horder event hpath
    have hid := s.prepare_projectId h event
    rw [hpath] at hid ⊢
    rcases hassign : s.registry.assign h.order path.toStringLossy with _ | id
    · rw [hassign] at hid
      refine ⟨hid, fun id root hroot hstarts => ?_⟩
      obtain ⟨id', hid'⟩ := hfound id root hroot hstarts
      exact (Registry.assign_eq_none_iff horder).1 hassign id' hid'
    · rw [hassign] at hid
      exact ⟨hid, hnearest id (Registry.assign_eq_some hassign)⟩

/-! ## Roots with a common prefix -/

/-- A server with the projects `/w/app` and `/w/app2`. -/
def appServer : FiniteServer where
  registry := (Registry.new.addProject "app" (.ofString "/w/app")).addProject "app2"
    (.ofString "/w/app2")
  subscriptions := .new
  store := .new
  analyses := []
  finite := by
    refine (Set.toFinite {"app", "app2"}).subset fun id hid => ?_
    by_contra hne
    rw [Set.mem_insert_iff, Set.mem_singleton_iff, not_or] at hne
    simp [Registry.addProject, Registry.new, hne.1, hne.2] at hid

/-- An event of the second project goes to the first one if the map has it first. -/
theorem not_routes : ¬ ∀ h : Handling, appServer.registry.Iterates h.order →
    appServer.Routes h (.ofString "/w/app2/f") := by
  intro hall
  have horder : appServer.registry.Iterates ["app", "app2"] := by
    refine ⟨by decide, fun id => ?_⟩
    by_cases h2 : id = "app2"
    · rw [h2]
      decide
    by_cases h1 : id = "app"
    · rw [h1]
      decide
    · simp [appServer, Registry.addProject, Registry.new, h1, h2]
  have hroutes := (hall ⟨true, ["app", "app2"], fun _ => none, true, true⟩ horder).assign
  have hassign : appServer.registry.assign ["app", "app2"]
      (PathBuf.ofString "/w/app2/f").toStringLossy = some "app" := by decide
  rw [hassign] at hroutes
  obtain ⟨root, hroot, hstarts, -⟩ := hroutes
  have happ : appServer.registry.projects "app" = some (.ofString "/w/app") := by decide
  rw [happ] at hroot
  cases hroot
  revert hstarts
  unfold PathBuf.StartsWith
  decide

end AmbientFs
