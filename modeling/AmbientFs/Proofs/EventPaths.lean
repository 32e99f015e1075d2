import AmbientFs.Proofs.EventLoop
import AmbientFs.Proofs.OsPath
import AmbientFs.Watcher

/-!
# The path of an event

The watcher puts the path that notify reports into its events as it is, and no step after it takes
the root away. The queries and the attribution are given paths below the root, which name no file
any event is about.
-/

namespace AmbientFs

/-- A path below a watched root that notify reports. -/
structure Report where
  root : PathBuf
  rel : PathBuf
  absolute : root.isAbsolute = true
  relative : rel.text.head? ≠ some (.char '/')

def Report.path (r : Report) : PathBuf := r.root.join r.rel

/-- Given the path, the queries and the attribution are about the file of the event. -/
structure FileEvent.NamedBy (e : FileEvent) (path : String) : Prop where
  awareness : ∀ (planner : Planner) (st : EventStore),
    (st.insert e).getLatest planner e.projectId path ≠ .ok none
  tree : ∀ root : TreeNode, findNode root path = findNode root e.filePath
  attribution : ∀ (s : EventServer) (p : AttributeParams) (machineId : String) (now : DateTime)
    (w : Writes), p.filePath = some path →
      ∀ row ∈ (s.handleAttribute (some p) machineId now w).1.store.rows,
        row ∈ s.store.rows ∨ row.filePath = e.filePath

/-- Every event the report becomes is used under the path below the root. -/
def Report.Kept (r : Report) (w : FsWatcher) (around : Surroundings) (kind : EventKind)
    (s : EventServer) (h : Handling) : Prop :=
  ∀ event, w.handlePath around kind r.path.toStringLossy = some event →
    ∀ u ∈ s.uses h event, u.event.filePath = r.rel.toStringLossy ∧
      u.event.NamedBy r.rel.toStringLossy

/-- What has just been inserted is found. -/
theorem EventStore.getLatest_insert (planner : Planner) (st : EventStore) (e : FileEvent) :
    (st.insert e).getLatest planner e.projectId e.filePath ≠ .ok none := by
  let f : EventFilter :=
    { projectId := some e.projectId, filePath := some e.filePath, limit := some 1 }
  have hrow : e.toRow (st.lastId + 1) ∈ (planner.visit f ((st.insert e).rows.filter
      f.matches)).insertionSort fun a b => b.timestamp ≤ a.timestamp := by
    rw [List.mem_insertionSort, (planner.perm _ _).mem_iff, List.mem_filter]
    refine ⟨List.mem_append_right _ List.mem_cons_self, ?_⟩
    simp [f, EventFilter.matches, FileEvent.toRow]
  unfold getLatest select
  dsimp only
  obtain ⟨row, rows, hcons⟩ := List.exists_cons_of_ne_nil (List.ne_nil_of_mem hrow)
  unfold f at hcons
  rw [hcons, List.take_succ_cons]
  dsimp only
  rcases row.toEvent with err | event
  · exact fun h => (nomatch h)
  · exact fun h => (nomatch h)

theorem FileEvent.namedBy_filePath (e : FileEvent) : e.NamedBy e.filePath := by
  refine ⟨fun planner st => st.getLatest_insert planner e, fun _ => rfl, ?_⟩
  intro s p machineId now w hp row hrow
  rcases s.handleAttribute_cases (some p) machineId now w with
    heq | ⟨p', path, id, e', hsome, hp', -, hpath, -, heq⟩
  · rw [heq] at hrow
    exact .inl hrow
  · cases hsome
    rw [heq] at hrow
    rcases List.mem_append.1 hrow with hrow | hrow
    · exact .inl hrow
    · refine .inr ?_
      rw [List.mem_singleton.1 hrow]
      show e'.filePath = e.filePath
      rw [hpath]
      exact Option.some.inj (hp'.symm.trans hp)

namespace Report

variable {r : Report} {w : FsWatcher} {around : Surroundings} {kind : EventKind}
  {s : EventServer} {h : Handling}

/-- The other ways to name the file follow the path of the event. -/
theorem kept_iff_filePath : r.Kept w around kind s h ↔
    ∀ event, w.handlePath around kind r.path.toStringLossy = some event →
      ∀ u ∈ s.uses h event, u.event.filePath = r.rel.toStringLossy := by
  constructor
  · exact fun hk event he u hu => (hk event he u hu).1
  · intro hk event he u hu
    have hpath := hk event he u hu
    exact ⟨hpath, hpath ▸ u.event.namedBy_filePath⟩

/-- Only a report that becomes no event, or one the loop drops, is kept below the root. -/
theorem kept_iff : r.Kept w around kind s h ↔
    w.pathFilter.shouldIgnore r.path.toStringLossy = true ∨ kind.eventType = none ∨
      h.running = false := by
  rw [kept_iff_filePath]
  constructor
  · intro hk
    by_contra hno
    rw [not_or, not_or, Bool.not_eq_true, Bool.not_eq_false] at hno
    obtain ⟨hignore, hkind, hrun⟩ := hno
    obtain ⟨type, htype⟩ := Option.ne_none_iff_exists'.1 hkind
    obtain ⟨event, he, -, hpath, -⟩ := w.handlePath_of_not_ignored around hignore kind htype
    have hmem : Use.broadcast (s.prepare h event) ∈ s.uses h event := by
      unfold EventServer.uses
      rw [if_pos hrun]
      exact List.mem_append_right _ List.mem_cons_self
    have hrel := hk event he _ hmem
    rw [s.event_of_mem_uses h event hmem, s.prepare_filePath, hpath] at hrel
    exact PathBuf.toStringLossy_join_ne r.absolute r.relative hrel
  · intro hno event he u hu
    unfold FsWatcher.handlePath at he
    rcases hno with hignore | hkind | hrun
    · rw [if_pos hignore] at he
      cases he
    · rw [hkind, Option.map_none, ite_self] at he
      cases he
    · unfold EventServer.uses at hu
      rw [hrun] at hu
      cases hu

end Report

/-! ## A file under `/w/app` -/

def appReport : Report where
  root := .ofString "/w/app"
  rel := .ofString "src/a"
  absolute := by decide
  relative := by decide

def appWatcher : FsWatcher := ⟨.default, "default", "m", false, none, false⟩

/-- The event of a new file has the path from the root of the file system. -/
theorem not_kept : ¬ appReport.Kept appWatcher ⟨fun _ => .epoch, fun _ _ => none, fun _ => none⟩
    (.create .file) ⟨.new, .new, .new, []⟩ ⟨true, [], fun _ => none, true, true⟩ := by
  intro hk
  have hpath := (hk (.new .epoch .created "/w/app/src/a" "default" "m") (by decide)
    (.broadcast (.new .epoch .created "/w/app/src/a" "default" "m"))
    (List.mem_cons_of_mem _ List.mem_cons_self)).1
  revert hpath
  decide

end AmbientFs
