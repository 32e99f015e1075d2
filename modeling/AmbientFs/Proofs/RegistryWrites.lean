import AmbientFs.Lib.Run
import AmbientFs.Lib.Slot
import AmbientFs.Proofs.Registry

/-!
# When the table is what the registry is

A request to watch a project that the table has leaves the row as it is, and the writes of several
requests are carried out in any order. For a project's row only the order of its own writes counts:
it is a slot that keeps what it has (`Slot`). What some order leaves in the slot is compared with
what the requests, in their order, left in the registry.
-/

namespace AmbientFs

/-- A request of a client. -/
inductive ProjectRequest
  | watch (path : Option String) (look : Look)
  | unwatch (projectId : Option String)

def ProjectRequest.action : ProjectRequest → RegistryAction
  | watch path look => .watchRequest path look
  | unwatch projectId => .unwatchRequest projectId

/-- The server handles the next request, or carries out one of the writes. -/
inductive ServerStep
  | request (r : ProjectRequest)
  | write (i : ℕ) (now : DateTime)

namespace ServerStep

def action : ServerStep → RegistryAction
  | request r => r.action
  | write i now => .runWrite i now

def request? : ServerStep → Option ProjectRequest
  | request r => some r
  | write _ _ => none

end ServerStep

/-- A table as the daemon writes it: projects have the names of their directories. -/
structure NamedTable extends ProjectsTable where
  named : ∀ r ∈ rows, r.projectId = (PathBuf.ofString r.path).generateProjectId ∧
    (PathBuf.ofString r.path).isAbsolute = true

theorem NamedTable.getProjectPath_named (t : NamedTable) (id : String) (p : PathBuf)
    (h : t.getProjectPath id = some p) : id = p.generateProjectId ∧ p.isAbsolute = true := by
  rw [ProjectsTable.getProjectPath_eq] at h
  obtain ⟨s, hs, rfl⟩ := Option.map_eq_some_iff.1 h
  obtain ⟨r, hr, rfl, rfl⟩ := ProjectsTable.text_eq_some.1 hs
  exact t.named r hr

/-- Both have the same path, or none. -/
def PathBuf.SameAt : Option PathBuf → Option PathBuf → Prop
  | some p, some q => p.Same q
  | none, none => True
  | _, _ => False

namespace DaemonServer

variable [Lowercase]

def serve (d : DaemonServer) (x : ServerStep) : DaemonServer := d.step x.action

/-- The daemon with the projects of the table watched again. -/
def restored (t : ProjectsTable) : DaemonServer :=
  { started t with registry := { Registry.new with projects := t.getProjectPath } }

/-- The table has the projects of the registry. -/
def Saved (d : DaemonServer) : Prop :=
  ∀ id, PathBuf.SameAt (d.table.getProjectPath id) (d.registry.projects id)

/-- A daemon that starts with the table, where the directories are there and can be watched, has
the projects of the registry. -/
def Restores (d : DaemonServer) : Prop :=
  ∀ a : Answers, (∀ p, a.pathExists p = true) → (∀ p, a.notifyError p = none) → ∀ id,
    PathBuf.SameAt (((started d.table).restoreProjects a true).1.registry.projects id)
      (d.registry.projects id)

/-- However the writes of the requests are carried out, once they all are the table has the
projects of the registry and brings them back. -/
def Persists (t : ProjectsTable) (reqs : List ProjectRequest) : Prop :=
  ∀ steps : List ServerStep, steps.filterMap ServerStep.request? = reqs →
    (Run.after serve (restored t) steps).pending = [] →
    (Run.after serve (restored t) steps).Saved ∧ (Run.after serve (restored t) steps).Restores

/-- The daemon that has handled the requests and carried out no write. -/
def handled (t : ProjectsTable) (reqs : List ProjectRequest) : DaemonServer :=
  reqs.foldl (fun d r => d.step r.action) (restored t)

/-- A project that is not watched in the end was never watched at a path the table can have. One
that is was not unwatched, and either the table had it there from the start or it did not have it
and this is the only path for it. -/
def Settled (t : ProjectsTable) (reqs : List ProjectRequest) : Prop :=
  ∀ id, match (handled t reqs).registry.projects id with
    | none => ∀ p, .add id p ∈ (handled t reqs).pending → p.toStr = none
    | some p => .remove id ∉ (handled t reqs).pending ∧
      match t.getProjectPath id with
      | some q => q.Same p
      | none => p.toStr ≠ none ∧
        ∀ q, .add id q ∈ (handled t reqs).pending → q.toStr ≠ none → q.Same p

end DaemonServer

/-! ## Writes to one row -/

namespace ProjectWrite

/-- What a write does to the row of a project. -/
def op (id : String) : ProjectWrite → Option (Slot.Op String)
  | add projectId path => if projectId = id then path.toStr.map .put else none
  | remove projectId => if projectId = id then some .clear else none

/-- What the request of a write leaves for a project in the registry. -/
def last (id : String) (v : Option PathBuf) : ProjectWrite → Option PathBuf
  | add projectId path => if projectId = id then some path else v
  | remove projectId => if projectId = id then none else v

theorem op_add (id projectId : String) (path : PathBuf) :
    (add projectId path).op id = if projectId = id then path.toStr.map .put else none := rfl

theorem op_remove (id projectId : String) :
    (remove projectId).op id = if projectId = id then some .clear else none := rfl

theorem text_run (t : ProjectsTable) (now : DateTime) (id : String) (w : ProjectWrite) :
    (w.run t now).text id = ([w].filterMap (op id)).foldl Slot.Op.act (t.text id) := by
  have hsingle : [w].filterMap (op id) = (w.op id).toList := by
    rw [List.filterMap_cons, List.filterMap_nil]
    rcases w.op id <;> rfl
  rw [hsingle]
  cases w with
  | add projectId path =>
    show ((t.addProject projectId path now).getD t).text id = _
    rw [op_add]
    rcases hs : path.toStr with _ | s
    · rw [ProjectsTable.addProject_eq_none.2 hs]
      split_ifs <;> rfl
    · rcases ht : t.addProject projectId path now with _ | t'
      · rw [ProjectsTable.addProject_eq_none.1 ht] at hs
        cases hs
      · rw [Option.getD_some, ProjectsTable.text_addProject hs ht]
        by_cases hid : projectId = id
        · rw [if_pos hid.symm, if_pos hid]
          rcases t.text id <;> rfl
        · rw [if_neg (Ne.symm hid), if_neg hid]
          rfl
  | remove projectId =>
    show (t.removeProject projectId).text id = _
    rw [op_remove, ProjectsTable.text_removeProject]
    by_cases hid : projectId = id
    · rw [if_pos hid.symm, if_pos hid]
      exact (Slot.Op.act_clear _).symm
    · rw [if_neg (Ne.symm hid), if_neg hid]
      rfl

theorem mem_filterMap_op_clear (ws : List ProjectWrite) (id : String) :
    Slot.Op.clear ∈ ws.filterMap (op id) ↔ .remove id ∈ ws := by
  rw [List.mem_filterMap]
  constructor
  · rintro ⟨w, hw, ho⟩
    cases w with
    | add projectId path =>
      rw [op_add] at ho
      split_ifs at ho
      obtain ⟨s, -, hs⟩ := Option.map_eq_some_iff.1 ho
      cases hs
    | remove projectId =>
      rw [op_remove] at ho
      split_ifs at ho with hid
      rwa [← hid]
  · exact fun h => ⟨_, h, if_pos rfl⟩

theorem mem_filterMap_op_put (ws : List ProjectWrite) (id s : String) :
    Slot.Op.put s ∈ ws.filterMap (op id) ↔ ∃ p, .add id p ∈ ws ∧ p.toStr = some s := by
  rw [List.mem_filterMap]
  constructor
  · rintro ⟨w, hw, ho⟩
    cases w with
    | add projectId path =>
      rw [op_add] at ho
      split_ifs at ho with hid
      obtain ⟨s', hs', heq⟩ := Option.map_eq_some_iff.1 ho
      cases heq
      exact ⟨path, hid ▸ hw, hs'⟩
    | remove projectId =>
      rw [op_remove] at ho
      split_ifs at ho
      cases ho
  · rintro ⟨p, hp, hs⟩
    refine ⟨_, hp, ?_⟩
    rw [op_add, if_pos rfl, hs]
    rfl

/-- What is left without a write that removes was there before, or is what one of the writes
adds. -/
theorem foldl_last_of_not_remove {ws : List ProjectWrite} {id : String} {v : Option PathBuf}
    (h : .remove id ∉ ws) : (ws.foldl (last id) v = v ∧ ∀ p, .add id p ∉ ws) ∨
      ∃ p, .add id p ∈ ws ∧ ws.foldl (last id) v = some p := by
  induction ws using List.reverseRecOn with
  | nil => exact .inl ⟨rfl, fun p hp => (nomatch hp)⟩
  | append_singleton ws w ih =>
    have hws := ih fun hm => h (List.mem_append_left _ hm)
    rw [List.foldl_append, List.foldl_cons, List.foldl_nil]
    have hkeep : (∀ v, last id v w = v) → (∀ p, w ≠ .add id p) →
        (last id (ws.foldl (last id) v) w = v ∧ ∀ p, .add id p ∉ ws ++ [w]) ∨
          ∃ p, .add id p ∈ ws ++ [w] ∧ last id (ws.foldl (last id) v) w = some p := by
      intro hlast hne
      rw [hlast]
      rcases hws with ⟨heq, hno⟩ | ⟨p, hp, heq⟩
      · refine .inl ⟨heq, fun p hp => ?_⟩
        rcases List.mem_append.1 hp with hp | hp
        · exact hno p hp
        · exact hne p (List.mem_singleton.1 hp).symm
      · exact .inr ⟨p, List.mem_append_left _ hp, heq⟩
    cases w with
    | add projectId path =>
      by_cases hid : projectId = id
      · refine .inr ⟨path, List.mem_append_right _ ?_, if_pos hid⟩
        rw [hid]
        exact List.mem_cons_self
      · exact hkeep (fun v => if_neg hid) fun p hp => hid (by cases hp; rfl)
    | remove projectId =>
      by_cases hid : projectId = id
      · exact absurd (List.mem_append_right _ (hid ▸ List.mem_cons_self)) h
      · exact hkeep (fun v => if_neg hid) fun p hp => by cases hp

end ProjectWrite

/-! ## Runs of requests and writes -/

namespace DaemonServer

variable [Lowercase]

/-- A request reads and changes the registry, and spawns writes. -/
theorem request_step (d : DaemonServer) (r : ProjectRequest) : ∃ ws,
    (∀ id, (d.step r.action).registry.projects id =
      ws.foldl (ProjectWrite.last id) (d.registry.projects id)) ∧
    ∀ d' : DaemonServer, d'.registry = d.registry →
      (d'.step r.action).registry = (d.step r.action).registry ∧
      (d'.step r.action).table = d'.table ∧ (d'.step r.action).pending = d'.pending ++ ws := by
  have hsame : d.step r.action = d → (∀ d' : DaemonServer, d'.registry = d.registry →
      d'.step r.action = d') → ∃ ws, (∀ id, (d.step r.action).registry.projects id =
        ws.foldl (ProjectWrite.last id) (d.registry.projects id)) ∧
      ∀ d' : DaemonServer, d'.registry = d.registry →
        (d'.step r.action).registry = (d.step r.action).registry ∧
        (d'.step r.action).table = d'.table ∧ (d'.step r.action).pending = d'.pending ++ ws := by
    intro hd hd'
    refine ⟨[], fun id => by rw [hd]; rfl, fun d' h => ?_⟩
    rw [hd' d' h, hd, List.append_nil]
    exact ⟨h, rfl, rfl⟩
  cases r with
  | watch path look =>
    have hstep : ∀ d' : DaemonServer,
        d'.step (ProjectRequest.watch path look).action = (d'.handleWatchProject path look).1 :=
      fun _ => rfl
    rcases ha : d.registry.validateWatch path look with e | ⟨id, c, w⟩
    · refine hsame ?_ fun d' h => ?_
      · rw [hstep, handleWatchProject_of_error ha]
      · rw [← h] at ha
        rw [hstep, handleWatchProject_of_error ha]
    · refine ⟨[.add id c], fun id' => ?_, fun d' h => ?_⟩
      · rw [hstep, handleWatchProject_of_ok ha]
        show Function.update d.registry.projects id (some c) id' = _
        rw [Function.update_apply]
        show _ = if id = id' then some c else d.registry.projects id'
        simp only [eq_comm]
      · have ha' := ha
        rw [← h] at ha'
        rw [hstep, hstep, handleWatchProject_of_ok ha, handleWatchProject_of_ok ha', h]
        exact ⟨rfl, rfl, rfl⟩
  | unwatch projectId =>
    have hstep : ∀ d' : DaemonServer,
        d'.step (ProjectRequest.unwatch projectId).action = (d'.handleUnwatchProject projectId).1 :=
      fun _ => rfl
    rcases projectId with _ | id
    · exact hsame rfl fun _ _ => rfl
    rcases hp : d.registry.projects id with _ | p
    · refine hsame ?_ fun d' h => ?_
      · rw [hstep, handleUnwatchProject_of_none hp]
      · rw [← h] at hp
        rw [hstep, handleUnwatchProject_of_none hp]
    · refine ⟨[.remove id], fun id' => ?_, fun d' h => ?_⟩
      · rw [hstep, handleUnwatchProject_of_some hp]
        show Function.update d.registry.projects id none id' = _
        rw [Function.update_apply]
        show _ = if id = id' then none else d.registry.projects id'
        simp only [eq_comm]
      · have hp' := hp
        rw [← h] at hp'
        rw [hstep, hstep, handleUnwatchProject_of_some hp, handleUnwatchProject_of_some hp', h]
        exact ⟨rfl, rfl, rfl⟩

theorem handled_snoc (t : ProjectsTable) (reqs : List ProjectRequest) (r : ProjectRequest) :
    handled t (reqs ++ [r]) = (handled t reqs).step r.action := by
  unfold handled
  rw [List.foldl_append]
  rfl

/-- The requests leave in the registry what their writes say, one after the other. -/
theorem projects_handled (t : ProjectsTable) (reqs : List ProjectRequest) (id : String) :
    (handled t reqs).table = t ∧ (handled t reqs).registry.projects id =
      (handled t reqs).pending.foldl (ProjectWrite.last id) (t.getProjectPath id) := by
  induction reqs using List.reverseRecOn with
  | nil => exact ⟨rfl, rfl⟩
  | append_singleton reqs r ih =>
    obtain ⟨ws, hlast, hstep⟩ := request_step (handled t reqs) r
    obtain ⟨-, htable, hpending⟩ := hstep _ rfl
    rw [handled_snoc, htable, hpending, hlast, ih.2, List.foldl_append]
    exact ⟨ih.1, rfl⟩

/-- After some requests and writes the registry is that of the requests, and the writes that were
carried out and those that were not are theirs. -/
theorem after_serve (t : ProjectsTable) (steps : List ServerStep) :
    (Run.after serve (restored t) steps).registry =
        (handled t (steps.filterMap ServerStep.request?)).registry ∧
      ∃ done : List ProjectWrite,
        (done ++ (Run.after serve (restored t) steps).pending).Perm
          (handled t (steps.filterMap ServerStep.request?)).pending ∧
        ∀ id, (Run.after serve (restored t) steps).table.text id =
          (done.filterMap (ProjectWrite.op id)).foldl Slot.Op.act (t.text id) := by
  induction steps using List.reverseRecOn with
  | nil => exact ⟨rfl, [], .refl _, fun _ => rfl⟩
  | append_singleton steps x ih =>
    obtain ⟨hreg, done, hdone, htext⟩ := ih
    rw [Run.after_snoc, List.filterMap_append]
    cases x with
    | request r =>
      obtain ⟨ws, -, hstep⟩ :=
        request_step (handled t (steps.filterMap ServerStep.request?)) r
      obtain ⟨hreg', htable, hpending⟩ := hstep _ hreg
      obtain ⟨-, -, hpending'⟩ := hstep _ rfl
      show (step _ r.action).registry = (handled t (_ ++ [r])).registry ∧ _
      rw [handled_snoc]
      refine ⟨hreg', done, ?_, fun id => ?_⟩
      · show (done ++ (step _ r.action).pending).Perm (handled t (_ ++ [r])).pending
        rw [handled_snoc, hpending, hpending', ← List.append_assoc]
        exact hdone.append_right ws
      · show (step _ r.action).table.text id = _
        rw [htable]
        exact htext id
    | write i now =>
      show ((Run.after serve (restored t) steps).runWrite i now).registry =
          (handled t (_ ++ [])).registry ∧ ∃ done : List ProjectWrite,
        (done ++ ((Run.after serve (restored t) steps).runWrite i now).pending).Perm
          (handled t (_ ++ [])).pending ∧
        ∀ id, ((Run.after serve (restored t) steps).runWrite i now).table.text id = _
      rw [List.append_nil]
      unfold runWrite
      rcases hw : (Run.after serve (restored t) steps).pending[i]? with _ | w
      · exact ⟨hreg, done, hdone, htext⟩
      · refine ⟨hreg, done ++ [w], ?_, fun id => ?_⟩
        · refine List.Perm.trans ?_ hdone
          rw [List.append_assoc]
          refine List.Perm.append_left done ?_
          obtain ⟨hi, hget⟩ := List.getElem?_eq_some_iff.1 hw
          rw [← hget]
          exact List.getElem_cons_eraseIdx_perm hi
        · dsimp only
          rw [ProjectWrite.text_run, htext, List.filterMap_append, List.foldl_append]

theorem exists_writes {σ : List ProjectWrite} : ∀ d : DaemonServer, σ.Perm d.pending →
    ∃ steps : List ServerStep, steps.filterMap ServerStep.request? = [] ∧
      (Run.after serve d steps).pending = [] ∧
      ∀ id, (Run.after serve d steps).table.text id =
        (σ.filterMap (ProjectWrite.op id)).foldl Slot.Op.act (d.table.text id) := by
  induction σ with
  | nil => exact fun d h => ⟨[], rfl, List.nil_perm.1 h, fun _ => rfl⟩
  | cons w σ ih =>
    intro d h
    obtain ⟨i, hi, hget⟩ := List.getElem_of_mem (h.mem_iff.1 List.mem_cons_self)
    have hwrite : d.serve (.write i .epoch) =
        { d with table := w.run d.table .epoch, pending := d.pending.eraseIdx i } := by
      show d.runWrite i .epoch = _
      unfold runWrite
      rw [List.getElem?_eq_getElem hi, hget]
    have hperm : σ.Perm (d.serve (.write i .epoch)).pending := by
      rw [hwrite]
      have hcons := List.getElem_cons_eraseIdx_perm hi
      rw [hget] at hcons
      exact List.Perm.cons_inv (h.trans hcons.symm)
    obtain ⟨steps, hreq, hdone, htext⟩ := ih _ hperm
    refine ⟨.write i .epoch :: steps, hreq, hdone, fun id => ?_⟩
    rw [Run.after_cons, htext, hwrite]
    dsimp only
    rw [ProjectWrite.text_run, ← List.foldl_append, ← List.filterMap_append]
    rfl

/-- The writes of some requests can be carried out in any order. -/
theorem exists_serve (t : ProjectsTable) (reqs : List ProjectRequest) {σ : List ProjectWrite}
    (h : σ.Perm (handled t reqs).pending) : ∃ steps : List ServerStep,
      steps.filterMap ServerStep.request? = reqs ∧
      (Run.after serve (restored t) steps).pending = [] ∧
      ∀ id, (Run.after serve (restored t) steps).table.text id =
        (σ.filterMap (ProjectWrite.op id)).foldl Slot.Op.act (t.text id) := by
  have hhandled : Run.after serve (restored t) (reqs.map .request) = handled t reqs :=
    List.foldl_map
  obtain ⟨steps, hreq, hdone, htext⟩ := exists_writes (handled t reqs) h
  have hafter : Run.after serve (restored t) (reqs.map .request ++ steps) =
      Run.after serve (handled t reqs) steps := by
    rw [← hhandled]
    exact List.foldl_append
  refine ⟨reqs.map .request ++ steps, ?_, ?_, fun id => ?_⟩
  · rw [List.filterMap_append, hreq, List.append_nil, List.filterMap_map]
    exact List.filterMap_some
  · rw [hafter]
    exact hdone
  · rw [hafter, htext, (projects_handled t reqs id).1]

/-- The table can have this for a project once the writes of some requests are done. -/
def CanLeave (t : ProjectsTable) (reqs : List ProjectRequest) (id : String) (v : Option String) :
    Prop :=
  ∃ σ : List (Slot.Op String),
    σ.Perm ((handled t reqs).pending.filterMap (ProjectWrite.op id)) ∧
      σ.foldl Slot.Op.act (t.text id) = v

theorem saved_iff_canLeave (t : ProjectsTable) (reqs : List ProjectRequest) :
    (∀ steps : List ServerStep, steps.filterMap ServerStep.request? = reqs →
      (Run.after serve (restored t) steps).pending = [] →
      (Run.after serve (restored t) steps).Saved) ↔
    ∀ id v, CanLeave t reqs id v →
      PathBuf.SameAt (v.map PathBuf.ofString) ((handled t reqs).registry.projects id) := by
  constructor
  · rintro h id v ⟨τ, hτ, rfl⟩
    obtain ⟨σ, hσ, rfl⟩ := Slot.exists_perm_filterMap hτ _ rfl
    obtain ⟨steps, hreq, hdone, htext⟩ := exists_serve t reqs hσ
    have hsaved := h steps hreq hdone id
    rw [ProjectsTable.getProjectPath_eq, htext, (after_serve t steps).1, hreq] at hsaved
    exact hsaved
  · rintro h steps rfl hnone id
    obtain ⟨hreg, done, hdone, htext⟩ := after_serve t steps
    rw [hnone, List.append_nil] at hdone
    rw [ProjectsTable.getProjectPath_eq, htext, hreg]
    exact h id _ ⟨_, hdone.filterMap _, rfl⟩

section CanLeave

variable {t : ProjectsTable} {reqs : List ProjectRequest} {id : String}

/-- After a removal the row may be missing in the end, or have any path it was given. -/
theorem canLeave_of_remove (hremove : .remove id ∈ (handled t reqs).pending) {v : Option String} :
    CanLeave t reqs id v ↔
      v = none ∨ ∃ s, (∃ q, .add id q ∈ (handled t reqs).pending ∧ q.toStr = some s) ∧
        v = some s := by
  have hclear := ProjectWrite.mem_filterMap_op_clear (handled t reqs).pending id
  unfold CanLeave
  simp only [Slot.exists_perm_of_clear (hclear.2 hremove), ProjectWrite.mem_filterMap_op_put]

/-- Without a removal the first path that the table can have stays. -/
theorem canLeave_of_text_none (hremove : .remove id ∉ (handled t reqs).pending)
    (ht : t.text id = none) {v : Option String} :
    CanLeave t reqs id v ↔
      (handled t reqs).pending.filterMap (ProjectWrite.op id) = [] ∧ v = none ∨
        ∃ s, (∃ q, .add id q ∈ (handled t reqs).pending ∧ q.toStr = some s) ∧ v = some s := by
  have hclear := ProjectWrite.mem_filterMap_op_clear (handled t reqs).pending id
  unfold CanLeave
  rw [ht]
  simp only [Slot.exists_perm_none fun h => hremove (hclear.1 h), ProjectWrite.mem_filterMap_op_put]

/-- Without a removal the path from the start stays. -/
theorem canLeave_of_text_some (hremove : .remove id ∉ (handled t reqs).pending) {s : String}
    (ht : t.text id = some s) {v : Option String} : CanLeave t reqs id v ↔ v = some s := by
  have hclear := ProjectWrite.mem_filterMap_op_clear (handled t reqs).pending id
  unfold CanLeave
  rw [ht]
  exact Slot.exists_perm_some fun h => hremove (hclear.1 h)

theorem leaves_none_iff (hremove : .remove id ∈ (handled t reqs).pending) :
    (∀ v, CanLeave t reqs id v → PathBuf.SameAt (v.map PathBuf.ofString) none) ↔
      ∀ p, .add id p ∈ (handled t reqs).pending → p.toStr = none := by
  simp only [canLeave_of_remove hremove]
  constructor
  · intro h q hq
    rcases hs : q.toStr with _ | s
    · rfl
    · exact (h (some s) (.inr ⟨s, ⟨q, hq, hs⟩, rfl⟩)).elim
  · rintro h v (rfl | ⟨s, ⟨q, hq, hs⟩, rfl⟩)
    · trivial
    · rw [h q hq] at hs
      cases hs

theorem leaves_added_iff (hremove : .remove id ∉ (handled t reqs).pending) (ht : t.text id = none)
    {p : PathBuf} (hp : .add id p ∈ (handled t reqs).pending) :
    (∀ v, CanLeave t reqs id v → PathBuf.SameAt (v.map PathBuf.ofString) (some p)) ↔
      p.toStr ≠ none ∧
        ∀ q, .add id q ∈ (handled t reqs).pending → q.toStr ≠ none → q.Same p := by
  have hput := ProjectWrite.mem_filterMap_op_put (handled t reqs).pending id
  simp only [canLeave_of_text_none hremove ht]
  constructor
  · intro h
    have hall : ∀ q, .add id q ∈ (handled t reqs).pending → q.toStr ≠ none → q.Same p := by
      intro q hq hs
      obtain ⟨s, hs⟩ := Option.ne_none_iff_exists'.1 hs
      have hsame := h (some s) (.inr ⟨s, ⟨q, hq, hs⟩, rfl⟩)
      rwa [Option.map_some, ← PathBuf.toStr_eq_some.1 hs] at hsame
    refine ⟨fun hs => ?_, hall⟩
    refine h none (.inl ⟨List.eq_nil_iff_forall_not_mem.2 fun o ho => ?_, rfl⟩)
    cases o with
    | put s =>
      obtain ⟨q, hq, hqs⟩ := (hput s).1 ho
      have hsome := (hall q hq (by rw [hqs]; simp)).toStr_isSome
      rw [hqs, hs] at hsome
      simp at hsome
    | clear => exact hremove ((ProjectWrite.mem_filterMap_op_clear _ id).1 ho)
  · rintro ⟨hs, hall⟩ v (⟨hnil, rfl⟩ | ⟨s, ⟨q, hq, hqs⟩, rfl⟩)
    · obtain ⟨s, hs⟩ := Option.ne_none_iff_exists'.1 hs
      have hmem := (hput s).2 ⟨p, hp, hs⟩
      rw [hnil] at hmem
      cases hmem
    · rw [Option.map_some, ← PathBuf.toStr_eq_some.1 hqs]
      exact hall q hq (by rw [hqs]; simp)

end CanLeave

/-- Where the writes can leave nothing but what the requests left. -/
theorem saved_iff (t : ProjectsTable) (reqs : List ProjectRequest) :
    (∀ steps : List ServerStep, steps.filterMap ServerStep.request? = reqs →
      (Run.after serve (restored t) steps).pending = [] →
      (Run.after serve (restored t) steps).Saved) ↔ Settled t reqs := by
  rw [saved_iff_canLeave]
  refine forall_congr' fun id => ?_
  have hlast := (projects_handled t reqs id).2
  have hstart := ProjectsTable.getProjectPath_eq t id
  by_cases hremove : .remove id ∈ (handled t reqs).pending
  · rcases hp : (handled t reqs).registry.projects id with _ | p
    · exact leaves_none_iff hremove
    · refine iff_of_false (fun h => ?_) fun h => h.1 hremove
      exact h none ((canLeave_of_remove hremove).2 (.inl rfl))
  rcases ProjectWrite.foldl_last_of_not_remove (v := t.getProjectPath id) hremove with
    ⟨heq, hno⟩ | ⟨p, hp, heq⟩
  · -- no request is about the project
    rw [← hlast] at heq
    rw [heq, hstart]
    rcases ht : t.text id with _ | s
    · refine iff_of_true (fun v hv => ?_) fun p hp => absurd hp (hno p)
      rcases (canLeave_of_text_none hremove ht).1 hv with ⟨-, rfl⟩ | ⟨s, ⟨p, hp, -⟩, rfl⟩
      · trivial
      · exact absurd hp (hno p)
    · refine iff_of_true (fun v hv => ?_) ⟨hremove, PathBuf.Same.refl _⟩
      rw [(canLeave_of_text_some hremove ht).1 hv]
      exact PathBuf.Same.refl _
  · rw [← hlast] at heq
    rw [heq, hstart]
    rcases ht : t.text id with _ | s
    · rw [leaves_added_iff hremove ht hp]
      exact ⟨fun h => ⟨hremove, h⟩, fun h => h.2⟩
    · simp only [canLeave_of_text_some hremove ht, forall_eq]
      exact ⟨fun h => ⟨hremove, h⟩, fun h => h.2⟩

/-- Projects of their own directories are all watched, whatever is watched already. -/
theorem projects_foldl_restoreProject {a : Answers} (hex : ∀ p, a.pathExists p = true)
    (hnotify : ∀ p, a.notifyError p = none) (id : String) :
    ∀ (l : List (String × PathBuf)) (d : DaemonServer),
      (l.map Prod.fst).Nodup →
      (∀ x ∈ l, x.1 = x.2.generateProjectId ∧ x.2.isAbsolute = true) →
      (∀ p ∈ d.watcher.watched, ∀ x ∈ l, p.generateProjectId ≠ x.1) →
      (l.foldl (restoreProject a) d).registry.projects id =
        ((l.find? (·.1 = id)).map Prod.snd).or (d.registry.projects id)
  | [], d, _, _, _ => rfl
  | x :: l, d, hnodup, hnamed, hwatched => by
    obtain ⟨hx, hl⟩ := List.nodup_cons.1 hnodup
    obtain ⟨hname, habs⟩ := hnamed x List.mem_cons_self
    have hnew : ¬ Watching.Contains d.watcher.watched x.2 := by
      rintro ⟨p, hp, hsame⟩
      exact hwatched p hp x List.mem_cons_self (hsame.generateProjectId_eq.trans hname.symm)
    have hwatch := Watching.watch_eq_ok.2 ⟨habs, rfl, hnew, fun _ => hnotify x.2, rfl⟩
    have hprojects : (restoreProject a d x).registry.projects =
          Function.update d.registry.projects x.1 (some x.2) ∧
        (restoreProject a d x).watcher.watched = d.watcher.watched ++ [x.2] := by
      unfold restoreProject
      rw [if_pos (hex x.2), hwatch]
      dsimp only
      exact ⟨rfl, rfl⟩
    rw [List.foldl_cons, projects_foldl_restoreProject hex hnotify id l _ hl
      (fun y hy => hnamed y (List.mem_cons_of_mem _ hy)), hprojects.1, List.find?_cons]
    · by_cases hid : x.1 = id
      · have hnone : l.find? (·.1 = id) = none := by
          refine List.find?_eq_none.2 fun y hy hyid => hx ?_
          rw [hid, ← of_decide_eq_true hyid]
          exact List.mem_map_of_mem hy
        rw [hnone, hid, Function.update_self]
        simp
      · rw [Function.update_of_ne (Ne.symm hid)]
        simp [hid]
    · intro p hp y hy
      rw [hprojects.2] at hp
      rcases List.mem_append.1 hp with hp | hp
      · exact hwatched p hp y (List.mem_cons_of_mem _ hy)
      · rw [List.mem_singleton.1 hp, ← hname]
        intro he
        rw [he] at hx
        exact hx (List.mem_map_of_mem hy)

/-- A daemon that starts has the projects of its table, where their directories are there. -/
theorem projects_restoreProjects {t : ProjectsTable}
    (hnamed : ∀ id p, t.getProjectPath id = some p →
      id = p.generateProjectId ∧ p.isAbsolute = true) {a : Answers}
    (hex : ∀ p, a.pathExists p = true) (hnotify : ∀ p, a.notifyError p = none) (id : String) :
    ((started t).restoreProjects a true).1.registry.projects id = t.getProjectPath id := by
  show (t.listProjects.foldl (restoreProject a) (started t)).registry.projects id = _
  rw [projects_foldl_restoreProject hex hnotify id t.listProjects (started t)
    t.nodup_listProjects (fun x hx => hnamed x.1 x.2 (ProjectsTable.mem_listProjects.1 hx))
    fun _ hp => (nomatch hp)]
  have hnone : (started t).registry.projects id = none := rfl
  rw [hnone, Option.or_none]
  refine Option.ext fun p => ?_
  rw [find?_eq_some_of_nodup t.nodup_listProjects, ProjectsTable.mem_listProjects]

theorem named_after (t : NamedTable) (steps : List ServerStep) :
    (Run.after serve (restored t.toProjectsTable) steps).Named := by
  induction steps using List.reverseRecOn with
  | nil => exact ⟨t.getProjectPath_named, t.getProjectPath_named, fun _ _ h => (nomatch h)⟩
  | append_singleton steps x ih =>
    rw [Run.after_snoc]
    exact ih.step x.action

theorem persists_iff (t : NamedTable) (reqs : List ProjectRequest) :
    Persists t.toProjectsTable reqs ↔ Settled t.toProjectsTable reqs := by
  rw [← saved_iff]
  constructor
  · exact fun h steps hreq hdone => (h steps hreq hdone).1
  · intro h steps hreq hdone
    have hsaved := h steps hreq hdone
    refine ⟨hsaved, fun a hex hnotify id => ?_⟩
    rw [projects_restoreProjects (named_after t steps).table hex hnotify]
    exact hsaved id

end DaemonServer

/-! ## A request to watch and one to unwatch -/

namespace DaemonServer

attribute [local instance] asciiLowercase

def emptyTable : NamedTable := ⟨.empty, fun _ h => (nomatch h)⟩

/-- A request to watch a directory that is there. -/
def watchDirectory (path : String) : ProjectRequest :=
  .watch (some path) ⟨true, true, some (.ofString path), true, true, none⟩

/-- The row of a project that is watched and unwatched again is removed before it is added. -/
theorem not_persists :
    ¬ Persists emptyTable.toProjectsTable [watchDirectory "/w/app", .unwatch (some "app")] := by
  intro h
  have hsaved := (h [.request (watchDirectory "/w/app"), .request (.unwatch (some "app")),
    .write 1 .epoch, .write 0 .epoch] rfl (by decide)).1 "app"
  revert hsaved
  have hrow : (Run.after serve (restored emptyTable.toProjectsTable)
      [.request (watchDirectory "/w/app"), .request (.unwatch (some "app")),
        .write 1 .epoch, .write 0 .epoch]).table.getProjectPath "app" =
      some (.ofString "/w/app") := by decide
  have hmap : (Run.after serve (restored emptyTable.toProjectsTable)
      [.request (watchDirectory "/w/app"), .request (.unwatch (some "app")),
        .write 1 .epoch, .write 0 .epoch]).registry.projects "app" = none := by decide
  rw [hrow, hmap]
  exact id

end DaemonServer

end AmbientFs
