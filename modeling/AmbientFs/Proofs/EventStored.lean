import AmbientFs.Lib.Run
import AmbientFs.Proofs.EventLoop
import AmbientFs.Proofs.Store
import AmbientFs.Proofs.Subscriptions

/-!
# What is sent is stored

The loop sends an event and applies it to a tree whether or not the store has taken it; the
attribution of a file does so only if the store has. Beside the server, the events are kept that
were applied to a tree.
-/

namespace AmbientFs

namespace SubscriptionManager

/-- The notification has been sent to the subscribers of its project. -/
def Sent (m : SubscriptionManager) (n : Notification) : Prop := ∃ ch, n ∈ (m.channels ch).sent

variable {m : SubscriptionManager} {n n' : Notification} {p : String}

theorem sent_broadcast : (m.broadcast n).Sent n' ↔
    m.Sent n' ∨ n' = n ∧ (m.projects n.projectId).isSome := by
  unfold Sent
  rcases hp : m.projects n.projectId with _ | ch
  · have heq : m.broadcast n = m := by
      unfold broadcast
      rw [hp]
    rw [heq]
    simp
  · rw [broadcast_channels hp]
    constructor
    · rintro ⟨ch', hn⟩
      by_cases hch : ch' = ch
      · rw [hch, Function.update_self] at hn
        rcases List.mem_append.1 hn with hn | hn
        · exact .inl ⟨ch, hn⟩
        · exact .inr ⟨List.mem_singleton.1 hn, rfl⟩
      · rw [Function.update_of_ne hch] at hn
        exact .inl ⟨ch', hn⟩
    · rintro (⟨ch', hn⟩ | ⟨rfl, -⟩)
      · refine ⟨ch', ?_⟩
        by_cases hch : ch' = ch
        · rw [hch] at hn ⊢
          rw [Function.update_self]
          exact List.mem_append_left _ hn
        · rw [Function.update_of_ne hch]
          exact hn
      · refine ⟨ch, ?_⟩
        rw [Function.update_self]
        exact List.mem_append_right _ List.mem_cons_self

theorem sent_of_subscribe (h : (m.subscribe p).1.Sent n) : m.Sent n := by
  obtain ⟨ch, hn⟩ := h
  have hchannels : (m.subscribe p).1.channels = (m.entry p).2.channels := rfl
  rw [hchannels] at hn
  unfold entry at hn
  rcases hp : m.projects p with _ | ch'
  · rw [hp] at hn
    by_cases hch : ch = m.made
    · rw [hch] at hn
      dsimp only at hn
      rw [Function.update_self] at hn
      cases hn
    · dsimp only at hn
      rw [Function.update_of_ne hch] at hn
      exact ⟨ch, hn⟩
  · rw [hp] at hn
    exact ⟨ch, hn⟩

theorem sent_of_unsubscribe (h : (m.unsubscribe p).Sent n) : m.Sent n := by
  obtain ⟨ch, hn⟩ := h
  rw [unsubscribe_sent] at hn
  exact ⟨ch, hn⟩

end SubscriptionManager

/-- The store has the event of the notification, or the one that a patch comes from. -/
def Notification.Recorded [Lowercase] (st : EventStore) : Notification → Prop
  | event e => st.Has e
  | treePatch projectId patch => ∃ e, st.Has e ∧ e.projectId = projectId ∧
      ∃ tree : ProjectTree, (tree.applyEvent e).2 = some patch
  | awarenessChanged _ _ _ => True
  | analysisComplete _ _ _ _ => True

theorem Notification.Recorded.insert [Lowercase] {st : EventStore} {n : Notification}
    (h : n.Recorded st) (e : FileEvent) : n.Recorded (st.insert e) := by
  cases n with
  | event e' => exact EventStore.Has.insert h e
  | treePatch projectId patch =>
    obtain ⟨e', he, hproject, htree⟩ := h
    exact ⟨e', he.insert e, hproject, htree⟩
  | awarenessChanged _ _ _ => trivial
  | analysisComplete _ _ _ _ => trivial

/-- The server, and the events that were applied to a tree. -/
structure EventAudit where
  server : EventServer
  applied : List FileEvent

namespace EventAudit

/-- The event an action applies to a tree. -/
def applies (s : EventServer) : EventAction → List FileEvent
  | .event h event =>
    if h.running = true ∧ (s.registry.trees (s.prepare h event).projectId).isSome then
      [s.prepare h event]
    else []
  | _ => []

/-- Nothing has been sent. -/
def start (r : Registry) (st : EventStore) : EventAudit := ⟨⟨r, .new, st, []⟩, []⟩

/-- An event that is not stored has no subscribers and no tree, or is there already. -/
def Harmless (a : EventAudit) : EventAction → Prop
  | .event h event => h.running = true → ¬ h.writes.Succeeds →
      a.server.store.Has (a.server.prepare h event) ∨
        a.server.subscriptions.projects (a.server.prepare h event).projectId = none ∧
          a.server.registry.trees (a.server.prepare h event).projectId = none
  | _ => True

section Steps

variable [Lowercase]

def step (a : EventAudit) (x : EventAction) : EventAudit :=
  ⟨a.server.step x, a.applied ++ applies a.server x⟩

/-- Everything that was sent or applied is stored. -/
def Recorded (a : EventAudit) : Prop :=
  (∀ n, a.server.subscriptions.Sent n → n.Recorded a.server.store) ∧
    ∀ e ∈ a.applied, a.server.store.Has e

end Steps

end EventAudit

namespace EventServer

variable (s : EventServer) {h : Handling} {event : FileEvent}

theorem scheduleAnalysis_eq (e : FileEvent) : ∃ analyses,
    s.scheduleAnalysis e = { s with analyses := analyses } := by
  unfold scheduleAnalysis
  split_ifs
  · rcases s.registry.projects e.projectId with _ | root
    · exact ⟨_, rfl⟩
    · exact ⟨_, rfl⟩
  · exact ⟨_, rfl⟩

section Trees

variable [Lowercase]

theorem updateTree_store (e : FileEvent) : (s.updateTree e).store = s.store := by
  unfold updateTree
  rcases s.registry.trees e.projectId with _ | tree
  · rfl
  · dsimp only
    rcases (tree.applyEvent e).2 <;> rfl

/-- A patch of the tree goes to the subscribers. -/
theorem sent_updateTree (e : FileEvent) (n : Notification) :
    (s.updateTree e).subscriptions.Sent n ↔ s.subscriptions.Sent n ∨
      (s.subscriptions.projects e.projectId).isSome ∧ ∃ tree patch,
        s.registry.trees e.projectId = some tree ∧ (tree.applyEvent e).2 = some patch ∧
        n = .treePatch e.projectId patch := by
  unfold updateTree
  rcases ht : s.registry.trees e.projectId with _ | tree
  · simp
  · dsimp only
    rcases hp : (tree.applyEvent e).2 with _ | patch
    · simp [hp]
    · refine SubscriptionManager.sent_broadcast.trans (or_congr_right ?_)
      constructor
      · exact fun ⟨hn, hsome⟩ => ⟨hsome, tree, patch, rfl, hp, hn⟩
      · rintro ⟨hsome, tree', patch', heq, hp', hn⟩
        cases heq
        rw [hp] at hp'
        cases hp'
        exact ⟨hn, hsome⟩

variable (event) in
/-- The scheduled analysis is no part of the rest. -/
theorem exists_handleEvent (hrun : h.running = true) : ∃ analyses, s.handleEvent h event =
    { ((s.persist h.writes (s.prepare h event)).publish (.event (s.prepare h event))).updateTree
        (s.prepare h event) with analyses := analyses } := by
  unfold handleEvent
  rw [if_pos hrun]
  exact scheduleAnalysis_eq _ _

theorem store_handleEvent (hrun : h.running = true) : (s.handleEvent h event).store =
    if h.writes.Succeeds then s.store.insert (s.prepare h event) else s.store := by
  obtain ⟨analyses, heq⟩ := exists_handleEvent s event hrun
  rw [heq]
  show (updateTree _ _).store = _
  rw [updateTree_store]
  show (s.persist h.writes _).store = _
  by_cases hw : h.writes.Succeeds
  · rw [if_pos hw, persist_of_succeeds _ _ hw]
  · rw [if_neg hw, persist_of_not_succeeds _ _ hw]

theorem sent_handleEvent (hrun : h.running = true) (n : Notification) :
    (s.handleEvent h event).subscriptions.Sent n ↔ s.subscriptions.Sent n ∨
      (s.subscriptions.projects (s.prepare h event).projectId).isSome ∧
        (n = .event (s.prepare h event) ∨ ∃ tree patch,
          s.registry.trees (s.prepare h event).projectId = some tree ∧
          (tree.applyEvent (s.prepare h event)).2 = some patch ∧
          n = .treePatch (s.prepare h event).projectId patch) := by
  have hpersist : (s.persist h.writes (s.prepare h event)).subscriptions = s.subscriptions ∧
      (s.persist h.writes (s.prepare h event)).registry = s.registry := by
    unfold persist
    split_ifs <;> exact ⟨rfl, rfl⟩
  obtain ⟨analyses, heq⟩ := exists_handleEvent s event hrun
  rw [heq]
  show (updateTree _ _).subscriptions.Sent n ↔ _
  rw [sent_updateTree]
  show ((s.persist _ _).subscriptions.broadcast _).Sent n ∨
    (((s.persist _ _).subscriptions.broadcast _).projects _).isSome ∧ (∃ tree patch,
      (s.persist _ _).registry.trees _ = some tree ∧ _) ↔ _
  rw [SubscriptionManager.broadcast_projects, hpersist.1, hpersist.2,
    SubscriptionManager.sent_broadcast, or_assoc, and_or_left]
  exact or_congr_right (or_congr_left and_comm)

end Trees

end EventServer

namespace EventAudit

variable {a b : EventAudit}

theorem mem_applies {s : EventServer} {h : Handling} {event e : FileEvent} :
    e ∈ applies s (.event h event) ↔ (h.running = true ∧
      (s.registry.trees (s.prepare h event).projectId).isSome) ∧ e = s.prepare h event := by
  have happlies : applies s (.event h event) = if h.running = true ∧
      (s.registry.trees (s.prepare h event).projectId).isSome then [s.prepare h event]
    else [] := rfl
  rw [happlies, List.mem_ite_nil_right, List.mem_singleton]

variable [Lowercase]

/-- Without anything new what is recorded stays so. -/
theorem Recorded.of_old (ha : a.Recorded) (hstore : b.server.store = a.server.store)
    (hsent : ∀ n, b.server.subscriptions.Sent n → a.server.subscriptions.Sent n)
    (happlied : ∀ e ∈ b.applied, e ∈ a.applied) : b.Recorded := by
  refine ⟨fun n hn => ?_, fun e he => ?_⟩
  · rw [hstore]
    exact ha.1 n (hsent n hn)
  · rw [hstore]
    exact ha.2 e (happlied e he)

/-- What the loop sends of an event that is stored is recorded. -/
theorem recorded_event_of_has (ha : a.Recorded) {h : Handling} (hrun : h.running = true)
    (event : FileEvent) (hhas : (a.server.handleEvent h event).store.Has
      (a.server.prepare h event)) : (a.step (.event h event)).Recorded := by
  have hgrow : ∀ n : Notification, n.Recorded a.server.store →
      n.Recorded (a.server.handleEvent h event).store := by
    intro n hn
    rw [EventServer.store_handleEvent _ hrun]
    split_ifs
    · exact hn.insert _
    · exact hn
  refine ⟨fun n hn => ?_, fun e he => ?_⟩
  · rcases (EventServer.sent_handleEvent _ hrun n).1 hn with hn | ⟨-, rfl | hn⟩
    · exact hgrow n (ha.1 n hn)
    · exact hhas
    · obtain ⟨tree, patch, -, hp, rfl⟩ := hn
      exact ⟨_, hhas, rfl, tree, hp⟩
  · rcases List.mem_append.1 he with he | he
    · exact hgrow (.event e) (ha.2 e he)
    · rw [(mem_applies.1 he).2]
      exact hhas

/-- An event is recorded exactly if it is harmless. -/
theorem recorded_event (ha : a.Recorded) (h : Handling) (event : FileEvent) :
    (a.step (.event h event)).Recorded ↔ a.Harmless (.event h event) := by
  by_cases hrun : h.running = true
  · by_cases hw : h.writes.Succeeds
    · refine iff_of_true (recorded_event_of_has ha hrun event ?_) fun _ hno => absurd hw hno
      rw [EventServer.store_handleEvent _ hrun, if_pos hw]
      exact EventStore.has_insert _ _
    have hstore : (a.server.handleEvent h event).store = a.server.store := by
      rw [EventServer.store_handleEvent _ hrun, if_neg hw]
    constructor
    · intro hrec _ _
      by_contra hno
      rw [not_or] at hno
      obtain ⟨hnew, hno⟩ := hno
      have hsent : (a.server.subscriptions.projects
          (a.server.prepare h event).projectId).isSome → False := by
        intro hsome
        have hev := hrec.1 _ ((EventServer.sent_handleEvent _ hrun _).2 (.inr ⟨hsome, .inl rfl⟩))
        exact hnew (hstore ▸ hev)
      have happlied : (a.server.registry.trees
          (a.server.prepare h event).projectId).isSome → False := by
        intro hsome
        have hmem : a.server.prepare h event ∈ (a.step (.event h event)).applied :=
          List.mem_append_right _ (mem_applies.2 ⟨⟨hrun, hsome⟩, rfl⟩)
        exact hnew (hstore ▸ hrec.2 _ hmem)
      exact hno ⟨Option.not_isSome_iff_eq_none.1 hsent, Option.not_isSome_iff_eq_none.1 happlied⟩
    · intro hall
      rcases hall hrun hw with hhas | ⟨hchannel, htree⟩
      · refine recorded_event_of_has ha hrun event ?_
        rw [hstore]
        exact hhas
      · refine ha.of_old hstore (fun n hn => ?_) fun e he => ?_
        · rcases (EventServer.sent_handleEvent _ hrun n).1 hn with hn | ⟨hsome, -⟩
          · exact hn
          · rw [hchannel] at hsome
            cases hsome
        · rcases List.mem_append.1 he with he | he
          · exact he
          · have hsome := (mem_applies.1 he).1.2
            rw [htree] at hsome
            cases hsome
  · have hserver : (a.step (.event h event)).server = a.server := by
      show a.server.handleEvent h event = a.server
      unfold EventServer.handleEvent
      rw [if_neg hrun]
    refine iff_of_true ?_ fun hrun' => absurd hrun' hrun
    refine ha.of_old (by rw [hserver]) (fun n hn => ?_) fun e he => ?_
    · rw [hserver] at hn
      exact hn
    · rcases List.mem_append.1 he with he | he
      · exact he
      · exact absurd (mem_applies.1 he).1.1 hrun

/-- An attributed file's event is stored when it is sent. -/
theorem recorded_attribute (ha : a.Recorded) (params : Option AttributeParams)
    (machineId : String) (now : DateTime) (w : Writes) :
    (a.step (.attribution params machineId now w)).Recorded := by
  have hserver : (a.step (.attribution params machineId now w)).server =
    (a.server.handleAttribute params machineId now w).1 := rfl
  have happlied : (a.step (.attribution params machineId now w)).applied = a.applied :=
    List.append_nil _
  unfold Recorded
  rw [hserver, happlied]
  rcases a.server.handleAttribute_cases params machineId now w with heq |
    ⟨-, -, -, e, -, -, -, -, -, heq⟩
  · rw [heq]
    exact ha
  · rw [heq]
    refine ⟨fun n hn => ?_, fun e' he' => (ha.2 e' he').insert e⟩
    rcases SubscriptionManager.sent_broadcast.1 hn with hn | ⟨rfl, -⟩
    · exact (ha.1 n hn).insert e
    · exact EventStore.has_insert _ e

theorem recorded_step (ha : a.Recorded) (x : EventAction) :
    (a.step x).Recorded ↔ a.Harmless x := by
  have hnil : ∀ e ∈ a.applied ++ [], e ∈ a.applied := fun e he => List.append_nil a.applied ▸ he
  cases x with
  | event h event => exact recorded_event ha h event
  | attribution params machineId now w =>
    exact iff_of_true (recorded_attribute ha params machineId now w) trivial
  | subscribe projectId =>
    refine iff_of_true (ha.of_old rfl (fun n hn => ?_) hnil) trivial
    exact SubscriptionManager.sent_of_subscribe hn
  | unsubscribe projectId =>
    refine iff_of_true (ha.of_old rfl (fun n hn => ?_) hnil) trivial
    exact SubscriptionManager.sent_of_unsubscribe hn
  | register r => exact iff_of_true (ha.of_old rfl (fun _ hn => hn) hnil) trivial

theorem recorded_start (r : Registry) (st : EventStore) : (start r st).Recorded := by
  refine ⟨?_, fun e he => (nomatch he)⟩
  rintro n ⟨ch, hn⟩
  cases hn

/-- Everything sent or applied is stored throughout exactly if every event that the store does not
take is harmless. -/
theorem always_recorded_iff (r : Registry) (st : EventStore) (xs : List EventAction) :
    Run.Always step (start r st) Recorded xs ↔ Run.Steps step (start r st) Harmless xs := by
  refine Run.always_iff_steps (recorded_start r st) (fun _ h => h) ?_ ?_
  · exact fun a x ha hx => (recorded_step ha x).2 hx
  · exact fun a x ha hx hrec => hx ((recorded_step ha x).1 hrec)

end EventAudit

/-! ## An event the store does not take -/

namespace EventAudit

attribute [local instance] asciiLowercase

theorem not_always_recorded : ¬ Run.Always step (start .new .new) Recorded
    [.subscribe "p", .event ⟨true, [], fun _ => none, true, false⟩
      (.new .epoch .created "/w/p/f" "p" "m")] := by
  intro h
  obtain ⟨r, hr, -⟩ := (h _ List.prefix_rfl).1 (.event (.new .epoch .created "/w/p/f" "p" "m"))
    ⟨0, List.mem_cons_self⟩
  cases hr

end EventAudit

end AmbientFs
