import AmbientFs.Proofs.OsPath
import AmbientFs.Proofs.Path
import AmbientFs.Watcher

/-!
# What the watcher and the scan leave out

Both ask the same filter, the watcher about the whole path and the scan about the part below the
root, one directory after the other. The scan also leaves out names that are not UTF-8, before it
asks. So they differ by the components of the root and by such names.
-/

namespace AmbientFs

/-- A name that a directory can list. -/
def OsString.ValidName (n : OsString) : Prop := n ≠ [] ∧ .char '/' ∉ n ∧ n ≠ [.char '.']

def PathBuf.ofNames (names : List OsString) : PathBuf := ⟨[OsChar.char '/'].intercalate names⟩

/-- A path below the root of a project. -/
structure Entry where
  root : PathBuf
  absolute : root.isAbsolute = true
  names : List OsString
  nonempty : names ≠ []
  valid : ∀ n ∈ names, n.ValidName

def Entry.path (x : Entry) : PathBuf := x.root.join (.ofNames x.names)

/-- The callback makes no event of a path that a file event is made of. -/
def FsWatcher.Drops (w : FsWatcher) (path : PathBuf) : Prop :=
  ∀ (around : Surroundings) (kind : EventKind), kind.eventType.isSome →
    w.handlePath around kind path.toStringLossy = none

namespace PathFilter

/-- Whether the scan leaves out what has the names, one below the other, in a directory. -/
def skips (filter : PathFilter) (relativePath : String) : List OsString → Bool
  | [] => false
  | n :: names =>
    match n.toStr with
    | none => true
    | some name =>
      filter.shouldIgnore (ProjectTree.childRelative relativePath name) ||
        filter.skips (ProjectTree.childRelative relativePath name) names

/-- A pattern matches the component, as it is printed. -/
def Matches (filter : PathFilter) (c : OsString) : Prop :=
  ∃ pattern ∈ filter.ignorePatterns, matchesComponent c.toStringLossy pattern = true

end PathFilter

/-- A name that is UTF-8 matches a pattern. Or there is a name that is not UTF-8 exactly if a
component of the root or such a name matches. -/
def Entry.Covered (x : Entry) (filter : PathFilter) : Prop :=
  (∃ n ∈ x.names, n.toStr.isSome ∧ filter.Matches n) ∨
    (((∃ c ∈ x.root.components, filter.Matches c) ∨
      ∃ n ∈ x.names, n.toStr = none ∧ filter.Matches n) ↔ ∃ n ∈ x.names, n.toStr = none)

/-! ## Names -/

theorem OsString.toStringLossy_ofString (t : String) : (ofString t).toStringLossy = t := by
  unfold ofString toStringLossy
  rw [List.map_map]
  exact (congrArg String.ofList (List.map_id t.toList)).trans String.ofList_toList

theorem OsString.validName_ofString {t : String} :
    (OsString.ofString t).ValidName ↔ AmbientFs.ValidName t := by
  have hinj : Function.Injective OsString.ofString := fun a b h => by
    rw [← toStringLossy_ofString a, h, toStringLossy_ofString]
  have hslash : OsChar.char '/' ∈ OsString.ofString t ↔ '/' ∈ t.toList := by
    refine ⟨fun h => ?_, List.mem_map_of_mem⟩
    obtain ⟨c, hc, heq⟩ := List.mem_map.1 h
    exact OsChar.char.inj heq ▸ hc
  exact and_congr (hinj.ne_iff (y := "")) (and_congr (not_congr hslash) (hinj.ne_iff (y := ".")))

namespace PathBuf

variable {names : List OsString}

theorem names_ofNames (hne : names ≠ []) (h : ∀ n ∈ names, n.ValidName) :
    (ofNames names).names = names := by
  unfold PathBuf.names ofNames
  rw [List.splitOn_intercalate _ (fun n hn => (h n hn).2.1) hne, List.filter_eq_self]
  exact fun n hn => decide_eq_true ⟨(h n hn).1, (h n hn).2.2⟩

theorem head_ofNames (hne : names ≠ []) (h : ∀ n ∈ names, n.ValidName) :
    (ofNames names).text.head? ≠ some (.char '/') := by
  obtain ⟨n, rest, rfl⟩ := List.exists_cons_of_ne_nil hne
  have hn := h n List.mem_cons_self
  have htext : ∃ l, (ofNames (n :: rest)).text = n ++ l := by
    unfold ofNames
    rcases rest with _ | ⟨n', rest⟩
    · exact ⟨[], by simp⟩
    · rw [List.intercalate_cons_cons, List.append_assoc]
      exact ⟨_, rfl⟩
  obtain ⟨l, hl⟩ := htext
  rw [hl, List.head?_append_of_ne_nil n hn.1]
  exact fun hhead => hn.2.1 (List.mem_of_head? hhead)

end PathBuf

/-! ## The two filters -/

namespace PathFilter

variable {filter : PathFilter}

theorem shouldIgnore_toStringLossy (p : PathBuf) :
    filter.shouldIgnore p.toStringLossy = true ↔ ∃ c ∈ p.components, filter.Matches c := by
  unfold shouldIgnore Matches
  rw [PathBuf.pathComponents_toStringLossy, List.any_map, List.any_eq_true]
  simp only [Function.comp_apply, List.any_eq_true]

variable (filter) in
theorem skips_iff : ∀ (names : List OsString) (above : List String), ValidPath above →
    (∀ name ∈ above, ¬ filter.Matches (.ofString name)) → (∀ n ∈ names, n.ValidName) →
    (filter.skips (joinPath above) names = true ↔
      ∃ n ∈ names, n.toStr = none ∨ filter.Matches n)
  | [], _, _, _, _ => by simp [skips]
  | n :: names, above, habove, hno, hvalid => by
    obtain ⟨hn, hnames⟩ := List.forall_mem_cons.1 hvalid
    unfold skips
    rcases hs : n.toStr with _ | name
    · exact iff_of_true rfl ⟨n, List.mem_cons_self, .inl hs⟩
    dsimp only
    have heq : n = .ofString name := OsString.toStr_eq_some.1 hs
    rw [heq] at hn
    have hpath : ValidPath (above ++ [name]) :=
      validPath_append.2 ⟨habove, List.forall_mem_singleton.2 (OsString.validName_ofString.1 hn)⟩
    rw [childRelative_joinPath habove, Bool.or_eq_true, shouldIgnore_joinPath filter hpath]
    have hmatches : (above ++ [name]).any (fun c => filter.ignorePatterns.any fun pattern =>
        matchesComponent c pattern) = true ↔ filter.Matches n := by
      rw [List.any_append, Bool.or_eq_true, heq]
      unfold Matches at hno ⊢
      simp only [List.any_eq_true, List.mem_singleton, exists_eq_left,
        OsString.toStringLossy_ofString] at hno ⊢
      exact or_iff_right fun ⟨c, hc, hany⟩ => hno c hc hany
    rw [hmatches]
    by_cases hm : filter.Matches n
    · exact iff_of_true (.inl hm) ⟨n, List.mem_cons_self, .inr hm⟩
    · have habove' : ∀ c ∈ above ++ [name], ¬ filter.Matches (.ofString c) :=
        List.forall_mem_append.2 ⟨hno, List.forall_mem_singleton.2 (heq ▸ hm)⟩
      have hhead : ¬ (n.toStr = none ∨ filter.Matches n) := not_or.2 ⟨by rw [hs]; simp, hm⟩
      rw [or_iff_right hm, skips_iff names _ hpath habove' hnames]
      simp only [List.mem_cons, exists_eq_or_imp]
      exact (or_iff_right hhead).symm

/-- What is there is in a tree that is scanned to the end exactly if it is not skipped. -/
theorem visible_iff_not_skips {fs : Fs} {names : List String} (hne : names ≠ [])
    (htype : fs.map names = some .file ∨ fs.map names = some .dir) :
    fs.Visible filter names ↔ filter.skips "" (names.map OsString.ofString) = false := by
  have hvalid : ValidPath names := fs.validPath (by rcases htype with h | h <;> rw [h] <;> simp)
  have hskips := skips_iff filter (names.map OsString.ofString) []
    (fun _ h => (nomatch h)) (fun _ h => (nomatch h))
    (List.forall_mem_map.2 fun name hname => OsString.validName_ofString.2 (hvalid name hname))
  have hignore : filter.shouldIgnore (joinPath names) = true ↔
      filter.skips "" (names.map OsString.ofString) = true := by
    rw [shouldIgnore_joinPath filter hvalid, List.any_eq_true]
    refine Iff.trans ?_ hskips.symm
    constructor
    · rintro ⟨name, hname, hany⟩
      refine ⟨_, List.mem_map_of_mem hname, .inr ?_⟩
      unfold Matches
      rw [OsString.toStringLossy_ofString]
      exact List.any_eq_true.1 hany
    · rintro ⟨n, hn, hs⟩
      obtain ⟨name, hname, rfl⟩ := List.mem_map.1 hn
      rw [OsString.toStr_eq_some.2 rfl] at hs
      obtain ⟨pattern, hp, hm⟩ := hs.resolve_left fun h => (nomatch h)
      rw [OsString.toStringLossy_ofString] at hm
      exact ⟨name, hname, List.any_eq_true.2 ⟨pattern, hp, hm⟩⟩
  unfold Fs.Visible
  rw [← Bool.not_eq_true, ← Bool.not_eq_true, hignore]
  exact ⟨fun h => h.2.1, fun h => ⟨hne, h, htype⟩⟩

end PathFilter

theorem FsWatcher.drops_iff (w : FsWatcher) (path : PathBuf) :
    w.Drops path ↔ w.pathFilter.shouldIgnore path.toStringLossy = true := by
  constructor
  · intro h
    by_contra hno
    rw [Bool.not_eq_true] at hno
    obtain ⟨e, he, -⟩ := w.handlePath_of_not_ignored
      ⟨fun _ => .epoch, fun _ _ => none, fun _ => none⟩ hno (.create .any) rfl
    rw [h _ (.create .any) rfl] at he
    cases he
  · intro h around kind _
    unfold handlePath
    rw [if_pos h]

namespace Entry

/-- The watcher and the scan leave out the same exactly where the root and names that are not UTF-8
make no difference. -/
theorem drops_skips_iff (x : Entry) (w : FsWatcher) :
    (w.Drops x.path ↔ w.pathFilter.skips "" x.names = true) ↔ x.Covered w.pathFilter := by
  have hdrops : w.Drops x.path ↔ (∃ c ∈ x.root.components, w.pathFilter.Matches c) ∨
      ∃ n ∈ x.names, w.pathFilter.Matches n := by
    rw [w.drops_iff, PathFilter.shouldIgnore_toStringLossy]
    unfold path
    rw [PathBuf.components_join x.absolute (PathBuf.head_ofNames x.nonempty x.valid),
      PathBuf.names_ofNames x.nonempty x.valid]
    simp only [List.mem_append, or_and_right, exists_or]
  have hskips : w.pathFilter.skips "" x.names = true ↔
      ∃ n ∈ x.names, n.toStr = none ∨ w.pathFilter.Matches n :=
    PathFilter.skips_iff _ x.names [] (fun _ h => (nomatch h)) (fun _ h => (nomatch h)) x.valid
  -- names that match are UTF-8 or not, and the scan asks the filter about the first only
  have hmatch : (∃ n ∈ x.names, w.pathFilter.Matches n) ↔
      (∃ n ∈ x.names, n.toStr.isSome ∧ w.pathFilter.Matches n) ∨
        ∃ n ∈ x.names, n.toStr = none ∧ w.pathFilter.Matches n := by
    constructor
    · rintro ⟨n, hn, hm⟩
      rcases hs : n.toStr with _ | name
      · exact .inr ⟨n, hn, hs, hm⟩
      · exact .inl ⟨n, hn, by rw [hs]; rfl, hm⟩
    · rintro (⟨n, hn, -, hm⟩ | ⟨n, hn, -, hm⟩) <;> exact ⟨n, hn, hm⟩
  have hleft : (∃ n ∈ x.names, n.toStr = none ∨ w.pathFilter.Matches n) ↔
      (∃ n ∈ x.names, n.toStr.isSome ∧ w.pathFilter.Matches n) ∨
        ∃ n ∈ x.names, n.toStr = none := by
    constructor
    · rintro ⟨n, hn, hs | hm⟩
      · exact .inr ⟨n, hn, hs⟩
      · rcases hs : n.toStr with _ | name
        · exact .inr ⟨n, hn, hs⟩
        · exact .inl ⟨n, hn, by rw [hs]; rfl, hm⟩
    · rintro (⟨n, hn, -, hm⟩ | ⟨n, hn, hs⟩)
      · exact ⟨n, hn, .inr hm⟩
      · exact ⟨n, hn, .inl hs⟩
  rw [hdrops, hskips, hmatch, hleft]
  unfold Covered
  by_cases hutf : ∃ n ∈ x.names, n.toStr.isSome ∧ w.pathFilter.Matches n
  · exact iff_of_true (iff_of_true (.inr (.inl hutf)) (.inl hutf)) (.inl hutf)
  · rw [or_iff_right hutf, or_iff_right hutf, or_iff_right hutf]

end Entry

/-! ## A root that looks like an ignored name -/

/-- The file `a` of the project `/target/app`. -/
def targetEntry : Entry where
  root := .ofString "/target/app"
  absolute := by decide
  names := [.ofString "a"]
  nonempty := List.cons_ne_nil _ _
  valid := by
    intro n hn
    rw [List.mem_singleton.1 hn]
    exact ⟨by decide, by decide, by decide⟩

/-- The watcher drops it, as `target` is ignored, and the scan does not. -/
theorem not_drops_skips : ¬ ((⟨.default, "default", "m", false, none, false⟩ : FsWatcher).Drops
    targetEntry.path ↔ PathFilter.default.skips "" targetEntry.names = true) := by
  rw [FsWatcher.drops_iff]
  decide

end AmbientFs
