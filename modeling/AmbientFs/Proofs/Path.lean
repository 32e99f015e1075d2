import AmbientFs.FileSystem
import AmbientFs.Lib.Split

/-!
# Paths as text and as components

Components put together with slashes are cut back into the same components, by the tree and,
where they are valid names, by the filter as well. Cutting any text gives components.
-/

namespace AmbientFs

/-- Every component is a valid name. -/
def ValidPath (p : List String) : Prop := ∀ name ∈ p, ValidName name

variable {p : List String}

theorem validPath_append {q : List String} : ValidPath (p ++ q) ↔ ValidPath p ∧ ValidPath q :=
  List.forall_mem_append

theorem Fs.validPath (fs : Fs) : ∀ {p : List String}, fs.map p ≠ none → ValidPath p := by
  intro p
  induction p using List.reverseRecOn with
  | nil => exact fun _ _ hn => (List.not_mem_nil hn).elim
  | append_singleton p name ih =>
    intro h
    obtain ⟨hp, hv⟩ := fs.inDir p name h
    exact validPath_append.2 ⟨ih (by simp [hp]), by simpa [ValidPath] using hv⟩

/-- What is above an entry is a directory. -/
theorem Fs.dir_of_below (fs : Fs) {p : List String} : ∀ {q : List String}, fs.map q ≠ none →
    p <+: q → p ≠ q → fs.map p = some .dir := by
  intro q
  induction q using List.reverseRecOn with
  | nil => exact fun _ hp hne => absurd (List.prefix_nil.1 hp) hne
  | append_singleton q name ih =>
    intro hq hp hne
    obtain ⟨hd, -⟩ := fs.inDir q name hq
    have hpq := (List.prefix_concat_iff.1 hp).resolve_left hne
    by_cases he : p = q
    · rw [he, hd]
    · exact ih (by simp [hd]) hpq he

theorem Fs.Visible.ne_none {fs : Fs} {filter : PathFilter} (h : fs.Visible filter p) :
    fs.map p ≠ none := by
  rcases h.2.2 with h | h <;> simp [h]

theorem toList_joinPath (p : List String) :
    (joinPath p).toList = ['/'].intercalate (p.map String.toList) := by
  unfold joinPath
  rw [String.toList_intercalate]
  rfl

/-- No component is empty or has a slash. -/
def Components (p : List String) : Prop := ∀ name ∈ p, name ≠ "" ∧ '/' ∉ name.toList

theorem ValidPath.components (h : ValidPath p) : Components p :=
  fun name hn => ⟨(h name hn).1, (h name hn).2.1⟩

theorem Components.of_isPrefix {q : List String} (h : Components p) (hq : q <+: p) : Components q :=
  fun name hn => h name (hq.subset hn)

theorem components_splitPath (s : String) : Components (splitPath s) := by
  intro name hn
  obtain ⟨cs, hcs, rfl⟩ := List.mem_map.1 hn
  obtain ⟨hcs, hne⟩ := List.mem_filter.1 hcs
  refine ⟨fun he => ?_, ?_⟩
  · rw [String.ofList_eq_empty_iff.1 he] at hne
    cases hne
  · rw [String.toList_ofList]
    exact Split.not_mem_of_mem_splitOn hcs

theorem splitOn_joinPath (h : Components p) (hne : p ≠ []) :
    (joinPath p).toList.splitOn '/' = p.map String.toList := by
  rw [toList_joinPath]
  refine List.splitOn_intercalate '/' ?_ (by simpa using hne)
  intro l hl
  obtain ⟨name, hn, rfl⟩ := List.mem_map.1 hl
  exact (h name hn).2

theorem map_ofList_filter {f : List Char → Bool} (hf : ∀ name ∈ p, f name.toList = true) :
    ((p.map String.toList).filter f).map String.ofList = p := by
  rw [List.filter_eq_self.2]
  · simp [Function.comp_def]
  · intro l hl
    obtain ⟨name, hn, rfl⟩ := List.mem_map.1 hl
    exact hf name hn

theorem splitPath_joinPath (h : Components p) : splitPath (joinPath p) = p := by
  by_cases hne : p = []
  · subst hne
    decide
  unfold splitPath
  rw [splitOn_joinPath h hne]
  exact map_ofList_filter fun name hn => by simpa using (h name hn).1

theorem joinPath_inj {q : List String} (hp : Components p) (hq : Components q)
    (h : joinPath p = joinPath q) : p = q := by
  rw [← splitPath_joinPath hp, h, splitPath_joinPath hq]

theorem joinPath_ne_empty (h : ValidPath p) (hne : p ≠ []) : joinPath p ≠ "" := by
  intro he
  exact hne (joinPath_inj h.components (fun _ hn => (List.not_mem_nil hn).elim) he)

theorem toList_joinPath_cons (name : String) (rest : List String) :
    ∃ cs, (joinPath (name :: rest)).toList = name.toList ++ cs := by
  rw [toList_joinPath, List.map_cons]
  rcases rest with _ | ⟨n, rest⟩
  · exact ⟨[], by simp⟩
  · rw [List.map_cons, List.intercalate_cons_cons, List.append_assoc]
    exact ⟨_, rfl⟩

theorem ValidName.ne_dot {name : String} (h : ValidName name) : name.toList ≠ ['.'] :=
  fun hd => h.2.2 (String.toList_inj.1 hd)

theorem pathComponents_joinPath (h : ValidPath p) : pathComponents (joinPath p) = p := by
  by_cases hne : p = []
  · subst hne
    decide
  obtain ⟨name, rest, rfl⟩ := List.exists_cons_of_ne_nil hne
  have hname := h name List.mem_cons_self
  have hbody := map_ofList_filter (f := fun cs => cs ≠ [] ∧ cs ≠ ['.']) fun name hn => by
    simpa using ⟨(h name hn).1, (h name hn).ne_dot⟩
  obtain ⟨cs, hcs⟩ := toList_joinPath_cons name rest
  unfold pathComponents
  simp only [splitOn_joinPath h.components hne, hbody]
  split
  · rename_i cs' hs
    rw [hcs] at hs
    rcases hl : name.toList with _ | ⟨c, tl⟩
    · exact absurd (String.toList_eq_nil_iff.1 hl) hname.1
    · rw [hl, List.cons_append, List.cons.injEq] at hs
      exact absurd (by simp [hl, hs.1]) hname.2.1
  · rw [if_neg]
    simpa using hname.ne_dot

theorem shouldIgnore_joinPath (filter : PathFilter) (h : ValidPath p) :
    filter.shouldIgnore (joinPath p) =
      p.any fun c => filter.ignorePatterns.any fun pat => PathFilter.matchesComponent c pat := by
  unfold PathFilter.shouldIgnore
  rw [pathComponents_joinPath h]

/-- What is above a path that is not ignored is not ignored. -/
theorem shouldIgnore_above {filter : PathFilter} {q : List String} (h : ValidPath p)
    (hq : q <+: p) (hp : filter.shouldIgnore (joinPath p) = false) :
    filter.shouldIgnore (joinPath q) = false := by
  obtain ⟨r, rfl⟩ := hq
  rw [shouldIgnore_joinPath filter h, List.any_append, Bool.or_eq_false_iff] at hp
  rw [shouldIgnore_joinPath filter (validPath_append.1 h).1]
  exact hp.1

theorem childRelative_joinPath {name : String} (h : ValidPath p) :
    ProjectTree.childRelative (joinPath p) name = joinPath (p ++ [name]) := by
  unfold ProjectTree.childRelative
  by_cases hne : p = []
  · subst hne
    rw [if_pos (by rfl), List.nil_append]
    exact String.intercalate_singleton.symm
  · rw [if_neg (joinPath_ne_empty h hne)]
    unfold joinPath
    rw [String.intercalate_append_of_ne_nil hne (List.cons_ne_nil name []),
      String.intercalate_singleton]

end AmbientFs
