import AmbientFs.Proofs.Rescan
import AmbientFs.Proofs.TreeMap

/-!
# A scan against its specification

What a scan finds is a set of admissible entries with everything above them, as many as it has
counted and no more than the cap; and it finds all of them if they are no more than that.
-/

namespace AmbientFs

open TreeNode

/-- The entry may be in the tree: it is no deeper than the cap, and neither it nor anything above
it is ignored or a link. -/
def Fs.Admissible (fs : Fs) (filter : PathFilter) (p : List String) : Prop :=
  p ≠ [] ∧ p.length ≤ ProjectTree.maxDepth ∧ ∀ q ≠ [], q <+: p →
    filter.shouldIgnore (joinPath q) = false ∧ fs.map q ≠ none ∧ fs.map q ≠ some .symlink

namespace TreeNode

/-- The places of the nodes below the root. -/
def places (t : TreeNode) : Set (List String) := {q | q ≠ [] ∧ ∃ k, t.At q k}

end TreeNode

theorem Fs.admissible_iff {fs : Fs} {filter : PathFilter} {p : List String} :
    fs.Admissible filter p ↔ fs.Visible filter p ∧ p.length ≤ ProjectTree.maxDepth := by
  constructor
  · rintro ⟨hne, hlen, h⟩
    obtain ⟨hi, hn, hs⟩ := h p hne List.prefix_rfl
    refine ⟨⟨hne, hi, ?_⟩, hlen⟩
    rcases ht : fs.map p with _ | _ | _ | _
    · exact absurd ht hn
    · exact .inl rfl
    · exact .inr rfl
    · exact absurd ht hs
  · rintro ⟨hv, hlen⟩
    refine ⟨hv.1, hlen, fun q hq hqp => ?_⟩
    refine ⟨shouldIgnore_above (fs.validPath hv.ne_none) hqp hv.2.1, ?_⟩
    by_cases he : q = p
    · subst he
      rcases hv.2.2 with ht | ht <;> simp [ht]
    · simp [fs.dir_of_below hv.ne_none hqp he]

namespace ProjectTree

section Spec

variable [Lowercase] {fs : Fs} {readDir : ReadDir}

theorem Scanned.places_eq {filter : PathFilter} {st : ScanState} {seen : List (List String)}
    (h : Scanned fs filter st seen) : st.root.places = {q | q ∈ seen} := by
  ext q
  unfold places
  rw [Set.mem_ofPred_eq, Set.mem_ofPred_eq, h.reachable.ordered.exists_at]
  constructor
  · rintro ⟨hq, hne⟩
    rw [h.entries q hq] at hne
    by_contra hn
    exact hne (if_neg hn)
  · intro hq
    have hv := h.visible q hq
    exact ⟨hv.1, by simp [h.entries q hv.1, hq]⟩

/-- The nodes of a scanned tree are entries the project may show, with everything above them and
each of its kind. They are as many as were counted, at most the cap, and all if those are no more
than the cap. -/
theorem fromDirectory_spec (hl : fs.Lists readDir) (filter : PathFilter)
    (dirName : Option String) :
    (∀ q ∈ (fromDirectory readDir filter dirName).root.places, ∀ r ≠ [], r <+: q →
        r ∈ (fromDirectory readDir filter dirName).root.places) ∧
      (∀ q ≠ [], ∀ k, (fromDirectory readDir filter dirName).root.At q k →
        fs.Admissible filter q ∧ k = (fs.map q = some .dir : Bool)) ∧
      (fromDirectory readDir filter dirName).root.places.encard =
        (scanned readDir filter dirName).entryCount ∧
      (scanned readDir filter dirName).entryCount ≤ maxEntries ∧
      ({q | fs.Admissible filter q}.encard ≤ maxEntries →
        (fromDirectory readDir filter dirName).root.places = {q | fs.Admissible filter q}) := by
  obtain ⟨seen, hs, hdepth, hc⟩ := fromDirectory_scanned filter hl dirName
  have hplaces := hs.places_eq
  rw [fromDirectory_root, hplaces]
  have hadm : ∀ q ∈ seen, fs.Admissible filter q :=
    fun q hq => Fs.admissible_iff.2 ⟨hs.visible q hq, hdepth q hq⟩
  refine ⟨fun q hq r hr hrq => ?_, fun q hq k hk => ?_, ?_, hs.count ▸ hs.le, fun hcap => ?_⟩
  · have hmem : q ∈ (scanned readDir filter dirName).root.places := hplaces ▸ hq
    have hne := hs.reachable.ordered.exists_at.1 hmem.2
    rw [← hplaces]
    exact ⟨hr, hs.reachable.ordered.exists_at.2 ((closed_entries _).above hrq hne)⟩
  · obtain ⟨path, he⟩ := hs.reachable.ordered.at_iff.1 hk
    rw [hs.entries q hq] at he
    split_ifs at he with hqs
    exact ⟨hadm q hqs, (congrArg Prod.fst (Option.some.inj he)).symm⟩
  · have hcoe : {q | q ∈ seen} = (seen.toFinset : Set (List String)) := by
      ext q
      simp
    rw [hcoe, Set.encard_coe_eq_coe_finsetCard, List.toFinset_card_of_nodup hs.nodup, hs.count]
  · refine Set.Subset.antisymm hadm fun q hq => ?_
    obtain ⟨hv, hlen⟩ := Fs.admissible_iff.1 hq
    rcases hc with hc | ⟨hfull, r, hrv, hrlen, hrn⟩
    · exact hc q hv hlen
    · have hlt := length_lt_encard (P := {q | fs.Admissible filter q}) hs.nodup hadm
        (Fs.admissible_iff.2 ⟨hrv, hrlen⟩) hrn
      exact absurd (hfull ▸ hcap) (not_le.2 hlt)

end Spec

/-! ## A directory with files below it, an ignored directory and a link -/

attribute [local instance] asciiLowercase

def nestedEntries : List (List String × FileType) :=
  [([], .dir), (["src"], .dir), (["src", "a"], .file), (["node_modules"], .dir),
    (["node_modules", "x"], .file), (["link"], .symlink)]

theorem nested_of_ne {p : List String} (h : nestedEntries.lookup p ≠ none) :
    p ∈ nestedEntries.map Prod.fst := by
  rw [Ne, List.lookup_eq_none_iff] at h
  push Not at h
  obtain ⟨e, he, hp⟩ := h
  exact List.mem_map.2 ⟨e, he, (by simpa using hp : p = e.1).symm⟩

theorem nested_inDir : ∀ p ∈ nestedEntries.map Prod.fst, p ≠ [] →
    nestedEntries.lookup p.dropLast = some .dir ∧
      ∀ name ∈ p.getLast?, name ≠ "" ∧ '/' ∉ name.toList ∧ name ≠ "." := by
  decide

def nestedFs : Fs where
  map p := nestedEntries.lookup p
  root := rfl
  inDir p name h := by
    have hp := nested_inDir _ (nested_of_ne h) (by simp)
    simpa [ValidName] using hp
  finite := (List.finite_toSet _).subset fun _ hp => nested_of_ne hp

def nestedNames : List String → List String
  | [] => ["src", "node_modules", "link"]
  | ["src"] => ["a"]
  | ["node_modules"] => ["x"]
  | _ => []

def nestedDirs : List (List String) := [[], ["src"], ["node_modules"]]

def nestedListing : ReadDir := fun path =>
  (nestedDirs.find? (joinPath · = path)).map
    fun p => (nestedNames p).map fun name => some ⟨some name, nestedFs.map (p ++ [name])⟩

theorem dir_nestedFs : ∀ p ∈ nestedEntries.map Prod.fst, nestedFs.map p = some .dir →
    p ∈ nestedDirs := by
  decide

theorem listed_nestedFs : ∀ p ∈ nestedDirs, (nestedNames p).Nodup ∧
    (∀ name ∈ nestedNames p, nestedFs.map (p ++ [name]) ≠ none) ∧
    nestedDirs.find? (joinPath · = joinPath p) = some p := by
  decide

theorem nestedNames_of_mem : ∀ p ∈ nestedEntries.map Prod.fst, ∀ name ∈ p.getLast?,
    name ∈ nestedNames p.dropLast := by
  decide

theorem lists_nestedFs : nestedFs.Lists nestedListing := by
  intro p hp
  have hne : nestedFs.map p ≠ none := by simp [hp]
  obtain ⟨hnodup, hmem, hfind⟩ := listed_nestedFs p (dir_nestedFs p (nested_of_ne hne) hp)
  refine ⟨nestedNames p, hnodup, fun name => ⟨hmem name, fun h => ?_⟩, ?_⟩
  · simpa using nestedNames_of_mem _ (nested_of_ne h)
  · rw [nestedListing, hfind, Option.map_some]

/-- The scan finds what is below the root, the ignored directory and the link left out. -/
theorem fromDirectory_spec_file :
    (fromDirectory nestedListing .default none).root.places.encard = 2 := by
  have hcount : (scanned nestedListing .default none).entryCount = 2 := by decide
  have h := (fromDirectory_spec lists_nestedFs .default none).2.2.1
  rw [hcount] at h
  simpa using h

end ProjectTree

end AmbientFs
