import AmbientFs.Filter
import AmbientFs.Lib.Glob

/-!
# Ignore patterns as globs

The filter takes a star at the start of a pattern, or else one at its end, for any text, and every
other star for itself. So its patterns are globs exactly if each has no star, or a single one at
an end with something beside it (`globs_iff`).
-/

namespace AmbientFs

namespace PathFilter

/-- A pattern without the slashes at its end. -/
def trimmed (pattern : String) : List Char := trimEndMatches '/' pattern.toList

/-- The component matches the pattern read as a glob. -/
def Globs (component pattern : String) : Prop :=
  Glob.Matches '*' (trimmed pattern) component.toList

/-- The pattern has no star, or one at an end with something beside it. -/
def SingleStar (pattern : String) : Prop :=
  '*' ∉ trimmed pattern ∨ ∃ text ≠ [], '*' ∉ text ∧
    (trimmed pattern = '*' :: text ∨ trimmed pattern = text ++ ['*'])

/-- What is compared, by where the pattern has a star. -/
theorem matchesComponent_cases (component pattern : String) :
    (∃ text ≠ [], trimmed pattern = '*' :: text ∧
      (matchesComponent component pattern = true ↔ text <:+ component.toList)) ∨
    (∃ text ≠ [], text.head? ≠ some '*' ∧ trimmed pattern = text ++ ['*'] ∧
      (matchesComponent component pattern = true ↔ text <+: component.toList)) ∨
    ((∀ text ≠ [], trimmed pattern ≠ '*' :: text ∧ trimmed pattern ≠ text ++ ['*']) ∧
      (matchesComponent component pattern = true ↔ component.toList = trimmed pattern)) := by
  unfold matchesComponent trimmed
  simp only []
  generalize trimEndMatches '/' pattern.toList = q
  split_ifs with hfirst hlast
  · obtain ⟨hhead, hlen⟩ := hfirst
    obtain ⟨text, rfl⟩ := List.head?_eq_some_iff.1 hhead
    refine .inl ⟨text, ?_, rfl, by simp⟩
    rintro rfl
    simp at hlen
  · obtain ⟨hend, hlen⟩ := hlast
    obtain ⟨text, rfl⟩ := List.getLast?_eq_some_iff.1 hend
    have hne : text ≠ [] := by
      rintro rfl
      simp at hlen
    refine .inr (.inl ⟨text, hne, fun hhead => hfirst ⟨?_, hlen⟩, rfl, by simp⟩)
    rw [List.head?_append, hhead]
    rfl
  · refine .inr (.inr ⟨fun text hne => ⟨?_, ?_⟩, by simp⟩)
    · rintro rfl
      exact hfirst ⟨rfl, by simpa using List.length_pos_iff.2 hne⟩
    · rintro rfl
      exact hlast ⟨by simp, by simpa using List.length_pos_iff.2 hne⟩

theorem SingleStar.count_le {pattern : String} (h : SingleStar pattern) :
    (trimmed pattern).count '*' ≤ 1 := by
  rcases h with h | ⟨text, -, htext, hq | hq⟩
  · rw [List.count_eq_zero.2 h]
    omega
  · rw [hq, List.count_cons_self, List.count_eq_zero.2 htext]
  · rw [hq, List.count_append, List.count_eq_zero.2 htext, List.count_singleton_self]

theorem matchesComponent_of_singleStar {pattern : String} (h : SingleStar pattern)
    (component : String) :
    matchesComponent component pattern = true ↔ Globs component pattern := by
  have hcount := h.count_le
  unfold Globs
  rcases matchesComponent_cases component pattern with ⟨text, hne, hq, hm⟩ |
    ⟨text, hne, -, hq, hm⟩ | ⟨hno, hm⟩
  · rw [hq, List.count_cons_self] at hcount
    have hstar : '*' ∉ text := List.count_eq_zero.1 (by omega)
    rw [hm, hq, Glob.matches_star_append hstar]
  · rw [hq, List.count_append, List.count_singleton_self] at hcount
    have hstar : '*' ∉ text := List.count_eq_zero.1 (by omega)
    rw [hm, hq, Glob.matches_append_star hstar]
  · have hstar : '*' ∉ trimmed pattern := by
      rcases h with h | ⟨text, hne, -, hq | hq⟩
      · exact h
      · exact absurd hq (hno text hne).1
      · exact absurd hq (hno text hne).2
    rw [hm, Glob.matches_of_not_mem hstar]

/-- With a letter for each star a pattern matches as a glob, and the filter misses it if there is
a star that it takes for itself. -/
theorem singleStar_of_matchesComponent {pattern : String}
    (h : ∀ component, matchesComponent component pattern = true ↔ Globs component pattern) :
    SingleStar pattern := by
  have hletter : '*' ∉ (trimmed pattern).map fun c => if c = '*' then 'a' else c := by
    intro hmem
    obtain ⟨c, -, hc⟩ := List.mem_map.1 hmem
    split_ifs at hc with hstar
    · exact absurd hc (by decide)
    · exact hstar hc
  have hglob := (h (String.ofList ((trimmed pattern).map fun c => if c = '*' then 'a' else c))).2
    (by unfold Globs; rw [String.toList_ofList]; exact Glob.matches_map 'a' _)
  rcases matchesComponent_cases (String.ofList ((trimmed pattern).map
    fun c => if c = '*' then 'a' else c)) pattern with ⟨text, hne, hq, hm⟩ |
    ⟨text, hne, -, hq, hm⟩ | ⟨-, hm⟩
  · rw [hm, String.toList_ofList] at hglob
    exact .inr ⟨text, hne, fun hmem => hletter (hglob.subset hmem), .inl hq⟩
  · rw [hm, String.toList_ofList] at hglob
    exact .inr ⟨text, hne, fun hmem => hletter (hglob.subset hmem), .inr hq⟩
  · rw [hm, String.toList_ofList] at hglob
    exact .inl (hglob ▸ hletter)

/-- A filter's patterns match components as globs, and it ignores the paths of which some
component matches some pattern as a glob, exactly if each pattern has no star, or one at an end
with something beside it. -/
theorem globs_iff (f : PathFilter) :
    ((∀ pattern ∈ f.ignorePatterns, ∀ component,
        matchesComponent component pattern = true ↔ Globs component pattern) ∧
      ∀ path, f.shouldIgnore path = true ↔
        ∃ component ∈ pathComponents path, ∃ pattern ∈ f.ignorePatterns,
          Globs component pattern) ↔
      ∀ pattern ∈ f.ignorePatterns, SingleStar pattern := by
  constructor
  · exact fun h pattern hp => singleStar_of_matchesComponent (h.1 pattern hp)
  · intro h
    have hm : ∀ pattern ∈ f.ignorePatterns, ∀ component,
        matchesComponent component pattern = true ↔ Globs component pattern :=
      fun pattern hp => matchesComponent_of_singleStar (h pattern hp)
    refine ⟨hm, fun path => ?_⟩
    unfold shouldIgnore
    simp only [List.any_eq_true]
    refine exists_congr fun component => and_congr_right fun _ => ?_
    exact exists_congr fun pattern => and_congr_right fun hp => hm pattern hp component

/-- A star between letters stands for itself only. -/
theorem not_globs_between :
    matchesComponent "abc" "a*c" = false ∧ Globs "abc" "a*c" := by
  refine ⟨by decide, ?_⟩
  exact ⟨['b', 'c'], rfl, ['b'], ['c'], rfl, [], rfl, rfl⟩

end PathFilter

end AmbientFs
