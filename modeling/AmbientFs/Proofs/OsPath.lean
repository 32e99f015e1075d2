import AmbientFs.Lib.Split
import AmbientFs.OsPath

/-!
# Paths and their texts

What is in the components of a path is in its text, and the other way round but for slashes and
lone dots. So paths that are the same are both UTF-8 or neither is.
-/

namespace AmbientFs

open Split

/-- What `to_string_lossy` writes for bytes that are no character is none of these. -/
theorem OsChar.lossy_eq_iff {c : OsChar} {d : Char} (hd : d ≠ '\uFFFD') :
    c.lossy = d ↔ c = .char d := by
  cases c with
  | char c => exact ⟨fun h => congrArg _ h, fun h => OsChar.char.inj h⟩
  | invalid bytes => exact iff_of_false (fun h => hd h.symm) (fun h => by cases h)

namespace OsString

theorem mapM_toChar_eq_some : ∀ {s : OsString} {cs : List Char},
    s.mapM OsChar.toChar = some cs ↔ s = cs.map .char
  | [], cs => by
    rw [List.mapM_nil]
    constructor
    · intro h
      cases h
      rfl
    · intro h
      rw [List.map_eq_nil_iff.1 h.symm]
      rfl
  | .invalid bytes :: s, cs => by
    rw [List.mapM_cons]
    constructor
    · exact fun h => by cases h
    · intro h
      rcases cs with _ | ⟨c, cs⟩
      · cases h
      · cases h
  | .char c :: s, cs => by
    rw [List.mapM_cons]
    constructor
    · intro h
      obtain ⟨c', hc, h⟩ := Option.bind_eq_some_iff.1 h
      obtain ⟨cs', hcs, h⟩ := Option.bind_eq_some_iff.1 h
      cases hc
      cases h
      rw [mapM_toChar_eq_some.1 hcs]
      rfl
    · intro h
      rcases cs with _ | ⟨c', cs⟩
      · cases h
      · rw [List.map_cons, List.cons.injEq] at h
        obtain ⟨hc, hs⟩ := h
        cases hc
        rw [mapM_toChar_eq_some.2 hs]
        rfl

theorem toStr_eq_some {s : OsString} {t : String} : s.toStr = some t ↔ s = ofString t := by
  unfold toStr ofString
  rw [Option.map_eq_some_iff]
  constructor
  · rintro ⟨cs, hcs, rfl⟩
    rw [mapM_toChar_eq_some.1 hcs, String.toList_ofList]
  · intro h
    exact ⟨t.toList, mapM_toChar_eq_some.2 h, String.ofList_toList⟩

theorem toStr_isSome {s : OsString} : s.toStr.isSome ↔ ∀ c ∈ s, c.toChar.isSome := by
  constructor
  · intro h c hc
    obtain ⟨t, ht⟩ := Option.isSome_iff_exists.1 h
    rw [toStr_eq_some.1 ht] at hc
    obtain ⟨c', -, rfl⟩ := List.mem_map.1 hc
    rfl
  · intro h
    have hs : s = ofString (String.ofList (s.map OsChar.lossy)) := by
      unfold ofString
      rw [String.toList_ofList, List.map_map]
      refine ((List.map_congr_left fun c hc => ?_).trans (List.map_id s)).symm
      cases c with
      | char c => rfl
      | invalid bytes => cases h _ hc
    rw [toStr_eq_some.2 hs]
    rfl

end OsString

namespace PathBuf

variable {p q : PathBuf}

theorem toStr_eq_some {t : String} : p.toStr = some t ↔ p = ofString t := by
  unfold toStr ofString
  rw [OsString.toStr_eq_some]
  constructor
  · intro h
    cases p
    exact congrArg _ h
  · intro h
    rw [h]

/-- The components that are names. -/
def names (p : PathBuf) : List OsString :=
  (p.text.splitOn (.char '/')).filter fun cs => cs ≠ [] ∧ cs ≠ [.char '.']

theorem components_of_head (h : p.text.head? = some (.char '/')) :
    p.components = [.char '/'] :: p.names := by
  rcases p with ⟨_ | ⟨c, rest⟩⟩
  · cases h
  · cases h
    rfl

theorem components_of_head_ne (h : p.text.head? ≠ some (.char '/')) :
    p.components = if (p.text.splitOn (.char '/')).head? = some [.char '.'] then
      [.char '.'] :: p.names else p.names := by
  unfold components
  dsimp only
  split
  · rename_i ht
    rw [ht] at h
    exact absurd rfl h
  · rfl

/-- The text of an absolute path starts at the root. -/
theorem isAbsolute_iff : p.isAbsolute = true ↔ p.text.head? = some (.char '/') := by
  unfold isAbsolute
  rw [decide_eq_true_iff]
  by_cases h : p.text.head? = some (.char '/')
  · rw [components_of_head h]
    exact iff_of_true rfl h
  · rw [components_of_head_ne h]
    refine iff_of_false ?_ h
    split_ifs
    · simp
    · intro hhead
      have hmem := List.mem_of_mem_filter (List.mem_of_head? hhead)
      exact not_mem_of_mem_splitOn hmem List.mem_cons_self

theorem mem_components {cs : OsString} (h : cs ∈ p.components) :
    cs = [.char '/'] ∨ cs ∈ p.text.splitOn (.char '/') := by
  unfold components at h
  dsimp only at h
  have hbody : ∀ cs ∈ (p.text.splitOn (.char '/')).filter
      (fun cs => cs ≠ [] ∧ cs ≠ [.char '.']), cs ∈ p.text.splitOn (.char '/') :=
    fun _ hcs => List.mem_of_mem_filter hcs
  split at h
  · rcases List.mem_cons.1 h with h | h
    · exact .inl h
    · exact .inr (hbody cs h)
  · split_ifs at h with hdot
    · rcases List.mem_cons.1 h with h | h
      · exact .inr (h ▸ List.mem_of_head? hdot)
      · exact .inr (hbody cs h)
    · exact .inr (hbody cs h)

theorem mem_components_of_splitOn {cs : OsString} (h : cs ∈ p.text.splitOn (.char '/'))
    (hne : cs ≠ []) (hdot : cs ≠ [.char '.']) : cs ∈ p.components := by
  have hbody : cs ∈ (p.text.splitOn (.char '/')).filter
      (fun cs => cs ≠ [] ∧ cs ≠ [.char '.']) :=
    List.mem_filter.2 ⟨h, decide_eq_true ⟨hne, hdot⟩⟩
  unfold components
  dsimp only
  split
  · exact List.mem_cons_of_mem _ hbody
  · split_ifs
    · exact List.mem_cons_of_mem _ hbody
    · exact hbody

/-- The filter sees the components of a path as they are printed. -/
theorem pathComponents_toStringLossy (p : PathBuf) :
    pathComponents p.toStringLossy = p.components.map OsString.toStringLossy := by
  have htext : p.toStringLossy.toList = p.text.map OsChar.lossy := String.toList_ofList
  have hsplit : (p.text.map OsChar.lossy).splitOn '/' =
      (p.text.splitOn (.char '/')).map (List.map OsChar.lossy) :=
    splitOn_map (fun c => OsChar.lossy_eq_iff (by decide)) p.text
  have hdot : ∀ cs : OsString, cs.map OsChar.lossy = ['.'] ↔ cs = [.char '.'] := by
    intro cs
    rw [List.map_eq_singleton_iff]
    constructor
    · rintro ⟨c, rfl, hc⟩
      rw [(OsChar.lossy_eq_iff (by decide)).1 hc]
    · rintro rfl
      exact ⟨_, rfl, rfl⟩
  have hnames : (((p.text.splitOn (.char '/')).map (List.map OsChar.lossy)).filter
      fun cs => cs ≠ [] ∧ cs ≠ ['.']).map String.ofList = p.names.map OsString.toStringLossy := by
    unfold names
    rw [List.filter_map, List.map_map]
    refine congrArg _ (List.filter_congr fun cs _ => ?_)
    rw [Function.comp_apply, decide_eq_decide, Ne, Ne, List.map_eq_nil_iff, hdot]
  unfold pathComponents
  rw [htext, hsplit]
  dsimp only
  rw [hnames]
  by_cases h : p.text.head? = some (.char '/')
  · rw [components_of_head h]
    rcases ht : p.text with _ | ⟨c, rest⟩
    · rw [ht] at h
      cases h
    · rw [ht] at h
      cases h
      rfl
  · have hhead : ((p.text.splitOn (.char '/')).map (List.map OsChar.lossy)).head? = some ['.'] ↔
        (p.text.splitOn (.char '/')).head? = some [.char '.'] := by
      rw [List.head?_map, Option.map_eq_some_iff]
      constructor
      · rintro ⟨cs, hcs, h⟩
        rw [hcs, (hdot cs).1 h]
      · exact fun h => ⟨_, h, rfl⟩
    rw [components_of_head_ne h]
    split
    · rename_i rest hrest
      obtain ⟨c, cs, hp, hc, -⟩ := List.map_eq_cons_iff.1 hrest
      rw [hp, (OsChar.lossy_eq_iff (by decide)).1 hc] at h
      exact absurd rfl h
    · simp only [hhead]
      split_ifs <;> rfl

/-- What is not UTF-8 in a path is in a component. -/
theorem toStr_isSome : p.toStr.isSome ↔ ∀ cs ∈ p.components, ∀ c ∈ cs, c.toChar.isSome := by
  unfold toStr
  rw [OsString.toStr_isSome]
  constructor
  · intro h cs hcs c hc
    rcases mem_components hcs with rfl | hcs
    · rw [List.mem_singleton.1 hc]
      rfl
    · by_cases hsep : c = .char '/'
      · rw [hsep]
        rfl
      · exact h c ((exists_mem_splitOn hsep p.text).1 ⟨cs, hcs, hc⟩)
  · intro h c hc
    cases c with
    | char c => rfl
    | invalid bytes =>
      obtain ⟨cs, hcs, hmem⟩ := (exists_mem_splitOn (c := .invalid bytes) (a := .char '/')
        (by simp) p.text).2 hc
      refine h cs (mem_components_of_splitOn hcs ?_ ?_) _ hmem
      · exact List.ne_nil_of_mem hmem
      · rintro rfl
        cases List.mem_singleton.1 hmem

theorem Same.toStr_isSome (h : p.Same q) : p.toStr.isSome ↔ q.toStr.isSome := by
  rw [PathBuf.toStr_isSome, PathBuf.toStr_isSome, h]

/-! ## Joined paths -/

variable {root rel : PathBuf}

theorem head_join (habs : root.isAbsolute = true) :
    (root.join rel).text.head? = some (.char '/') := by
  have hroot : ∀ l, (root.text ++ l).head? = some (.char '/') := fun l =>
    List.head?_append.trans (by rw [isAbsolute_iff.1 habs]; rfl)
  unfold join
  split_ifs with h
  · exact h
  · exact hroot _
  · exact hroot _

/-- The names of a relative path come after the components of the root. -/
theorem components_join (habs : root.isAbsolute = true)
    (hrel : rel.text.head? ≠ some (.char '/')) :
    (root.join rel).components = root.components ++ rel.names := by
  have hnames : (root.join rel).names = root.names ++ rel.names := by
    unfold join names
    rw [if_neg hrel]
    split_ifs with h
    · rcases h with hnil | hlast
      · rw [hnil]
        rfl
      · obtain ⟨t, ht⟩ := List.getLast?_eq_some_iff.1 hlast
        rw [ht, List.append_assoc, List.singleton_append, List.splitOn_append_cons_self,
          List.splitOn_append_cons_self, List.filter_append, List.filter_append]
        simp [List.splitOn_nil]
    · dsimp only
      rw [List.splitOn_append_cons_self, List.filter_append]
  rw [components_of_head (head_join habs), components_of_head (isAbsolute_iff.1 habs), hnames]
  rfl

/-- No absolute path is printed like a relative one. -/
theorem toStringLossy_join_ne (habs : root.isAbsolute = true)
    (hrel : rel.text.head? ≠ some (.char '/')) :
    (root.join rel).toStringLossy ≠ rel.toStringLossy := by
  intro h
  have hhead : ((root.join rel).text.map OsChar.lossy).head? =
      (rel.text.map OsChar.lossy).head? :=
    congrArg List.head? (String.ofList_injective h)
  rw [List.head?_map, List.head?_map, head_join habs] at hhead
  obtain ⟨c, hc, hslash⟩ := Option.map_eq_some_iff.1 hhead.symm
  rw [(OsChar.lossy_eq_iff (by decide)).1 hslash] at hc
  exact hrel hc

end PathBuf

end AmbientFs
