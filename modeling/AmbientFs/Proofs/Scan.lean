import AmbientFs.Proofs.Path
import AmbientFs.Proofs.TreeOrder

/-!
# What a scan finds

A scan of a file system adds visible entries no deeper than the cap, each once, with its kind.
It finds all of them unless there are more than the cap on entries, and then it finds as many as
the cap allows.
-/

namespace AmbientFs

open TreeNode

namespace ProjectTree

section Regions

variable {fs : Fs} {filter : PathFilter}

/-- The visible entries below `p`, as far as `levels` levels. -/
def below (fs : Fs) (filter : PathFilter) (levels : ℕ) (p : List String) : Set (List String) :=
  {q | p <+: q ∧ p ≠ q ∧ q.length ≤ p.length + levels ∧ fs.Visible filter q}

/-- The visible entries at and below `c`, as far as `levels` levels below it. -/
def under (fs : Fs) (filter : PathFilter) (levels : ℕ) (c : List String) : Set (List String) :=
  {q | c <+: q ∧ q.length ≤ c.length + levels ∧ fs.Visible filter q}

/-- The visible entries at and below the listed ones. -/
def listed (fs : Fs) (filter : PathFilter) (levels : ℕ) (p : List String) (names : List String) :
    Set (List String) :=
  {q | ∃ name ∈ names, q ∈ under fs filter levels (p ++ [name])}

theorem listed_cons (levels : ℕ) (p : List String) (name : String) (names : List String) :
    listed fs filter levels p (name :: names) =
      under fs filter levels (p ++ [name]) ∪ listed fs filter levels p names := by
  ext q
  simp [listed]

theorem not_prefix_of_mem_listed {levels : ℕ} {p q : List String} {name : String}
    {names : List String} (hq : q ∈ listed fs filter levels p names) (hn : name ∉ names) :
    ¬ p ++ [name] <+: q := by
  rintro h
  obtain ⟨name', hn', hpre, -⟩ := hq
  have := List.prefix_of_prefix_length_le h hpre (by simp)
  rw [List.prefix_append_right_inj, List.cons_prefix_cons] at this
  exact hn (this.1 ▸ hn')

theorem under_of_not_visible {c : List String} (levels : ℕ) (hc : c ≠ [])
    (h : ¬ fs.Visible filter c) : under fs filter levels c = ∅ := by
  refine Set.eq_empty_of_forall_notMem ?_
  rintro q ⟨hcq, -, hq⟩
  by_cases he : c = q
  · exact h (he ▸ hq)
  · exact h ⟨hc, shouldIgnore_above (fs.validPath hq.ne_none) hcq hq.2.1,
      .inr (fs.dir_of_below hq.ne_none hcq he)⟩

theorem under_of_visible {c : List String} (levels : ℕ) (h : fs.Visible filter c) :
    under fs filter levels c = {c} ∪ below fs filter levels c := by
  ext q
  simp only [under, below, Set.mem_ofPred_eq, Set.mem_union, Set.mem_singleton_iff]
  constructor
  · rintro ⟨hcq, hlen, hq⟩
    by_cases he : c = q
    · exact .inl he.symm
    · exact .inr ⟨hcq, he, hlen, hq⟩
  · rintro (rfl | ⟨hcq, -, hlen, hq⟩)
    · exact ⟨List.prefix_rfl, by omega, h⟩
    · exact ⟨hcq, hlen, hq⟩

theorem below_of_not_dir {c : List String} (levels : ℕ) (h : fs.map c ≠ some .dir) :
    below fs filter levels c = ∅ := by
  refine Set.eq_empty_of_forall_notMem ?_
  rintro q ⟨hcq, hne, -, hq⟩
  exact h (fs.dir_of_below hq.ne_none hcq hne)

theorem listed_eq_below {levels : ℕ} {p names : List String}
    (hn : ∀ name, name ∈ names ↔ fs.map (p ++ [name]) ≠ none) :
    listed fs filter levels p names = below fs filter (levels + 1) p := by
  ext q
  simp only [listed, under, below, Set.mem_ofPred_eq, List.length_append, List.length_singleton]
  constructor
  · rintro ⟨name, -, hpre, hlen, hq⟩
    refine ⟨(List.prefix_append p [name]).trans hpre, ?_, by omega, hq⟩
    rintro rfl
    simpa using hpre.length_le
  · rintro ⟨⟨r, rfl⟩, hne, hlen, hq⟩
    rcases r with _ | ⟨name, r⟩
    · exact absurd (List.append_nil p).symm hne
    have hpre : p ++ [name] <+: p ++ name :: r := ⟨r, by simp⟩
    refine ⟨name, (hn name).2 ?_, hpre, by omega, hq⟩
    by_cases he : p ++ [name] = p ++ name :: r
    · exact he ▸ hq.ne_none
    · simp [fs.dir_of_below hq.ne_none hpre he]

end Regions

section Scan

variable [Lowercase] {fs : Fs} {filter : PathFilter} {readDir : ReadDir}

/-- What a tree shows at `p` of the entry there. -/
def nodeAt (fs : Fs) (p : List String) : Bool × String :=
  (fs.map p = some .dir, joinPath p)

/-- The scan has found the entries `seen` and no others. -/
structure Scanned (fs : Fs) (filter : PathFilter) (st : ScanState) (seen : List (List String)) :
    Prop where
  reachable : st.root.Reachable
  entries : ∀ p ≠ [], st.root.entries p = if p ∈ seen then some (nodeAt fs p) else none
  visible : ∀ p ∈ seen, fs.Visible filter p
  nodup : seen.Nodup
  count : st.entryCount = seen.length
  le : seen.length ≤ maxEntries

/-- After `seen` the scan has found the entries of `region`, or some and reached the cap. -/
def Fills (fs : Fs) (filter : PathFilter) (region : Set (List String))
    (seen : List (List String)) (st : ScanState) : Prop :=
  ∃ new, Scanned fs filter st (seen ++ new) ∧ (∀ q ∈ new, q ∈ region) ∧
    ((∀ q ∈ region, q ∈ new) ∨ (st.entryCount = maxEntries ∧ ∃ q ∈ region, q ∉ seen ++ new))

theorem Scanned.fills_empty {st : ScanState} {seen : List (List String)}
    (h : Scanned fs filter st seen) : Fills fs filter ∅ seen st :=
  ⟨[], by rwa [List.append_nil], by simp, .inl (by simp)⟩

/-- One part is scanned after the other. -/
theorem Fills.trans {r₁ r₂ : Set (List String)} {seen : List (List String)} {st₁ st₂ : ScanState}
    (h₁ : Fills fs filter r₁ seen st₁)
    (h₂ : ∀ new, Scanned fs filter st₁ (seen ++ new) → (∀ q ∈ new, q ∈ r₁) →
      Fills fs filter r₂ (seen ++ new) st₂) : Fills fs filter (r₁ ∪ r₂) seen st₂ := by
  obtain ⟨new₁, hs₁, hn₁, hc₁⟩ := h₁
  obtain ⟨new₂, hs₂, hn₂, hc₂⟩ := h₂ new₁ hs₁ hn₁
  rw [List.append_assoc] at hs₂ hc₂
  refine ⟨new₁ ++ new₂, hs₂, fun q hq => ?_, ?_⟩
  · exact (List.mem_append.1 hq).imp (hn₁ q) (hn₂ q)
  rcases hc₁ with hc₁ | ⟨hcap, q, hq, hqn⟩
  · rcases hc₂ with hc₂ | ⟨hcap, q, hq, hqn⟩
    · left
      rintro q (hq | hq)
      · exact List.mem_append_left _ (hc₁ q hq)
      · exact List.mem_append_right _ (hc₂ q hq)
    · exact .inr ⟨hcap, q, .inr hq, hqn⟩
  · -- the first part has reached the cap, so the second adds nothing
    have hle := hs₂.le
    have hcount := hs₁.count
    simp only [List.length_append] at hle hcount
    have hnil : new₂ = [] := List.length_eq_zero_iff.1 (by omega)
    subst hnil
    rw [List.append_nil] at hs₂ ⊢
    refine .inr ⟨?_, q, .inl hq, hqn⟩
    rw [hs₂.count, List.length_append]
    omega

theorem Fills.cons {c : List String} {r : Set (List String)} {seen : List (List String)}
    {st : ScanState} (h : Fills fs filter r (seen ++ [c]) st) :
    Fills fs filter ({c} ∪ r) seen st := by
  obtain ⟨new, hs, hn, hc⟩ := h
  rw [List.append_assoc] at hs hc
  refine ⟨[c] ++ new, hs, fun q hq => ?_, hc.imp (fun hc q hq => ?_) ?_⟩
  · exact (List.mem_append.1 hq).imp List.mem_singleton.1 (hn q)
  · exact List.mem_append.2 (hq.imp List.mem_singleton.2 (hc q))
  · rintro ⟨hcap, q, hq, hqn⟩
    exact ⟨hcap, q, .inr hq, hqn⟩

/-- The state with one more entry added and counted. -/
def addEntry (st : ScanState) (path : String) (isDir : Bool) : ScanState :=
  ⟨(addNode st.root path isDir).1, st.entryCount + 1⟩

/-- Adding a child of what is there adds nothing else. -/
theorem entries_addNode_child {t : TreeNode} {p q : List String} {name : String} {isDir : Bool}
    (hvp : ValidPath (p ++ [name])) (hp : t.entries p ≠ none)
    (hnew : t.entries (p ++ [name]) = none) :
    (addNode t (joinPath (p ++ [name])) isDir).1.entries q =
      if q = p ++ [name] then some (isDir, joinPath (p ++ [name])) else t.entries q := by
  rw [entries_addNode, splitPath_joinPath hvp.components]
  unfold PathMap.add
  by_cases hqc : q = p ++ [name]
  · subst hqc
    rw [if_pos ⟨List.prefix_rfl, hnew⟩, if_pos rfl, fillIn, if_pos rfl]
  · rw [if_neg hqc, if_neg]
    rintro ⟨hpre, hnone⟩
    have hqp := (List.prefix_concat_iff.1 hpre).resolve_left hqc
    exact (closed_entries t).above hqp hp hnone

/-- Adding a child of what is there adds one entry. -/
theorem Scanned.add {st : ScanState} {seen : List (List String)} {p : List String} {name : String}
    (h : Scanned fs filter st seen) (hp : p = [] ∨ p ∈ seen)
    (hv : fs.Visible filter (p ++ [name])) (hnew : p ++ [name] ∉ seen)
    (hcap : seen.length < maxEntries) :
    Scanned fs filter (addEntry st (joinPath (p ++ [name])) (fs.map (p ++ [name]) = some .dir))
      (seen ++ [p ++ [name]]) := by
  unfold addEntry
  refine ⟨.add _ _ h.reachable, fun q hq => ?_, ?_, ?_, ?_, ?_⟩
  · have hpt : st.root.entries p ≠ none := by
      by_cases hpn : p = []
      · simp [hpn]
      · simp [h.entries p hpn, hp.resolve_left hpn]
    have hct : st.root.entries (p ++ [name]) = none := by
      rw [h.entries _ hv.1, if_neg hnew]
    rw [entries_addNode_child (fs.validPath hv.ne_none) hpt hct, h.entries q hq]
    by_cases hqc : q = p ++ [name]
    · simp [hqc, nodeAt]
    · simp [hqc]
  · intro q hq
    rcases List.mem_append.1 hq with hq | hq
    · exact h.visible q hq
    · exact List.mem_singleton.1 hq ▸ hv
  · exact List.nodup_append.2 ⟨h.nodup, by simp, by rintro a ha b hb rfl; simp_all⟩
  · simp [h.count]
  · simpa using hcap

section Loop

variable {p : List String} {recurse : String → ScanState → ScanState} {name : String}
  {entries : List (Option DirEntry)} {st : ScanState}

theorem scanEntries_cons (relativePath : String) (fileType : Option FileType) :
    scanEntries filter relativePath recurse (some ⟨some name, fileType⟩ :: entries) st =
      if filter.shouldIgnore (childRelative relativePath name) then
        scanEntries filter relativePath recurse entries st
      else
        match fileType with
        | none => scanEntries filter relativePath recurse entries st
        | some .symlink => scanEntries filter relativePath recurse entries st
        | some type =>
          if maxEntries ≤ st.entryCount then st
          else
            let st := addEntry st (childRelative relativePath name) (type = .dir)
            scanEntries filter relativePath recurse entries
              (if type = .dir then recurse (childRelative relativePath name) st else st) :=
  rfl

theorem scanEntries_of_not_visible (hd : fs.map p ≠ none) (hv : ¬ fs.Visible filter (p ++ [name])) :
    scanEntries filter (joinPath p) recurse
        (some ⟨some name, fs.map (p ++ [name])⟩ :: entries) st =
      scanEntries filter (joinPath p) recurse entries st := by
  rw [scanEntries_cons, childRelative_joinPath (fs.validPath hd)]
  by_cases hi : filter.shouldIgnore (joinPath (p ++ [name])) = true
  · rw [if_pos hi]
  rw [if_neg hi]
  rcases ht : fs.map (p ++ [name]) with _ | _ | _ | _
  · rfl
  · exact absurd ⟨by simp, by simpa using hi, .inl ht⟩ hv
  · exact absurd ⟨by simp, by simpa using hi, .inr ht⟩ hv
  · rfl

theorem scanEntries_of_visible (hd : fs.map p ≠ none) (hv : fs.Visible filter (p ++ [name])) :
    scanEntries filter (joinPath p) recurse
        (some ⟨some name, fs.map (p ++ [name])⟩ :: entries) st =
      if maxEntries ≤ st.entryCount then st
      else scanEntries filter (joinPath p) recurse entries
        (if fs.map (p ++ [name]) = some .dir then recurse (joinPath (p ++ [name]))
            (addEntry st (joinPath (p ++ [name])) (fs.map (p ++ [name]) = some .dir))
          else addEntry st (joinPath (p ++ [name])) (fs.map (p ++ [name]) = some .dir)) := by
  rw [scanEntries_cons, childRelative_joinPath (fs.validPath hd), hv.2.1]
  rcases hv.2.2 with ht | ht
  · rw [ht]
    rfl
  · rw [ht]
    rfl

end Loop

/-- The loop over a listing finds what is at and below the listed names. -/
theorem scanEntries_fills {p : List String} {levels : ℕ} {recurse : String → ScanState → ScanState}
    (hd : fs.map p = some .dir)
    (hr : ∀ c st seen, fs.map c = some .dir → c ∈ seen → Scanned fs filter st seen →
      (∀ q ∈ below fs filter levels c, q ∉ seen) →
      Fills fs filter (below fs filter levels c) seen (recurse (joinPath c) st)) :
    ∀ (names : List String) (st : ScanState) (seen : List (List String)), names.Nodup →
      (∀ name ∈ names, fs.map (p ++ [name]) ≠ none) → (p = [] ∨ p ∈ seen) →
      Scanned fs filter st seen → (∀ q ∈ listed fs filter levels p names, q ∉ seen) →
      Fills fs filter (listed fs filter levels p names) seen
        (scanEntries filter (joinPath p) recurse
          (names.map fun name => some ⟨some name, fs.map (p ++ [name])⟩) st) := by
  intro names
  induction names with
  | nil =>
    intro st seen _ _ _ h _
    refine ⟨[], by rwa [List.append_nil], by simp, .inl ?_⟩
    rintro q ⟨_, hq, -⟩
    exact absurd hq List.not_mem_nil
  | cons name names ih =>
    intro st seen hnd hmem hp h hdis
    obtain ⟨hname, hnd⟩ := List.nodup_cons.1 hnd
    have hmem := (List.forall_mem_cons.1 hmem).2
    have hdn : fs.map p ≠ none := by simp [hd]
    rw [List.map_cons, listed_cons]
    rw [listed_cons] at hdis
    by_cases hv : fs.Visible filter (p ++ [name])
    · rw [scanEntries_of_visible hdn hv]
      have hcs : p ++ [name] ∉ seen :=
        hdis _ (.inl ⟨List.prefix_rfl, by omega, hv⟩)
      rw [under_of_visible levels hv, Set.union_assoc] at hdis ⊢
      split_ifs with hcap hdir
      · refine ⟨[], by rwa [List.append_nil], by simp, .inr ⟨?_, _, .inl rfl, by simpa using hcs⟩⟩
        have := h.count ▸ h.le
        omega
      · have h₁ := h.add hp hv hcs (by rw [← h.count]; omega)
        refine Fills.cons (Fills.trans (hr _ _ _ hdir (by simp) h₁ ?_) fun new h₂ hn => ?_)
        · intro q hq
          simpa [Ne.symm hq.2.1] using hdis q (.inr (.inl hq))
        · refine ih _ _ hnd hmem (hp.imp_right fun hp => by simp [hp]) h₂ fun q hq => ?_
          have hpre := not_prefix_of_mem_listed hq hname
          have hqc : q ≠ p ++ [name] := by rintro rfl; exact hpre List.prefix_rfl
          have hqn : q ∉ new := fun hqn => hpre (hn q hqn).1
          simpa [hqc, hqn] using hdis q (.inr (.inr hq))
      · have h₁ := h.add hp hv hcs (by rw [← h.count]; omega)
        rw [below_of_not_dir levels hdir, Set.empty_union]
        refine Fills.cons (ih _ _ hnd hmem (hp.imp_right fun hp => by simp [hp]) h₁ fun q hq => ?_)
        have hqc : q ≠ p ++ [name] := by
          rintro rfl
          exact not_prefix_of_mem_listed hq hname List.prefix_rfl
        simpa [hqc] using hdis q (.inr (.inr hq))
    · rw [scanEntries_of_not_visible hdn hv, under_of_not_visible levels (by simp) hv,
        Set.empty_union]
      rw [under_of_not_visible levels (by simp) hv, Set.empty_union] at hdis
      exact ih st seen hnd hmem hp h hdis

/-- Scanning a directory finds what is below it, as far as there are levels left. -/
theorem scanDirectory_fills (hl : fs.Lists readDir) : ∀ (levels : ℕ) (p : List String)
    (st : ScanState) (seen : List (List String)), fs.map p = some .dir → (p = [] ∨ p ∈ seen) →
    Scanned fs filter st seen → (∀ q ∈ below fs filter levels p, q ∉ seen) →
    Fills fs filter (below fs filter levels p) seen
      (scanDirectory readDir filter levels (joinPath p) st)
  | 0, p, st, seen, _, _, h, _ => by
    have hempty : below fs filter 0 p = ∅ := by
      refine Set.eq_empty_of_forall_notMem ?_
      rintro q ⟨hpq, hne, hlen, -⟩
      exact hne (hpq.eq_of_length_le hlen)
    rw [hempty]
    exact h.fills_empty
  | levels + 1, p, st, seen, hd, hp, h, hdis => by
    obtain ⟨names, hnd, hmem, hread⟩ := hl p hd
    rw [scanDirectory, hread]
    rw [← listed_eq_below hmem] at hdis ⊢
    refine scanEntries_fills hd (fun c st seen hc hcs h hdis => ?_) names st seen hnd
      (fun name hn => (hmem name).1 hn) hp h hdis
    exact scanDirectory_fills hl levels c st seen hc (.inr hcs) h hdis

/-- The state a scan of the project ends in. -/
def scanned (readDir : ReadDir) (filter : PathFilter) (dirName : Option String) : ScanState :=
  scanDirectory readDir filter maxDepth "" ⟨(new (dirName.getD "unknown")).root, 0⟩

theorem fromDirectory_root (readDir : ReadDir) (filter : PathFilter) (dirName : Option String) :
    (fromDirectory readDir filter dirName).root = (scanned readDir filter dirName).root := rfl

variable (filter) in
/-- What a whole scan finds. -/
theorem fromDirectory_scanned (hl : fs.Lists readDir) (dirName : Option String) :
    ∃ seen, Scanned fs filter (scanned readDir filter dirName) seen ∧
      (∀ p ∈ seen, p.length ≤ maxDepth) ∧
      ((∀ p, fs.Visible filter p → p.length ≤ maxDepth → p ∈ seen) ∨
        (seen.length = maxEntries ∧
          ∃ p, fs.Visible filter p ∧ p.length ≤ maxDepth ∧ p ∉ seen)) := by
  have hempty : Scanned fs filter ⟨(new (dirName.getD "unknown")).root, 0⟩ [] := by
    refine ⟨.new, fun p hp => ?_, by simp, .nil, rfl, Nat.zero_le _⟩
    obtain ⟨name, rest, rfl⟩ := List.exists_cons_of_ne_nil hp
    rfl
  obtain ⟨new, hs, hn, hc⟩ := scanDirectory_fills hl maxDepth [] _ [] fs.root (.inl rfl) hempty
    (fun _ _ => List.not_mem_nil)
  rw [List.nil_append] at hs hc
  refine ⟨new, hs, fun p hp => by simpa using (hn p hp).2.2.1, hc.imp ?_ ?_⟩
  · exact fun hc p hp hlen => hc p ⟨List.nil_prefix, hp.1.symm, by simpa using hlen, hp⟩
  · rintro ⟨hcap, q, hq, hqn⟩
    exact ⟨hs.count ▸ hcap, q, hq.2.2.2, by simpa using hq.2.2.1, hqn⟩

omit [Lowercase] in
/-- A set with an element beside those found has more than were found. -/
theorem length_lt_encard {P : Set (List String)} {seen : List (List String)} {q : List String}
    (hnd : seen.Nodup) (hsub : ∀ p ∈ seen, p ∈ P) (hq : q ∈ P) (hqn : q ∉ seen) :
    (seen.length : ℕ∞) < P.encard := by
  have hle : ((q :: seen).toFinset : Set (List String)) ⊆ P := by
    intro r hr
    simp only [List.coe_toFinset, List.mem_cons, Set.mem_ofPred_eq] at hr
    rcases hr with rfl | hr
    · exact hq
    · exact hsub r hr
  refine lt_of_lt_of_le ?_ (Set.encard_le_encard hle)
  rw [Set.encard_coe_eq_coe_finsetCard, List.toFinset_card_of_nodup (List.nodup_cons.2 ⟨hqn, hnd⟩),
    List.length_cons, Nat.cast_lt]
  omega

end Scan

end ProjectTree

end AmbientFs
