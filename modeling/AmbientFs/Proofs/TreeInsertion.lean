import AmbientFs.Proofs.Path
import AmbientFs.Proofs.TreeOrder

/-!
# The order of additions

What a node shows was put there by the first path added at or below it, and siblings with equal
keys stand by who came when. So adding a set of paths to an empty root in any order gives one tree
exactly if all that put something at a place put the same there (`Spelled`), and no two siblings
have equal keys (`KeysApart`).
-/

namespace AmbientFs

open ListSearch TreeNode

/-- No two pairs are about one path, and one above another is a directory written with single
slashes. -/
def Spelled (S : Finset (String × Bool)) : Prop :=
  ∀ a ∈ S, ∀ b ∈ S, splitPath a.1 ≠ [] → splitPath a.1 <+: splitPath b.1 →
    a = b ∨ (splitPath a.1 ≠ splitPath b.1 ∧ a = (joinPath (splitPath a.1), true))

/-- Whether adding the pair makes a directory at `q`, where its path is at or below that. -/
def isDirAt (a : String × Bool) (q : List String) : Bool := q ≠ splitPath a.1 || a.2

/-- No path occurs with both kinds, and what is above another path is a directory. -/
def KindsAgree (S : Finset (String × Bool)) : Prop :=
  (∀ a ∈ S, ∀ b ∈ S, splitPath a.1 = splitPath b.1 → a.2 = b.2) ∧
    ∀ a ∈ S, ∀ b ∈ S, splitPath a.1 <+: splitPath b.1 → splitPath a.1 ≠ splitPath b.1 → a.2 = true

section Insertion

variable [Lowercase]

/-- No two places next to each other, of one kind, have names that differ in case only. -/
def KeysApart (S : Finset (String × Bool)) : Prop :=
  ∀ a ∈ S, ∀ b ∈ S, ∀ q x y, q ++ [x] <+: splitPath a.1 → q ++ [y] <+: splitPath b.1 →
    isDirAt a (q ++ [x]) = isDirAt b (q ++ [y]) →
      Lowercase.toLowercase x = Lowercase.toLowercase y → x = y

/-- Adds pairs of a path and a kind in the order of the list. -/
def addAll (t : TreeNode) (l : List (String × Bool)) : TreeNode :=
  l.foldl (fun t a => (addNode t a.1 a.2).1) t

/-- Any two orders of adding the pairs give the same tree. -/
def OrderFree (t : TreeNode) (S : Finset (String × Bool)) : Prop :=
  ∀ l₁ l₂ : List (String × Bool), (l₁ : Multiset (String × Bool)) = S.val →
    (l₂ : Multiset (String × Bool)) = S.val → addAll t l₁ = addAll t l₂

/-- What a pair puts where. -/
def filling (a : String × Bool) : List String × (List String → Bool × String) :=
  (splitPath a.1, fillIn a.1 a.2 (splitPath a.1))

theorem entries_addAll (t : TreeNode) (l : List (String × Bool)) :
    (addAll t l).entries = t.entries.addAll (l.map filling) := by
  induction l generalizing t with
  | nil => rfl
  | cons a l ih =>
    exact (ih (addNode t a.1 a.2).1).trans (by rw [entries_addNode]; rfl)

theorem TreeNode.Ordered.addAll {t : TreeNode} (h : t.Ordered) (l : List (String × Bool)) :
    (addAll t l).Ordered := by
  induction l generalizing t with
  | nil => exact h
  | cons a l ih => exact ih (h.addNodeRecursive a.1 a.2 _)

theorem addAll_name (t : TreeNode) (l : List (String × Bool)) : (addAll t l).name = t.name := by
  induction l generalizing t with
  | nil => rfl
  | cons a l ih => exact (ih _).trans (addNodeRecursive_same a.1 a.2 _ t).1

/-! ## What is put at a place -/

omit [Lowercase] in
/-- Two pairs put the same wherever they both put something. -/
theorem spelled_iff {S : Finset (String × Bool)} : Spelled S ↔
    ∀ a ∈ S, ∀ b ∈ S, ∀ q ≠ [], q <+: splitPath a.1 → q <+: splitPath b.1 →
      (filling a).2 q = (filling b).2 q := by
  unfold Spelled filling
  constructor
  · intro h a ha b hb q hq haq hbq
    simp only [fillIn_splitPath _ _ hq haq, fillIn_splitPath _ _ hq hbq]
    split_ifs with h1 h2 h2
    · rcases h a ha b hb (h1 ▸ hq) (h1 ▸ hbq) with rfl | ⟨hne, -⟩
      · rfl
      · exact absurd (h1.symm.trans h2) hne
    · rcases h a ha b hb (h1 ▸ hq) (h1 ▸ hbq) with rfl | ⟨-, he⟩
      · exact absurd h1 h2
      · rw [congrArg Prod.snd he, congrArg Prod.fst he, h1]
    · rcases h b hb a ha (h2 ▸ hq) (h2 ▸ haq) with rfl | ⟨-, he⟩
      · exact absurd h2 h1
      · rw [congrArg Prod.snd he, congrArg Prod.fst he, h2]
    · rfl
  · intro h a ha b hb hne hpre
    have hfill := h a ha b hb _ hne List.prefix_rfl hpre
    simp only [fillIn_splitPath _ _ hne List.prefix_rfl, fillIn_splitPath _ _ hne hpre,
      if_true] at hfill
    split_ifs at hfill with heq
    · left
      exact Prod.ext (congrArg Prod.snd hfill) (congrArg Prod.fst hfill)
    · right
      exact ⟨heq, Prod.ext (congrArg Prod.snd hfill) (congrArg Prod.fst hfill)⟩

/-- Sets of pairs that agree on what they put where make the same entries in any order. -/
theorem entries_addAll_congr {S : Finset (String × Bool)} (h : Spelled S) (t : TreeNode)
    {l₁ l₂ : List (String × Bool)} (h₁ : (l₁ : Multiset (String × Bool)) = S.val)
    (h₂ : (l₂ : Multiset (String × Bool)) = S.val) :
    (addAll t l₁).entries = (addAll t l₂).entries := by
  have hmem : ∀ a, a ∈ l₁ ↔ a ∈ S := fun a => by rw [← Multiset.mem_coe, h₁, Finset.mem_val]
  have hmem' : ∀ a, a ∈ l₂ ↔ a ∈ S := fun a => by rw [← Multiset.mem_coe, h₂, Finset.mem_val]
  rw [entries_addAll, entries_addAll]
  refine PathMap.addAll_congr (fun a => ?_) ?_
  · simp only [List.mem_map, hmem, hmem']
  · intro a ha b hb q haq hbq hq
    obtain ⟨a, hal, rfl⟩ := List.mem_map.1 ha
    obtain ⟨b, hbl, rfl⟩ := List.mem_map.1 hb
    have hne : q ≠ [] := by
      rintro rfl
      simp at hq
    exact spelled_iff.1 h a ((hmem a).1 hal) b ((hmem b).1 hbl) q hne haq hbq

omit [Lowercase] in
theorem fst_filling (a : String × Bool) (q : List String) :
    ((filling a).2 q).1 = isDirAt a q := by
  unfold filling fillIn isDirAt
  simp only []
  split_ifs with hq
  · simp [hq]
  · simp [hq]

/-- The nodes of a tree made of an empty root are those the pairs put there. -/
theorem exists_of_entries_addAll {t : TreeNode} (ht : t.children = [])
    {l : List (String × Bool)} {q : List String} {d : Bool × String} (hq : q ≠ [])
    (hd : (addAll t l).entries q = some d) :
    ∃ a ∈ l, q <+: splitPath a.1 ∧ d.1 = isDirAt a q := by
  obtain ⟨name, rest, rfl⟩ := List.exists_cons_of_ne_nil hq
  have hnone : t.entries (name :: rest) = none := entries_cons_of_none (by simp [ht]) rest
  rw [entries_addAll] at hd
  rcases PathMap.addAll_of_none (l := l.map filling) hnone with ⟨hn, -⟩ | ⟨b, hb, hbq, hs⟩
  · rw [hn] at hd
    cases hd
  · obtain ⟨a, ha, rfl⟩ := List.mem_map.1 hb
    rw [hs] at hd
    refine ⟨a, ha, hbq, ?_⟩
    rw [← Option.some.inj hd, fst_filling]

/-- Siblings' keys are distinct where the entries say so. -/
theorem TreeNode.Ordered.keysDistinct {t : TreeNode} (h : t.Ordered)
    (hk : ∀ q x y d d', t.entries (q ++ [x]) = some d → t.entries (q ++ [y]) = some d' →
      d.1 = d'.1 → Lowercase.toLowercase x = Lowercase.toLowercase y → x = y) :
    t.KeysDistinct := by
  induction h with
  | @mk t hnd hs hch ih =>
    have ht := Ordered.mk hnd hs hch
    refine .mk (List.Nodup.map_on (fun c hc c' hc' hkey => ?_) hnd.of_map) fun c hc => ?_
    · have hkey := Prod.mk.inj (toLex_inj.1 hkey)
      have hname : c.name = c'.name := by
        refine hk [] c.name c'.name c.data c'.data ?_ ?_ (by simpa [data] using hkey.1) hkey.2
        · exact entries_cons_of_some (ht.find?_name hc) []
        · exact entries_cons_of_some (ht.find?_name hc') []
      exact List.inj_on_of_nodup_map hnd hc hc' hname
    · refine ih c hc fun q x y d d' hx hy => hk (c.name :: q) x y d d' ?_ ?_
      · rw [List.cons_append, entries_cons_of_some (ht.find?_name hc), hx]
      · rw [List.cons_append, entries_cons_of_some (ht.find?_name hc), hy]

theorem orderFree_of_apart {t : TreeNode} (ht : t.children = []) {S : Finset (String × Bool)}
    (hs : Spelled S) (hk : KeysApart S) : OrderFree t S := by
  intro l₁ l₂ h₁ h₂
  have ho := ordered_of_no_children ht
  have hkeys : (addAll t l₁).KeysDistinct := by
    refine (ho.addAll l₁).keysDistinct fun q x y d d' hx hy hdd hxy => ?_
    obtain ⟨a, ha, hax, hda⟩ := exists_of_entries_addAll ht (by simp) hx
    obtain ⟨b, hb, hby, hdb⟩ := exists_of_entries_addAll ht (by simp) hy
    have hmem : ∀ a, a ∈ l₁ → a ∈ S := fun a ha => by
      rw [← Finset.mem_val, ← h₁]
      exact ha
    exact hk a (hmem a ha) b (hmem b hb) q x y hax hby (by rw [← hda, ← hdb, hdd]) hxy
  refine (ho.addAll l₁).eq_of_entries hkeys (ho.addAll l₂) ?_ (entries_addAll_congr hs t h₁ h₂)
  rw [addAll_name, addAll_name]

/-! ## Siblings with equal keys -/

/-- The names of the children of the node at `q`, in order. -/
def childNames (t : TreeNode) (q : List String) : List String :=
  (findNodeRecursive q t).elim [] fun n => n.children.map TreeNode.name

omit [Lowercase] in
theorem childNames_cons (t : TreeNode) (name : String) (q : List String) :
    childNames t (name :: q) =
      (t.children.find? fun c => c.name == name).elim [] fun c => childNames c q := by
  unfold childNames
  rw [findNodeRecursive_cons]
  generalize t.children.find? _ = found
  rcases found with _ | c <;> rfl

/-- Adding keeps the children there are in their order. -/
theorem childNames_sublist (fullPath : String) (isDir : Bool) : ∀ (parts q : List String)
    (t : TreeNode),
    (childNames t q).Sublist (childNames (addNodeRecursive fullPath isDir parts t).1 q)
  | [], _, _ => List.Sublist.refl _
  | name :: rest, q, t => by
    rcases hf : t.children.find? fun c => c.name == name with _ | c
    · obtain ⟨c, hcn, -, -, heq⟩ := addNodeRecursive_of_none fullPath isDir rest hf
      obtain ⟨l₁, l₂, hl, hins⟩ :=
        insertSorted_eq t.children (addNodeRecursive fullPath isDir rest c).1
      have hname := (addNodeRecursive_same fullPath isDir rest c).1.trans hcn
      rw [heq]
      rcases q with _ | ⟨k, q⟩
      · simp only [childNames, findNodeRecursive, Option.elim_some, withChildren_children, hins]
        rw [hl, List.map_append, List.map_append, List.map_cons]
        exact (List.sublist_cons_self _ _).append_left _
      · rw [childNames_cons, childNames_cons, withChildren_children, hins]
        by_cases hk : name = k
        · rw [← hk, hf]
          exact List.nil_sublist _
        · rw [find?_insert_of_neg (by simpa [hname] using hk), ← hl]
    · obtain ⟨l₁, l₂, hl, hcn, hl₁, heq⟩ := addNodeRecursive_of_some fullPath isDir rest hf
      have hname := (addNodeRecursive_same fullPath isDir rest c).1
      rw [heq]
      rcases q with _ | ⟨k, q⟩
      · simp [childNames, findNodeRecursive, hl, hname]
      · rw [childNames_cons, childNames_cons, withChildren_children]
        by_cases hk : name = k
        · subst hk
          rw [find?_append_cons hl₁ (by simp [hname, hcn]), hf]
          exact childNames_sublist fullPath isDir rest q c
        · rw [find?_insert_of_neg (by simpa [hname, hcn] using hk),
            ← find?_insert_of_neg (a := c) (by simpa [hcn] using hk), ← hl]

theorem childNames_sublist_addAll (l : List (String × Bool)) (q : List String) (t : TreeNode) :
    (childNames t q).Sublist (childNames (addAll t l) q) := by
  induction l generalizing t with
  | nil => exact List.Sublist.refl _
  | cons a l ih => exact (childNames_sublist a.1 a.2 _ q t).trans (ih _)

theorem insertSorted_nil (c : TreeNode) : insertSorted [] c = [c] := rfl

/-- A path added where nothing was brings one child on each level. -/
theorem find_addNodeRecursive_empty (fullPath : String) (isDir : Bool) (x : String)
    (rest : List String) : ∀ (q : List String) {t : TreeNode}, t.children = [] →
      ∃ c n, c.name = x ∧ c.data = fillIn fullPath isDir (x :: rest) [x] ∧ n.children = [c] ∧
        findNodeRecursive q (addNodeRecursive fullPath isDir (q ++ x :: rest) t).1 = some n
  | [], t, ht => by
    have hnone : t.children.find? (fun c => c.name == x) = none := by simp [ht]
    obtain ⟨c, hcn, -, hcd, heq⟩ := addNodeRecursive_of_none fullPath isDir rest hnone
    obtain ⟨hn, hd⟩ := addNodeRecursive_same fullPath isDir rest c
    refine ⟨_, _, hn.trans hcn, hd.trans hcd, ?_, congrArg some (congrArg Prod.fst heq)⟩
    rw [withChildren_children, ht]
    rfl
  | k :: q, t, ht => by
    have hnone : t.children.find? (fun c => c.name == k) = none := by simp [ht]
    obtain ⟨c, hcn, hcc, -, heq⟩ :=
      addNodeRecursive_of_none fullPath isDir (q ++ x :: rest) hnone
    have hname := (addNodeRecursive_same fullPath isDir (q ++ x :: rest) c).1.trans hcn
    obtain ⟨c', n, h⟩ := find_addNodeRecursive_empty fullPath isDir x rest q hcc
    refine ⟨c', n, h.1, h.2.1, h.2.2.1, ?_⟩
    rw [List.cons_append, heq, findNodeRecursive_cons, withChildren_children, ht, insertSorted_nil,
      List.find?_cons_of_pos (by simp [hname])]
    exact h.2.2.2

/-- A path added to a node that has no child of its next name is inserted there. -/
theorem find_addNodeRecursive_insert (fullPath : String) (isDir : Bool) (y : String)
    (rest : List String) : ∀ (q : List String) {t n : TreeNode}, findNodeRecursive q t = some n →
      n.children.find? (fun c => c.name == y) = none →
      ∃ c n', c.name = y ∧ c.data = fillIn fullPath isDir (y :: rest) [y] ∧
        n'.children = insertSorted n.children c ∧
        findNodeRecursive q (addNodeRecursive fullPath isDir (q ++ y :: rest) t).1 = some n'
  | [], t, n, hn, hf => by
    obtain rfl : t = n := Option.some.inj hn
    obtain ⟨c, hcn, -, hcd, heq⟩ := addNodeRecursive_of_none fullPath isDir rest hf
    obtain ⟨hn, hd⟩ := addNodeRecursive_same fullPath isDir rest c
    exact ⟨_, _, hn.trans hcn, hd.trans hcd, rfl, congrArg some (congrArg Prod.fst heq)⟩
  | k :: q, t, n, hn, hf => by
    rw [findNodeRecursive_cons, Option.bind_eq_some_iff] at hn
    obtain ⟨c, hc, hn⟩ := hn
    obtain ⟨l₁, l₂, -, hcn, hl₁, heq⟩ :=
      addNodeRecursive_of_some fullPath isDir (q ++ y :: rest) hc
    have hname := (addNodeRecursive_same fullPath isDir (q ++ y :: rest) c).1.trans hcn
    obtain ⟨c', n', h⟩ := find_addNodeRecursive_insert fullPath isDir y rest q hn hf
    refine ⟨c', n', h.1, h.2.1, h.2.2.1, ?_⟩
    rw [List.cons_append, heq, findNodeRecursive_cons, withChildren_children,
      find?_append_cons hl₁ (by simp [hname])]
    exact h.2.2.2

omit [Lowercase] in
theorem isDir_of_fillIn {a : String × Bool} {q rest : List String} {x : String} {c : TreeNode}
    (ha : splitPath a.1 = q ++ x :: rest) (hc : c.data = fillIn a.1 a.2 (x :: rest) [x]) :
    c.isDir = isDirAt a (q ++ [x]) := by
  have hd := congrArg Prod.fst hc
  unfold isDirAt
  rw [ha]
  rcases rest with _ | ⟨z, rest⟩
  · simpa [data, fillIn] using hd
  · simpa [data, fillIn] using hd

/-- Of two siblings with equal keys the one that comes later stands first. -/
theorem childNames_of_tie {t : TreeNode} (ht : t.children = []) {a b : String × Bool}
    {q r r' : List String} {x y : String} (ha : splitPath a.1 = q ++ x :: r)
    (hb : splitPath b.1 = q ++ y :: r') (hne : x ≠ y)
    (hd : isDirAt a (q ++ [x]) = isDirAt b (q ++ [y]))
    (hxy : Lowercase.toLowercase x = Lowercase.toLowercase y) :
    childNames (addAll t [a, b]) q = [y, x] := by
  obtain ⟨c, n, hcn, hcd, hnc, hfind⟩ := find_addNodeRecursive_empty a.1 a.2 x r q ht
  obtain ⟨c', n', hcn', hcd', hnc', hfind'⟩ := find_addNodeRecursive_insert b.1 b.2 y r' q hfind
    (by simp [hnc, hcn, hne])
  have hkey : c.sortKey = c'.sortKey := by
    unfold sortKey
    rw [isDir_of_fillIn ha hcd, isDir_of_fillIn hb hcd', hd, hcn, hcn', hxy]
  have hins : insertSorted [c] c' = [c', c] :=
    insertIdx_position_singleton (compare_eq_iff_eq.2 hkey)
  unfold addAll childNames
  simp only [List.foldl_cons, List.foldl_nil, addNode, ha, hb, hfind', Option.elim_some, hnc', hnc,
    hins, List.map_cons, List.map_nil, hcn, hcn']

theorem TreeNode.Ordered.childNames_nodup : ∀ (q : List String) {t : TreeNode}, t.Ordered →
    (childNames t q).Nodup
  | [], _, h => h.nodup
  | name :: q, t, h => by
    rw [childNames_cons]
    rcases hf : t.children.find? fun c => c.name == name with _ | c
    · rw [hf]
      exact List.nodup_nil
    · rw [hf]
      exact childNames_nodup q (h.child c (List.mem_of_find?_eq_some hf))

/-! ## Any order -/

omit [Lowercase] in
theorem exists_order {S : Finset (String × Bool)} {a : String × Bool} (ha : a ∈ S) :
    ∃ l : List (String × Bool), ((a :: l : List _) : Multiset (String × Bool)) = S.val := by
  refine ⟨(S.val.erase a).toList, ?_⟩
  rw [← Multiset.cons_coe, Multiset.coe_toList]
  exact Multiset.cons_erase ha

omit [Lowercase] in
theorem exists_orders {S : Finset (String × Bool)} {a b : String × Bool} (ha : a ∈ S) (hb : b ∈ S)
    (hne : a ≠ b) : ∃ l : List (String × Bool),
      ((a :: b :: l : List _) : Multiset (String × Bool)) = S.val ∧
        ((b :: a :: l : List _) : Multiset (String × Bool)) = S.val := by
  obtain ⟨l, hl⟩ := exists_order (Finset.mem_erase.2 ⟨hne.symm, hb⟩)
  have hab : ((a :: b :: l : List _) : Multiset (String × Bool)) = S.val := by
    rw [← Multiset.cons_coe, hl, Finset.erase_val]
    exact Multiset.cons_erase ha
  exact ⟨l, hab, (Multiset.coe_eq_coe.2 (List.Perm.swap a b l)).trans hab⟩

theorem OrderFree.spelled {t : TreeNode} (ht : t.children = []) {S : Finset (String × Bool)}
    (h : OrderFree t S) : Spelled S := by
  refine spelled_iff.2 fun a ha b hb q hq haq hbq => ?_
  obtain ⟨name, rest, rfl⟩ := List.exists_cons_of_ne_nil hq
  have hnone : t.entries (name :: rest) = none := entries_cons_of_none (by simp [ht]) rest
  obtain ⟨l₁, h₁⟩ := exists_order ha
  obtain ⟨l₂, h₂⟩ := exists_order hb
  have he := congrArg (fun t => t.entries (name :: rest)) (h _ _ h₁ h₂)
  simp only [entries_addAll, List.map_cons] at he
  rw [PathMap.addAll_cons_of_prefix (a := filling a) haq hnone,
    PathMap.addAll_cons_of_prefix (a := filling b) hbq hnone] at he
  exact Option.some.inj he

theorem OrderFree.keysApart {t : TreeNode} (ht : t.children = []) {S : Finset (String × Bool)}
    (h : OrderFree t S) : KeysApart S := by
  intro a ha b hb q x y hax hby hd hxy
  by_contra hne
  obtain ⟨r, hr⟩ := hax
  obtain ⟨r', hr'⟩ := hby
  rw [List.append_assoc, List.singleton_append] at hr hr'
  have hab : a ≠ b := by
    rintro rfl
    rw [← hr, List.append_cancel_left_eq, List.cons.injEq] at hr'
    exact hne hr'.1.symm
  obtain ⟨l, h₁, h₂⟩ := exists_orders ha hb hab
  have hsub₁ := childNames_sublist_addAll l q (addAll t [a, b])
  have hsub₂ := childNames_sublist_addAll l q (addAll t [b, a])
  rw [childNames_of_tie ht hr.symm hr'.symm hne hd hxy] at hsub₁
  rw [childNames_of_tie ht hr'.symm hr.symm (Ne.symm hne) hd.symm hxy.symm] at hsub₂
  have heq : addAll (addAll t [a, b]) l = addAll (addAll t [b, a]) l := h _ _ h₁ h₂
  have ho := ((ordered_of_no_children ht).addAll [a, b]).addAll l
  rw [← heq] at hsub₂
  exact not_sublist_swap hne (ho.childNames_nodup q) hsub₂ hsub₁

/-- Adding a set of pairs to an empty root in any order gives one tree, exactly if no two pairs
are about one path, those above others are directories written with single slashes, and siblings
of one kind have names that differ in more than case. -/
theorem orderFree_iff (name path : String) (isDir : Bool) (S : Finset (String × Bool)) :
    OrderFree ⟨name, path, isDir, []⟩ S ↔ Spelled S ∧ KeysApart S := by
  constructor
  · exact fun h => ⟨h.spelled rfl, h.keysApart rfl⟩
  · exact fun h => orderFree_of_apart rfl h.1 h.2

end Insertion

attribute [local instance] asciiLowercase

/-- Two files whose names differ in case only stand in an order that depends on which came
first. -/
theorem not_orderFree_case : KindsAgree {("a", false), ("A", false)} ∧
    ¬ OrderFree (TreeNode.dir "" "") {("a", false), ("A", false)} := by
  refine ⟨⟨by decide, by decide⟩, fun h => ?_⟩
  have heq := h [("a", false), ("A", false)] [("A", false), ("a", false)] (by decide) (by decide)
  have hnames := congrArg (fun t => t.children.map TreeNode.name) heq
  revert hnames
  decide

end AmbientFs
