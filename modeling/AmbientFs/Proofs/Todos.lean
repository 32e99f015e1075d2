import AmbientFs.Analyzer
import AmbientFs.Lib.Lines

/-!
# Comments are counted line by line

Nothing that the scan of a comment keeps goes beyond the end of the line, so the count is the sum of
what the lines count for, and no line counts for more than one.
-/

namespace AmbientFs

open Lines

section Markers

variable {c : Char} {s l tail : List Char}

/-- What comes after the comment marker that the character begins. -/
def afterMarker (c : Char) (s : List Char) : Option (List Char) :=
  if c = '#' then some s
  else if (c = '/' ∨ c = '-') ∧ s.head? = some c then some s.tail
  else none

/-- A marker does not reach beyond a character that is in none. -/
theorem afterMarker_append {d : Char} (hd : d ≠ '/' ∧ d ≠ '-') (tail : List Char) :
    afterMarker c (l ++ d :: tail) = (afterMarker c l).map (· ++ d :: tail) := by
  unfold afterMarker
  by_cases hc : c = '#'
  · simp [hc]
  · rcases l with _ | ⟨e, l⟩
    · have hnot : ¬ ((c = '/' ∨ c = '-') ∧ d = c) := by
        rintro ⟨rfl | rfl, rfl⟩
        · exact hd.1 rfl
        · exact hd.2 rfl
      simp [hc, hnot]
    · by_cases he : (c = '/' ∨ c = '-') ∧ e = c
      · simp [hc, he]
      · simp [hc, he]

theorem mem_of_marker {d : Char} (h : afterMarker c l = some s) (hd : d ∈ s) : d ∈ l := by
  unfold afterMarker at h
  split_ifs at h
  · cases h
    exact hd
  · cases h
    exact List.mem_of_mem_tail hd

theorem dropWhile_blanks {d : Char} (hd : d ≠ ' ' ∧ d ≠ '\t') :
    (l ++ d :: tail).dropWhile (fun c => decide (c = ' ' ∨ c = '\t')) =
      l.dropWhile (fun c => decide (c = ' ' ∨ c = '\t')) ++ d :: tail := by
  rw [List.dropWhile_append]
  split_ifs with hnil
  · rw [List.isEmpty_iff.1 hnil, List.dropWhile_cons_of_neg (by simpa using hd)]
    rfl
  · rfl

theorem dropWhile_line (h : '\n' ∉ l) (s : List Char) :
    (l ++ s).dropWhile (fun c => decide (c ≠ '\n')) =
      s.dropWhile fun c => decide (c ≠ '\n') := by
  refine List.dropWhile_append_of_pos fun c hc => ?_
  simp only [decide_eq_true_eq]
  rintro rfl
  exact h hc

theorem length_lines (content : List Char) :
    (lines content).length = (strLines content).length := by
  unfold lines strLines
  rw [List.length_append, List.length_map]
  rcases List.eq_nil_or_concat (content.splitOn '\n') with hnil | ⟨init, last, hsplit⟩
  · exact absurd hnil (List.splitOn_ne_nil _ _)
  · rw [hsplit]
    by_cases hlast : last = []
    · simp [hlast]
    · simp [hlast]

theorem toNat_countLines {content : List Char} (h : (lines content).length < 2 ^ 32) :
    (countLines content).toNat = (lines content).length := by
  unfold countLines
  split_ifs with hnil
  · subst hnil
    rfl
  · rw [length_lines] at h ⊢
    exact UInt32.toNat_ofNat_of_lt' h

end Markers

section Scan

variable [Letters] {c : Char} {l s tail : List Char}

theorem todos_of_marker (h : afterMarker c l = some s) :
    todos (c :: l) = (if (scanLineComment s).1 then 1 else 0) + todos (scanLineComment s).2 := by
  unfold afterMarker at h
  split_ifs at h with hc hm
  · cases h
    rw [hc, todos]
  · cases h
    obtain ⟨hc | hc, hhead⟩ := hm
    · obtain ⟨t, rfl⟩ := List.head?_eq_some_iff.1 hhead
      rw [hc, todos, List.tail_cons]
    · obtain ⟨t, rfl⟩ := List.head?_eq_some_iff.1 hhead
      rw [hc, todos, List.tail_cons]

theorem todos_of_none (h : afterMarker c l = none) : todos (c :: l) = todos l := by
  unfold afterMarker at h
  split_ifs at h with hc hm
  rw [todos]
  · rintro t rfl rfl
    exact hm ⟨.inl rfl, rfl⟩
  · rintro t rfl rfl
    exact hm ⟨.inr rfl, rfl⟩
  · exact hc

/-- A text that adds nothing to the keyword that is collected before it. -/
def Inert (tail : List Char) : Prop := ∀ buf, (collectKeyword buf tail).1 = buf

theorem inert_newline (s : List Char) : Inert ('\n' :: s) := by
  intro buf
  rw [collectKeyword, if_pos rfl]

theorem inert_return (h : Letters.isAlphabetic '\r' = false) : Inert ['\r'] := by
  intro buf
  rw [collectKeyword, if_neg (by decide), if_neg (by simp [h])]
  split_ifs
  · rfl
  · rfl

theorem collectKeyword_suffix (buf l : List Char) : (collectKeyword buf l).2 <:+ l := by
  induction l generalizing buf with
  | nil => exact List.suffix_rfl
  | cons c l ih =>
    rw [collectKeyword]
    split_ifs
    · exact List.suffix_rfl
    · exact List.suffix_cons c l
    · exact (ih _).trans (List.suffix_cons c l)
    · exact List.suffix_rfl
    · exact (ih _).trans (List.suffix_cons c l)

theorem collectKeyword_append (h : Inert tail) (buf : List Char) (l : List Char) :
    (collectKeyword buf (l ++ tail)).1 = (collectKeyword buf l).1 := by
  induction l generalizing buf with
  | nil => exact h buf
  | cons c l ih =>
    rw [List.cons_append, collectKeyword, collectKeyword]
    split_ifs
    · rfl
    · rfl
    · exact ih _
    · rfl
    · exact ih _

/-- A comment that the tail comes after has the keyword it has without it. -/
theorem scanLineComment_append {d : Char} (hd : d ≠ ' ' ∧ d ≠ '\t') (h : Inert (d :: tail))
    (l : List Char) : (scanLineComment (l ++ d :: tail)).1 = (scanLineComment l).1 := by
  unfold scanLineComment
  rw [dropWhile_blanks hd]
  exact congrArg isKeyword (collectKeyword_append h [] _)

theorem collectKeyword_newline (buf l s : List Char) :
    (collectKeyword buf (l ++ '\n' :: s)).2 = (collectKeyword buf l).2 ++ '\n' :: s := by
  induction l generalizing buf with
  | nil =>
    show (collectKeyword buf ('\n' :: s)).2 = '\n' :: s
    rw [collectKeyword, if_pos rfl]
  | cons c l ih =>
    rw [List.cons_append, collectKeyword, collectKeyword]
    split_ifs
    · rfl
    · rfl
    · exact ih _
    · rfl
    · exact ih _

theorem newline_not_mem_rest (h : '\n' ∉ l) : '\n' ∉ (collectKeyword []
    (l.dropWhile fun c => decide (c = ' ' ∨ c = '\t'))).2 := fun hmem =>
  h ((l.dropWhile_suffix _).subset ((collectKeyword_suffix _ _).subset hmem))

/-- The rest of a line is skipped. -/
theorem scanLineComment_snd (h : '\n' ∉ l) : (scanLineComment l).2 = [] := by
  have hrest := dropWhile_line (newline_not_mem_rest h) []
  rw [List.append_nil] at hrest
  unfold scanLineComment
  simp only [hrest]
  rfl

/-- The scan goes on after the line. -/
theorem scanLineComment_newline (h : '\n' ∉ l) (s : List Char) :
    (scanLineComment (l ++ '\n' :: s)).2 = s := by
  have hrest := dropWhile_line (newline_not_mem_rest h) ('\n' :: s)
  unfold scanLineComment
  rw [dropWhile_blanks (by decide)]
  simp only [collectKeyword_newline, hrest]
  rfl

/-- The comments of a line, then those of what comes after it. -/
theorem todos_line (h : '\n' ∉ l) (s : List Char) :
    todos (l ++ '\n' :: s) = todos l + todos s ∧ todos l ≤ 1 := by
  induction l with
  | nil =>
    rw [List.nil_append, todos_of_none rfl]
    simp [todos]
  | cons c l ih =>
    rw [List.mem_cons, not_or] at h
    have hmarker := afterMarker_append (c := c) (l := l) (d := '\n') (by decide) s
    rcases hm : afterMarker c l with _ | t
    · rw [hm, Option.map_none] at hmarker
      rw [List.cons_append, todos_of_none hmarker, todos_of_none hm]
      exact ih h.2
    · have ht : '\n' ∉ t := fun hmem => h.2 (mem_of_marker hm hmem)
      rw [hm, Option.map_some] at hmarker
      rw [List.cons_append, todos_of_marker hmarker, todos_of_marker hm, scanLineComment_snd ht,
        scanLineComment_newline ht, scanLineComment_append (by decide) (inert_newline s), todos]
      split_ifs <;> simp

/-- A carriage return at the end of a line makes no difference. -/
theorem todos_return (hcr : Letters.isAlphabetic '\r' = false) (h : '\n' ∉ l) :
    todos (l ++ ['\r']) = todos l := by
  have hnl : ∀ t : List Char, '\n' ∉ t → '\n' ∉ t ++ ['\r'] := fun t ht => by simpa using ht
  induction l with
  | nil => rw [List.nil_append, todos_of_none rfl]
  | cons c l ih =>
    rw [List.mem_cons, not_or] at h
    have hmarker := afterMarker_append (c := c) (l := l) (d := '\r') (by decide) []
    rcases hm : afterMarker c l with _ | t
    · rw [hm, Option.map_none] at hmarker
      rw [List.cons_append, todos_of_none hmarker, todos_of_none hm]
      exact ih h.2
    · have ht : '\n' ∉ t := fun hmem => h.2 (mem_of_marker hm hmem)
      rw [hm, Option.map_some] at hmarker
      rw [List.cons_append, todos_of_marker hmarker, todos_of_marker hm, scanLineComment_snd ht,
        scanLineComment_snd (hnl t ht), scanLineComment_append (by decide) (inert_return hcr)]

theorem todos_terminated {ls : List (List Char)} (h : ∀ l ∈ ls, '\n' ∉ l) (rest : List Char) :
    todos (terminated ls ++ rest) = (ls.map todos).sum + todos rest := by
  induction ls with
  | nil => simp
  | cons l ls ih =>
    rw [terminated_cons, List.append_assoc, List.cons_append,
      (todos_line (h l List.mem_cons_self) _).1, ih fun l' hl' => h l' (List.mem_cons_of_mem l hl'),
      List.map_cons, List.sum_cons, Nat.add_assoc]

theorem todos_chomp (hcr : Letters.isAlphabetic '\r' = false) (h : '\n' ∉ l) :
    todos (chomp l) = todos l := by
  unfold chomp
  split_ifs with hlast
  · obtain ⟨start, rfl⟩ := List.getLast?_eq_some_iff.1 hlast
    rw [List.dropLast_concat, todos_return hcr (by simpa using h)]
  · rfl

/-- The count is that of the lines. -/
theorem todos_lines (hcr : Letters.isAlphabetic '\r' = false) (content : List Char) :
    todos content = ((lines content).map todos).sum := by
  obtain ⟨ls, rest, rfl, hls, hrest⟩ := exists_terminated content
  rw [lines_terminated hls hrest, todos_terminated hls, List.map_append, List.sum_append,
    List.map_map]
  congr 1
  · exact congrArg List.sum (List.map_congr_left fun l hl => (todos_chomp hcr (hls l hl)).symm)
  · by_cases hnil : rest = []
    · simp [hnil, todos]
    · simp [hnil]

theorem todos_crlf (hcr : Letters.isAlphabetic '\r' = false) (content : List Char) :
    todos (crlf content) = todos content := by
  obtain ⟨ls, rest, rfl, hls, hrest⟩ := exists_terminated content
  have hls' : ∀ l ∈ ls.map (· ++ ['\r']), '\n' ∉ l := by
    intro l hl
    obtain ⟨l', hl', rfl⟩ := List.mem_map.1 hl
    simpa using hls l' hl'
  rw [crlf_terminated hls hrest, todos_terminated hls, todos_terminated hls', List.map_map]
  congr 2
  exact List.map_congr_left fun l hl => todos_return hcr (hls l hl)

theorem todos_le_one (h : '\n' ∉ l) : todos l ≤ 1 := (todos_line h []).2

theorem todos_le_lines (hcr : Letters.isAlphabetic '\r' = false) (content : List Char) :
    todos content ≤ (lines content).length := by
  rw [todos_lines hcr, ← List.length_map (f := todos)]
  refine (List.sum_le_card_nsmul _ 1 fun n hn => ?_).trans_eq (by simp)
  obtain ⟨l, hl, rfl⟩ := List.mem_map.1 hn
  exact todos_le_one (newline_not_mem_of_mem_lines hl)

theorem toNat_countTodos (hcr : Letters.isAlphabetic '\r' = false) {content : List Char}
    (h : (lines content).length < 2 ^ 32) : (countTodos content).toNat = todos content :=
  UInt32.toNat_ofNat_of_lt' ((todos_le_lines hcr content).trans_lt h)

theorem toNat_countTodos_line (h : '\n' ∉ l) : (countTodos l).toNat = todos l :=
  UInt32.toNat_ofNat_of_lt' ((todos_le_one h).trans_lt (by decide))

/-- The count of a text is the sum over its lines of what each counts for alone, which is none or
one. So it is that of the same lines in any order and with any line endings, and not above their
number. -/
theorem countTodos_by_line (hcr : Letters.isAlphabetic '\r' = false) (content : List Char)
    (hlines : (lines content).length < 2 ^ 32) :
    (countTodos content).toNat = ((lines content).map fun l => (countTodos l).toNat).sum ∧
      (∀ l ∈ lines content, countTodos l = 0 ∨ countTodos l = 1) ∧
      (∀ content', (lines content').Perm (lines content) →
        countTodos content' = countTodos content) ∧
      countTodos (crlf content) = countTodos content ∧
      countTodos content ≤ countLines content := by
  refine ⟨?_, fun l hl => ?_, fun content' hperm => ?_, ?_, ?_⟩
  · rw [toNat_countTodos hcr hlines, todos_lines hcr]
    refine congrArg List.sum (List.map_congr_left fun l hl => ?_)
    exact (toNat_countTodos_line (newline_not_mem_of_mem_lines hl)).symm
  · have hone := todos_le_one (newline_not_mem_of_mem_lines hl)
    unfold countTodos
    interval_cases todos l
    · exact .inl rfl
    · exact .inr rfl
  · unfold countTodos
    rw [todos_lines hcr content', todos_lines hcr content, (hperm.map todos).sum_eq]
  · unfold countTodos
    rw [todos_crlf hcr]
  · rw [UInt32.le_iff_toNat_le, toNat_countTodos hcr hlines, toNat_countLines hlines]
    exact todos_le_lines hcr content

end Scan

/-- Two comments, of which one has a keyword, and code that has none. -/
theorem countTodos_three :
    @countTodos asciiLetters (crlf "x // TODO\n# note\ny".toList) =
        @countTodos asciiLetters "x // TODO\n# note\ny".toList ∧
      @countTodos asciiLetters "x // TODO\n# note\ny".toList ≤
        countLines "x // TODO\n# note\ny".toList :=
  (@countTodos_by_line asciiLetters rfl "x // TODO\n# note\ny".toList (by decide)).2.2.2

end AmbientFs
