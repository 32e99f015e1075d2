import Mathlib

/-!
# Lines of text
-/

namespace Lines

/-- Without the blanks at both ends. -/
def trim (blank : Char → Bool) (text : List Char) : List Char :=
  ((text.dropWhile blank).reverse.dropWhile blank).reverse

section Trim

variable {blank : Char → Bool} {text : List Char} {c : Char}

/-- A blank at the end makes no difference. -/
theorem trim_append_blank (hc : blank c = true) : trim blank (text ++ [c]) = trim blank text := by
  unfold trim
  rw [List.dropWhile_append]
  split_ifs with h
  · rw [List.isEmpty_iff.1 h, List.dropWhile_cons_of_pos hc]
    rfl
  · rw [List.reverse_append, List.reverse_singleton, List.singleton_append,
      List.dropWhile_cons_of_pos hc]

/-- A text without blanks at its ends is left as it is. -/
theorem trim_of_ends {first last : Char} (hfirst : text.head? = some first)
    (hlast : text.getLast? = some last) (hf : blank first = false) (hl : blank last = false) :
    trim blank text = text := by
  obtain ⟨rest, rfl⟩ := List.head?_eq_some_iff.1 hfirst
  obtain ⟨start, hstart⟩ := List.getLast?_eq_some_iff.1 hlast
  unfold trim
  rw [List.dropWhile_cons_of_neg (by simp [hf]), hstart, List.reverse_append,
    List.reverse_singleton, List.singleton_append, List.dropWhile_cons_of_neg (by simp [hl]),
    List.reverse_cons, List.reverse_reverse]

end Trim

/-- The characters with the property `White_Space`. -/
def whiteSpace (c : Char) : Bool :=
  let n := c.toNat
  (9 ≤ n ∧ n ≤ 13) ∨ n = 0x20 ∨ n = 0x85 ∨ n = 0xa0 ∨ n = 0x1680 ∨ (0x2000 ≤ n ∧ n ≤ 0x200a) ∨
    n = 0x2028 ∨ n = 0x2029 ∨ n = 0x202f ∨ n = 0x205f ∨ n = 0x3000

/-- The lines, each with its line feed. -/
def terminated (ls : List (List Char)) : List Char := ls.flatMap (· ++ ['\n'])

variable {ls ls' : List (List Char)} {rest rest' text : List Char}

@[simp] theorem terminated_nil : terminated [] = [] := rfl

@[simp] theorem terminated_cons (l : List Char) (ls : List (List Char)) :
    terminated (l :: ls) = l ++ '\n' :: terminated ls := by
  simp [terminated]

/-- The lines of a text and what comes after the last of them. -/
theorem splitOn_terminated (h : ∀ l ∈ ls, '\n' ∉ l) (text : List Char) :
    (terminated ls ++ text).splitOn '\n' = ls ++ text.splitOn '\n' := by
  induction ls with
  | nil => rfl
  | cons l ls ih =>
    rw [terminated_cons, List.append_assoc, List.cons_append,
      List.splitOn_append_cons_self_of_not_mem (h l List.mem_cons_self),
      ih fun l' hl' => h l' (List.mem_cons_of_mem _ hl')]
    rfl

theorem splitOn_eq (h : ∀ l ∈ ls, '\n' ∉ l) (hrest : '\n' ∉ rest) :
    (terminated ls ++ rest).splitOn '\n' = ls ++ [rest] := by
  rw [splitOn_terminated h, List.splitOn_eq_singleton hrest]

theorem exists_terminated (text : List Char) : ∃ ls rest, text = terminated ls ++ rest ∧
    (∀ l ∈ ls, '\n' ∉ l) ∧ '\n' ∉ rest := by
  induction text with
  | nil => exact ⟨[], [], rfl, by simp, by simp⟩
  | cons c text ih =>
    obtain ⟨ls, rest, rfl, hls, hrest⟩ := ih
    by_cases hc : c = '\n'
    · subst hc
      exact ⟨[] :: ls, rest, by simp, by simpa using hls, hrest⟩
    · rcases ls with _ | ⟨l, ls⟩
      · exact ⟨[], c :: rest, rfl, by simp, by simp [Ne.symm hc, hrest]⟩
      · simp only [List.mem_cons, forall_eq_or_imp] at hls
        refine ⟨(c :: l) :: ls, rest, by simp, ?_, hrest⟩
        simp only [List.mem_cons, forall_eq_or_imp, not_or]
        exact ⟨⟨Ne.symm hc, hls.1⟩, hls.2⟩

theorem terminated_append (ls ls' : List (List Char)) :
    terminated (ls ++ ls') = terminated ls ++ terminated ls' := List.flatMap_append

theorem count_terminated (h : ∀ l ∈ ls, '\n' ∉ l) : (terminated ls).count '\n' = ls.length := by
  induction ls with
  | nil => rfl
  | cons l ls ih =>
    rw [terminated_cons, List.count_append, List.count_cons_self, List.length_cons,
      ih fun l' hl' => h l' (List.mem_cons_of_mem _ hl'),
      List.count_eq_zero_of_not_mem (h l List.mem_cons_self)]
    omega

/-- A text has its lines and what comes after them in one way. -/
theorem terminated_inj (hls : ∀ l ∈ ls, '\n' ∉ l) (hrest : '\n' ∉ rest)
    (hls' : ∀ l ∈ ls', '\n' ∉ l) (hrest' : '\n' ∉ rest')
    (h : terminated ls ++ rest = terminated ls' ++ rest') : ls = ls' ∧ rest = rest' := by
  have heq := congrArg (List.splitOn '\n') h
  rw [splitOn_eq hls hrest, splitOn_eq hls' hrest'] at heq
  exact List.append_singleton_inj.1 heq

/-! ## Lines with carriage returns -/

/-- Without a carriage return at the end. -/
def chomp (l : List Char) : List Char := if l.getLast? = some '\r' then l.dropLast else l

/-- The lines of a text, each without its line ending. What comes after the last line feed is a line
unless it is empty. -/
def lines (text : List Char) : List (List Char) :=
  (text.splitOn '\n').dropLast.map chomp ++ (text.splitOn '\n').getLast?.toList.filter (· ≠ [])

theorem lines_terminated (h : ∀ l ∈ ls, '\n' ∉ l) (hrest : '\n' ∉ rest) :
    lines (terminated ls ++ rest) = ls.map chomp ++ [rest].filter (· ≠ []) := by
  rw [lines, splitOn_eq h hrest, List.dropLast_concat, List.getLast?_concat, Option.toList_some]

theorem newline_not_mem_of_mem_lines {l : List Char} (h : l ∈ lines text) : '\n' ∉ l := by
  obtain ⟨ls, rest, rfl, hls, hrest⟩ := exists_terminated text
  rw [lines_terminated hls hrest] at h
  rcases List.mem_append.1 h with h | h
  · obtain ⟨l', hl', rfl⟩ := List.mem_map.1 h
    unfold chomp
    split_ifs
    · exact fun hmem => hls l' hl' (List.mem_of_mem_dropLast hmem)
    · exact hls l' hl'
  · rw [List.mem_singleton.1 (List.mem_of_mem_filter h)]
    exact hrest

/-- The text with a carriage return before each line feed. -/
def crlf (text : List Char) : List Char :=
  text.flatMap fun c => if c = '\n' then ['\r', '\n'] else [c]

theorem crlf_of_not_mem (h : '\n' ∉ text) : crlf text = text := by
  induction text with
  | nil => rfl
  | cons c text ih =>
    rw [List.mem_cons, not_or] at h
    rw [crlf, List.flatMap_cons, if_neg (Ne.symm h.1)]
    exact congrArg (c :: ·) (ih h.2)

theorem crlf_terminated (h : ∀ l ∈ ls, '\n' ∉ l) (hrest : '\n' ∉ rest) :
    crlf (terminated ls ++ rest) = terminated (ls.map (· ++ ['\r'])) ++ rest := by
  induction ls with
  | nil => exact crlf_of_not_mem hrest
  | cons l ls ih =>
    have hl := crlf_of_not_mem (h l List.mem_cons_self)
    have hls := ih fun l' hl' => h l' (List.mem_cons_of_mem l hl')
    unfold crlf at hl hls ⊢
    rw [terminated_cons, List.append_assoc, List.flatMap_append, hl, List.cons_append,
      List.flatMap_cons, if_pos rfl, hls]
    simp

end Lines
