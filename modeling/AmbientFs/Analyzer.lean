import AmbientFs.Cache
import AmbientFs.Lib.Utf8

/-!
# The analyzer

The lines of a file and its TODO, FIXME and HACK comments are counted. Which characters are
letters and what the upper case of a text is are tables of Unicode, which are passed in.
-/

namespace AmbientFs

class Letters where
  isAlphabetic : Char → Bool
  toUppercase : List Char → List Char

/-- Letters and upper case of ASCII. -/
@[reducible]
def asciiLetters : Letters where
  isAlphabetic := Char.isAlpha
  toUppercase s := s.map Char.toUpper

/-- `str::lines`, without the carriage returns that `str::lines` removes at the ends. -/
def strLines (content : List Char) : List (List Char) :=
  let parts := content.splitOn '\n'
  if parts.getLast? = some [] then parts.dropLast else parts

def countLines (content : List Char) : UInt32 :=
  if content = [] then 0 else UInt32.ofNat (strLines content).length

/-- The bytes of a text in UTF-8. -/
def utf8Size (s : List Char) : ℕ := (s.map Char.utf8Size).sum

section Todos

variable [Letters]

/-- The potential keyword of a comment, and what comes after it. -/
def collectKeyword (buf : List Char) : List Char → List Char × List Char
  | [] => (buf, [])
  | c :: s =>
    if c = '\n' then (buf, c :: s)
    else if Letters.isAlphabetic c ∨ c = ':' then
      if 10 < utf8Size (buf ++ [c]) then (buf ++ [c], s) else collectKeyword (buf ++ [c]) s
    else if buf ≠ [] then (buf, c :: s)
    else collectKeyword buf s

def isKeyword (buf : List Char) : Bool :=
  let keyword := Letters.toUppercase buf
  "TODO".toList <:+: keyword ∨ "FIXME".toList <:+: keyword ∨ "HACK".toList <:+: keyword

/-- Whether a comment has a keyword, and the lines after it. -/
def scanLineComment (s : List Char) : Bool × List Char :=
  let (buf, rest) := collectKeyword [] (s.dropWhile fun c => c = ' ' ∨ c = '\t')
  (isKeyword buf, (rest.dropWhile (· ≠ '\n')).drop 1)

theorem length_collectKeyword (buf s : List Char) :
    (collectKeyword buf s).2.length ≤ s.length := by
  induction s generalizing buf with
  | nil => simp [collectKeyword]
  | cons c s ih =>
    unfold collectKeyword
    split_ifs <;> simp only [List.length_cons, le_refl, Nat.le_succ]
    · exact (ih _).trans (Nat.le_succ _)
    · exact (ih _).trans (Nat.le_succ _)

theorem length_scanLineComment (s : List Char) : (scanLineComment s).2.length ≤ s.length := by
  have hblank := (s.dropWhile_suffix fun c => decide (c = ' ' ∨ c = '\t')).length_le
  have hword := length_collectKeyword [] (s.dropWhile fun c => c = ' ' ∨ c = '\t')
  have hline := ((collectKeyword [] (s.dropWhile fun c => c = ' ' ∨ c = '\t')).2.dropWhile_suffix
    fun c => decide (c ≠ '\n')).length_le
  simp only [scanLineComment, List.length_drop]
  omega

/-- The comments of a text that have a keyword. -/
def todos (content : List Char) : ℕ :=
  match content with
  | [] => 0
  | '/' :: '/' :: s => (if (scanLineComment s).1 then 1 else 0) + todos (scanLineComment s).2
  | '-' :: '-' :: s => (if (scanLineComment s).1 then 1 else 0) + todos (scanLineComment s).2
  | '#' :: s => (if (scanLineComment s).1 then 1 else 0) + todos (scanLineComment s).2
  | _ :: s => todos s
termination_by content.length
decreasing_by
  all_goals
    simp only [List.length_cons]
    first
      | exact Nat.lt_succ_self _
      | have := length_scanLineComment s
        omega

def countTodos (content : List Char) : UInt32 := UInt32.ofNat (todos content)

end Todos

end AmbientFs
