import AmbientFs.Lib.Sqlite

/-!
# Statements as texts

A statement is given to the database as a text, in which the parameters have numbers, and a list of
what is bound to them. Of the language this much is read: an INSERT of one row of parameters, a
SELECT from one table, with comparisons of a column with a parameter or of a number with itself
that are joined by AND, an order by one column, and a limit, and a DELETE with such comparisons.
-/

namespace Sqlite

/-! ## Words -/

inductive Kind
  | name
  | comma
  | bracket
  | comparison
  deriving DecidableEq

def kind (c : Char) : Kind :=
  if c = ',' then .comma
  else if c = '(' ∨ c = ')' then .bracket
  else if c = '=' ∨ c = '<' ∨ c = '>' then .comparison
  else .name

def sameKind (c d : Char) : Bool := kind c = kind d

/-- The runs of characters of one kind between the blanks. -/
def words (s : List Char) : List String :=
  ((s.splitOnP isSpace).flatMap (·.splitBy sameKind)).map String.ofList

theorem words_append_cons (s t : List Char) {c : Char} (hc : isSpace c) :
    words (s ++ c :: t) = words s ++ words t := by
  simp [words, List.splitOnP_append_cons s t hc]

/-- Texts are read one after the other if there is a blank between them. -/
theorem words_append {s t : List Char}
    (h : (∃ c ∈ s.getLast?, isSpace c) ∨ ∃ c ∈ t.head?, isSpace c) :
    words (s ++ t) = words s ++ words t := by
  rcases h with ⟨c, hc, hspace⟩ | ⟨c, hc, hspace⟩
  · obtain ⟨s, rfl⟩ := List.getLast?_eq_some_iff.1 hc
    have hs := words_append_cons s [] hspace
    rw [List.append_assoc, List.singleton_append, words_append_cons s t hspace, hs]
    exact congrArg (· ++ words t) (List.append_nil _).symm
  · obtain ⟨t, rfl⟩ := List.head?_eq_some_iff.1 hc
    rw [words_append_cons s t hspace]
    exact congrArg (words s ++ ·) (words_append_cons [] t hspace).symm

/-- A run of characters of one kind is a word. -/
theorem words_of_kind {s : List Char} {k : Kind} (hne : s ≠ [])
    (h : ∀ c ∈ s, isSpace c = false ∧ kind c = k) : words s = [String.ofList s] := by
  have hchain : s.IsChain fun c d => sameKind c d := by
    refine List.Pairwise.isChain (List.pairwise_of_forall_mem_list fun c hc d hd => ?_)
    simp [sameKind, (h c hc).2, (h d hd).2]
  have hspace : s.splitOnP isSpace = [s] := List.splitOnP_eq_singleton fun c hc => (h c hc).1
  simp [words, hspace, List.splitBy_of_isChain hne hchain]

theorem kind_of_isDigit {c : Char} (h : c.isDigit) : kind c = .name := by
  have hne : ∀ d : Char, d.isDigit = false → c ≠ d := by
    rintro d hd rfl
    simp [h] at hd
  simp [kind, hne ',' (by decide), hne '(' (by decide), hne ')' (by decide), hne '=' (by decide),
    hne '<' (by decide), hne '>' (by decide)]

/-! ## Numbers and parameters -/

def digits (s : List Char) : Option ℕ :=
  if s ≠ [] ∧ s.all Char.isDigit then some (Nat.ofDigitChars 10 s 0) else none

def numberOf (w : String) : Option ℕ := digits w.toList

/-- Parameters are numbered from one. -/
def paramOf (w : String) : Option ℕ :=
  match w.toList with
  | '?' :: s => (digits s).filter (0 < ·)
  | _ => none

def comparisonOf : String → Option Comparison
  | "=" => some .eq
  | "<" => some .lt
  | ">=" => some .ge
  | _ => none

theorem digits_toDigits (n : ℕ) : digits (Nat.toDigits 10 n) = some n := by
  have hdigits : (Nat.toDigits 10 n).all Char.isDigit = true :=
    List.all_eq_true.2 fun c hc => Nat.isDigit_of_mem_toDigits (by omega) (by omega) hc
  rw [digits, if_pos ⟨Nat.toDigits_ne_nil, hdigits⟩, Nat.ofDigitChars_ten_toDigits]

@[simp] theorem numberOf_repr (n : ℕ) : numberOf n.repr = some n := by
  simp [numberOf, digits_toDigits]

@[simp] theorem paramOf_repr {n : ℕ} (h : 0 < n) : paramOf ("?" ++ n.repr) = some n := by
  simp [paramOf, digits_toDigits, h]

theorem words_toDigits (n : ℕ) : words (Nat.toDigits 10 n) = [n.repr] :=
  words_of_kind Nat.toDigits_ne_nil fun c hc =>
    have hdigit := Nat.isDigit_of_mem_toDigits (by omega) (by omega) hc
    ⟨isSpace_eq_false hdigit, kind_of_isDigit hdigit⟩

theorem words_param (n : ℕ) : words ("?" ++ n.repr).toList = ["?" ++ n.repr] := by
  have hkind : ∀ c ∈ ("?" ++ n.repr).toList, isSpace c = false ∧ kind c = .name := by
    intro c hc
    rw [String.toList_append, Nat.toList_repr, List.mem_append] at hc
    rcases hc with hc | hc
    · rw [List.mem_singleton.1 hc]
      decide
    · have hdigit := Nat.isDigit_of_mem_toDigits (by omega) (by omega) hc
      exact ⟨isSpace_eq_false hdigit, kind_of_isDigit hdigit⟩
  rw [words_of_kind (by simp) hkind, String.ofList_toList]

/-! ## Statements -/

section Statements

variable {τ κ : Type}

/-- What the names in a text stand for. -/
structure Names (τ κ : Type) where
  table : String → Option τ
  column : String → Option κ

/-- A comparison of a column with the parameter of a number. -/
structure NumberedCondition (κ : Type) where
  column : κ
  comparison : Comparison
  number : ℕ

structure Prepared (τ κ : Type) where
  table : τ
  columns : List κ
  conditions : List (NumberedCondition κ)
  order : Option (Order κ)
  limit : Option ℕ

/-- A row whose values are the parameters of some numbers. -/
structure PreparedRow (τ κ : Type) where
  table : τ
  columns : List κ
  numbers : List ℕ

/-- Which rows are deleted. -/
structure PreparedDelete (τ κ : Type) where
  table : τ
  conditions : List (NumberedCondition κ)

inductive TextError
  | malformed
  | parameterCount
  deriving DecidableEq

/-- What is between commas, up to the first word that is not followed by one. -/
def commaList {α : Type} (item : String → Option α) : List String → Option (List α × List String)
  | [] => none
  | w :: ws => do
    let a ← item w
    match ws with
    | [] => some ([a], [])
    | separator :: ws =>
      if separator = "," then do
        let (rest, ws) ← commaList item ws
        some (a :: rest, ws)
      else some ([a], separator :: ws)

variable (names : Names τ κ)

/-- A condition on no column always holds. -/
def condition (left op right : String) : Option (Option (NumberedCondition κ)) :=
  match numberOf left with
  | some n => if op = "=" ∧ numberOf right = some n then some none else none
  | none => do
    let column ← names.column left
    let comparison ← comparisonOf op
    let number ← paramOf right
    some (some ⟨column, comparison, number⟩)

def conditionList : List String → Option (List (NumberedCondition κ) × List String)
  | left :: op :: right :: ws => do
    let c ← condition names left op right
    match ws with
    | [] => some (c.toList, [])
    | w :: ws =>
      if w = "AND" then do
        let (cs, ws) ← conditionList ws
        some (c.toList ++ cs, ws)
      else some (c.toList, w :: ws)
  | _ => none

def orderClause : List String → Option (Option (Order κ) × List String)
  | "ORDER" :: "BY" :: w :: "DESC" :: ws => do
    let column ← names.column w
    some (some ⟨column, true⟩, ws)
  | "ORDER" :: "BY" :: w :: ws => do
    let column ← names.column w
    some (some ⟨column, false⟩, ws)
  | ws => some (none, ws)

def limitClause : List String → Option (Option ℕ)
  | [] => some none
  | ["LIMIT", w] => (numberOf w).map some
  | _ => none

def statement : List String → Option (Prepared τ κ)
  | "SELECT" :: ws => do
    let (columns, ws) ← commaList names.column ws
    match ws with
    | "FROM" :: t :: "WHERE" :: ws => do
      let table ← names.table t
      let (conditions, ws) ← conditionList names ws
      let (order, ws) ← orderClause names ws
      let limit ← limitClause ws
      some {
        table := table
        columns := columns
        conditions := conditions
        order := order
        limit := limit }
    | _ => none
  | _ => none

def rowStatement : List String → Option (PreparedRow τ κ)
  | "INSERT" :: "INTO" :: t :: "(" :: ws => do
    let table ← names.table t
    let (columns, ws) ← commaList names.column ws
    match ws with
    | ")" :: "VALUES" :: "(" :: ws => do
      let (numbers, ws) ← commaList paramOf ws
      if ws = [")"] ∧ numbers.length = columns.length then some {
        table := table
        columns := columns
        numbers := numbers }
      else none
    | _ => none
  | _ => none

def deleteStatement : List String → Option (PreparedDelete τ κ)
  | "DELETE" :: "FROM" :: t :: "WHERE" :: ws => do
    let table ← names.table t
    let (conditions, ws) ← conditionList names ws
    if ws = [] then some ⟨table, conditions⟩ else none
  | _ => none

/-- There must be something to bind for each number up to the greatest, and no more. -/
def bindNumbers (numbers : List ℕ) (params : List Param) : Except TextError (ℕ → Param) :=
  if numbers.foldr max 0 = params.length then .ok fun n => params.getD (n - 1) .null
  else .error .parameterCount

def Prepared.bind (p : Prepared τ κ) (params : List Param) : Except TextError (τ × Select κ) := do
  let param ← bindNumbers (p.conditions.map (·.number)) params
  .ok (p.table, {
    columns := p.columns
    conditions := p.conditions.map fun c => ⟨c.column, c.comparison, param c.number⟩
    order := p.order
    limit := p.limit })

def PreparedRow.bind (p : PreparedRow τ κ) (params : List Param) :
    Except TextError (τ × List (κ × Param)) := do
  let param ← bindNumbers p.numbers params
  .ok (p.table, p.columns.zip (p.numbers.map param))

def PreparedDelete.bind (p : PreparedDelete τ κ) (params : List Param) :
    Except TextError (τ × List (Condition κ)) := do
  let param ← bindNumbers (p.conditions.map (·.number)) params
  .ok (p.table, p.conditions.map fun c => ⟨c.column, c.comparison, param c.number⟩)

def prepare (text : String) (params : List Param) : Except TextError (τ × Select κ) :=
  match statement names (words text.toList) with
  | none => .error .malformed
  | some p => p.bind params

def prepareRow (text : String) (params : List Param) :
    Except TextError (τ × List (κ × Param)) :=
  match rowStatement names (words text.toList) with
  | none => .error .malformed
  | some p => p.bind params

def prepareDelete (text : String) (params : List Param) :
    Except TextError (τ × List (Condition κ)) :=
  match deleteStatement names (words text.toList) with
  | none => .error .malformed
  | some p => p.bind params

variable {names}

/-- Conditions that are joined by AND, after a first one. -/
theorem conditionList_and {first : Option (NumberedCondition κ)} {left op right : String}
    (h : condition names left op right = some first) {texts : List (List String)}
    {cs : List (NumberedCondition κ)}
    (hcs : List.Forall₂ (fun ws c => ∃ left op right, ws = ["AND", left, op, right] ∧
      condition names left op right = some (some c)) texts cs)
    {rest : List String} (hrest : rest.head? ≠ some "AND") :
    conditionList names (left :: op :: right :: (texts.flatten ++ rest)) =
      some (first.toList ++ cs, rest) := by
  induction hcs generalizing left op right first with
  | nil =>
    rcases rest with _ | ⟨w, rest⟩
    · simp [conditionList, h]
    · have hw : w ≠ "AND" := by simpa using hrest
      simp [conditionList, h, hw]
  | cons hc _ ih =>
    obtain ⟨left', op', right', rfl, hc⟩ := hc
    simp [conditionList, h, ih hc]

/-- The conditions of a SELECT, with the places of their parameters as numbers. -/
def numbered (cs : List (Condition κ)) : List (NumberedCondition κ) :=
  cs.mapIdx fun i c => ⟨c.column, c.comparison, i + 1⟩

theorem numbered_concat (cs : List (Condition κ)) (c : Condition κ) :
    numbered (cs ++ [c]) = numbered cs ++ [⟨c.column, c.comparison, cs.length + 1⟩] := by
  simp [numbered]

theorem foldr_max_numbered (cs : List (Condition κ)) :
    ((numbered cs).map (·.number)).foldr max 0 = cs.length := by
  refine le_antisymm (List.max_le_of_forall_le _ _ fun n hn => ?_) ?_
  · obtain ⟨_, hc, rfl⟩ := List.mem_map.1 hn
    obtain ⟨i, hi, rfl⟩ := List.mem_mapIdx.1 hc
    exact hi
  · rcases cs.eq_nil_or_concat with rfl | ⟨cs, c, rfl⟩
    · exact Nat.zero_le _
    · refine List.le_max_of_le (x := cs.length + 1) ?_ (by simp)
      simp [numbered_concat]

/-- If each is bound in its place, the SELECT has the conditions. -/
theorem Prepared.bind_numbered {p : Prepared τ κ} (cs : List (Condition κ))
    (h : p.conditions = numbered cs) : p.bind (cs.map (·.param)) =
      .ok (p.table, {
        columns := p.columns
        conditions := cs
        order := p.order
        limit := p.limit }) := by
  have hconditions : ((numbered cs).map fun c => (⟨c.column, c.comparison,
      (cs.map (·.param)).getD (c.number - 1) .null⟩ : Condition κ)) = cs := by
    refine List.ext_getElem (by simp [numbered]) fun i hi hi' => ?_
    simp [numbered, hi']
  have hbind : bindNumbers ((numbered cs).map (·.number)) (cs.map (·.param)) =
      .ok fun n => (cs.map (·.param)).getD (n - 1) .null :=
    if_pos (by rw [foldr_max_numbered, List.length_map])
  rw [bind, h, hbind]
  exact congrArg (fun cs => Except.ok (p.table, Select.mk p.columns cs p.order p.limit)) hconditions

end Statements

end Sqlite
