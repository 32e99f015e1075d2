import Mathlib

/-!
# SQLite

Tables as the statements of a program see them: columns with an affinity and constraints, and rows
of values. A text that is stored in an INTEGER column, or compared with one, becomes a number only
if all of it is a numeral, and every number is less than every text. In what order the rows that
match a condition are visited is not specified.
-/

namespace Sqlite

/-- What a column stores. -/
inductive Value
  | null
  | integer (n : ℤ)
  | real (x : ℚ)
  | text (s : List Char)
  deriving DecidableEq

/-- What is bound to a parameter. -/
inductive Param
  | null
  | integer (n : ℤ)
  | text (s : List Char)
  deriving DecidableEq

/-! ## Numerals -/

def isSpace (c : Char) : Bool := c = ' ' ∨ (9 ≤ c.toNat ∧ c.toNat ≤ 13)

def digitsVal (ds : List Char) : ℕ := ds.foldl (fun n c => n * 10 + (c.toNat - '0'.toNat)) 0

def dropSign : List Char → Bool × List Char
  | '-' :: s => (true, s)
  | '+' :: s => (false, s)
  | s => (false, s)

/-- What comes after the digits of a numeral, as the power of ten it stands for. -/
def exponent : List Char → Option ℤ
  | [] => some 0
  | c :: s =>
    if isSpace c then if s.all isSpace then some 0 else none
    else if c = 'e' ∨ c = 'E' then
      let (neg, s) := dropSign s
      let ds := s.takeWhile Char.isDigit
      if ds = [] ∨ (s.dropWhile Char.isDigit).all isSpace = false then none
      else some (if neg then -digitsVal ds else digitsVal ds)
    else none

/-- The digits after a point, if there is one, and what follows. -/
def fractional : List Char → List Char × List Char
  | '.' :: s => (s.takeWhile Char.isDigit, s.dropWhile Char.isDigit)
  | s => ([], s)

/-- What a numeral is after its sign. -/
def unsigned (s : List Char) : Option ℚ :=
  let whole := s.takeWhile Char.isDigit
  let (fraction, s) := fractional (s.dropWhile Char.isDigit)
  if whole = [] ∧ fraction = [] then none
  else (exponent s).map fun e => digitsVal (whole ++ fraction) * 10 ^ (e - (fraction.length : ℤ))

/-- The number that a text is, if it is one. -/
def numeral (s : List Char) : Option ℚ :=
  let (neg, s) := dropSign (s.dropWhile isSpace)
  (unsigned s).map fun x => if neg then -x else x

theorem isSpace_eq_false {c : Char} (h : c.isDigit) : isSpace c = false := by
  have h48 : 48 ≤ c.toNat := by
    simp only [Char.isDigit, Bool.and_eq_true, decide_eq_true_eq, ge_iff_le] at h
    exact UInt32.le_iff_toNat_le.1 h.1
  have hspace : c ≠ ' ' := by
    rintro rfl
    simp at h
  simp only [isSpace, hspace, false_or, decide_eq_false_iff_not]
  omega

theorem dropSign_eq {s : List Char} (h : ∀ c ∈ s.head?, c.isDigit) : dropSign s = (false, s) := by
  rcases s with _ | ⟨c, s⟩
  · rfl
  · have hc : c.isDigit := h c rfl
    unfold dropSign
    split <;> simp_all

/-- Digits before anything that a numeral cannot have there. -/
theorem unsigned_eq_none {ds s : List Char} {c : Char} (hds : ∀ d ∈ ds, d.isDigit) (hne : ds ≠ [])
    (hdigit : c.isDigit = false) (hspace : isSpace c = false) (hc : c ∉ ['.', 'e', 'E']) :
    unsigned (ds ++ c :: s) = none := by
  have hwhole : (ds ++ c :: s).takeWhile Char.isDigit = ds := by
    rw [List.takeWhile_append_of_pos hds]
    simp [hdigit]
  have hrest : (ds ++ c :: s).dropWhile Char.isDigit = c :: s := by
    rw [List.dropWhile_append_of_pos hds]
    simp [hdigit]
  simp only [List.mem_cons, List.not_mem_nil, or_false, not_or] at hc
  have hpoint : fractional (c :: s) = ([], c :: s) := by
    unfold fractional
    split <;> simp_all
  have hend : exponent (c :: s) = none := by
    simp [exponent, hspace, hc]
  simp [unsigned, hwhole, hrest, hpoint, hend, hne]

theorem numeral_eq_none {ds s : List Char} {c : Char} (hds : ∀ d ∈ ds, d.isDigit) (hne : ds ≠ [])
    (hdigit : c.isDigit = false) (hspace : isSpace c = false) (hc : c ∉ ['.', 'e', 'E']) :
    numeral (ds ++ c :: s) = none := by
  rcases ds with _ | ⟨d, ds⟩
  · simp at hne
  · have hd : d.isDigit := hds d List.mem_cons_self
    rw [numeral, List.cons_append, List.dropWhile_cons_of_neg (by simp [isSpace_eq_false hd]),
      dropSign_eq (by simpa using hd)]
    simp only [← List.cons_append, unsigned_eq_none hds hne hdigit hspace hc, Option.map_none]

theorem numeral_sign_eq_none {ds s : List Char} {c sign : Char} (hsign : sign = '-' ∨ sign = '+')
    (hds : ∀ d ∈ ds, d.isDigit) (hne : ds ≠ []) (hdigit : c.isDigit = false)
    (hspace : isSpace c = false) (hc : c ∉ ['.', 'e', 'E']) :
    numeral (sign :: (ds ++ c :: s)) = none := by
  have hdrop : isSpace sign = false := by
    rcases hsign with rfl | rfl <;> decide
  rw [numeral, List.dropWhile_cons_of_neg (by simp [hdrop])]
  rcases hsign with rfl | rfl <;>
    simp [dropSign, unsigned_eq_none hds hne hdigit hspace hc]

inductive Affinity
  | integer
  | text
  deriving DecidableEq

/-- A parameter as a column with the affinity stores it, or as it is compared with one. -/
def Affinity.convert : Affinity → Param → Value
  | _, .null => .null
  | integer, .integer n => .integer n
  | integer, .text s =>
    match numeral s with
    | none => .text s
    | some x => if x.den = 1 then .integer x.num else .real x
  | text, .integer n => .text (toString n).toList
  | text, .text s => .text s

/-! ## Comparisons -/

/-- A comparison with NULL does not hold. -/
def Value.lt : Value → Value → Bool
  | integer m, integer n => m < n
  | integer m, real y => (m : ℚ) < y
  | real x, integer n => x < (n : ℚ)
  | real x, real y => x < y
  | integer _, text _ => true
  | real _, text _ => true
  | text s, text s' => s < s'
  | _, _ => false

def Value.eq : Value → Value → Bool
  | null, _ => false
  | integer m, real y => (m : ℚ) = y
  | real x, integer n => x = (n : ℚ)
  | v, w => v = w

inductive Comparison
  | eq
  | lt
  | ge
  deriving DecidableEq

def Comparison.holds : Comparison → Value → Value → Bool
  | eq, v, w => v.eq w
  | lt, v, w => v.lt w
  | ge, v, w => w.lt v || v.eq w

/-- The order that ORDER BY sorts in, with NULL first. -/
def Value.le : Value → Value → Bool
  | null, _ => true
  | v, w => v.lt w || v.eq w

/-! ## Tables -/

section Tables

variable {κ : Type} [DecidableEq κ]

structure Column where
  affinity : Affinity
  notNull : Bool := false
  default : Value := .null
  /-- The texts that a CHECK allows. -/
  check : Option (List (List Char)) := none

/-- NULL passes a CHECK. -/
def Column.allows (column : Column) (v : Value) : Bool :=
  (!column.notNull || v ≠ .null) &&
    column.check.all fun texts => v = .null || texts.any fun s => v = .text s

structure Definition (κ : Type) where
  columns : List (κ × Column)
  /-- The column that is the row's id, which AUTOINCREMENT sets. -/
  rowid : Option κ := none
  /-- The primary key and the columns that are unique. -/
  unique : List (List κ) := []

abbrev Row (κ : Type) := κ → Value

structure Table (κ : Type) where
  definition : Definition κ
  rows : List (Row κ)
  lastRowid : ℕ

inductive Error
  | noTable
  | noColumn
  | constraint
  /-- A limit that is not a number of 64 bits, or an ON CONFLICT clause with no such key. -/
  | mismatch
  deriving DecidableEq

namespace Definition

variable (d : Definition κ)

def Has (c : κ) : Prop := c ∈ d.columns.map Prod.fst

instance (c : κ) : Decidable (d.Has c) := inferInstanceAs (Decidable (_ ∈ _))

/-- The row that an insertion makes. -/
def row (values : List (κ × Param)) (rowid : ℕ) : Row κ := fun c =>
  if d.rowid = some c then .integer rowid
  else
    match d.columns.lookup c with
    | none => .null
    | some column =>
      match values.lookup c with
      | some p => column.affinity.convert p
      | none => column.default

/-- The table that a CREATE TABLE makes. -/
def table : Table κ := ⟨d, [], 0⟩

def allows (r : Row κ) : Bool := d.columns.all fun c => c.2.allows (r c.1)

end Definition

/-- Rows with NULL in a key are different. -/
def sameKey (key : List κ) (r r' : Row κ) : Bool := key.all fun c => (r c).eq (r' c)

inductive OnConflict (κ : Type)
  | abort
  | ignore
  /-- The columns that a row with the key is given. -/
  | update (key set : List κ)

structure Condition (κ : Type) where
  column : κ
  comparison : Comparison
  param : Param

/-- A condition on the rows of a table. -/
def Condition.holds (d : Definition κ) (r : Row κ) (c : Condition κ) : Bool :=
  match d.columns.lookup c.column with
  | none => false
  | some column => c.comparison.holds (r c.column) (column.affinity.convert c.param)

structure Order (κ : Type) where
  column : κ
  descending : Bool := false

def Order.le (o : Order κ) (r r' : Row κ) : Bool :=
  if o.descending then (r' o.column).le (r o.column) else (r o.column).le (r' o.column)

/-- A SELECT from one table. -/
structure Select (κ : Type) where
  columns : List κ
  conditions : List (Condition κ) := []
  order : Option (Order κ) := none
  limit : Option ℕ := none

/-- The order in which a SELECT visits the rows that match. -/
structure Planner (κ : Type) where
  visit : Select κ → List (Row κ) → List (Row κ)
  perm : ∀ q rows, (visit q rows).Perm rows

/-- The rows that are picked are visited first. -/
def Planner.first (pick : Select κ → Row κ → Bool) : Planner κ where
  visit q rows := rows.filter (pick q) ++ rows.filter fun r => !pick q r
  perm q rows := List.filter_append_perm (pick q) rows

namespace Select

variable (q : Select κ)

def Matches (d : Definition κ) (r : Row κ) : Bool := q.conditions.all (·.holds d r)

/-- The columns it names are there. -/
def Names (d : Definition κ) : Prop :=
  (∀ c ∈ q.columns, d.Has c) ∧ (∀ c ∈ q.conditions, d.Has c.column) ∧ ∀ o ∈ q.order, d.Has o.column

instance (d : Definition κ) : Decidable (q.Names d) := inferInstanceAs (Decidable (_ ∧ _))

end Select

namespace Table

variable (t : Table κ)

def insert (values : List (κ × Param)) (c : OnConflict κ) : Except Error (Table κ) :=
  let row := t.definition.row values (t.lastRowid + 1)
  let inserted := { t with rows := t.rows ++ [row], lastRowid := t.lastRowid + 1 }
  if ∃ v ∈ values, ¬ t.definition.Has v.1 then .error .noColumn
  else
    match c with
    | .abort =>
      if t.definition.allows row = false ∨
          ∃ key ∈ t.definition.unique, ∃ r ∈ t.rows, sameKey key r row then .error .constraint
      else .ok inserted
    | .ignore =>
      if t.definition.allows row = false ∨
          ∃ key ∈ t.definition.unique, ∃ r ∈ t.rows, sameKey key r row then .ok t
      else .ok inserted
    | .update key set =>
      if key ∉ t.definition.unique then .error .mismatch
      else if t.definition.allows row = false ∨
          ∃ key' ∈ t.definition.unique, key' ≠ key ∧ ∃ r ∈ t.rows, sameKey key' r row then
        .error .constraint
      else if ∃ r ∈ t.rows, sameKey key r row then
        .ok { t with
          rows := t.rows.map fun r =>
            if sameKey key r row then (fun c => if c ∈ set then row c else r c) else r }
      else .ok inserted

def delete (conditions : List (Condition κ)) : Except Error (Table κ) :=
  if ∃ c ∈ conditions, ¬ t.definition.Has c.column then .error .noColumn
  else .ok { t with
    rows := t.rows.filter fun r => !conditions.all fun c => c.holds t.definition r }

def select (planner : Planner κ) (q : Select κ) : Except Error (List (Row κ)) :=
  if ¬ q.Names t.definition then .error .noColumn
  else if ∃ n ∈ q.limit, 2 ^ 63 ≤ n then .error .mismatch
  else
    let rows := planner.visit q (t.rows.filter (q.Matches t.definition))
    let sorted := match q.order with
      | none => rows
      | some o => rows.insertionSort (o.le · ·)
    .ok (match q.limit with
      | none => sorted
      | some n => sorted.take n)

end Table

section Definitions

variable {κ : Type} [DecidableEq κ] {t t' : Table κ}

theorem Table.definition_insert {values : List (κ × Param)} {c : OnConflict κ}
    (h : t.insert values c = .ok t') : t'.definition = t.definition := by
  unfold Table.insert at h
  dsimp only at h
  split_ifs at h with hno hrow
  · cases c with
    | abort => cases h
    | ignore =>
      cases h
      rfl
    | update key set =>
      dsimp only at h
      split_ifs at h <;> cases h <;> rfl
  · cases c with
    | update key set =>
      dsimp only at h
      split_ifs at h <;> cases h <;> rfl
    | _ =>
      cases h
      rfl

theorem Table.definition_delete {conditions : List (Condition κ)}
    (h : t.delete conditions = .ok t') : t'.definition = t.definition := by
  unfold Table.delete at h
  split_ifs at h
  cases h
  rfl

theorem Table.exists_delete (conditions : List (Condition κ))
    (h : ∀ c ∈ conditions, t.definition.Has c.column) : ∃ t', t.delete conditions = .ok t' := by
  have hno : ¬ ∃ c ∈ conditions, ¬ t.definition.Has c.column := fun ⟨c, hc, hnot⟩ => hnot (h c hc)
  exact ⟨_, if_neg hno⟩

end Definitions

/-! ## Rows that stand for something -/

/-- How the rows of a table stand for values of a type. -/
structure Encoding (κ α : Type) where
  encode : α → Row κ
  decode : Row κ → α
  decode_encode : ∀ a, decode (encode a) = a

namespace Encoding

section Visits

variable {κ α : Type} (E : Encoding κ α)

def table (d : Definition κ) (rows : List α) (lastRowid : ℕ) : Table κ :=
  ⟨d, rows.map E.encode, lastRowid⟩

/-- The order in which a SELECT visits what the rows stand for. -/
def visit (planner : Planner κ) (q : Select κ) (rows : List α) : List α :=
  (planner.visit q (rows.map E.encode)).map E.decode

theorem visit_perm (planner : Planner κ) (q : Select κ) (rows : List α) :
    (E.visit planner q rows).Perm rows := by
  have hdecode : (rows.map E.encode).map E.decode = rows := by
    simp [Function.comp_def, E.decode_encode]
  have hperm := (planner.perm q (rows.map E.encode)).map E.decode
  rwa [hdecode] at hperm

theorem encode_visit (planner : Planner κ) (q : Select κ) (rows : List α) :
    (E.visit planner q rows).map E.encode = planner.visit q (rows.map E.encode) := by
  rw [visit, List.map_map]
  refine (List.map_congr_left fun r hr => ?_).trans (List.map_id _)
  obtain ⟨a, -, rfl⟩ := List.mem_map.1 ((planner.perm q _).mem_iff.1 hr)
  simp [E.decode_encode]

theorem visit_first (pick : Select κ → Row κ → Bool) (q : Select κ) (rows : List α) :
    E.visit (.first pick) q rows = rows.filter (fun a => pick q (E.encode a)) ++
      rows.filter fun a => !pick q (E.encode a) := by
  simp [visit, Planner.first, List.filter_map, Function.comp_def, E.decode_encode]

@[simp] theorem visit_toList (planner : Planner κ) (q : Select κ) (o : Option α) :
    E.visit planner q o.toList = o.toList := by
  have hperm := E.visit_perm planner q o.toList
  cases o with
  | none => exact hperm.eq_nil
  | some a => exact hperm.eq_singleton

theorem exists_sameKey {E : Encoding κ α} {rows : List α} {a : α} {key : List κ} {same : α → Bool}
    (hsame : ∀ b ∈ rows, sameKey key (E.encode b) (E.encode a) = same b) :
    (∃ r ∈ rows.map E.encode, sameKey key r (E.encode a) = true) ↔ rows.any same := by
  simp only [List.mem_map, exists_exists_and_eq_and, List.any_eq_true]
  exact exists_congr fun b => and_congr_right fun hb => by rw [hsame b hb]

end Visits

variable {α : Type} {E : Encoding κ α} {d : Definition κ} {rows : List α} {n : ℕ}
  {planner : Planner κ} {q : Select κ} {p : α → Bool}

theorem filter_encode (h : ∀ a ∈ rows, q.Matches d (E.encode a) = p a) :
    (rows.map E.encode).filter (q.Matches d) = (rows.filter p).map E.encode := by
  rw [List.filter_map]
  exact congrArg _ (List.filter_congr h)

/-- A SELECT of columns that are there, with a limit of 64 bits. -/
theorem select_eq (hnames : q.Names d) (hlimit : ∀ m ∈ q.limit, m < 2 ^ 63)
    (hp : ∀ a ∈ rows, q.Matches d (E.encode a) = p a) :
    (E.table d rows n).select planner q =
      let found := (E.visit planner q (rows.filter p)).map E.encode
      let sorted := match q.order with
        | none => found
        | some o => found.insertionSort (o.le · ·)
      .ok (match q.limit with
        | none => sorted
        | some m => sorted.take m) := by
  have hno : ¬ ∃ m ∈ q.limit, 2 ^ 63 ≤ m := fun ⟨m, hm, hle⟩ => absurd (hlimit m hm) (by omega)
  simp only [Table.select, table, not_not.2 hnames, hno, if_false, filter_encode hp, encode_visit]

theorem select_of_limit (hnames : q.Names d) (hlimit : ∃ m ∈ q.limit, 2 ^ 63 ≤ m) :
    (E.table d rows n).select planner q = .error .mismatch := by
  simp only [Table.select, table, not_not.2 hnames, hlimit, if_false, if_true]

/-- What a SELECT with an order finds is what sorting the values finds. -/
theorem select_sorted {o : Order κ} {le : α → α → Prop} [DecidableRel le] (hnames : q.Names d)
    (hlimit : ∀ m ∈ q.limit, m < 2 ^ 63) (horder : q.order = some o)
    (hp : ∀ a ∈ rows, q.Matches d (E.encode a) = p a)
    (hle : ∀ a b, o.le (E.encode a) (E.encode b) = true ↔ le a b) :
    (E.table d rows n).select planner q =
      let sorted := (E.visit planner q (rows.filter p)).insertionSort le
      .ok ((match q.limit with | none => sorted | some m => sorted.take m).map E.encode) := by
  have hsort := List.map_insertionSort le (fun r r' => o.le r r' = true) E.encode
    (E.visit planner q (rows.filter p)) fun a _ b _ => (hle a b).symm
  rw [select_eq hnames hlimit hp, horder]
  cases q.limit <;> simp [← hsort]

theorem select_visited (hnames : q.Names d) (hlimit : ∀ m ∈ q.limit, m < 2 ^ 63)
    (horder : q.order = none) (hp : ∀ a ∈ rows, q.Matches d (E.encode a) = p a) :
    (E.table d rows n).select planner q =
      let found := E.visit planner q (rows.filter p)
      .ok ((match q.limit with | none => found | some m => found.take m).map E.encode) := by
  rw [select_eq hnames hlimit hp, horder]
  cases q.limit <;> simp

/-- At most one value has a key. -/
theorem filter_key {ν : Type} [DecidableEq ν] {key : α → ν} (h : (rows.map key).Nodup) (k : ν) :
    (rows.filter fun a => key a = k) = (rows.find? fun a => key a = k).toList := by
  induction rows with
  | nil => rfl
  | cons a rows ih =>
    rw [List.map_cons, List.nodup_cons] at h
    rw [List.filter_cons, List.find?_cons]
    by_cases ha : key a = k
    · have hnil : (rows.filter fun b => key b = k) = [] := by
        rw [List.filter_eq_nil_iff]
        intro b hb
        simp only [decide_eq_true_eq]
        exact fun hbk => h.1 (List.mem_map.2 ⟨b, hb, hbk.trans ha.symm⟩)
      simp [ha, hnil]
    · simpa [ha] using ih h.2

/-- A SELECT by a key finds the value with it. -/
theorem select_key {ν : Type} [DecidableEq ν] {key : α → ν} (hnodup : (rows.map key).Nodup) {k : ν}
    (hnames : q.Names d) (horder : q.order = none) (hlimit : q.limit = none)
    (hp : ∀ a ∈ rows, q.Matches d (E.encode a) = decide (key a = k)) :
    (E.table d rows n).select planner q =
      .ok (((rows.find? fun a => key a = k).map E.encode).toList) := by
  rw [select_visited hnames (by simp [hlimit]) horder hp, hlimit, filter_key hnodup, visit_toList]
  cases rows.find? fun a => key a = k <;> rfl

/-- A DELETE leaves the values that do not match. -/
theorem delete_eq {conditions : List (Condition κ)} (hnames : ∀ c ∈ conditions, d.Has c.column)
    (hp : ∀ a ∈ rows, conditions.all (·.holds d (E.encode a)) = p a) :
    (E.table d rows n).delete conditions = .ok (E.table d (rows.filter fun a => !p a) n) := by
  have hno : ¬ ∃ c ∈ conditions, ¬ d.Has c.column := fun ⟨c, hc, hnot⟩ => hnot (hnames c hc)
  simp only [Table.delete, table, hno, if_false, List.filter_map]
  congr 3
  exact List.filter_congr fun a ha => congrArg _ (hp a ha)

section Insertions

variable {values : List (κ × Param)} {a : α}

/-- A row that is allowed, with keys that no other row has. -/
theorem insert_eq (hnames : ∀ v ∈ values, d.Has v.1) (hrow : d.row values (n + 1) = E.encode a)
    (hallows : d.allows (E.encode a)) (hunique : d.unique = []) :
    (E.table d rows n).insert values .abort = .ok (E.table d (rows ++ [a]) (n + 1)) := by
  have hno : ¬ ∃ v ∈ values, ¬ d.Has v.1 := fun ⟨v, hv, hnot⟩ => hnot (hnames v hv)
  simp [Table.insert, table, hno, hrow, hallows, hunique]

variable {key : List κ} {same : α → Bool}

/-- INSERT OR IGNORE into a table with one key. -/
theorem insert_ignore_eq (hnames : ∀ v ∈ values, d.Has v.1)
    (hrow : d.row values (n + 1) = E.encode a) (hallows : d.allows (E.encode a))
    (hunique : d.unique = [key])
    (hsame : ∀ b ∈ rows, sameKey key (E.encode b) (E.encode a) = same b) :
    (E.table d rows n).insert values .ignore = .ok
      (if rows.any same then E.table d rows n else E.table d (rows ++ [a]) (n + 1)) := by
  have hno : ¬ ∃ v ∈ values, ¬ d.Has v.1 := fun ⟨v, hv, hnot⟩ => hnot (hnames v hv)
  simp only [Table.insert, table, hno, if_false, hrow, hallows, hunique, List.mem_singleton,
    exists_eq_left, exists_sameKey hsame, Bool.true_eq_false, false_or]
  split_ifs <;> simp

/-- An upsert of all columns but the key. -/
theorem upsert_eq {set : List κ} (hnames : ∀ v ∈ values, d.Has v.1)
    (hrow : d.row values (n + 1) = E.encode a) (hallows : d.allows (E.encode a))
    (hunique : d.unique = [key])
    (hsame : ∀ b ∈ rows, sameKey key (E.encode b) (E.encode a) = same b)
    (hset : ∀ b ∈ rows, same b → ∀ c ∉ set, E.encode b c = E.encode a c) :
    (E.table d rows n).insert values (.update key set) = .ok
      (if rows.any same then E.table d (rows.map fun b => if same b then a else b) n
      else E.table d (rows ++ [a]) (n + 1)) := by
  have hno : ¬ ∃ v ∈ values, ¬ d.Has v.1 := fun ⟨v, hv, hnot⟩ => hnot (hnames v hv)
  have hmap : ((rows.map E.encode).map fun r => if sameKey key r (E.encode a) then
      (fun c => if c ∈ set then E.encode a c else r c) else r) =
      (rows.map fun b => if same b then a else b).map E.encode := by
    rw [List.map_map, List.map_map]
    refine List.map_congr_left fun b hb => ?_
    simp only [Function.comp_apply, hsame b hb]
    split_ifs with h
    · funext c
      split_ifs with hc
      · rfl
      · exact hset b hb h c hc
    · rfl
  have hkey : ¬ key ∉ d.unique := by simp [hunique]
  have hok : ¬ (d.allows (E.encode a) = false ∨ ∃ key' ∈ d.unique, key' ≠ key ∧
      ∃ r ∈ rows.map E.encode, sameKey key' r (E.encode a) = true) := by
    simp [hunique, hallows]
  simp only [Table.insert, table, hrow]
  rw [if_neg hno, if_neg hkey, if_neg hok, hmap]
  simp only [exists_sameKey hsame]
  split_ifs <;> simp

end Insertions

end Encoding

end Tables

/-! ## Files -/

section Files

variable {κ τ ι α : Type}

/-- A database file: its tables and the names of its indexes. -/
structure Database (τ κ ι : Type) where
  tables : τ → Option (Table κ)
  indexes : List ι

namespace Database

def empty : Database τ κ ι := ⟨fun _ => none, []⟩

variable (db : Database τ κ ι)

def set [DecidableEq τ] (t : τ) (table : Table κ) : Database τ κ ι :=
  { db with tables := Function.update db.tables t (some table) }

/-- CREATE TABLE IF NOT EXISTS: a table that is there stays as it is. -/
def createTable [DecidableEq τ] (t : τ) (d : Definition κ) : Database τ κ ι :=
  match db.tables t with
  | some _ => db
  | none => db.set t d.table

/-- CREATE INDEX IF NOT EXISTS. -/
def createIndex [DecidableEq κ] [DecidableEq ι] (i : ι) (t : τ) (columns : List κ) :
    Except Error (Database τ κ ι) :=
  match db.tables t with
  | none => .error .noTable
  | some table =>
    if i ∈ db.indexes then .ok db
    else if ∃ c ∈ columns, ¬ table.definition.Has c then .error .noColumn
    else .ok { db with indexes := db.indexes ++ [i] }

/-- What a statement reads from a table. -/
def read (t : τ) (f : Table κ → Except Error α) : Except Error α :=
  match db.tables t with
  | none => .error .noTable
  | some table => f table

/-- What a statement makes of a table. -/
def write [DecidableEq τ] (t : τ) (f : Table κ → Except Error (Table κ)) :
    Except Error (Database τ κ ι) :=
  (db.read t f).map (db.set t)

variable {db} {t : τ} {table : Table κ}

@[simp] theorem tables_set_self [DecidableEq τ] : (db.set t table).tables t = some table := by
  simp [set]

theorem tables_set_of_ne [DecidableEq τ] {t' : τ} (h : t' ≠ t) :
    (db.set t table).tables t' = db.tables t' := by
  simp [set, h]

variable (db) in
theorem tables_createTable [DecidableEq τ] (t : τ) (d : Definition κ) (t' : τ) :
    (db.createTable t d).tables t' =
      (db.tables t').or (if t' = t then some d.table else none) := by
  unfold createTable
  split
  · next table h =>
    split_ifs with heq
    · rw [heq, h, Option.some_or]
    · rw [Option.or_none]
  · next h =>
    split_ifs with heq
    · rw [heq, h, tables_set_self, Option.none_or]
    · rw [tables_set_of_ne heq, Option.or_none]

/-- An index can be made on columns that are there, and leaves the tables as they are. -/
theorem createIndex_of_has [DecidableEq κ] [DecidableEq ι] (i : ι) {columns : List κ}
    (h : db.tables t = some table) (hcolumns : ∀ c ∈ columns, table.definition.Has c) :
    ∃ db', db.createIndex i t columns = .ok db' ∧ db'.tables = db.tables := by
  unfold createIndex
  rw [h]
  simp only
  split_ifs with hi hno
  · exact ⟨db, rfl, rfl⟩
  · obtain ⟨c, hc, hnot⟩ := hno
    exact absurd (hcolumns c hc) hnot
  · exact ⟨_, rfl, rfl⟩

theorem read_of_some (h : db.tables t = some table) (f : Table κ → Except Error α) :
    db.read t f = f table := by
  rw [read, h]

theorem write_of_some [DecidableEq τ] {f : Table κ → Except Error (Table κ)} {table' : Table κ}
    (h : db.tables t = some table) (hf : f table = .ok table') :
    db.write t f = .ok (db.set t table') := by
  rw [write, read_of_some h, hf]
  rfl

theorem write_eq_ok [DecidableEq τ] {f : Table κ → Except Error (Table κ)}
    {db' : Database τ κ ι} (h : db.write t f = .ok db') :
    ∃ table table', db.tables t = some table ∧ f table = .ok table' ∧ db' = db.set t table' := by
  unfold write read at h
  rcases ht : db.tables t with _ | table
  · simp [ht, Except.map] at h
  · rcases hf : f table with e | table'
    · simp [ht, hf, Except.map] at h
    · simp only [ht, hf, Except.map, Except.ok.injEq] at h
      exact ⟨table, table', rfl, hf, h.symm⟩

end Database

end Files

end Sqlite
