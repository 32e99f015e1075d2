import AmbientFs.Lib.Json

/-!
# Derived codecs

How the codec that is derived for a type writes a value of JSON and reads one. A struct is read from
an object, whose other members are skipped, or from an array with one item for each field. An
optional field can be null or missing.
-/

namespace Json

namespace Value

variable {ν α : Type}

/-- The fields of a struct, by name. -/
def fields (names : List String) : Value ν → Option (String → Option (Value ν))
  | object members => some fun name => members.lookup name
  | array items =>
    if items.length = names.length then some fun name => (names.zip items).lookup name else none
  | _ => none

/-- The fields of a struct that is read from the syntax of a text: one that is there more than once
is an error. -/
def fieldsOnce (names : List String) (v : Value ν) : Option (String → Option (Value ν)) :=
  match v with
  | object members =>
    if ∃ name ∈ names, 1 < (members.map Prod.fst).count name then none else v.fields names
  | _ => v.fields names

/-- A field that may be missing. -/
def asOption (read : Value ν → Option α) : Option (Value ν) → Option (Option α)
  | none => some none
  | some null => some none
  | some v => (read v).map some

def ofOption (write : α → Value ν) : Option α → Value ν
  | none => null
  | some a => write a

/-- The name of a variant that has no fields. -/
def variant : Value ν → Option String
  | string name => some name
  | object [(name, null)] => some name
  | _ => none

/-- The name of a variant that is tagged inside, and what its fields are read from. -/
def tagged (tag : String) : Value ν → Option (String × Value ν)
  | object members =>
    ((members.lookup tag).bind asStr).map fun name => (name, object (members.filter (·.1 ≠ tag)))
  | array (string name :: items) => some (name, array items)
  | _ => none

@[simp] theorem fields_object (names : List String) (members : List (String × Value ν)) :
    (object members).fields names = some fun name => members.lookup name := rfl

@[simp] theorem variant_string (name : String) : (string name : Value ν).variant = some name := rfl

@[simp] theorem asOption_asStr (o : Option String) :
    asOption asStr (some (ofOption string o : Value ν)) = some o := by
  cases o <;> rfl

theorem fieldsOnce_object {names : List String} {members : List (String × Value ν)}
    (h : (members.map Prod.fst).Nodup) :
    (object members).fieldsOnce names = some fun name => members.lookup name := by
  have hno : ¬ ∃ name ∈ names, 1 < (members.map Prod.fst).count name := by
    rintro ⟨name, -, hcount⟩
    have hle := List.nodup_iff_count_le_one.1 h name
    omega
  exact if_neg hno

/-- The items of an array are read back if each of them is. -/
theorem mapM_read_write {read : Value ν → Option α} {write : α → Value ν} {items : List α}
    (h : ∀ a ∈ items, read (write a) = some a) : (items.map write).mapM read = some items := by
  induction items with
  | nil => rfl
  | cons a items ih =>
    rw [List.forall_mem_cons] at h
    rw [List.map_cons, List.mapM_cons, h.1, ih h.2]
    rfl

/-! ## Values that differ in their numbers -/

/-- The values are the same but for their numbers, which are related. -/
inductive Rel (r : ν → ν → Prop) : Value ν → Value ν → Prop
  | null : Rel r null null
  | bool (b : Bool) : Rel r (bool b) (bool b)
  | number {m n : ν} (h : r m n) : Rel r (number m) (number n)
  | string (s : String) : Rel r (string s) (string s)
  | array {items items' : List (Value ν)} (h : List.Forall₂ (Rel r) items items') :
      Rel r (array items) (array items')
  | object {members members' : List (String × Value ν)}
      (hkeys : members.map Prod.fst = members'.map Prod.fst)
      (h : List.Forall₂ (Rel r) (members.map Prod.snd) (members'.map Prod.snd)) :
      Rel r (object members) (object members')

variable {r : ν → ν → Prop} {v v' : Value ν} {o o' : Option (Value ν)}

theorem lookup_rel (key : String) : ∀ {members members' : List (String × Value ν)},
    members.map Prod.fst = members'.map Prod.fst →
    List.Forall₂ (Rel r) (members.map Prod.snd) (members'.map Prod.snd) →
    Option.Rel (Rel r) (members.lookup key) (members'.lookup key)
  | [], [], _, _ => .none
  | p :: members, q :: members', hkeys, h => by
    rw [List.map_cons, List.map_cons, List.cons.injEq] at hkeys
    rw [List.map_cons, List.map_cons, List.forall₂_cons] at h
    rw [List.lookup_cons, List.lookup_cons, ← hkeys.1]
    cases key == p.1
    · exact lookup_rel key hkeys.2 h.2
    · exact .some h.1

theorem Rel.asStr_eq (h : Rel r v v') : v.asStr = v'.asStr := by
  cases h <;> rfl

theorem Rel.asBool_eq (h : Rel r v v') : v.asBool = v'.asBool := by
  cases h <;> rfl

/-- A number is read as a number. -/
theorem Rel.asNumber_bind (h : Rel r v v') {read : ν → Option α}
    (hread : ∀ m n, r m n → read m = read n) : v.asNumber.bind read = v'.asNumber.bind read := by
  cases h with
  | number h => exact hread _ _ h
  | null | bool | string | array | object => rfl

theorem mapM_rel {read : Value ν → Option α} (hread : ∀ v v', Rel r v v' → read v = read v')
    {items items' : List (Value ν)} (h : List.Forall₂ (Rel r) items items') :
    items.mapM read = items'.mapM read := by
  induction h with
  | nil => rfl
  | cons hv _ ih => rw [List.mapM_cons, List.mapM_cons, hread _ _ hv, ih]

/-- A field is read the same where related values are. -/
theorem bind_rel {read : Value ν → Option α} (hread : ∀ v v', Rel r v v' → read v = read v')
    (h : Option.Rel (Rel r) o o') : o.bind read = o'.bind read := by
  cases h with
  | none => rfl
  | some h => exact hread _ _ h

theorem asOption_rel {read : Value ν → Option α} (hread : ∀ v v', Rel r v v' → read v = read v')
    (h : Option.Rel (Rel r) o o') : asOption read o = asOption read o' := by
  cases h with
  | none => rfl
  | some h =>
    have heq := hread _ _ h
    cases h with
    | null => rfl
    | bool | number | string | array | object => exact congrArg (Option.map some) heq

end Value

end Json
