import Mathlib

/-!
# JSON values

The values of JSON over a type of numbers. The keys of an object are different.
-/

namespace Json

variable {ν : Type}

inductive Value (ν : Type)
  | null
  | bool (b : Bool)
  | number (n : ν)
  | string (s : String)
  | array (items : List (Value ν))
  | object (members : List (String × Value ν))

namespace Value

/-- The member of an object that has the key. -/
def get : Value ν → String → Option (Value ν)
  | object members, key => members.lookup key
  | _, _ => none

def asStr : Value ν → Option String
  | string s => some s
  | _ => none

def asBool : Value ν → Option Bool
  | bool b => some b
  | _ => none

def asNumber : Value ν → Option ν
  | number n => some n
  | _ => none

def asArray : Value ν → Option (List (Value ν))
  | array items => some items
  | _ => none

@[simp] theorem get_object (members : List (String × Value ν)) (key : String) :
    (object members).get key = members.lookup key := rfl

@[simp] theorem asStr_string (s : String) : (string s : Value ν).asStr = some s := rfl

end Value

end Json
