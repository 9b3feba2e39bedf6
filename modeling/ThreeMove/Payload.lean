/-
# Payloads

What two parties hand each other: bytes, a list of payloads, or a table of
payloads by name.
-/

import ThreeMove.Bytes
import ThreeMove.Error
import ThreeMove.Table

namespace ThreeMove

/-- A structured message value. Source: `Representation`. -/
inductive Payload where
  | bytes (data : Bytes)
  | list (items : List Payload)
  | map (entries : List (String × Payload))

namespace Payload

/-- The table without entries. Source: `empty_map`. -/
def emptyMap : Payload := .map []

/-- Whether a payload is the table without entries. Source: `is_empty_payload`. -/
def isEmptyMap : Payload → Bool
  | .map [] => true
  | _ => false

/-- The bytes of a payload that is bytes. Source: `as_bytes`, `into_bytes`. -/
def toBytes : Payload → Except Error Bytes
  | .bytes data => .ok data
  | _ => .error (.unexpectedRepresentation "bytes")

/-- The items of a payload that is a list. Source: `into_list`. -/
def toItems : Payload → Except Error (List Payload)
  | .list items => .ok items
  | _ => .error (.unexpectedRepresentation "list")

/-- The entries of a payload that is a table. Source: `into_map`. -/
def toEntries : Payload → Except Error (Table Payload)
  | .map entries => .ok entries
  | _ => .error (.unexpectedRepresentation "map")

mutual

/-- Whether two payloads are equal. -/
def equal : Payload → Payload → Bool
  | .bytes a, .bytes b => a == b
  | .list as, .list bs => equalItems as bs
  | .map as, .map bs => equalEntries as bs
  | _, _ => false

/-- Whether two lists of payloads are equal. -/
def equalItems : List Payload → List Payload → Bool
  | [], [] => true
  | a :: as, b :: bs => a.equal b && equalItems as bs
  | _, _ => false

/-- Whether two lists of named payloads are equal. -/
def equalEntries : List (String × Payload) → List (String × Payload) → Bool
  | [], [] => true
  | (k, a) :: as, (l, b) :: bs => k == l && a.equal b && equalEntries as bs
  | _, _ => false

end

instance : BEq Payload := ⟨equal⟩

mutual

/-- Payloads that compare as equal are equal. -/
theorem eq_of_equal : (a b : Payload) → a.equal b = true → a = b
  | .bytes a, .bytes b, h => by simpa [equal] using h
  | .list as, .list bs, h => by rw [eq_of_equalItems as bs (by simpa [equal] using h)]
  | .map as, .map bs, h => by rw [eq_of_equalEntries as bs (by simpa [equal] using h)]
  | .bytes _, .list _, h => by simp [equal] at h
  | .bytes _, .map _, h => by simp [equal] at h
  | .list _, .bytes _, h => by simp [equal] at h
  | .list _, .map _, h => by simp [equal] at h
  | .map _, .bytes _, h => by simp [equal] at h
  | .map _, .list _, h => by simp [equal] at h

/-- Lists of payloads that compare as equal are equal. -/
theorem eq_of_equalItems : (as bs : List Payload) → equalItems as bs = true → as = bs
  | [], [], _ => rfl
  | a :: as, b :: bs, h => by
    simp only [equalItems, Bool.and_eq_true] at h
    rw [eq_of_equal a b h.1, eq_of_equalItems as bs h.2]
  | [], _ :: _, h => by simp [equalItems] at h
  | _ :: _, [], h => by simp [equalItems] at h

/-- Named payloads that compare as equal are equal. -/
theorem eq_of_equalEntries :
    (as bs : List (String × Payload)) → equalEntries as bs = true → as = bs
  | [], [], _ => rfl
  | (k, a) :: as, (l, b) :: bs, h => by
    simp only [equalEntries, Bool.and_eq_true, beq_iff_eq] at h
    rw [h.1.1, eq_of_equal a b h.1.2, eq_of_equalEntries as bs h.2]
  | [], _ :: _, h => by simp [equalEntries] at h
  | _ :: _, [], h => by simp [equalEntries] at h

end

mutual

/-- A payload compares as equal to itself. -/
theorem equal_self : (a : Payload) → a.equal a = true
  | .bytes a => by simp [equal]
  | .list as => by simp [equal, equalItems_self as]
  | .map as => by simp [equal, equalEntries_self as]

/-- A list of payloads compares as equal to itself. -/
theorem equalItems_self : (as : List Payload) → equalItems as as = true
  | [] => rfl
  | a :: as => by simp [equalItems, equal_self a, equalItems_self as]

/-- Named payloads compare as equal to themselves. -/
theorem equalEntries_self : (as : List (String × Payload)) → equalEntries as as = true
  | [] => rfl
  | (_, a) :: as => by simp [equalEntries, equal_self a, equalEntries_self as]

end

instance : DecidableEq Payload := fun a b =>
  if h : a.equal b = true then .isTrue (eq_of_equal a b h)
  else .isFalse fun he => h (he ▸ equal_self a)

end Payload
end ThreeMove
