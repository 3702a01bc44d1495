import Std.Data.TreeMap

/-!
# Finite maps by digest

A finite map for keys that have equality but no useful order. Each key has a digest, a number that
equal keys share; keys with one digest are kept together in a short list. Reading a map never
depends on the choice of the digest (`get?_insert`).
-/

set_option autoImplicit false

namespace ObjectModel

/-- A key with a number that equal keys share. -/
class Digest (α : Type) where
  digest : α → Nat

/-- A finite map, its entries gathered by the digests of their keys. -/
structure Index (α β : Type) where
  buckets : Std.TreeMap Nat (List (α × β)) := ∅

namespace Index

variable {α β : Type}

/-- The map without entries. -/
def empty : Index α β := {}

instance : Inhabited (Index α β) := ⟨empty⟩

variable [DecidableEq α]

/-- The first entry of a bucket with that key. -/
def find? (k : α) : List (α × β) → Option β
  | [] => none
  | (a, b) :: rest => if a = k then some b else find? k rest

variable [Digest α]

/-- The bucket of a digest. -/
def bucket (m : Index α β) (digest : Nat) : List (α × β) := (m.buckets[digest]?).getD []

/-- The value of a key. -/
def get? (m : Index α β) (k : α) : Option β := find? k (m.bucket (Digest.digest k))

/-- Give a key a value, in place of any value so far. -/
def insert (m : Index α β) (k : α) (b : β) : Index α β :=
  let d := Digest.digest k
  { buckets := m.buckets.insert d ((k, b) :: m.bucket d) }

omit [DecidableEq α] in
/-- Only the bucket of the new key changes. -/
theorem bucket_insert (m : Index α β) (k : α) (b : β) (d : Nat) :
    (m.insert k b).bucket d =
      if Digest.digest k = d then (k, b) :: m.bucket d else m.bucket d := by
  by_cases h : Digest.digest k = d
  · subst h
    simp [insert, bucket]
  · simp [insert, bucket, Std.TreeMap.getElem?_insert, h]

@[simp] theorem get?_empty (k : α) : (empty : Index α β).get? k = none := by
  simp [get?, bucket, empty, find?]

/-- A new entry is found under its key, and every other key keeps its value. -/
theorem get?_insert (m : Index α β) (k : α) (b : β) (j : α) :
    (m.insert k b).get? j = if k = j then some b else m.get? j := by
  unfold get?
  rw [bucket_insert]
  by_cases h : k = j
  · subst h
    simp [find?]
  · by_cases hd : Digest.digest k = Digest.digest j
    · simp [hd, find?, h]
    · simp [hd, h]

theorem get?_insert_self (m : Index α β) (k : α) (b : β) : (m.insert k b).get? k = some b := by
  rw [get?_insert, if_pos rfl]

/-- A key that is new takes no other key's value away. -/
theorem get?_insert_of_eq_some {m : Index α β} {k j : α} {b c : β} (hk : m.get? k = none)
    (hj : m.get? j = some c) : (m.insert k b).get? j = some c := by
  rw [get?_insert, if_neg, hj]
  rintro rfl
  rw [hk] at hj
  cases hj

end Index

end ObjectModel
