/-!
# Insertion-ordered tables

Bindings, the memo table of applications, the embeddings and the members of data objects are all
tables whose order is visible: it is the order in which keys were first inserted. Inserting at a
present key replaces the value and leaves key and place as they are, which matters where two keys
count as equal without being written alike.
-/

namespace TermEmbedding

/-- Rows of a key and a value, in the order of insertion. -/
abbrev Table (κ α : Type) := List (κ × α)

namespace Table

variable {κ α : Type} [BEq κ]

def get? (table : Table κ α) (key : κ) : Option α :=
  match table with
  | [] => none
  | (k, a) :: rest => if k == key then some a else get? rest key

def contains (table : Table κ α) (key : κ) : Bool := (table.get? key).isSome

/-- The table with a value at a key: in the place of the old value, or in a new row at the end. -/
def insert (table : Table κ α) (key : κ) (value : α) : Table κ α :=
  match table with
  | [] => [(key, value)]
  | (k, a) :: rest => if k == key then (k, value) :: rest else (k, a) :: insert rest key value

def ofRows (rows : List (κ × α)) : Table κ α :=
  rows.foldl (fun table row ↦ insert table row.1 row.2) []

/-- What a table holds after an insertion: the new value at the keys that count as the inserted
one, the old value elsewhere. -/
theorem get?_insert [LawfulBEq κ] [DecidableEq κ] (table : Table κ α) (key other : κ) (value : α) :
    (table.insert key value).get? other = if key = other then some value else table.get? other := by
  induction table with
  | nil => by_cases h : key = other <;> simp [insert, get?, h]
  | cons row rest ih =>
    obtain ⟨k, a⟩ := row
    by_cases hk : k = key
    · subst hk
      by_cases h : k = other <;> simp [insert, get?, h]
    · by_cases h : key = other
      · subst h
        simp [insert, get?, hk, ih]
      · by_cases hko : k = other
        · subst hko
          simp [insert, get?, hk, h]
        · simp [insert, get?, hk, hko, ih, h]

theorem insert_of_get?_eq_none {table : Table κ α} {key : κ} (value : α)
    (h : table.get? key = none) : table.insert key value = table ++ [(key, value)] := by
  induction table with
  | nil => rfl
  | cons row rest ih =>
    obtain ⟨k, a⟩ := row
    by_cases hk : (k == key) = true
    · simp [get?, hk] at h
    · simp only [get?, hk, Bool.false_eq_true, if_false] at h
      simp [insert, hk, ih h]

end Table

end TermEmbedding
