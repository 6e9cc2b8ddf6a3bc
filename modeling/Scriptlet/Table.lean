import Scriptlet.Text

/-!
# Tables

A table maps keys to values and remembers the order in which its keys were first
inserted.  Sections, in-memory views and the entries of an object are tables.
-/

namespace Scriptlet

/-- Keys with their values, in the order of first insertion. -/
abbrev Table (κ ν : Type) := List (κ × ν)

namespace Table

variable {κ ν : Type} [DecidableEq κ]

def get? (key : κ) : Table κ ν → Option ν
  | [] => none
  | entry :: rest => if entry.1 = key then some entry.2 else get? key rest

def contains (key : κ) (table : Table κ ν) : Bool :=
  (get? key table).isSome

/-- Give a key a value.  A key that is present keeps its place. -/
def insert (key : κ) (value : ν) : Table κ ν → Table κ ν
  | [] => [(key, value)]
  | entry :: rest =>
      if entry.1 = key then (key, value) :: rest else entry :: insert key value rest

def erase (key : κ) (table : Table κ ν) : Table κ ν :=
  table.filter fun entry => entry.1 ≠ key

/-- A table built by inserting pairs from left to right, so a later value of a
key wins. -/
def ofPairs (pairs : List (κ × ν)) : Table κ ν :=
  pairs.foldl (fun table pair => insert pair.1 pair.2 table) []

/-- Whether a text comes before another one, or is it, by code points. -/
def inOrder : Text → Text → Bool
  | [], _ => true
  | _ :: _, [] => false
  | first :: left, second :: right =>
      if first = second then inOrder left right else first < second

/-- The entries of a table with text keys, in the order of the keys. -/
def sortedByKey (table : Table Text ν) : List (Text × ν) :=
  table.mergeSort fun left right => inOrder left.1 right.1

theorem get?_insert (key other : κ) (value : ν) (table : Table κ ν) :
    get? other (insert key value table) =
      if key = other then some value else get? other table := by
  induction table with
  | nil => simp [insert, get?]
  | cons entry rest ih =>
      by_cases same : entry.1 = key
      · by_cases wanted : key = other
        · simp [insert, get?, same, wanted]
        · simp [insert, get?, same, wanted]
      · have kept : insert key value (entry :: rest) = entry :: insert key value rest := by
          simp [insert, same]
        rw [kept]
        by_cases wanted : entry.1 = other
        · have differs : ¬ key = other := fun equal => same (wanted.trans equal.symm)
          simp [get?, wanted, differs]
        · simp [get?, wanted, ih]

theorem exists_get?_of_mem {entry : κ × ν} {table : Table κ ν} (member : entry ∈ table) :
    ∃ value, get? entry.1 table = some value := by
  induction table with
  | nil => cases member
  | cons first rest ih =>
      by_cases same : first.1 = entry.1
      · exact ⟨first.2, by simp [get?, same]⟩
      · rcases List.mem_cons.mp member with rfl | later
        · exact absurd rfl same
        · simpa [get?, same] using ih later

theorem mem_of_get? {key : κ} {value : ν} {table : Table κ ν}
    (found : get? key table = some value) : (key, value) ∈ table := by
  induction table with
  | nil => cases found
  | cons first rest ih =>
      by_cases same : first.1 = key
      · simp only [get?, same, if_true, Option.some.injEq] at found
        subst same found
        exact List.mem_cons_self ..
      · simp only [get?, same, if_false] at found
        exact List.mem_cons_of_mem _ (ih found)

theorem get?_erase (key other : κ) (table : Table κ ν) :
    get? other (erase key table) = if key = other then none else get? other table := by
  induction table with
  | nil => simp [erase, get?]
  | cons entry rest ih =>
      by_cases same : entry.1 = key
      · have skipped : erase key (entry :: rest) = erase key rest := by
          simp [erase, same]
        rw [skipped, ih]
        by_cases wanted : key = other
        · simp [wanted]
        · simp [get?, wanted, same]
      · have kept : erase key (entry :: rest) = entry :: erase key rest := by
          simp [erase, same]
        rw [kept]
        by_cases wanted : entry.1 = other
        · have differs : ¬ key = other := fun equal => same (wanted.trans equal.symm)
          simp [get?, wanted, differs]
        · simp [get?, wanted, ih]

end Table

end Scriptlet
