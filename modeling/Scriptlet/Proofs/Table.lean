import Mathlib.Data.List.Induction
import Mathlib.Data.List.Nodup
import Scriptlet.Table

/-!
# Tables as maps

A table that is filled by insertions has every key once, in the order of the first
insertion, and the last value that was inserted for it.
-/

namespace Scriptlet.Table

variable {κ ν : Type} [DecidableEq κ]

theorem get?_append (key : κ) (left right : Table κ ν) :
    get? key (left ++ right) = (get? key left).or (get? key right) := by
  induction left with
  | nil => rfl
  | cons entry left induction =>
      by_cases same : entry.1 = key
      · simp [get?, same]
      · simp [get?, same, induction]

theorem get?_eq_none_iff {key : κ} {table : Table κ ν} :
    get? key table = none ↔ key ∉ table.map Prod.fst := by
  induction table with
  | nil => simp [get?]
  | cons entry rest induction =>
      by_cases same : entry.1 = key
      · simp [get?, same]
      · simp [get?, same, induction, Ne.symm same]

theorem get?_eq_some_iff_mem {key : κ} {value : ν} {table : Table κ ν}
    (distinct : (table.map Prod.fst).Nodup) :
    get? key table = some value ↔ (key, value) ∈ table := by
  induction table with
  | nil => simp [get?]
  | cons entry rest induction =>
      rw [List.map_cons, List.nodup_cons] at distinct
      by_cases same : entry.1 = key
      · have unique : ∀ other, (key, other) ∉ rest := by
          intro other member
          exact distinct.1 (same ▸ List.mem_map_of_mem member)
        simp [get?, same, unique value, Prod.ext_iff, eq_comm]
      · have other : (key, value) ≠ entry := by
          rintro rfl
          exact same rfl
        simp [get?, same, other, induction distinct.2]

/-- Tables with the same entries have the same values. -/
theorem get?_of_perm {left right : Table κ ν} (permuted : left.Perm right)
    (distinct : (left.map Prod.fst).Nodup) (key : κ) : get? key left = get? key right := by
  have rightDistinct : (right.map Prod.fst).Nodup :=
    (permuted.map Prod.fst).nodup_iff.mp distinct
  apply Option.ext
  intro value
  rw [get?_eq_some_iff_mem distinct, get?_eq_some_iff_mem rightDistinct, permuted.mem_iff]

theorem insert_of_notMem {key : κ} {table : Table κ ν} (absent : key ∉ table.map Prod.fst)
    (value : ν) : insert key value table = table ++ [(key, value)] := by
  induction table with
  | nil => rfl
  | cons entry rest induction =>
      rw [List.map_cons, List.mem_cons, not_or] at absent
      rw [insert, if_neg (Ne.symm absent.1), induction absent.2, List.cons_append]

/-- A new key comes last, and a key that is present keeps its place. -/
theorem map_fst_insert (key : κ) (value : ν) (table : Table κ ν) :
    (insert key value table).map Prod.fst =
      if key ∈ table.map Prod.fst then table.map Prod.fst else table.map Prod.fst ++ [key] := by
  induction table with
  | nil => rfl
  | cons entry rest induction =>
      by_cases same : entry.1 = key
      · simp [insert, same]
      · rw [insert, if_neg same, List.map_cons, induction, List.map_cons]
        by_cases member : key ∈ rest.map Prod.fst
        · rw [if_pos member, if_pos (List.mem_cons_of_mem _ member)]
        · have absent : key ∉ entry.1 :: rest.map Prod.fst := by
            rw [List.mem_cons, not_or]
            exact ⟨Ne.symm same, member⟩
          rw [if_neg member, if_neg absent, List.cons_append]

theorem nodup_insert {table : Table κ ν} (distinct : (table.map Prod.fst).Nodup) (key : κ)
    (value : ν) : ((insert key value table).map Prod.fst).Nodup := by
  rw [map_fst_insert]
  split
  · exact distinct
  · rename_i absent
    refine List.nodup_append.mpr ⟨distinct, List.nodup_singleton key, ?_⟩
    intro other member last isLast same
    rw [same, List.mem_singleton.mp isLast] at member
    exact absent member

theorem erase_of_get?_eq_none {key : κ} {table : Table κ ν} (absent : get? key table = none) :
    erase key table = table := by
  rw [get?_eq_none_iff] at absent
  apply List.filter_eq_self.mpr
  intro entry member
  have other : entry.1 ≠ key := by
    rintro rfl
    exact absent (List.mem_map_of_mem member)
  simpa using other

theorem nodup_erase {table : Table κ ν} (distinct : (table.map Prod.fst).Nodup) (key : κ) :
    ((erase key table).map Prod.fst).Nodup :=
  distinct.sublist (List.filter_sublist.map Prod.fst)

/-- Erasing a key takes away one entry. -/
theorem length_erase {key : κ} {value : ν} {table : Table κ ν}
    (distinct : (table.map Prod.fst).Nodup) (found : get? key table = some value) :
    (erase key table).length + 1 = table.length := by
  induction table with
  | nil => cases found
  | cons entry rest induction =>
      rw [List.map_cons, List.nodup_cons] at distinct
      by_cases same : entry.1 = key
      · have gone : erase key (entry :: rest) = erase key rest := by simp [erase, same]
        rw [same, ← get?_eq_none_iff] at distinct
        rw [gone, erase_of_get?_eq_none distinct.1, List.length_cons]
      · have kept : erase key (entry :: rest) = entry :: erase key rest := by simp [erase, same]
        rw [get?, if_neg same] at found
        rw [kept, List.length_cons, List.length_cons, induction distinct.2 found]

/-- What a row of insertions leaves under a key is what was inserted for it last. -/
theorem get?_foldl_insert (key : κ) (pairs : List (κ × ν)) (table : Table κ ν) :
    get? key (pairs.foldl (fun filled pair => insert pair.1 pair.2 filled) table) =
      (get? key pairs.reverse).or (get? key table) := by
  induction pairs generalizing table with
  | nil => rfl
  | cons pair pairs induction =>
      rw [List.foldl_cons, induction, List.reverse_cons, get?_append, Option.or_assoc,
        get?_insert]
      by_cases same : pair.1 = key
      · simp [get?, same]
      · simp [get?, same]

theorem get?_ofPairs (key : κ) (pairs : List (κ × ν)) :
    get? key (ofPairs pairs) = get? key pairs.reverse := by
  rw [ofPairs, get?_foldl_insert]
  exact Option.or_none

theorem ofPairs_append_singleton (pairs : List (κ × ν)) (pair : κ × ν) :
    ofPairs (pairs ++ [pair]) = insert pair.1 pair.2 (ofPairs pairs) :=
  List.foldl_append

theorem nodup_ofPairs (pairs : List (κ × ν)) : ((ofPairs pairs).map Prod.fst).Nodup := by
  induction pairs using List.reverseRecOn with
  | nil => exact List.nodup_nil
  | append_singleton pairs pair induction =>
      rw [ofPairs_append_singleton]
      exact nodup_insert induction pair.1 pair.2

/-- Pairs with distinct keys are a table already. -/
theorem ofPairs_of_nodup {pairs : List (κ × ν)} (distinct : (pairs.map Prod.fst).Nodup) :
    ofPairs pairs = pairs := by
  induction pairs using List.reverseRecOn with
  | nil => rfl
  | append_singleton pairs pair induction =>
      rw [List.map_append, List.nodup_append] at distinct
      have absent : pair.1 ∉ pairs.map Prod.fst := fun member =>
        distinct.2.2 _ member _ List.mem_cons_self rfl
      rw [ofPairs_append_singleton, induction distinct.1, insert_of_notMem absent]

theorem map_fst_ofPairs [BEq κ] [LawfulBEq κ] (pairs : List (κ × ν)) :
    (ofPairs pairs).map Prod.fst = (pairs.map Prod.fst).eraseDups := by
  induction pairs using List.reverseRecOn with
  | nil => rfl
  | append_singleton pairs pair induction =>
      rw [ofPairs_append_singleton, map_fst_insert, induction, List.map_append,
        List.eraseDups_append]
      by_cases member : pair.1 ∈ pairs.map Prod.fst
      · simp [List.removeAll, List.mem_eraseDups, member]
      · simp [List.removeAll, List.mem_eraseDups, List.eraseDups_cons, member]

end Scriptlet.Table
