import Scriptlet.Json.Parser
import Scriptlet.Proofs.Table

/-!
# Keys of host values

An object has each key once, at every depth of a value.  Reading a value from a text gives such
a value, as a key that is written again gets the later value in the place of the earlier one.
-/

namespace Scriptlet.Json

/-- No object in a value has a key twice. -/
inductive Value.DistinctKeys : Value → Prop where
  | null : DistinctKeys .null
  | boolean (value : Bool) : DistinctKeys (.boolean value)
  | number (value : Number) : DistinctKeys (.number value)
  | string (value : Text) : DistinctKeys (.string value)
  | array {items : List Value} (each : ∀ item ∈ items, DistinctKeys item) :
      DistinctKeys (.array items)
  | object {entries : List (Text × Value)} (keys : (entries.map Prod.fst).Nodup)
      (each : ∀ entry ∈ entries, DistinctKeys entry.2) : DistinctKeys (.object entries)

theorem Value.DistinctKeys.keys_of_object {entries : List (Text × Value)}
    (distinct : DistinctKeys (.object entries)) : (entries.map Prod.fst).Nodup := by
  cases distinct with
  | object keys _ => exact keys

theorem Value.DistinctKeys.each_of_array {items : List Value}
    (distinct : DistinctKeys (.array items)) : ∀ item ∈ items, item.DistinctKeys := by
  cases distinct with
  | array each => exact each

/-- An object made of pairs has each key once, with a value that is among the pairs. -/
theorem Value.DistinctKeys.ofPairs {pairs : List (Text × Value)}
    (each : ∀ pair ∈ pairs, DistinctKeys pair.2) :
    DistinctKeys (.object (Table.ofPairs pairs)) := by
  refine .object (Table.nodup_ofPairs pairs) ?_
  intro entry member
  have found := (Table.get?_eq_some_iff_mem (Table.nodup_ofPairs pairs)).mpr member
  rw [Table.get?_ofPairs] at found
  exact each _ (List.mem_reverse.mp (Table.mem_of_get? found))

section Readers

variable {readItem? : Text → Option (Value × Text)} {bound : Nat} {text rest : Text}

theorem readItems?_distinctKeys {items : List Value}
    (each : ∀ text value rest, readItem? text = some (value, rest) → value.DistinctKeys)
    (read : readItems? readItem? bound text = some (items, rest)) :
    ∀ item ∈ items, item.DistinctKeys := by
  induction bound generalizing text items with
  | zero => cases read
  | succ bound induction =>
      obtain ⟨⟨first, afterFirst⟩, firstRead, read⟩ := Option.bind_eq_some_iff.mp read
      have here := each _ _ _ firstRead
      dsimp only at read
      split at read
      · obtain ⟨⟨others, afterOthers⟩, othersRead, same⟩ := Option.bind_eq_some_iff.mp read
        cases same
        exact List.forall_mem_cons.mpr ⟨here, induction othersRead⟩
      · cases read
        exact List.forall_mem_singleton.mpr here
      · cases read

theorem readEntries?_distinctKeys {entries : List (Text × Value)}
    (each : ∀ text value rest, readItem? text = some (value, rest) → value.DistinctKeys)
    (read : readEntries? readItem? bound text = some (entries, rest)) :
    ∀ entry ∈ entries, entry.2.DistinctKeys := by
  induction bound generalizing text entries with
  | zero => cases read
  | succ bound induction =>
      rw [readEntries?] at read
      split at read
      · obtain ⟨⟨key, afterKey⟩, -, read⟩ := Option.bind_eq_some_iff.mp read
        dsimp only at read
        split at read
        · obtain ⟨⟨first, afterFirst⟩, firstRead, read⟩ := Option.bind_eq_some_iff.mp read
          have here := each _ _ _ firstRead
          dsimp only at read
          split at read
          · obtain ⟨⟨others, afterOthers⟩, othersRead, same⟩ := Option.bind_eq_some_iff.mp read
            cases same
            exact List.forall_mem_cons.mpr ⟨here, induction othersRead⟩
          · cases read
            exact List.forall_mem_singleton.mpr here
          · cases read
        · cases read
      · cases read

/-- Every value that is read has distinct keys. -/
theorem readValue?_distinctKeys {depth : Nat} {value : Value}
    (read : readValue? depth text = some (value, rest)) : value.DistinctKeys := by
  induction depth generalizing text value rest with
  | zero => cases read
  | succ depth induction =>
      have each : ∀ text value rest, readValue? depth text = some (value, rest) →
          value.DistinctKeys := fun _ _ _ => induction
      rw [readValue?] at read
      split at read
      · cases read
        exact .null
      · cases read
        exact .boolean true
      · cases read
        exact .boolean false
      · obtain ⟨literal, -, same⟩ := Option.map_eq_some_iff.mp read
        cases same
        exact .string _
      · split at read
        · cases read
        · split at read
          · cases read
            exact .array (by simp)
          · obtain ⟨⟨items, afterItems⟩, itemsRead, same⟩ := Option.map_eq_some_iff.mp read
            cases same
            exact .array (readItems?_distinctKeys each itemsRead)
      · split at read
        · cases read
        · split at read
          · cases read
            exact .object List.nodup_nil (by simp)
          · obtain ⟨⟨pairs, afterPairs⟩, pairsRead, same⟩ := Option.map_eq_some_iff.mp read
            cases same
            exact .ofPairs (readEntries?_distinctKeys each pairsRead)
      · obtain ⟨number, -, same⟩ := Option.map_eq_some_iff.mp read
        cases same
        exact .number _

end Readers

theorem Value.distinctKeys_of_parse? {text : Text} {value : Value}
    (parsed : Value.parse? text = some value) : value.DistinctKeys := by
  rw [Value.parse?] at parsed
  split at parsed
  · rename_i read
    split at parsed
    · cases parsed
      exact readValue?_distinctKeys read
    · cases parsed
  · cases parsed

end Scriptlet.Json
