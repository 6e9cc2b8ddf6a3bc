import Scriptlet.Toml.Reader

/-!
# Integers of a document

A document holds no integer beyond the signed words of 64 bits.
-/

namespace Scriptlet.Toml

/-- An integer of a document fits a signed word of 64 bits. -/
def Item.Fits : Item → Prop
  | .integer value => Decimal.fitsSigned64 value
  | _ => True

theorem readBased?_fits {base : Nat} {text rest : Text} {item : Item}
    (read : readBased? base text = some (item, rest)) : item.Fits := by
  unfold readBased? at read
  split at read
  · obtain ⟨fits, same⟩ := Option.ite_none_right_eq_some.mp read
    cases same
    exact fits
  · cases read

theorem readFloat?_fits {negative : Bool} {digits text rest : Text} {item : Item}
    (read : readFloat? negative digits text = some (item, rest)) : item.Fits := by
  unfold readFloat? at read
  dsimp only at read
  split at read
  · cases (Option.ite_none_left_eq_some.mp read).2
    trivial
  · split at read
    · cases (Option.ite_none_left_eq_some.mp read).2
      trivial
    · cases read

theorem readSigned?_fits {text rest : Text} {item : Item}
    (read : readSigned? text = some (item, rest)) : item.Fits := by
  unfold readSigned? at read
  dsimp only at read
  split at read
  · cases read
    trivial
  · cases read
    trivial
  · split at read
    · cases read
    · split at read
      · exact readFloat?_fits read
      · obtain ⟨fits, same⟩ := Option.ite_none_right_eq_some.mp read
        cases same
        exact fits

theorem readScalar?_fits {text rest : Text} {item : Item}
    (read : readScalar? text = some (item, rest)) : item.Fits := by
  unfold readScalar? at read
  split at read
  · cases read
    trivial
  · cases read
    trivial
  · split at read
    · cases read
      trivial
    · split at read
      · exact readBased?_fits read
      · exact readBased?_fits read
      · exact readBased?_fits read
      · exact readSigned?_fits read

theorem readItem?_fits {depth : Nat} {text rest : Text} {item : Item}
    (read : readItem? depth text = some (item, rest)) : item.Fits := by
  cases depth with
  | zero => cases read
  | succ depth =>
      unfold readItem? at read
      split at read
      · obtain ⟨_, -, same⟩ := Option.map_eq_some_iff.mp read
        cases same
        trivial
      · obtain ⟨_, -, same⟩ := Option.map_eq_some_iff.mp read
        cases same
        trivial
      · obtain ⟨_, -, same⟩ :=
          Option.map_eq_some_iff.mp (Option.ite_none_left_eq_some.mp read).2
        cases same
        trivial
      · have inner := (Option.ite_none_left_eq_some.mp read).2
        split at inner
        · cases inner
          trivial
        · obtain ⟨_, -, same⟩ := Option.map_eq_some_iff.mp inner
          cases same
          trivial
      · exact readScalar?_fits read

/-- Every integer directly among some entries fits. -/
def Entries.Fit (entries : Entries) : Prop :=
  ∀ entry ∈ entries, entry.2.Fits

namespace Entries.Fit

variable {entries changed : Entries} {key : Text} {item : Item} (fit : Entries.Fit entries)

include fit

theorem append (fits : item.Fits) : Entries.Fit (entries ++ [(key, item)]) :=
  List.forall_mem_append.mpr ⟨fit, List.forall_mem_singleton.mpr fits⟩

theorem insert (fits : item.Fits) : Entries.Fit (Table.insert key item entries) := by
  induction entries with
  | nil => exact List.forall_mem_singleton.mpr fits
  | cons first entries induction =>
      obtain ⟨firstFits, fit⟩ := List.forall_mem_cons.mp fit
      rw [Table.insert]
      split
      · exact List.forall_mem_cons.mpr ⟨fits, fit⟩
      · exact List.forall_mem_cons.mpr ⟨firstFits, induction fit⟩

theorem addEntry? (fits : item.Fits) (added : addEntry? key item entries = some changed) :
    Entries.Fit changed := by
  obtain ⟨-, same⟩ := Option.ite_none_left_eq_some.mp added
  cases same
  exact fit.append fits

/-- Under a path of more than one part only tables change. -/
theorem addDotted? {path : List Text} (fits : item.Fits)
    (added : addDotted? path key item entries = some changed) : Entries.Fit changed := by
  cases path with
  | nil => exact fit.addEntry? fits added
  | cons part path =>
      unfold Toml.addDotted? at added
      split at added
      · obtain ⟨inner, -, rfl⟩ := Option.map_eq_some_iff.mp added
        exact fit.append trivial
      · obtain ⟨inner, -, rfl⟩ := Option.map_eq_some_iff.mp added
        exact fit.insert trivial
      · obtain ⟨inner, -, rfl⟩ :=
          Option.map_eq_some_iff.mp (Option.ite_none_left_eq_some.mp added).2
        exact fit.insert trivial
      · obtain ⟨inner, -, rfl⟩ :=
          Option.map_eq_some_iff.mp (Option.ite_none_left_eq_some.mp added).2
        exact fit.insert trivial
      · cases added

theorem openTable? (opened : openTable? key entries = some changed) : Entries.Fit changed := by
  unfold Toml.openTable? at opened
  split at opened
  · cases opened
    exact fit.append trivial
  · cases opened
    have erased : Entries.Fit (Table.erase key entries) := fun entry member =>
      fit entry (List.mem_filter.mp member).1
    exact erased.append trivial
  · cases opened

theorem openElement? (opened : openElement? key entries = some changed) :
    Entries.Fit changed := by
  unfold Toml.openElement? at opened
  split at opened
  · cases opened
    exact fit.append trivial
  · cases opened
    exact fit.insert trivial
  · cases opened

theorem changeAt? {change : Entries → Option Entries}
    (keeps : ∀ {changed}, change entries = some changed → Entries.Fit changed)
    {path : List Text} (done : changeAt? change path entries = some changed) :
    Entries.Fit changed := by
  cases path with
  | nil => exact keeps done
  | cons part path =>
      unfold Toml.changeAt? at done
      split at done
      · obtain ⟨inner, -, rfl⟩ := Option.map_eq_some_iff.mp done
        exact fit.append trivial
      · cases done
      · obtain ⟨inner, -, rfl⟩ := Option.map_eq_some_iff.mp done
        exact fit.insert trivial
      · obtain ⟨inner, -, rfl⟩ := Option.map_eq_some_iff.mp done
        exact fit.insert trivial
      · cases done

end Entries.Fit

section Lines

variable {progress changed : Progress} (fit : progress.entries.Fit) {text rest : Text}

include fit

theorem readElementHeader?_fit (read : readElementHeader? progress text = some (changed, rest)) :
    changed.entries.Fit := by
  obtain ⟨⟨⟨path, key⟩, _⟩, -, read⟩ := Option.bind_eq_some_iff.mp read
  obtain ⟨_, -, read⟩ := Option.bind_eq_some_iff.mp read
  obtain ⟨_, -, read⟩ := Option.bind_eq_some_iff.mp read
  obtain ⟨entries, opened, same⟩ := Option.bind_eq_some_iff.mp read
  cases same
  exact fit.changeAt? fit.openElement? opened

theorem readTableHeader?_fit (read : readTableHeader? progress text = some (changed, rest)) :
    changed.entries.Fit := by
  obtain ⟨⟨⟨path, key⟩, _⟩, -, read⟩ := Option.bind_eq_some_iff.mp read
  obtain ⟨_, -, read⟩ := Option.bind_eq_some_iff.mp read
  obtain ⟨entries, opened, same⟩ := Option.bind_eq_some_iff.mp read
  cases same
  exact fit.changeAt? fit.openTable? opened

theorem readSetting?_fit (read : readSetting? progress text = some (changed, rest)) :
    changed.entries.Fit := by
  obtain ⟨⟨⟨⟨path, key⟩, item⟩, _⟩, pair, read⟩ := Option.bind_eq_some_iff.mp read
  obtain ⟨entries, added, same⟩ := Option.bind_eq_some_iff.mp read
  cases same
  obtain ⟨⟨_, _⟩, -, pair⟩ := Option.bind_eq_some_iff.mp pair
  obtain ⟨_, -, pair⟩ := Option.bind_eq_some_iff.mp pair
  obtain ⟨⟨item, _⟩, itemRead, same⟩ := Option.bind_eq_some_iff.mp pair
  cases same
  exact fit.changeAt? (fit.addDotted? (readItem?_fits itemRead)) added

end Lines

theorem readLines?_fit {bound : Nat} {progress : Progress} (fit : progress.entries.Fit)
    {text : Text} {entries : Entries} (read : readLines? bound progress text = some entries) :
    entries.Fit := by
  induction bound generalizing progress text with
  | zero => cases read
  | succ bound induction =>
      unfold readLines? at read
      split at read
      · cases read
        exact fit
      · obtain ⟨_, -, further⟩ := Option.bind_eq_some_iff.mp read
        exact induction fit further
      · exact induction fit read
      · exact induction fit read
      · obtain ⟨⟨changed, _⟩, header, read⟩ := Option.bind_eq_some_iff.mp read
        obtain ⟨_, -, further⟩ := Option.bind_eq_some_iff.mp read
        exact induction (readElementHeader?_fit fit header) further
      · obtain ⟨⟨changed, _⟩, header, read⟩ := Option.bind_eq_some_iff.mp read
        obtain ⟨_, -, further⟩ := Option.bind_eq_some_iff.mp read
        exact induction (readTableHeader?_fit fit header) further
      · obtain ⟨⟨changed, _⟩, setting, read⟩ := Option.bind_eq_some_iff.mp read
        obtain ⟨_, -, further⟩ := Option.bind_eq_some_iff.mp read
        exact induction (readSetting?_fit fit setting) further

/-- Every integer directly in a document fits a signed word of 64 bits. -/
theorem parse?_fit {document : Text} {entries : Entries}
    (parsed : parse? document = some entries) : entries.Fit :=
  readLines?_fit (fun _ member => absurd member List.not_mem_nil) parsed

end Scriptlet.Toml
