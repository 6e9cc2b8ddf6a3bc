import Scriptlet.Proofs.Table
import Scriptlet.Proofs.Toml.Numbers
import Scriptlet.Proofs.Toml.Strings
import Scriptlet.Toml.Reader

/-!
# Lines of settings

A document of printed settings, one on each line and under keys of their own, is read back
as the table of these settings.
-/

namespace Scriptlet.Toml

/-- A value that is read back at the end of a line. -/
structure PrintsItem (value : Text) (item : Item) : Prop where
  tight : ∀ rest, skipSpaces (value ++ '\n' :: rest) = value ++ '\n' :: rest
  read : ∀ rest, readItem? nestingLimit (value ++ '\n' :: rest) = some (item, '\n' :: rest)

namespace PrintsItem

theorem string (text : Text) : PrintsItem (printString text) (.string text) := by
  have read (rest : Text) :
      readString? (printString text ++ '\n' :: rest) = some (text, '\n' :: rest) :=
    readString?_printString text (by simp) (by simp)
  obtain ⟨others, begins | begins⟩ := printString_begins text
  all_goals
    rw [begins] at read ⊢
    exact ⟨fun _ => rfl, fun rest => congrArg (Option.map _) (read rest)⟩

/-- A number begins with none of the marks of other values. -/
theorem integer {value : Int} (fits : Decimal.fitsSigned64 value) :
    PrintsItem (Decimal.ofInt value) (.integer value) := by
  have read := readScalar?_ofInt fits
  obtain ⟨first, others, same, mark⟩ := Decimal.exists_first_of_ofInt value
  have apart (other : Char) (noMark : other ≠ '-' ∧ Decimal.isDigit other = false) :
      first ≠ other := by
    rcases mark with rfl | isDigit
    · exact Ne.symm noMark.1
    · exact Decimal.ne_of_isDigit isDigit noMark.2
  rw [same] at read ⊢
  constructor
  · intro rest
    have noSpace : isSpace first = false := by
      simp [isSpace, apart ' ' (by decide), apart '\t' (by decide)]
    exact List.dropWhile_cons_of_neg (ne_true_of_eq_false noSpace)
  · intro rest
    rw [nestingLimit, List.cons_append, readItem?]
    · exact read rest
    all_goals simpa using apart _ (by decide)

theorem boolean (value : Bool) : PrintsItem (printBoolean value) (.boolean value) := by
  cases value with
  | true => exact ⟨fun _ => rfl, fun _ => rfl⟩
  | false => exact ⟨fun _ => rfl, fun _ => rfl⟩

end PrintsItem

/-- A key that is written without quotes. -/
structure BareKey (key : Text) : Prop where
  nonempty : key ≠ []
  plain : ∀ character ∈ key, isKeyCharacter character

/-- A document with one line for each of some entries. -/
inductive PrintsEntries : Text → Entries → Prop where
  | nil : PrintsEntries [] []
  | cons {key value document : Text} {item : Item} {entries : Entries} (bare : BareKey key)
      (prints : PrintsItem value item) (further : PrintsEntries document entries) :
      PrintsEntries (printSetting key value ++ document) ((key, item) :: entries)

/-- A bare key is not taken for anything else that may begin a line or a key. -/
theorem BareKey.exists_first {key : Text} (bare : BareKey key) :
    ∃ first others, key = first :: others ∧
      first ∉ [' ', '\t', '#', '\n', '\r', '[', '"', '\x27', '\ufeff'] := by
  obtain ⟨first, others, rfl⟩ := List.exists_cons_of_ne_nil bare.nonempty
  have noKey : ∀ mark ∈ [' ', '\t', '#', '\n', '\r', '[', '"', '\x27', '\ufeff'],
      isKeyCharacter mark = false := by decide
  refine ⟨first, others, rfl, fun member => ?_⟩
  exact absurd (bare.plain first List.mem_cons_self) (ne_true_of_eq_false (noKey first member))

theorem BareKey.skipSpaces {key : Text} (bare : BareKey key) (rest : Text) :
    skipSpaces (key ++ rest) = key ++ rest := by
  obtain ⟨first, others, rfl, apart⟩ := bare.exists_first
  have noSpace : isSpace first = false := by
    simp only [List.mem_cons, not_or] at apart
    simp [isSpace, apart]
  exact List.dropWhile_cons_of_neg (ne_true_of_eq_false noSpace)

theorem BareKey.readKeyPart? {key : Text} (bare : BareKey key) (rest : Text) :
    readKeyPart? (key ++ ' ' :: rest) = some (key, ' ' :: rest) := by
  have name : (key ++ ' ' :: rest).takeWhile isKeyCharacter = key := by
    rw [List.takeWhile_append_of_pos bare.plain]
    exact List.append_nil key
  have behind : (key ++ ' ' :: rest).dropWhile isKeyCharacter = ' ' :: rest := by
    rw [List.dropWhile_append_of_pos bare.plain]
    rfl
  obtain ⟨first, others, same, apart⟩ := bare.exists_first
  simp only [List.mem_cons, not_or] at apart
  have nonempty := bare.nonempty
  rw [same, List.cons_append] at name behind
  rw [same] at nonempty
  simp [Toml.readKeyPart?, same, apart, name, behind]

theorem BareKey.readKey? {key : Text} (bare : BareKey key) (rest : Text) :
    readKey? (key ++ ' ' :: '=' :: rest) = some (([], key), '=' :: rest) := by
  rw [Toml.readKey?, nestingLimit, readKeyWithin?, bare.skipSpaces, bare.readKeyPart?]
  rfl

theorem printSetting_append (key value rest : Text) :
    printSetting key value ++ rest = key ++ ' ' :: '=' :: ' ' :: (value ++ '\n' :: rest) := by
  unfold printSetting
  rw [List.append_assoc, List.append_assoc, List.append_assoc]
  rfl

theorem readSetting?_printSetting {key value : Text} {item : Item} {entries : Entries}
    (bare : BareKey key) (prints : PrintsItem value item)
    (absent : key ∉ entries.map Prod.fst) (rest : Text) :
    readSetting? ⟨entries, []⟩ (printSetting key value ++ rest) =
      some (⟨entries ++ [(key, item)], []⟩, '\n' :: rest) := by
  have skipped : skipSpaces (' ' :: (value ++ '\n' :: rest)) = value ++ '\n' :: rest :=
    prints.tight rest
  have marked : after? '=' ('=' :: ' ' :: (value ++ '\n' :: rest)) =
      some (' ' :: (value ++ '\n' :: rest)) := rfl
  have added : changeAt? (addDotted? [] key item) [] entries = some (entries ++ [(key, item)]) := by
    have missing : Table.contains key entries = false := by
      rw [Table.contains, Table.get?_eq_none_iff.mpr absent]
      rfl
    rw [changeAt?, addDotted?, addEntry?, missing]
    rfl
  rw [readSetting?, readPair?, printSetting_append, bare.readKey?]
  simp only [Option.bind_eq_bind, Option.bind_some, marked, skipped, prints.read, added,
    Option.pure_def]

theorem readLines?_printSetting {key value : Text} {item : Item} {entries : Entries}
    (bare : BareKey key) (prints : PrintsItem value item)
    (absent : key ∉ entries.map Prod.fst) (bound : Nat) (rest : Text) :
    readLines? (bound + 1) ⟨entries, []⟩ (printSetting key value ++ rest) =
      readLines? bound ⟨entries ++ [(key, item)], []⟩ rest := by
  have setting := readSetting?_printSetting bare prints absent rest
  have start : skipSpaces (printSetting key value ++ rest) = printSetting key value ++ rest := by
    rw [printSetting_append, bare.skipSpaces]
  obtain ⟨first, others, same, apart⟩ := bare.exists_first
  simp only [List.mem_cons, not_or] at apart
  obtain ⟨further, line⟩ : ∃ further, printSetting key value ++ rest = first :: further :=
    ⟨_, by rw [printSetting_append, same, List.cons_append]⟩
  have ended : afterLine? ('\n' :: rest) = some rest := rfl
  rw [line] at setting start ⊢
  simp [readLines?, start, apart, setting, ended]

theorem PrintsEntries.readLines? {document : Text} {entries : Entries}
    (prints : PrintsEntries document entries) : ∀ {bound : Nat} {before : Entries},
      ((before ++ entries).map Prod.fst).Nodup → document.length < bound →
        readLines? bound ⟨before, []⟩ document = some (before ++ entries) := by
  induction prints with
  | nil =>
      intro bound before _ enough
      cases bound with
      | zero => cases enough
      | succ bound => rw [List.append_nil]; rfl
  | @cons key value document item entries bare prints _ induction =>
      intro bound before distinct enough
      cases bound with
      | zero => cases enough
      | succ bound =>
          have absent : key ∉ before.map Prod.fst := by
            rw [List.map_append, List.map_cons, List.nodup_append] at distinct
            exact fun member => distinct.2.2 key member key List.mem_cons_self rfl
          have further : (((before ++ [(key, item)]) ++ entries).map Prod.fst).Nodup := by
            rwa [List.append_assoc]
          have fewer : document.length < bound := by
            rw [printSetting_append] at enough
            simp only [List.length_append, List.length_cons] at enough
            omega
          rw [readLines?_printSetting bare prints absent, induction further fewer,
            List.append_assoc]
          rfl

/-- A document of printed settings is read back. -/
theorem PrintsEntries.parse? {document : Text} {entries : Entries}
    (prints : PrintsEntries document entries) (distinct : (entries.map Prod.fst).Nodup) :
    parse? document = some entries := by
  have read : Toml.readLines? (document.length + 1) ⟨[], []⟩ document = some entries :=
    prints.readLines? distinct (Nat.lt_succ_self document.length)
  cases prints with
  | nil => exact read
  | cons bare _ _ =>
      obtain ⟨first, others, same, apart⟩ := bare.exists_first
      simp only [List.mem_cons, not_or] at apart
      rw [printSetting_append, same, List.cons_append] at read ⊢
      simpa [Toml.parse?, apart] using read

end Scriptlet.Toml
