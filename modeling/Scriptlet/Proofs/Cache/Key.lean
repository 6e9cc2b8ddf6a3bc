import Scriptlet.Cache.Store
import Scriptlet.Proofs.Host.Tree

/-!
# The names of artifacts

A key is the digest of a path in hexadecimal digits with the extension of artifacts.
So every key is a name that a directory can hold, and clearing a store knows it for an
artifact.
-/

namespace Scriptlet

namespace Digest

theorem length_bytesOf (value width : Nat) : (bytesOf value width).length = width := by
  induction width with
  | zero => rfl
  | succ width induction => rw [bytesOf, List.length_cons, induction]

theorem length_sha256 (message : List UInt8) : (sha256 message).length = 32 := by
  simp [sha256, State.bytes, length_bytesOf]

theorem length_hex (bytes : List UInt8) : (hex bytes).length = bytes.length * 2 := by
  induction bytes with
  | nil => rfl
  | cons byte bytes induction =>
      rw [hex, List.flatMap_cons, List.length_append, ← hex, induction]
      simp only [List.length_cons, List.length_nil]
      omega

/-- The digits in which a digest is written. -/
theorem mem_hex {bytes : List UInt8} {character : Char} (member : character ∈ hex bytes) :
    ∃ value < 16, character = Text.hexDigit value := by
  rw [hex, List.mem_flatMap] at member
  obtain ⟨byte, -, inByte⟩ := member
  have bounded : byte.toNat < 256 := byte.toNat_lt
  simp only [List.mem_cons, List.not_mem_nil, or_false] at inByte
  rcases inByte with rfl | rfl
  · exact ⟨_, by omega, rfl⟩
  · exact ⟨_, by omega, rfl⟩

end Digest

namespace Cache

open Host (IsName byteLength byteLength_append byteLength_of_single)

def hexDigits : Text := "0123456789abcdef"

/-- Sixty-four digits with the extension of artifacts. -/
def IsKey (name : Text) : Prop :=
  (∀ digit ∈ name.take 64, digit ∈ hexDigits) ∧ name.drop 64 = '.' :: artifactExtension

instance (name : Text) : Decidable (IsKey name) :=
  @instDecidableAnd _ _ (List.decidableBAll _ _) inferInstance

/-- The digits of a key. -/
def digits (sourcePath : Text) : Text :=
  Digest.hex (Digest.sha256 (String.ofList sourcePath).toUTF8.toList)

theorem key_eq (sourcePath : Text) :
    key sourcePath = digits sourcePath ++ '.' :: artifactExtension :=
  List.append_assoc ..

theorem length_digits (sourcePath : Text) : (digits sourcePath).length = 64 := by
  rw [digits, Digest.length_hex, Digest.length_sha256]

theorem isKey_key (sourcePath : Text) : IsKey (key sourcePath) := by
  have written : ∀ value < 16, Text.hexDigit value ∈ hexDigits := by decide
  rw [IsKey, key_eq, ← length_digits sourcePath, List.take_left, List.drop_left]
  refine ⟨fun digit member => ?_, rfl⟩
  obtain ⟨value, bounded, rfl⟩ := Digest.mem_hex member
  exact written value bounded

namespace IsKey

variable {name : Text} (isKey : IsKey name)

include isKey

theorem eq_append : name = name.take 64 ++ '.' :: artifactExtension := by
  rw [← isKey.2, List.take_append_drop]

theorem length_take : (name.take 64).length = 64 := by
  have lengths := congrArg List.length isKey.2
  have extensionLength : ('.' :: artifactExtension).length = 4 := by decide
  rw [List.length_drop, extensionLength] at lengths
  rw [List.length_take]
  omega

theorem digit_plain {digit : Char} (member : digit ∈ name.take 64) :
    digit ≠ '/' ∧ digit ≠ '.' ∧ digit ≠ '\x00' ∧ digit.utf8Size = 1 := by
  have plain : hexDigits.all
      (fun digit => digit ≠ '/' ∧ digit ≠ '.' ∧ digit ≠ '\x00' ∧ digit.utf8Size = 1) = true := by
    decide
  exact of_decide_eq_true (List.all_eq_true.mp plain digit (isKey.1 digit member))

theorem byteLength_eq : byteLength name = 68 := by
  have digitsLength : byteLength (name.take 64) = 64 := by
    rw [byteLength_of_single fun digit member => (isKey.digit_plain member).2.2.2,
      isKey.length_take]
  rw [isKey.eq_append, byteLength_append, digitsLength]
  decide

theorem notMem {character : Char} (notDigit : character ∉ name.take 64)
    (notExtension : character ∉ '.' :: artifactExtension) : character ∉ name := by
  rw [isKey.eq_append, List.mem_append, not_or]
  exact ⟨notDigit, notExtension⟩

theorem isName : IsName name where
  isPart :=
    { ne_nil := by
        rw [isKey.eq_append]
        exact List.append_ne_nil_of_right_ne_nil _ (List.cons_ne_nil _ _)
      slashless := isKey.notMem (fun member => (isKey.digit_plain member).1 rfl) (by decide) }
  ne_dot equal := by
    have lengths := isKey.byteLength_eq.symm.trans (congrArg byteLength equal)
    exact absurd lengths (by decide)
  ne_dots equal := by
    have lengths := isKey.byteLength_eq.symm.trans (congrArg byteLength equal)
    exact absurd lengths (by decide)
  clean := isKey.notMem (fun member => (isKey.digit_plain member).2.2.1 rfl) (by decide)
  short := by
    rw [isKey.byteLength_eq]
    decide

theorem isArtifactName : isArtifactName name = true := by
  obtain ⟨last, front, digitsEq⟩ : ∃ last front, (name.take 64).reverse = last :: front := by
    apply List.exists_cons_of_length_pos
    rw [List.length_reverse, isKey.length_take]
    decide
  have reversed : name.reverse = ['s', 'j', 'e'] ++ '.' :: last :: front := by
    rw [isKey.eq_append, List.reverse_append, List.reverse_cons, digitsEq]
    rfl
  have extension : Path.extension? name = some artifactExtension := by
    rw [Path.extension?, reversed]
    rfl
  rw [Cache.isArtifactName, extension]
  rfl

/-- A path to a key is longer than that of its directory by the key and a slash, if there is
none yet. -/
theorem byteLength_join_le (directory : Text) :
    byteLength (Path.join directory name) ≤ byteLength directory + 69 := by
  obtain ⟨between, kind, joined⟩ := Path.join_of_isPart isKey.isName.isPart directory
  have atMostOne : byteLength between ≤ 1 := by
    rcases kind with rfl | rfl <;> decide
  rw [joined, byteLength_append, byteLength_append, isKey.byteLength_eq]
  omega

end IsKey

theorem isName_key (sourcePath : Text) : IsName (key sourcePath) :=
  (isKey_key sourcePath).isName

theorem isArtifactName_key (sourcePath : Text) : isArtifactName (key sourcePath) = true :=
  (isKey_key sourcePath).isArtifactName

/-- Taking a key for a path drops no slashes. -/
theorem dropWhile_of_isName {name : Text} (isName : IsName name) :
    name.dropWhile (· = '/') = name := by
  cases name with
  | nil => rfl
  | cons head tail =>
      have other : head ≠ '/' := fun slash => isName.isPart.slashless (by simp [slash])
      simp [other]

end Cache

end Scriptlet
