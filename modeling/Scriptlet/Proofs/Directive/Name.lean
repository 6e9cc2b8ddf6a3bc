import Scriptlet.Directive.Registry
import Scriptlet.Proofs.Pattern.Named
import Scriptlet.Proofs.Text.Openings
import Scriptlet.Proofs.Text.Trim

/-!
# Names of custom directives

A name is a non-empty row of ASCII letters and digits.  A host may write it with signs in
front of it and with white space around it all.
-/

namespace Scriptlet

/-- How a host may write a name. -/
structure WritesName (written name : Text) : Prop where
  nonempty : name ≠ []
  alphanumeric : ∀ character ∈ name, character.isAlphanum = true
  spelled : ∃ before signs after, written = before ++ (signs ++ name ++ after) ∧
    (∀ character ∈ before, Text.isBlank character = true) ∧
    (∀ character ∈ signs, character = '@') ∧
    ∀ character ∈ after, Text.isBlank character = true

namespace Registry

theorem isNameCharacter_eq (character : Char) :
    isNameCharacter character = character.isAlphanum := by
  have ranges : character.isAlphanum =
      ((decide ('A' ≤ character ∧ character ≤ 'Z') || ('a' ≤ character && character ≤ 'z')) ||
        ('0' ≤ character && character ≤ '9')) := rfl
  rw [ranges, isNameCharacter, Bool.decide_and]
  ac_rfl

theorem isName_iff {name : Text} :
    isName name = true ↔ name ≠ [] ∧ ∀ character ∈ name, character.isAlphanum = true := by
  simp only [isName, Bool.and_eq_true, Bool.not_eq_true', List.isEmpty_eq_false_iff,
    List.all_eq_true, isNameCharacter_eq]

/-- The characters of names are ASCII characters, so what they all have can be computed. -/
theorem exists_ascii_of_isNameCharacter {character : Char}
    (ofName : isNameCharacter character = true) :
    ∃ code < 128, Char.ofNat code = character := by
  refine ⟨character.toNat, ?_, Char.ofNat_toNat character⟩
  simp only [isNameCharacter, Bool.or_eq_true, Bool.and_eq_true, decide_eq_true_eq,
    Char.le_def, UInt32.le_iff_toNat_le, Char.toNat] at ofName ⊢
  have bounds : ('9' : Char).val.toNat = 57 ∧ ('z' : Char).val.toNat = 122 ∧
      ('Z' : Char).val.toNat = 90 := by decide
  omega

private theorem solid_of_isNameCharacter {character : Char}
    (ofName : isNameCharacter character = true) :
    Text.isBlank character = false ∧ character ≠ '@' := by
  have ascii : ∀ code < 128, isNameCharacter (Char.ofNat code) = true →
      Text.isBlank (Char.ofNat code) = false ∧ Char.ofNat code ≠ '@' := by
    decide
  obtain ⟨code, low, rfl⟩ := exists_ascii_of_isNameCharacter ofName
  exact ascii code low ofName

theorem unsigned_of_isName {name : Text} (ofName : isName name = true) : '@' ∉ name := by
  intro member
  have character := (isName_iff.mp ofName).2 '@' member
  rw [← isNameCharacter_eq] at character
  exact (solid_of_isNameCharacter character).2 rfl

/-- No character of a name is read as a sign, or as one at which an opening stops. -/
theorem notMem_map_fold_of_isName {name : Text} (ofName : isName name = true) {special : Char}
    (listed : special ∈ '@' :: Text.stops) : special ∉ name.map Text.fold := by
  have ascii : ∀ code < 128, isNameCharacter (Char.ofNat code) = true →
      Text.fold (Char.ofNat code) ∉ '@' :: Text.stops := by
    decide
  intro member
  obtain ⟨character, inName, same⟩ := List.mem_map.mp member
  have ofCharacter := (isName_iff.mp ofName).2 character inName
  rw [← isNameCharacter_eq] at ofCharacter
  obtain ⟨code, low, rfl⟩ := exists_ascii_of_isNameCharacter ofCharacter
  exact ascii code low ofCharacter (same ▸ listed)

/-- A name is spelled without signs. -/
theorem unsigned_of_spelled {name written : Text} (ofName : isName name = true)
    (spelled : written.map Text.fold = name.map Text.fold) : '@' ∉ written := by
  intro member
  have folded : Text.fold '@' ∈ name.map Text.fold := spelled ▸ List.mem_map_of_mem member
  exact notMem_map_fold_of_isName ofName List.mem_cons_self folded

/-- The signs in front of a text that does not begin with one. -/
private theorem dropWhile_signs {signs name : Text}
    (allSigns : ∀ character ∈ signs, character = '@')
    (unsigned : ∀ character ∈ name, character ≠ '@') :
    (signs ++ name).dropWhile (· = '@') = name := by
  rw [List.dropWhile_append_of_pos (by simpa using allSigns)]
  cases name with
  | nil => rfl
  | cons head tail =>
      exact List.dropWhile_cons_of_neg (by simpa using unsigned head List.mem_cons_self)

/-- A text is a way to write a name exactly when normalization finds this name in it. -/
theorem writesName_iff {written name : Text} :
    WritesName written name ↔ normalize written = name ∧ isName name = true := by
  constructor
  · rintro ⟨nonempty, alphanumeric, before, signs, after, rfl, beforeBlank, allSigns, afterBlank⟩
    have ofName : isName name = true := isName_iff.mpr ⟨nonempty, alphanumeric⟩
    have solid : ∀ character ∈ name, Text.isBlank character = false ∧ character ≠ '@' := by
      intro character member
      apply solid_of_isNameCharacter
      rw [isNameCharacter_eq]
      exact alphanumeric character member
    have kept : ∀ character ∈ signs ++ name, Text.isBlank character = false := by
      intro character member
      rcases List.mem_append.mp member with inSigns | inName
      · rw [allSigns character inSigns]
        decide
      · exact (solid character inName).1
    have trimmed : Text.trim (before ++ (signs ++ name ++ after)) = signs ++ name := by
      rw [Text.trim, Text.trimBy_unwanted_append beforeBlank,
        Text.trimBy_append_unwanted afterBlank, Text.trimBy_of_wanted kept]
    have unsigned : ∀ character ∈ name, character ≠ '@' :=
      fun character member => (solid character member).2
    rw [normalize, trimmed, dropWhile_signs allSigns unsigned]
    exact ⟨rfl, ofName⟩
  · rintro ⟨rfl, ofName⟩
    obtain ⟨nonempty, alphanumeric⟩ := isName_iff.mp ofName
    obtain ⟨before, after, whole, beforeBlank, afterBlank⟩ :=
      Text.trimBy_parts Text.isBlank written
    refine ⟨nonempty, alphanumeric, before, (Text.trim written).takeWhile (· = '@'), after,
      ?_, beforeBlank, ?_, afterBlank⟩
    · rw [normalize, List.takeWhile_append_dropWhile]
      exact whole
    · intro character member
      simpa using List.mem_takeWhile_imp member

end Registry

/-- What a directive finds begins with its name. -/
theorem Directive.pattern_named (directive : Directive) :
    Pattern.Named directive.name directive.pattern :=
  (((Pattern.Named.ofBare _).andThen _).map _).map _

end Scriptlet
