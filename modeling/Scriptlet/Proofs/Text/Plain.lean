import Scriptlet.Text

/-!
# Plain text

Text without signs and braces means itself wherever it stands in a view.
-/

namespace Scriptlet

structure Plain where
  character : Char
  plain : character ∉ ['@', '\x7b', '\x7d']

def plainText (characters : List Plain) : Text :=
  characters.map Plain.character

theorem notMem_plainText {character : Char} (special : character ∈ ['@', '\x7b', '\x7d'])
    (characters : List Plain) : character ∉ plainText characters := by
  intro member
  obtain ⟨plain, -, same⟩ := List.mem_map.mp member
  exact plain.plain (same ▸ special)

/-- Texts are searched for special characters by computation. -/
theorem Text.forall_notMem {text special : Text}
    (checked : text.all (fun character => !special.contains character) = true) :
    ∀ character ∈ text, character ∉ special := by
  simpa using checked

end Scriptlet
