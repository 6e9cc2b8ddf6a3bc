import Scriptlet.Compiler
import Scriptlet.Proofs.Text.Plain
import Scriptlet.Proofs.Text.Tight

/-!
# Views made of sections and places

A view that takes part in a composition is a row of plain characters, places for
sections, and sections.  A child has, somewhere in its row, the layout that it
extends.
-/

namespace Scriptlet.Composition

structure Key where
  text : Text
  nonempty : text ≠ []
  plain : ∀ character ∈ text, character ∉ ['@', ',', ')', '\x7b', '\x7d']
  unquoted : Text.unquote text = text

/-- The content of a section that is written inline. -/
structure Value where
  text : Text
  plain : ∀ character ∈ text, character ∉ ['@', ')', '\x7b', '\x7d']
  unquoted : Text.unquote text = text

structure ViewName where
  text : Text
  plain : ∀ character ∈ text, character ∉ ['@', ')']
  unquoted : Text.unquote text = text

inductive Item where
  | plain (character : Plain)
  | place (key : Key)
  | inlineSection (key : Key) (value : Value)
  | blockSection (key : Key) (body : List Plain)

structure Child where
  before : List Item
  layout : ViewName
  after : List Item

def quoted (text : Text) : Text :=
  '\x27' :: (text ++ ['\x27'])

namespace Item

def print : Item → Text
  | .plain character => [character.character]
  | .place key => Text.called "yield" (quoted key.text)
  | .inlineSection key value =>
      Text.called "section" (quoted key.text ++ ',' :: quoted value.text)
  | .blockSection key body =>
      Text.called "section" (quoted key.text) ++ (plainText body ++ '@' :: "endsection".toList)

def isBlank : Item → Bool
  | .plain character => Text.isBlank character.character
  | _ => false

def isSection : Item → Bool
  | .inlineSection _ _ => true
  | .blockSection _ _ => true
  | _ => false

def definition? : Item → Option (Text × Text)
  | .inlineSection key value => some (key.text, value.text)
  | .blockSection key body => some (key.text, Text.trim (plainText body))
  | _ => none

/-- What stands for an item where these sections are stored. -/
def filled (sections : Sections) : Item → Text
  | .plain character => [character.character]
  | .place key => (Table.get? key.text sections).getD (print (.place key))
  | _ => []

end Item

def print (items : List Item) : Text :=
  items.flatMap Item.print

def definitions (items : List Item) : List (Text × Text) :=
  items.filterMap Item.definition?

def Child.print (child : Child) : Text :=
  Composition.print child.before ++
    (Text.called "extends" (quoted child.layout.text) ++ Composition.print child.after)

theorem unquote_quoted (text : Text) : Text.unquote (quoted text) = Text.unquote text := by
  have quote : ∀ character ∈ ['\x27'], Text.isQuoting character = true :=
    List.forall_mem_singleton.mpr (by decide)
  have front := Text.trimBy_unwanted_append quote (text ++ ['\x27'])
  have back := Text.trimBy_append_unwanted quote text
  exact front.trans back

theorem notMem_quoted {text : Text} {character : Char} (other : character ≠ '\x27')
    (absent : character ∉ text) : character ∉ quoted text := by
  simp [quoted, other, absent]

theorem quoted_unsigned (key : Key) : '@' ∉ quoted key.text :=
  notMem_quoted (by decide) fun member => key.plain _ member (by decide)

theorem ViewName.quoted_closed (name : ViewName) : ')' ∉ quoted name.text :=
  notMem_quoted (by decide) fun member => name.plain _ member (by decide)

theorem ViewName.quoted_unsigned (name : ViewName) : '@' ∉ quoted name.text :=
  notMem_quoted (by decide) fun member => name.plain _ member (by decide)

/-- Items are written as one character, or between a sign and a character that is not
blank. -/
theorem Item.written_tightly (item : Item) :
    WrittenTightly Item.isBlank Item.print item := by
  cases item with
  | plain character => exact WrittenTightly.ofCharacter rfl rfl
  | place key => exact WrittenTightly.ofTight rfl (Tight.ofCalled _ _)
  | inlineSection key value => exact WrittenTightly.ofTight rfl (Tight.ofCalled _ _)
  | blockSection key body =>
      apply WrittenTightly.ofTight rfl
      have ending : ∃ character, [character] <:+ '@' :: "endsection".toList ∧
          Text.isBlank character = false := ⟨'n', by decide, by decide⟩
      rw [Item.print, ← List.append_assoc]
      exact Tight.between (Tight.ofCalled _ _).first ending _

theorem trim_print (items : List Item) :
    Text.trim (print items) = print (trimItems Item.isBlank items) :=
  trim_flatMap fun item _ => item.written_tightly

end Scriptlet.Composition
