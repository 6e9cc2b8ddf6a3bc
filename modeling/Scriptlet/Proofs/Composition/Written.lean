import Scriptlet.Proofs.Composition.Item

/-!
# Sections as they are written

An inline section and a block with a quoted key are found by the patterns for them,
whatever follows, and what they store is what stands between the quotes and in the body.
Other directives are not found in them.
-/

namespace Scriptlet.Composition

open Pattern

/-- What a key of a section may be. -/
def IsKey (text : Text) : Prop :=
  (∀ character ∈ text, character ∉ ['@', ',', ')', '\x7b', '\x7d']) ∧ Text.unquote text = text

/-- What the content of an inline section may be. -/
def IsValue (text : Text) : Prop :=
  (∀ character ∈ text, character ∉ ['@', ')', '\x7b', '\x7d']) ∧ Text.unquote text = text

/-- `@section('key','value')`. -/
def writtenInline (key value : Text) : Text :=
  Text.called "section" (quoted key ++ ',' :: quoted value)

/-- `@section('key')body@endsection`. -/
def writtenBlock (key : Text) (body : List Plain) : Text :=
  Text.called "section" (quoted key) ++ (plainText body ++ '@' :: "endsection".toList)

theorem Key.isKey (key : Key) : IsKey key.text := ⟨key.plain, key.unquoted⟩

theorem Value.isValue (value : Value) : IsValue value.text := ⟨value.plain, value.unquoted⟩

section

variable {α : Type} {name key value : Text} {pattern : Pattern '@' α}

theorem IsKey.unsigned (isKey : IsKey key) : '@' ∉ quoted key :=
  notMem_quoted (by decide) fun member => isKey.1 _ member (by decide)

theorem IsKey.keyCharacters (isKey : IsKey key) :
    ∀ character ∈ quoted key, character ∉ [',', ')'] := by
  intro character member listed
  have special : character ∈ ['@', ',', ')', '\x7b', '\x7d'] := by
    simp only [List.mem_cons, List.not_mem_nil, or_false] at listed ⊢
    rcases listed with rfl | rfl <;> decide
  have notQuote : character ≠ '\x27' := by
    rintro rfl
    revert listed
    decide
  exact notMem_quoted notQuote (fun inKey => isKey.1 character inKey special) member

theorem IsKey.closed (isKey : IsKey key) : ')' ∉ key ++ ['\x27'] := by
  have absent : ')' ∉ key := fun member => isKey.1 _ member (by decide)
  simp [absent]

theorem argument_unsigned (isKey : IsKey key) (isValue : IsValue value) :
    '@' ∉ quoted key ++ ',' :: quoted value := by
  have inValue : '@' ∉ quoted value :=
    notMem_quoted (by decide) fun member => isValue.1 _ member (by decide)
  simp [isKey.unsigned, inValue]

/-- A directive that is not the end of a block is absent from the body and that end. -/
theorem absent_ending (named : Named name pattern) (body : List Plain)
    (apart : ¬ name.map Text.fold <+: "endsection".toList.map Text.fold ∧
      ¬ "endsection".toList.map Text.fold <+: name.map Text.fold) (rest : Text) :
    pattern.Absent (plainText body ++ '@' :: "endsection".toList) rest := by
  apply Absent.append (Absent.of_notMem (notMem_plainText (by decide) body))
  have ending : pattern.Absent ('@' :: ("endsection".toList ++ [])) rest :=
    named.absent_of_apart (by decide) apart rest
  rwa [List.append_nil] at ending

theorem inlineSection_run? (isKey : IsKey key) (isValue : IsValue value) (rest : Text) :
    Compiler.inlineSection.run? (writtenInline key value ++ rest) =
      some ⟨writtenInline key value, (quoted key, quoted value), rest⟩ := by
  have closed : ')' ∉ value ++ ['\x27'] := by
    have absent : ')' ∉ value := fun member => isValue.1 _ member (by decide)
    simp [absent]
  exact withKeyAndValue_run? rfl (List.cons_ne_nil _ _) isKey.keyCharacters '\x27' closed rest

theorem run_storeInline (isKey : IsKey key) (isValue : IsValue value) (context : Context) :
    (Compiler.storeInline (quoted key, quoted value)).run context =
      some ([], context.store key value) := by
  rw [Compiler.storeInline, unquote_quoted, unquote_quoted, isKey.2, isValue.2]
  rfl

/-- The key of a block stands alone between its parentheses, so no block is taken for an
inline section. -/
theorem inlineSection_absent_block (isKey : IsKey key) (body : List Plain) (rest : Text) :
    Compiler.inlineSection.Absent (writtenBlock key body) rest := by
  have named : Named "section" Compiler.inlineSection := (Called.withKeyAndValue _).named
  apply Absent.append
  · have none : ∀ rest, Compiler.inlineSection.run?
        (Text.called "section" (quoted key) ++ rest) = none :=
      withKeyAndValue_run?_of_key rfl (List.cons_ne_nil _ _) isKey.keyCharacters
    have unsigned : '@' ∉ "section".toList ++ '(' :: (quoted key ++ [')']) := by
      simp [isKey.unsigned]
    exact Absent.cons (none _) (Absent.of_notMem unsigned)
  · exact absent_ending named body (by decide) rest

theorem blockSection_run? (isKey : IsKey key) (body : List Plain) (rest : Text) :
    Compiler.blockSection.run? (writtenBlock key body ++ rest) =
      some ⟨writtenBlock key body, (quoted key, plainText body), rest⟩ := by
  have opened : ∀ rest, (withSomeArgument "section").run?
      (Text.called "section" (quoted key) ++ rest) =
        some ⟨Text.called "section" (quoted key), quoted key, rest⟩ :=
    withSomeArgument_run? rfl '\x27' isKey.closed
  have unsigned : (bare "endsection").Absent (plainText body)
      ('@' :: ("endsection".toList ++ rest)) :=
    Absent.of_notMem (notMem_plainText (by decide) body)
  have found := blockOf_run? rfl (opened _) rfl unsigned
  have whole : writtenBlock key body ++ rest =
      Text.called "section" (quoted key) ++
        (plainText body ++ '@' :: ("endsection".toList ++ rest)) := by
    simp only [writtenBlock, List.append_assoc, List.cons_append]
  rw [whole]
  exact found

/-- Where bodies compile to their trimmed text, a block stores its trimmed body. -/
theorem run_storeBlock {compile : Text → Compilation Text}
    (compiled : ∀ body context, (compile (plainText body)).run context =
      some (Text.trim (plainText body), context)) (isKey : IsKey key) (body : List Plain)
    (context : Context) :
    (Compiler.storeBlock compile (quoted key, plainText body)).run context =
      some ([], context.store key (Text.trim (plainText body))) := by
  rw [Compiler.storeBlock, unquote_quoted, isKey.2, StateT.run_bind, compiled]
  rfl

end

end Scriptlet.Composition
