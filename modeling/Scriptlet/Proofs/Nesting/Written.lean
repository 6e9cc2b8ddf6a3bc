import Scriptlet.Proofs.Nesting.Pairing
import Scriptlet.Proofs.Pattern.Items

/-!
# Rows of tokens as texts

The tokens of a row can be told apart in its text, whatever characters follow a directive: no
name of the dialect begins another one.  So the pattern for blocks finds the pairs of the row,
and the rules for labels lower its labels.
-/

namespace Scriptlet

open Pattern

/-- Where a directive is written, its rule finds it and gives its code. -/
theorem Directive.Entry.rule_run? (entry : Entry) {written argument : Text}
    (spelled : written.map Text.fold = entry.name.map Text.fold) (closed : ')' ∉ argument)
    (rest : Text) :
    entry.rule.run? (entry.print written argument ++ rest) =
      some ⟨entry.print written argument, entry.code argument, rest⟩ := by
  cases entry with
  | argument name code =>
      exact map_run?_eq_some.mpr ⟨_, withArgument_run? spelled closed rest, rfl⟩
  | word name code =>
      exact map_run?_eq_some.mpr ⟨_, bare_run?_of_spelled spelled rest, rfl⟩

/-- Of rules whose names are apart, only its own one changes a directive. -/
theorem Directive.Entry.rewrites {entries : List Entry}
    (apart : (entries.map Entry.name).Pairwise Text.Apart) {entry : Entry}
    (listed : entry ∈ entries) {written argument : Text}
    (spelled : written.map Text.fold = entry.name.map Text.fold) (closed : ')' ∉ argument)
    (signed : Text.SignedBy [entry.name] (entry.print written argument))
    (codeUnsigned : '@' ∉ entry.code argument) :
    Rewrites (entries.map Entry.rule) (entry.print written argument) (entry.code argument) := by
  induction entries with
  | nil => cases listed
  | cons first others induction =>
      rw [List.map_cons, List.pairwise_cons] at apart
      rcases List.mem_cons.mp listed with here | later
      · subst here
        exact ⟨entry.code argument, .inl (entry.rule_run? spelled closed),
          Rewrites.of_absent fun _ _ _ => Absent.of_notMem codeUnsigned⟩
      · have absent := signed.absent first.rule_named
          (List.forall_mem_singleton.mpr (apart.1 _ (List.mem_map_of_mem later)))
        exact ⟨entry.print written argument, .inr ⟨rfl, absent⟩, induction apart.2 later⟩

namespace Nesting

open Template

variable {dialect : Dialect}

namespace Dialect

theorem opening_apart (dialect : Dialect) :
    ∀ name ∈ dialect.closing :: dialect.labels.map Directive.Entry.name,
      Text.Apart dialect.opening name :=
  (List.pairwise_cons.mp dialect.apart).1

theorem closing_apart (dialect : Dialect) :
    ∀ name ∈ dialect.labels.map Directive.Entry.name, Text.Apart dialect.closing name :=
  (List.pairwise_cons.mp (List.pairwise_cons.mp dialect.apart).2).1

theorem labels_apart (dialect : Dialect) :
    (dialect.labels.map Directive.Entry.name).Pairwise Text.Apart :=
  (List.pairwise_cons.mp (List.pairwise_cons.mp dialect.apart).2).2

/-- The blocks of a dialect, each with the first closing directive behind the opening one. -/
def block (dialect : Dialect) : Pattern '@' (Text × Text) :=
  Pattern.blockOf (Pattern.withArgument dialect.opening) dialect.closing

end Dialect

namespace Token

/-- The name that a token is written with. -/
def names : Token dialect → List Text
  | .plain _ => []
  | .label directive => [directive.entry.name]
  | .opened _ _ => [dialect.opening]
  | .closed _ => [dialect.closing]

private theorem written_letters {name : Text} (listed : name ∈ dialect.names)
    (spelling : Spelling name) : ∀ character ∈ spelling.written, Text.isLetter character :=
  spelling.letters (dialect.letters name listed)

private theorem written_unsigned {name : Text} (listed : name ∈ dialect.names)
    (spelling : Spelling name) : '@' ∉ spelling.written :=
  spelling.unsigned (dialect.letters name listed)

private theorem argument_unsigned (argument : Argument) : '@' ∉ argument.text :=
  fun member => argument.plain _ member (by decide)

private theorem argument_closed (argument : Argument) : ')' ∉ argument.text :=
  fun member => argument.plain _ member (by decide)

private theorem called_signed {name : Text} (listed : name ∈ dialect.names)
    (spelling : Spelling name) (argument : Argument) :
    Text.SignedBy [name] (Text.called spelling.written argument.text) :=
  Text.SignedBy.of_called List.mem_cons_self spelling.spelled (written_unsigned listed spelling)
    (argument_unsigned argument)

private theorem bare_signed {name : Text} (listed : name ∈ dialect.names)
    (spelling : Spelling name) : Text.SignedBy [name] ('@' :: spelling.written) :=
  Text.SignedBy.of_bare List.mem_cons_self spelling.spelled (written_unsigned listed spelling)

theorem label_listed (directive : Label dialect) : directive.entry.name ∈ dialect.names :=
  List.mem_cons_of_mem _ (List.mem_cons_of_mem _ (List.mem_map_of_mem directive.listed))

theorem plain_unsigned (character : Plain) : '@' ∉ [character.character] :=
  fun member => character.plain (List.mem_singleton.mp member ▸ by decide)

/-- A token that is no character is a directive, written with an argument or without one. -/
theorem print_cases (token : Token dialect) :
    (∃ character, token = .plain character) ∨
      ∃ name ∈ dialect.names, ∃ spelling : Spelling name, token.names = [name] ∧
        ((∃ argument : Argument, token.print = Text.called spelling.written argument.text) ∨
          token.print = '@' :: spelling.written) := by
  cases token with
  | plain character => exact .inl ⟨character, rfl⟩
  | label directive =>
      refine .inr ⟨_, label_listed directive, directive.spelling, rfl, ?_⟩
      rcases directive with ⟨entry, _, spelling, argument⟩
      cases entry with
      | argument name code => exact .inl ⟨argument, rfl⟩
      | word name code => exact .inr rfl
  | opened spelling argument =>
      exact .inr ⟨_, List.mem_cons_self, spelling, rfl, .inl ⟨argument, rfl⟩⟩
  | closed spelling =>
      exact .inr ⟨_, List.mem_cons_of_mem _ List.mem_cons_self, spelling, rfl, .inr rfl⟩

theorem names_subset (token : Token dialect) : token.names ⊆ dialect.names := by
  rcases token.print_cases with ⟨character, rfl⟩ | ⟨name, listed, spelling, names, -⟩
  · exact List.nil_subset _
  · rw [names]
    exact List.cons_subset.mpr ⟨listed, List.nil_subset _⟩

theorem print_signed (token : Token dialect) : Text.SignedBy token.names token.print := by
  rcases token.print_cases with
    ⟨character, rfl⟩ | ⟨name, listed, spelling, names, ⟨argument, written⟩ | written⟩
  · exact Text.SignedBy.of_unsigned (plain_unsigned character)
  · rw [names, written]
    exact called_signed listed spelling argument
  · rw [names, written]
    exact bare_signed listed spelling

/-- Labels are lowered, so only the directives around blocks are left. -/
theorem code_signed (token : Token dialect) :
    Text.SignedBy [dialect.opening, dialect.closing] token.code := by
  cases token with
  | plain character => exact Text.SignedBy.of_unsigned (plain_unsigned character)
  | label directive =>
      exact Text.SignedBy.of_unsigned (dialect.label_inert _ directive.listed directive.argument).1
  | opened spelling argument =>
      exact (print_signed (.opened spelling argument)).weaken (by simp [names])
  | closed spelling => exact (print_signed (.closed spelling)).weaken (by simp [names])

end Token

theorem tokens_signed {names : List Text} {tokens : List (Token dialect)}
    (listed : ∀ token ∈ tokens, token.names ⊆ names) :
    Text.SignedBy names (tokens.flatMap Token.print) :=
  Text.SignedBy.flatMap fun token member => token.print_signed.weaken (listed token member)

/-- Where nothing is closed, no closing directive can be read. -/
theorem unclosed_absent {tokens : List (Token dialect)} (unclosed : Unclosed tokens)
    (rest : Text) :
    (Pattern.bare dialect.closing).Absent (tokens.flatMap Token.print) rest := by
  have signed : Text.SignedBy (dialect.opening :: dialect.labels.map Directive.Entry.name)
      (tokens.flatMap Token.print) := by
    apply tokens_signed
    intro token member
    cases token with
    | plain character => simp [Token.names]
    | label directive => simpa [Token.names] using .inr ⟨_, directive.listed, rfl⟩
    | opened spelling argument => simp [Token.names]
    | closed spelling => cases unclosed _ member
  apply signed.absent (Named.ofBare _)
  rw [List.forall_mem_cons]
  exact ⟨(dialect.opening_apart _ List.mem_cons_self).symm, dialect.closing_apart⟩

section Blocks

theorem block_named (dialect : Dialect) : Named dialect.opening dialect.block :=
  ((Called.withArgument _).blockOf _).named

/-- A pair is found as a block. -/
theorem block_run? (opening : Spelling dialect.opening) (argument : Argument)
    {body : List (Token dialect)} (unclosed : Unclosed body) (closing : Spelling dialect.closing)
    (rest : Text) :
    dialect.block.run? ((Segment.block opening argument body closing).print ++ rest) =
      some ⟨(Segment.block opening argument body closing).print,
        (argument.text, body.flatMap Token.print), rest⟩ := by
  have parts : (Segment.block opening argument body closing).print =
      Text.called opening.written argument.text ++
        (body.flatMap Token.print ++ '@' :: closing.written) := by
    simp [Segment.print, Segment.tokens, Token.print]
  have opened := withArgument_run? opening.spelled (Token.argument_closed argument)
    (body.flatMap Token.print ++ '@' :: (closing.written ++ rest))
  have found := blockOf_run? closing.spelled opened rfl (unclosed_absent unclosed _)
  rw [parts]
  simpa [Dialect.block] using found

/-- A block is absent from a token that is in no pair. -/
theorem block_absent {token : Token dialect} {others : List (Segment dialect)}
    (fits : (Segment.loose token).Fits others) :
    dialect.block.Absent token.print (others.flatMap Segment.print) := by
  have elsewhere : (∀ name ∈ token.names, Text.Apart dialect.opening name) →
      dialect.block.Absent token.print (others.flatMap Segment.print) :=
    fun apart => token.print_signed.absent (block_named dialect) apart _
  cases token with
  | plain character => exact elsewhere fun _ member => absurd member List.not_mem_nil
  | label directive =>
      apply elsewhere
      rw [Token.names, List.forall_mem_singleton]
      exact dialect.opening_apart _ (List.mem_cons_of_mem _ (List.mem_map_of_mem directive.listed))
  | closed spelling =>
      apply elsewhere
      rw [Token.names, List.forall_mem_singleton]
      exact dialect.opening_apart _ List.mem_cons_self
  | opened spelling argument =>
      -- the head of a block is found here, but none of the tokens behind it closes the block
      have opened := withArgument_run? spelling.spelled (Token.argument_closed argument)
        (others.flatMap Segment.print)
      have unended := unclosed_absent fits []
      rw [List.flatMap_assoc] at unended
      apply Absent.cons (blockOf_run?_of_unended opened unended) (Absent.of_notMem _)
      simp [Token.written_unsigned List.mem_cons_self, Token.argument_unsigned]

theorem Segment.print_loose (token : Token dialect) :
    (Segment.loose token).print = token.print := by
  simp [Segment.print, Segment.tokens]

variable {tokens : List (Token dialect)}

/-- A segment of a row is found as a block, or there is no block in it. -/
private theorem segment_finds {segment : Segment dialect} {others : List (Segment dialect)}
    (suffix : segment :: others <:+ segments tokens) :
    (∃ opening argument body closing, segment = .block opening argument body closing ∧
        dialect.block.run? (segment.print ++ others.flatMap Segment.print) =
          some ⟨segment.print, (argument.text, body.flatMap Token.print),
            others.flatMap Segment.print⟩) ∨
      (segment.paired = segment.print ∧
        dialect.block.Absent segment.print (others.flatMap Segment.print)) := by
  have fits := segments_fit tokens suffix
  cases segment with
  | loose token =>
      rw [Segment.print_loose]
      exact .inr ⟨rfl, block_absent fits⟩
  | block opening argument body closing =>
      exact .inl ⟨_, _, _, _, rfl, block_run? opening argument fits closing _⟩

/-- Replacing the blocks of a row replaces its pairs. -/
theorem replace_block {replacement : Text × Text → Text}
    (replaced : ∀ opening argument body closing,
      Segment.block opening argument body closing ∈ segments tokens →
        replacement (argument.text, body.flatMap Token.print) =
          (Segment.block opening argument body closing).code) :
    dialect.block.replace replacement (tokens.flatMap Token.print) =
      (segments tokens).flatMap Segment.paired := by
  rw [← segments_print]
  apply replace_flatMap
  intro segment others suffix
  apply (segment_finds suffix).imp_left
  rintro ⟨opening, argument, body, closing, rfl, found⟩
  exact ⟨_, replaced opening argument body closing (suffix.subset List.mem_cons_self), found⟩

/-- The same where the replacements are compiled. -/
theorem replaceM_block {replacement : Text × Text → Compilation Text}
    (replaced : ∀ opening argument body closing,
      Segment.block opening argument body closing ∈ segments tokens →
        replacement (argument.text, body.flatMap Token.print) =
          pure (Segment.block opening argument body closing).code) :
    dialect.block.replaceM replacement (tokens.flatMap Token.print) =
      pure ((segments tokens).flatMap Segment.paired) := by
  have each : ∀ segment others, (segment :: others) <:+ segments tokens →
      (∃ captured, (∀ context : Context,
          (replacement captured).run context = some (segment.paired, context)) ∧
        dialect.block.run? (segment.print ++ others.flatMap Segment.print) =
          some ⟨segment.print, captured, others.flatMap Segment.print⟩) ∨
      ((segment.paired = segment.print ∧ ∀ context : Context, context = context) ∧
        dialect.block.Absent segment.print (others.flatMap Segment.print)) := by
    intro segment others suffix
    rcases segment_finds suffix with
      ⟨opening, argument, body, closing, rfl, found⟩ | ⟨kept, absent⟩
    · refine .inl ⟨_, fun context => ?_, found⟩
      rw [replaced opening argument body closing (suffix.subset List.mem_cons_self)]
      rfl
    · exact .inr ⟨⟨kept, fun _ => rfl⟩, absent⟩
  funext context
  have ran := replaceM_flatMap each context
  rw [segments_print, List.foldl_fixed] at ran
  exact ran

end Blocks

section Labels

private theorem rewrites_label (directive : Label dialect) :
    Rewrites (dialect.labels.map Directive.Entry.rule) directive.print directive.code :=
  Directive.Entry.rewrites dialect.labels_apart directive.listed directive.spelling.spelled
    (Token.argument_closed directive.argument) (Token.print_signed (.label directive))
    (dialect.label_inert _ directive.listed directive.argument).1

/-- The rules of the labels lower a token. -/
theorem rewrites_token (token : Token dialect) :
    Rewrites (dialect.labels.map Directive.Entry.rule) token.print token.code := by
  have elsewhere : (∀ own ∈ token.names, ∀ name ∈ dialect.labels.map Directive.Entry.name,
      Text.Apart own name) →
      Rewrites (dialect.labels.map Directive.Entry.rule) token.print token.print := by
    intro apart
    apply Rewrites.of_absent
    intro pattern listed
    obtain ⟨entry, entryListed, rfl⟩ := List.mem_map.mp listed
    exact token.print_signed.absent entry.rule_named fun own ownListed =>
      (apart own ownListed _ (List.mem_map_of_mem entryListed)).symm
  cases token with
  | plain character => exact elsewhere fun _ member => absurd member List.not_mem_nil
  | label directive => exact rewrites_label directive
  | opened spelling argument =>
      apply elsewhere
      rw [Token.names, List.forall_mem_singleton]
      exact fun name listed => dialect.opening_apart name (List.mem_cons_of_mem _ listed)
  | closed spelling =>
      apply elsewhere
      rw [Token.names, List.forall_mem_singleton]
      exact dialect.closing_apart

end Labels

section Trimming

def Token.isBlank : Token dialect → Bool
  | .plain character => Text.isBlank character.character
  | _ => false

/-- A token that is no character neither begins nor ends with a blank. -/
def Token.Visible (token : Token dialect) : Prop :=
  ∀ character, token ≠ .plain character

theorem Token.print_tight {token : Token dialect} (visible : token.Visible) :
    Tight token.print := by
  rcases token.print_cases with
    ⟨character, rfl⟩ | ⟨name, listed, spelling, -, ⟨argument, written⟩ | written⟩
  · exact absurd rfl (visible character)
  · exact written ▸ Tight.ofCalled _ _
  · exact written ▸ Tight.ofBare (written_letters listed spelling)

theorem Token.code_tight {token : Token dialect} (visible : token.Visible) :
    Tight token.code := by
  cases token with
  | label directive =>
      exact Tight.ofEnclosed (dialect.label_enclosed _ directive.listed directive.argument.text)
  | _ => exact print_tight visible

private theorem writtenTightly {written : Token dialect → Text}
    (plain : ∀ character, written (.plain character) = [character.character])
    (tight : ∀ token : Token dialect, token.Visible → Tight (written token))
    (token : Token dialect) : WrittenTightly Token.isBlank written token := by
  cases token with
  | plain character => exact WrittenTightly.ofCharacter (plain character) rfl
  | _ => exact WrittenTightly.ofTight rfl (tight _ fun _ same => nomatch same)

/-- A row is trimmed token by token, before its labels are lowered and after. -/
theorem trim_print (tokens : List (Token dialect)) :
    Text.trim (tokens.flatMap Token.print) =
      (trimItems Token.isBlank tokens).flatMap Token.print :=
  trim_flatMap fun token _ => writtenTightly (fun _ => rfl) (fun _ => Token.print_tight) token

theorem trim_code (tokens : List (Token dialect)) :
    Text.trim (tokens.flatMap Token.code) =
      (trimItems Token.isBlank tokens).flatMap Token.code :=
  trim_flatMap fun token _ => writtenTightly (fun _ => rfl) (fun _ => Token.code_tight) token

/-- What is left of the body of a pair when it is trimmed. -/
theorem unclosed_trimmed {tokens body : List (Token dialect)} {opening : Spelling dialect.opening}
    {argument : Argument} {closing : Spelling dialect.closing}
    (listed : .block opening argument body closing ∈ segments tokens) :
    Unclosed (trimItems Token.isBlank body) := fun token member =>
  unclosed_of_mem_segments listed token ((trimItems_isInfix _ _).subset member)

end Trimming

section Codes

theorem Token.print_unbraced (token : Token dialect) : '\x7b' ∉ token.print := by
  have letters : ∀ {name : Text}, name ∈ dialect.names → ∀ spelling : Spelling name,
      '\x7b' ∉ spelling.written := by
    intro name listed spelling member
    have brace := written_letters listed spelling '\x7b' member
    revert brace
    decide
  rcases token.print_cases with
    ⟨character, rfl⟩ | ⟨name, listed, spelling, -, ⟨argument, written⟩ | written⟩
  · exact fun member => character.plain (List.mem_singleton.mp member ▸ by decide)
  · have inArgument : '\x7b' ∉ argument.text := fun member => argument.plain _ member (by decide)
    simp [written, Text.called, letters listed, inArgument]
  · simp [written, letters listed]

theorem Token.code_quiet (token : Token dialect) : Text.isQuiet token.code = true := by
  have written := Text.isQuiet_of_unbraced token.print_unbraced
  cases token with
  | label directive => exact (dialect.label_inert _ directive.listed directive.argument).2
  | _ => exact written

theorem Segment.code_quiet (segment : Segment dialect) : Text.isQuiet segment.code = true := by
  cases segment with
  | loose token => exact token.code_quiet
  | block opening argument body closing =>
      rw [Segment.code, trim_code]
      exact Text.isQuiet_append (Text.isQuiet_append (dialect.head_inert argument).2
        (Text.isQuiet_flatMap fun token _ => token.code_quiet)) dialect.foot_inert.2

/-- Whatever is left of the directives around blocks, there are no other ones in the code. -/
theorem Segment.code_signed (segment : Segment dialect) :
    Text.SignedBy [dialect.opening, dialect.closing] segment.code := by
  cases segment with
  | loose token => exact token.code_signed
  | block opening argument body closing =>
      rw [Segment.code, trim_code]
      exact ((Text.SignedBy.of_unsigned (dialect.head_inert argument).1).append
        (Text.SignedBy.flatMap fun token _ => token.code_signed)).append
          (Text.SignedBy.of_unsigned dialect.foot_inert.1)

theorem rewrites_segment (segment : Segment dialect) :
    Rewrites (dialect.labels.map Directive.Entry.rule) segment.paired segment.code := by
  cases segment with
  | loose token => exact rewrites_token token
  | block opening argument body closing =>
      apply Rewrites.of_absent
      intro pattern listed
      obtain ⟨entry, entryListed, rfl⟩ := List.mem_map.mp listed
      have named : entry.name ∈ dialect.labels.map Directive.Entry.name :=
        List.mem_map_of_mem entryListed
      apply (Segment.block opening argument body closing).code_signed.absent entry.rule_named
      rw [List.forall_mem_cons, List.forall_mem_singleton]
      exact ⟨(dialect.opening_apart _ (List.mem_cons_of_mem _ named)).symm,
        (dialect.closing_apart _ named).symm⟩

/-- A directive around a block that is in no pair is still there in the code. -/
theorem isInfix_code {tokens : List (Token dialect)} {token : Token dialect}
    (left : token ∈ unpaired tokens) (visible : token.Visible) :
    token.code <:+: Text.trim ((segments tokens).flatMap Segment.code) := by
  have within : ∀ {α : Type} {item : α} {items : List α} (written : α → Text), item ∈ items →
      written item <:+: items.flatMap written := by
    intro α item items written member
    rw [List.flatMap_def]
    exact List.infix_of_mem_flatten (List.mem_map_of_mem member)
  obtain ⟨segment, member, inSegment⟩ := List.mem_flatMap.mp left
  have inCode : token.code <:+: segment.code := by
    cases segment with
    | loose other => exact List.mem_singleton.mp inSegment ▸ List.infix_rfl
    | block opening argument body closing =>
        have inBody := (Token.code_tight visible).isInfix_trim (within Token.code inSegment)
        exact inBody.trans ⟨_, _, rfl⟩
  exact (Token.code_tight visible).isInfix_trim (inCode.trans (within Segment.code member))

end Codes

end Nesting

end Scriptlet
