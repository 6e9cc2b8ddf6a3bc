import Scriptlet.Proofs.Compilation.Idle
import Scriptlet.Proofs.Pattern.Locality
import Scriptlet.Proofs.Pattern.Signed

/-!
# Passes inside a frame

A text in a frame goes through a pass as it does without the frame, if no find begins in the
front, none is found in the back, and none goes across into the back.  For the directives of
this library that is decided by their names and by the few characters that can end them.
-/

namespace Scriptlet

namespace Pattern

variable {first : Char} {α β : Type} {pattern : Pattern first α} {front back : Text}

/-- Finds of the pattern keep out of what is in front of a text and behind it. -/
structure Frames (pattern : Pattern first α) (front back : Text) : Prop where
  isLocal : pattern.Local
  front_absent : ∀ rest, pattern.Absent front rest
  contained : ∀ passage, pattern.Contained passage back
  back_absent : pattern.Absent back []

namespace Frames

theorem map (frames : pattern.Frames front back) (change : α → β) :
    (pattern.map change).Frames front back where
  isLocal := frames.isLocal.map change
  front_absent := fun rest => (frames.front_absent rest).map change
  contained := fun passage => (frames.contained passage).map change
  back_absent := frames.back_absent.map change

theorem replace (frames : pattern.Frames front back) (replacement : α → Text) (text : Text) :
    pattern.replace replacement (front ++ (text ++ back)) =
      front ++ (pattern.replace replacement text ++ back) := by
  rw [replace_append replacement (frames.front_absent _),
    replace_append_of_contained frames.isLocal replacement (frames.contained text),
    replace_of_absent_text replacement frames.back_absent]

theorem replaceM {m : Type → Type} [Monad m] [LawfulMonad m] (frames : pattern.Frames front back)
    (replacement : α → m Text) (text : Text) :
    pattern.replaceM replacement (front ++ (text ++ back)) =
      (fun replaced => front ++ (replaced ++ back)) <$> pattern.replaceM replacement text := by
  rw [replaceM_append replacement (frames.front_absent _),
    replaceM_append_of_contained frames.isLocal replacement (frames.contained text),
    replaceM_of_absent_text replacement frames.back_absent]
  simp only [pure_bind, map_eq_pure_bind, bind_assoc]

theorem replaceEach {patterns : List (Pattern first Text)}
    (each : ∀ pattern ∈ patterns, pattern.Frames front back) (text : Text) :
    replaceEach patterns (front ++ (text ++ back)) =
      front ++ (Pattern.replaceEach patterns text ++ back) := by
  simp only [replaceEach_eq_foldl]
  induction patterns generalizing text with
  | nil => rfl
  | cons pattern patterns induction =>
      rw [List.forall_mem_cons] at each
      rw [List.foldl_cons, List.foldl_cons, each.1.replace, induction each.2]

end Frames

end Pattern

namespace Directive

open Pattern

/-- The code of a form block in whose body no form ends. -/
def formBlockCode (block : Text × Text) : Text :=
  formStatement "start" block.1 ++ replaceEach controlRules (Text.trim block.2) ++ formClosing

theorem lowerFormsWithin_of_unended {text : Text} (unended : (bare "endform").Absent text [])
    (bound : Nat) : lowerFormsWithin bound text = replaceEach controlRules text := by
  have absent : formBlock.Absent text [] := unended.blockOf
  cases bound with
  | zero => rfl
  | succ bound => rw [lowerFormsWithin, replace_of_absent_text _ absent]

/-- A form block goes up to the first directive that ends a form, so its body has no block in
it: lowering forms is done once the controls of the bodies are lowered, and then all others. -/
theorem lowerForms_eq (text : Text) :
    lowerForms text = replaceEach controlRules (formBlock.replace formBlockCode text) := by
  rw [lowerForms]
  cases size : text.length with
  | zero =>
      rw [List.length_eq_zero_iff.mp size, formBlock.replace_nil]
      rfl
  | succ bound =>
      rw [lowerFormsWithin]
      congr 1
      apply replace_congr
      apply forall_uses
      intro tail block recognised
      obtain ⟨head, closing, -, -, -, -, -, absent⟩ := exists_of_blockOf recognised
      have unended := absent.of_isInfix (Local.bare _) (Text.trim_isInfix block.captured.2)
      rw [formBlockCode, lowerFormsWithin_of_unended unended]

end Directive

/-- The names of the directives that end the blocks of a pass. -/
def Pass.endings : Pass → List Text
  | .blockSections => ["endsection"]
  | .forms => ["endform"]
  | .switches => ["endswitch"]
  | _ => []

theorem Pass.endings_letters (pass : Pass) :
    ∀ name ∈ pass.endings, ∀ character ∈ name, Text.isLetter character := by
  apply Text.letters_of_all
  cases pass <;> decide

/-- A front and a back without braces, whose signs stand before these words.  The back ends no
argument and goes on with no name. -/
structure Frame (words : List Text) (front back : Text) : Prop where
  front_signed : Text.SignedBy words front
  back_signed : Text.SignedBy words back
  front_unbraced : '\x7b' ∉ front
  back_plain : ∀ character ∈ back, character ∉ ['\x7b', '\x7d', ')']
  separate : Text.startsWithLetter back = false

namespace Frame

open Pattern

variable {words : List Text} {front back : Text} {α : Type} {pattern : Pattern '@' α}
  {name : Text}

/-- The directives of a name that is apart from the words of the frame, if they end with a
closing parenthesis. -/
theorem frames_of_call (frame : Frame words front back)
    (apart : ∀ word ∈ words, Text.Apart name word)
    (named : Named name pattern) (isLocal : pattern.Local) (ends : pattern.EndsWith ')') :
    pattern.Frames front back where
  isLocal := isLocal
  front_absent := frame.front_signed.absent named apart
  contained := Contained.of_last ends fun member => frame.back_plain _ member (by decide)
  back_absent := frame.back_signed.absent named apart []

private theorem fold_notMem (frame : Frame words front back)
    (letters : ∀ character ∈ name, Text.isLetter character) :
    ∀ head ∈ back.head?, Text.fold head ∉ name.map Text.fold := by
  intro head first member
  obtain ⟨letter, listed, same⟩ := List.mem_map.mp member
  have separate := frame.separate
  rw [Text.startsWithLetter, Option.mem_def.mp first, Option.any_some,
    ← Text.isLetter_congr same, letters letter listed] at separate
  cases separate

theorem frames_of_word (frame : Frame words front back)
    (apart : ∀ word ∈ words, Text.Apart name word)
    (letters : ∀ character ∈ name, Text.isLetter character) :
    (bare name).Frames front back where
  isLocal := Local.bare name
  front_absent := frame.front_signed.absent (Named.ofBare name) apart
  contained := Contained.bare (frame.fold_notMem letters)
  back_absent := frame.back_signed.absent (Named.ofBare name) apart []

theorem frames_of_block (frame : Frame words front back)
    (apart : ∀ word ∈ words, Text.Apart name word) (called : Called name pattern)
    (isLocal : pattern.Local) {ending : Text}
    (endingApart : ∀ word ∈ words, Text.Apart ending word)
    (letters : ∀ character ∈ ending, Text.isLetter character) :
    (blockOf pattern ending).Frames front back where
  isLocal := isLocal.blockOf ending
  front_absent := frame.front_signed.absent (called.blockOf ending).named apart
  contained := Contained.blockOf (frame.back_signed.absent (Named.ofBare ending) endingApart [])
    (frame.fold_notMem letters)
  back_absent := frame.back_signed.absent (called.blockOf ending).named apart []

theorem frames_of_entry (frame : Frame words front back) {entry : Directive.Entry}
    (apart : ∀ word ∈ words, Text.Apart entry.name word)
    (letters : ∀ character ∈ entry.name, Text.isLetter character) :
    entry.rule.Frames front back := by
  cases entry with
  | argument name code =>
      exact (frame.frames_of_call apart (Called.withArgument name).named (Local.withArgument name)
        (EndsWith.withArgument name)).map code
  | word name code => exact (frame.frames_of_word apart letters).map _

theorem frames_of_marks (frame : Frame words front back) {first last : Char}
    {others closers : Text} (opens : first = '\x7b')
    (closes : (last :: closers).getLast? = some '\x7d') :
    (between (literal first others) (literal last closers)).Frames front back where
  isLocal := Local.between first last others closers
  front_absent := fun rest => Absent.of_notMem (opens ▸ frame.front_unbraced)
  contained := Contained.of_last (EndsWith.between closes)
    fun member => frame.back_plain _ member (by decide)
  back_absent := Absent.of_notMem fun member => frame.back_plain _ member (by simp [opens])

end Frame

namespace Compiler

open Pattern Directive

variable {words : List Text} {front back : Text}

/-- Every pass works inside a frame whose words are apart from the names of the pass, if there
are no custom directives. -/
theorem apply_framed {compiler : Compiler} (unregistered : compiler.registry.directives = [])
    (compile : Text → Compilation Text) (frame : Frame words front back) {pass : Pass}
    (apart : ∀ name ∈ pass.names ++ pass.endings, ∀ word ∈ words, Text.Apart name word)
    (text : Text) :
    compiler.apply compile pass (front ++ (text ++ back)) =
      (fun passed => front ++ (passed ++ back)) <$> compiler.apply compile pass text := by
  have ofPure : ∀ {left right : Text}, left = front ++ (right ++ back) →
      (pure left : Compilation Text) =
        (fun passed => front ++ (passed ++ back)) <$> pure right := by
    rintro _ right rfl
    rw [map_pure]
  have letters := pass.names_letters
  have named : ∀ name ∈ pass.names, ∀ word ∈ words, Text.Apart name word :=
    fun name listed => apart name (List.mem_append_left _ listed)
  have ended : ∀ name ∈ pass.endings, ∀ word ∈ words, Text.Apart name word :=
    fun name listed => apart name (List.mem_append_right _ listed)
  have endingLetters := pass.endings_letters
  cases follows : pass.entries? with
  | some entries =>
      rw [apply_of_entries compiler compile follows, apply_of_entries compiler compile follows]
      apply ofPure
      apply Frames.replaceEach
      intro rule listed
      obtain ⟨entry, entryListed, rfl⟩ := List.mem_map.mp listed
      have member := Pass.mem_names_of_entries follows entryListed
      exact frame.frames_of_entry (named _ member) (letters _ member)
  | none =>
      cases pass with
      | extensions =>
          exact (frame.frames_of_call (named _ List.mem_cons_self)
            (Called.withSomeArgument _).named (Local.withSomeArgument _)
            (EndsWith.withSomeArgument _)).replaceM _ text
      | inlineSections =>
          exact (frame.frames_of_call (named _ List.mem_cons_self)
            (Called.withKeyAndValue _).named (Local.withKeyAndValue _)
            (EndsWith.withKeyAndValue _)).replaceM _ text
      | blockSections =>
          exact (frame.frames_of_block (named _ List.mem_cons_self) (Called.withSomeArgument _)
            (Local.withSomeArgument _) (ended _ List.mem_cons_self)
            (endingLetters _ List.mem_cons_self)).replaceM _ text
      | inclusions =>
          exact (frame.frames_of_call (named _ List.mem_cons_self)
            (Called.withArgument _).named (Local.withArgument _)
            (EndsWith.withArgument _)).replaceM _ text
      | forms =>
          have blocks : formBlock.Frames front back :=
            frame.frames_of_block (named _ List.mem_cons_self) (Called.withArgument _)
              (Local.withArgument _) (ended _ List.mem_cons_self)
              (endingLetters _ List.mem_cons_self)
          apply ofPure
          rw [lowerForms_eq, lowerForms_eq, blocks.replace]
          apply Frames.replaceEach
          intro rule listed
          rw [controlRules_eq] at listed
          obtain ⟨entry, entryListed, rfl⟩ := List.mem_map.mp listed
          have member : entry.name ∈ Pass.names .forms :=
            List.mem_cons_of_mem _ (List.mem_map_of_mem entryListed)
          exact frame.frames_of_entry (named _ member) (letters _ member)
      | switches =>
          exact (frame.frames_of_block (named _ List.mem_cons_self) (Called.withArgument _)
            (Local.withArgument _) (ended _ List.mem_cons_self)
            (endingLetters _ List.mem_cons_self)).replaceM _ text
      | yields =>
          have places : yielding.Frames front back :=
            frame.frames_of_call (named _ List.mem_cons_self)
              (Called.withArgument _).named.keepingWritten (Local.withArgument _).keepingWritten
              (EndsWith.withArgument _).keepingWritten
          funext context
          exact congrArg (fun resolved => some (resolved, context))
            (places.replace (resolveYield context) text)
      | customDirectives =>
          apply ofPure
          rw [Registry.apply_of_unregistered unregistered,
            Registry.apply_of_unregistered unregistered]
      | comments =>
          apply ofPure
          exact (frame.frames_of_marks rfl rfl).replace _ text
      | echoes =>
          apply ofPure
          apply Frames.replaceEach
          rw [Echo.patterns]
          simp only [List.forall_mem_cons, List.not_mem_nil, false_implies, implies_true, and_true]
          exact ⟨(frame.frames_of_marks rfl rfl).map _, (frame.frames_of_marks rfl rfl).map _⟩
      | _ => cases follows

/-- Passes work inside such a frame one after another. -/
theorem foldlM_framed {compiler : Compiler} (unregistered : compiler.registry.directives = [])
    (compile : Text → Compilation Text) (frame : Frame words front back) {passes : List Pass}
    (apart : ∀ pass ∈ passes, ∀ name ∈ pass.names ++ pass.endings, ∀ word ∈ words,
      Text.Apart name word) (text : Text) :
    passes.foldlM (fun text pass => compiler.apply compile pass text) (front ++ (text ++ back)) =
      (fun passed => front ++ (passed ++ back)) <$>
        passes.foldlM (fun text pass => compiler.apply compile pass text) text := by
  induction passes generalizing text with
  | nil => rfl
  | cons pass passes induction =>
      rw [List.forall_mem_cons] at apart
      rw [List.foldlM_cons, List.foldlM_cons, apply_framed unregistered compile frame apart.1,
        bind_map_left, map_bind]
      exact bind_congr fun passed => induction apart.2 passed

end Compiler

end Scriptlet
