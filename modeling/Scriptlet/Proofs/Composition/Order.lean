import Scriptlet.Proofs.Compilation.Bound
import Scriptlet.Proofs.Composition.Layout
import Scriptlet.Proofs.Table

/-!
# Which definition of a section wins

A view may define a section several times, inline and as a block.  All inline sections are
stored before any block is, each kind from left to right.  So the last block of a key wins,
and the last inline section of a key only where there is no block for it.
-/

namespace Scriptlet

namespace Composition

open Pattern

/-- A part of a view of plain text and sections. -/
inductive Piece where
  | plain (character : Plain)
  | inlineSection (key : { text : Text // IsKey text }) (value : { text : Text // IsValue text })
  | blockSection (key : { text : Text // IsKey text }) (body : List Plain)

namespace Piece

def print : Piece → Text
  | .plain character => [character.character]
  | .inlineSection key value => writtenInline key.1 value.1
  | .blockSection key body => writtenBlock key.1 body

def inlineDefinition? : Piece → Option (Text × Text)
  | .inlineSection key value => some (key.1, value.1)
  | _ => none

def blockDefinition? : Piece → Option (Text × Text)
  | .blockSection key body => some (key.1, Text.trim (plainText body))
  | _ => none

def definition? (piece : Piece) : Option (Text × Text) :=
  piece.inlineDefinition?.or piece.blockDefinition?

/-- What is left of a piece after the inline sections are stored. -/
def withoutInline : Piece → Text
  | .inlineSection _ _ => []
  | piece => piece.print

def loose? : Piece → Option Plain
  | .plain character => some character
  | _ => none

/-- What is left of a piece after all sections are stored. -/
def withoutSections (piece : Piece) : Text :=
  plainText piece.loose?.toList

end Piece

def printPieces (pieces : List Piece) : Text :=
  pieces.flatMap Piece.print

/-- The content of a key that is defined last in a row of definitions. -/
def lastDefinition? (key : Text) (definitions : List (Text × Text)) : Option Text :=
  Table.get? key definitions.reverse

/-- Store definitions from left to right. -/
def storeAll (definitions : List (Text × Text)) (context : Context) : Context :=
  definitions.foldl (fun stored definition => stored.store definition.1 definition.2) context

theorem storeAll_eq (definitions : List (Text × Text)) (context : Context) :
    storeAll definitions context =
      { context with sections := (storeAll definitions context).sections } := by
  induction definitions generalizing context with
  | nil => rfl
  | cons definition definitions induction => exact induction (context.store _ _)

private theorem storeAll_sections (definitions : List (Text × Text)) (context : Context) :
    (storeAll definitions context).sections = definitions.foldl
      (fun filled definition => Table.insert definition.1 definition.2 filled)
      context.sections := by
  induction definitions generalizing context with
  | nil => rfl
  | cons definition definitions induction => exact induction (context.store _ _)

theorem get?_storeAll (key : Text) (definitions : List (Text × Text)) (context : Context) :
    Table.get? key (storeAll definitions context).sections =
      (lastDefinition? key definitions).or (Table.get? key context.sections) := by
  rw [storeAll_sections, Table.get?_foldl_insert, lastDefinition?]

section Finds

theorem extension_absent_piece (piece : Piece) (rest : Text) :
    Compiler.extension.Absent piece.print rest := by
  have named : Named "extends" Compiler.extension := (Called.withSomeArgument _).named
  cases piece with
  | plain character => exact Absent.of_notMem (notMem_plainText (by decide) [character])
  | inlineSection key value =>
      exact named.absent_called (by decide) (argument_unsigned key.2 value.2) (by decide) rest
  | blockSection key body =>
      apply Absent.append
      · exact named.absent_called (by decide) key.2.unsigned (by decide) _
      · exact absent_ending named body (by decide) rest

theorem inlineSection_finds_piece (piece : Piece) (rest : Text) :
    (∃ captured, (∀ context, (Compiler.storeInline captured).run context =
        some (piece.withoutInline, store? piece.inlineDefinition? context)) ∧
      Compiler.inlineSection.run? (piece.print ++ rest) =
        some ⟨piece.print, captured, rest⟩) ∨
    ((piece.withoutInline = piece.print ∧
        ∀ context, store? piece.inlineDefinition? context = context) ∧
      Compiler.inlineSection.Absent piece.print rest) := by
  cases piece with
  | plain character =>
      refine .inr ⟨⟨rfl, fun _ => rfl⟩, ?_⟩
      exact Absent.of_notMem (notMem_plainText (by decide) [character])
  | inlineSection key value =>
      exact .inl ⟨_, run_storeInline key.2 value.2, inlineSection_run? key.2 value.2 rest⟩
  | blockSection key body =>
      exact .inr ⟨⟨rfl, fun _ => rfl⟩, inlineSection_absent_block key.2 body rest⟩

theorem blockSection_finds_piece {compile : Text → Compilation Text}
    (compiled : ∀ body context, (compile (plainText body)).run context =
      some (Text.trim (plainText body), context)) (piece : Piece) (rest : Text) :
    (∃ captured, (∀ context, (Compiler.storeBlock compile captured).run context =
        some (piece.withoutSections, store? piece.blockDefinition? context)) ∧
      Compiler.blockSection.run? (piece.withoutInline ++ rest) =
        some ⟨piece.withoutInline, captured, rest⟩) ∨
    ((piece.withoutSections = piece.withoutInline ∧
        ∀ context, store? piece.blockDefinition? context = context) ∧
      Compiler.blockSection.Absent piece.withoutInline rest) := by
  cases piece with
  | plain character =>
      refine .inr ⟨⟨rfl, fun _ => rfl⟩, ?_⟩
      exact Absent.of_notMem (notMem_plainText (by decide) [character])
  | inlineSection key value => exact .inr ⟨⟨rfl, fun _ => rfl⟩, Absent.nil⟩
  | blockSection key body =>
      exact .inl ⟨_, run_storeBlock compiled key.2 body, blockSection_run? key.2 body rest⟩

theorem extension_absent_pieces (pieces : List Piece) :
    Compiler.extension.Absent (printPieces pieces) [] := by
  induction pieces with
  | nil => exact Absent.nil
  | cons piece pieces induction =>
      exact Absent.append (extension_absent_piece piece _) induction

end Finds

theorem flatMap_withoutSections (pieces : List Piece) :
    pieces.flatMap Piece.withoutSections = plainText (pieces.filterMap Piece.loose?) := by
  induction pieces with
  | nil => rfl
  | cons piece pieces induction =>
      rw [List.flatMap_cons, induction]
      cases piece <;> rfl

section Passes

variable (compiler : Compiler) (pieces : List Piece) (context : Context)

theorem run_extensions_on_pieces (compile : Text → Compilation Text) :
    (compiler.apply compile .extensions (printPieces pieces)).run context =
      some (printPieces pieces, context) := by
  rw [Compiler.apply, replaceM_of_absent_text _ (extension_absent_pieces pieces)]
  rfl

theorem run_inlineSections_on_pieces (compile : Text → Compilation Text) :
    (compiler.apply compile .inlineSections (printPieces pieces)).run context =
      some (pieces.flatMap Piece.withoutInline,
        storeAll (pieces.filterMap Piece.inlineDefinition?) context) := by
  rw [storeAll, ← foldl_store?]
  exact replaceM_flatMap (fun piece others _ => inlineSection_finds_piece piece _) context

theorem run_blockSections_on_pieces (bound : Nat) :
    (compiler.apply (compiler.compile (bound + 1)) .blockSections
        (pieces.flatMap Piece.withoutInline)).run context =
      some (plainText (pieces.filterMap Piece.loose?),
        storeAll (pieces.filterMap Piece.blockDefinition?) context) := by
  have compiled : ∀ body context, (compiler.compile (bound + 1) (plainText body)).run context =
      some (Text.trim (plainText body), context) := by
    intro body context
    rw [compile_plainText]
    rfl
  rw [storeAll, ← foldl_store?, ← flatMap_withoutSections]
  exact replaceM_flatMap (fun piece others _ => blockSection_finds_piece compiled piece _) context

theorem apply_plainText (compile : Text → Compilation Text) (pass : Pass)
    (characters : List Plain) :
    compiler.apply compile pass (plainText characters) = pure (plainText characters) := by
  apply compiler.apply_of_unsigned
  · exact notMem_plainText (by decide) _
  · exact Absent.of_notMem (notMem_plainText (by decide) _)
  · exact fun _ _ => Absent.of_notMem (notMem_plainText (by decide) _)

end Passes

/-- A row of plain text and sections, with keys repeated in any way, compiles to its trimmed
plain text, and stores for each key its last block or, where it has none, its last inline
section. -/
theorem last_block_wins (compiler : Compiler) (pieces : List Piece) :
    ∃ sections : Sections,
      compiler.Compiles (printPieces pieces) {}
        (Text.trim (plainText (pieces.filterMap Piece.loose?))) { sections := sections } ∧
      ∀ key, Table.get? key sections =
        (lastDefinition? key (pieces.filterMap Piece.blockDefinition?)).or
          (lastDefinition? key (pieces.filterMap Piece.inlineDefinition?)) := by
  let inlineStored := storeAll (pieces.filterMap Piece.inlineDefinition?) {}
  let stored := storeAll (pieces.filterMap Piece.blockDefinition?) inlineStored
  have split : Pass.all = [.extensions, .inlineSections, .blockSections] ++ Pass.all.drop 3 := rfl
  have sectionsRan : ([Pass.extensions, .inlineSections, .blockSections].foldlM (fun text pass =>
      compiler.apply (compiler.compile 1) pass text) (printPieces pieces)).run {} =
        some (plainText (pieces.filterMap Piece.loose?), stored) := by
    rw [Compiler.run_foldlM_cons _ _ (run_extensions_on_pieces compiler pieces {} _),
      Compiler.run_foldlM_cons _ _ (run_inlineSections_on_pieces compiler pieces {} _),
      Compiler.run_foldlM_cons _ _ (run_blockSections_on_pieces compiler pieces _ 0)]
    rfl
  have othersIdle := compiler.foldlM_of_idle (compiler.compile 1) fun pass
    (_ : pass ∈ Pass.all.drop 3) =>
      apply_plainText compiler (compiler.compile 1) pass (pieces.filterMap Piece.loose?)
  have stored_eq : stored = { sections := stored.sections } := by
    have blocksKeep : stored = { inlineStored with sections := stored.sections } :=
      storeAll_eq _ inlineStored
    have inlinesKeep : inlineStored = { sections := inlineStored.sections } := storeAll_eq _ {}
    rwa [inlinesKeep] at blocksKeep
  refine ⟨stored.sections, ⟨2, ?_⟩, ?_⟩
  · rw [← stored_eq, Compiler.compile, StateT.run_bind, split, List.foldlM_append,
      StateT.run_bind, sectionsRan, Option.bind_eq_bind, Option.bind_some, othersIdle]
    rfl
  · intro key
    have none : Table.get? key ({} : Context).sections = none := rfl
    rw [get?_storeAll, get?_storeAll, none, Option.or_none]

/-- An inline section does not win over a block of its key that stands before it. -/
theorem block_wins_over_later_inline_section :
    let key : { text : Text // IsKey text } := ⟨"k", Text.forall_notMem rfl, rfl⟩
    let value : { text : Text // IsValue text } := ⟨"inline", Text.forall_notMem rfl, rfl⟩
    let body : List Plain := [⟨'b', by decide⟩]
    let pieces : List Piece := [.blockSection key body, .inlineSection key value]
    let compiler : Compiler := { registry := {}, loader := .ofTable [] }
    printPieces pieces = "@section('k')b@endsection@section('k','inline')" ∧
      lastDefinition? "k" (pieces.filterMap Piece.definition?) = some "inline".toList ∧
      compiler.Compiles (printPieces pieces) {} [] { sections := [("k", "b")] } ∧
      ∀ compiled after, compiler.Compiles (printPieces pieces) {} compiled after →
        Table.get? "k".toList after.sections ≠
          lastDefinition? "k" (pieces.filterMap Piece.definition?) := by
  intro key value body pieces compiler
  have ran : (compiler.compile 2 (printPieces pieces)).run {} =
      some ([], { sections := [("k", "b")] }) := by
    decide +kernel
  refine ⟨by decide, by decide, ⟨2, ran⟩, ?_⟩
  rintro compiled after ⟨bound, again⟩
  have same := congrArg Prod.snd (Compiler.compile_unique ran again)
  subst same
  decide

end Composition

end Scriptlet
