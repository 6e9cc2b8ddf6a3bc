import Mathlib.Data.List.Pairwise
import Scriptlet.Proofs.Directive.FormRow
import Scriptlet.Proofs.Directive.Precedence

/-!
# Rows of custom directives

Where no name begins another one and no handler answers a sign, the custom directives do not
meet each other: each replaces its own uses and leaves the others to be found.  So a row of
uses becomes the row of their answers, in whatever order the directives were registered.
-/

namespace Scriptlet

/-- A directive that a host may register, and that answers no sign to an argument without
one. -/
structure QuietDirective extends Directive where
  ofName : Registry.isName name = true
  quiet : ∀ argument?, (∀ argument ∈ argument?, '@' ∉ argument) → '@' ∉ handler argument?

namespace CustomRow

open Pattern
open Template (Spelling)
open FormRow (Argument)

inductive Piece where
  | plain (text : Text) (unsigned : '@' ∉ text)
  | called (directive : QuietDirective) (spelling : Spelling directive.name)
      (argument : Argument)
  | bare (directive : QuietDirective) (spelling : Spelling directive.name)

namespace Piece

def print : Piece → Text
  | .plain text _ => text
  | .called _ spelling argument => Text.called spelling.written argument.text
  | .bare _ spelling => '@' :: spelling.written

/-- A text as it is, or what the handler of a directive answers to its use. -/
def answer : Piece → Text
  | .plain text _ => text
  | .called directive _ argument => directive.handler (some argument.text)
  | .bare directive _ => directive.handler none

def directive? : Piece → Option QuietDirective
  | .plain _ _ => none
  | .called directive _ _ => some directive
  | .bare directive _ => some directive

theorem answer_unsigned (piece : Piece) : '@' ∉ piece.answer := by
  cases piece with
  | plain text unsigned => exact unsigned
  | called directive spelling argument =>
      apply directive.quiet
      rintro _ ⟨⟩
      exact argument.unsigned
  | bare directive spelling => exact directive.quiet none nofun

/-- A use of the directive with this name is replaced by its answer. -/
def lower (name : Text) (piece : Piece) : Piece :=
  if piece.directive?.any (·.name = name) then .plain piece.answer piece.answer_unsigned
  else piece

theorem answer_lower (name : Text) (piece : Piece) : (piece.lower name).answer = piece.answer := by
  unfold lower
  split
  · rfl
  · rfl

theorem lower_of_use {piece : Piece} {directive : QuietDirective}
    (uses : piece.directive? = some directive) :
    piece.lower directive.name = .plain piece.answer piece.answer_unsigned := by
  simp [lower, uses]

theorem lower_of_other {name : Text} {piece : Piece}
    (other : ∀ own ∈ piece.directive?, own.name ≠ name) : piece.lower name = piece := by
  apply if_neg
  rw [Option.any_eq_true]
  rintro ⟨own, uses, same⟩
  exact other own uses (of_decide_eq_true same)

theorem print_of_no_use {piece : Piece} (unused : piece.directive? = none) :
    piece.print = piece.answer := by
  cases piece with
  | plain text unsigned => rfl
  | _ => cases unused

/-- A piece that still is a use is one of another directive. -/
theorem directive?_lower {name : Text} {piece : Piece} {directive : QuietDirective}
    (uses : (piece.lower name).directive? = some directive) :
    piece.directive? = some directive ∧ directive.name ≠ name := by
  unfold lower at uses
  split at uses
  · cases uses
  · rename_i other
    exact ⟨uses, by simpa [uses] using other⟩

end Piece

/-- What stands behind a use without parentheses begins neither with one nor with a use. -/
def Separate (others : List Piece) : Prop :=
  (others.flatMap Piece.print).head? ∉ [some '(', some '@']

instance (others : List Piece) : Decidable (Separate others) :=
  inferInstanceAs (Decidable (_ ∉ _))

/-- A row in which no use without parentheses could be read on. -/
def Spaced : List Piece → Prop
  | [] => True
  | .bare _ _ :: others => Separate others ∧ Spaced others
  | _ :: others => Spaced others

theorem Separate.head?_ne {others : List Piece} (separate : Separate others) :
    (others.flatMap Piece.print).head? ≠ some '(' :=
  fun same => separate (same ▸ List.mem_cons_self)

theorem Separate.lower {others : List Piece} (separate : Separate others) (name : Text) :
    Separate (others.map (Piece.lower name)) := by
  have begun : some '@' ∈ [some '(', some '@'] := List.mem_cons_of_mem _ List.mem_cons_self
  induction others with
  | nil => exact separate
  | cons piece others induction =>
      cases piece with
      | plain text unsigned =>
          cases text with
          | nil => exact induction separate
          | cons head tail => exact separate
      | called directive spelling argument => exact absurd begun separate
      | bare directive spelling => exact absurd begun separate

namespace Spaced

theorem behind {pieces others : List Piece} {directive : QuietDirective}
    {spelling : Spelling directive.name} (spaced : Spaced pieces)
    (suffix : .bare directive spelling :: others <:+ pieces) : Separate others := by
  induction pieces with
  | nil => cases List.suffix_nil.mp suffix
  | cons piece later induction =>
      rcases List.suffix_cons_iff.mp suffix with same | further
      · cases same
        exact spaced.1
      · cases piece with
        | plain text unsigned => exact induction spaced further
        | called own spelled argument => exact induction spaced further
        | bare own spelled => exact induction spaced.2 further

/-- Answers in place of uses let nothing be read on that was not before. -/
theorem lower {pieces : List Piece} (spaced : Spaced pieces) (name : Text) :
    Spaced (pieces.map (Piece.lower name)) := by
  induction pieces with
  | nil => exact spaced
  | cons piece others induction =>
      cases piece with
      | plain text unsigned => exact induction spaced
      | called directive spelling argument =>
          rw [List.map_cons, Piece.lower]
          split
          · exact induction spaced
          · exact induction spaced
      | bare directive spelling =>
          rw [List.map_cons, Piece.lower]
          split
          · exact induction spaced.2
          · exact ⟨spaced.1.lower name, induction spaced.2⟩

end Spaced

/-- Every sign of a piece stands before the name of its directive. -/
theorem Piece.print_signed (piece : Piece) :
    Text.SignedBy (piece.directive?.toList.map (·.name)) piece.print := by
  cases piece with
  | plain text unsigned => exact Text.SignedBy.of_unsigned unsigned
  | called directive spelling argument =>
      exact Text.SignedBy.of_called List.mem_cons_self spelling.spelled
        (Registry.unsigned_of_spelled directive.ofName spelling.spelled) argument.unsigned
  | bare directive spelling =>
      exact Text.SignedBy.of_bare List.mem_cons_self spelling.spelled
        (Registry.unsigned_of_spelled directive.ofName spelling.spelled)

section Replacing

variable {pieces : List Piece}

/-- The directive of a use finds it as it is written. -/
theorem run?_of_use {piece : Piece} {others : List Piece} {directive : QuietDirective}
    (spaced : Spaced pieces) (suffix : piece :: others <:+ pieces)
    (uses : piece.directive? = some directive) :
    directive.pattern.run? (piece.print ++ others.flatMap Piece.print) =
      some ⟨piece.print, piece.answer, others.flatMap Piece.print⟩ := by
  cases piece with
  | plain text unsigned => cases uses
  | called own spelling argument =>
      cases uses
      have found := withOptionalArgument_run? spelling.spelled argument.closed
        (others.flatMap Piece.print)
      exact map_run?_eq_some.mpr ⟨_, found, rfl⟩
  | bare own spelling =>
      cases uses
      have found := withOptionalArgument_run?_of_bare spelling.spelled
        (spaced.behind suffix).head?_ne
      exact map_run?_eq_some.mpr ⟨_, found, rfl⟩

/-- Of a row, a directive replaces its own uses and leaves those of the directives whose
names are apart from its own one. -/
theorem replace_row {directive : Directive} (spaced : Spaced pieces)
    (known : ∀ piece ∈ pieces, ∀ own ∈ piece.directive?, own.toDirective = directive ∨
      Text.Apart directive.name own.name) :
    directive.pattern.replace id (pieces.flatMap Piece.print) =
      (pieces.map (Piece.lower directive.name)).flatMap Piece.print := by
  rw [List.flatMap_map]
  apply replace_flatMap
  intro piece others suffix
  have knownHere := known piece (suffix.subset List.mem_cons_self)
  by_cases used : ∃ own ∈ piece.directive?, own.toDirective = directive
  · obtain ⟨own, uses, rfl⟩ := used
    refine .inl ⟨piece.answer, ?_, run?_of_use spaced suffix uses⟩
    rw [Piece.lower_of_use uses]
    rfl
  · have apart : ∀ own ∈ piece.directive?, Text.Apart directive.name own.name :=
      fun own uses => (knownHere own uses).resolve_left fun same => used ⟨own, uses, same⟩
    have kept : piece.lower directive.name = piece :=
      Piece.lower_of_other fun own uses => (apart own uses).ne.symm
    refine .inr ⟨by rw [kept], piece.print_signed.absent directive.pattern_named ?_ _⟩
    simpa using apart

/-- Directives that know the uses of a row replace them by their answers, one directive after
another. -/
theorem foldl_replace_row {order : List Directive} (spaced : Spaced pieces)
    (known : ∀ piece ∈ pieces, ∀ own ∈ piece.directive?, own.toDirective ∈ order ∧
      ∀ directive ∈ order, own.toDirective = directive ∨ Text.Apart directive.name own.name) :
    (order.map Directive.pattern).foldl (fun replaced pattern => pattern.replace id replaced)
      (pieces.flatMap Piece.print) = pieces.flatMap Piece.answer := by
  induction order generalizing pieces with
  | nil =>
      apply List.flatMap_congr
      intro piece member
      cases uses : piece.directive? with
      | none => exact Piece.print_of_no_use uses
      | some own => cases (known piece member own uses).1
  | cons directive order induction =>
      rw [List.map_cons, List.foldl_cons, replace_row spaced fun piece member own uses =>
        (known piece member own uses).2 directive List.mem_cons_self]
      have knownLater : ∀ piece ∈ pieces.map (Piece.lower directive.name),
          ∀ own ∈ piece.directive?, own.toDirective ∈ order ∧
            ∀ later ∈ order, own.toDirective = later ∨ Text.Apart later.name own.name := by
        intro _ lowered own uses
        obtain ⟨piece, member, rfl⟩ := List.mem_map.mp lowered
        obtain ⟨usedBefore, other⟩ := Piece.directive?_lower uses
        obtain ⟨listed, others⟩ := known piece member own usedBefore
        refine ⟨(List.mem_cons.mp listed).resolve_left ?_, fun later laterListed =>
          others later (List.mem_cons_of_mem _ laterListed)⟩
        rintro rfl
        exact other rfl
      rw [induction (spaced.lower directive.name) knownLater, List.flatMap_map]
      simp only [Piece.answer_lower]

end Replacing

/-- The order of the directives in a registry does not matter for a row of their uses. -/
theorem apply_row {registry : Registry} {directives : List QuietDirective}
    (apart : directives.Pairwise fun left right => Text.Apart left.name right.name)
    (registered : registry.directives.Perm (directives.map (·.toDirective)))
    {pieces : List Piece} (spaced : Spaced pieces)
    (known : ∀ piece ∈ pieces, ∀ own ∈ piece.directive?, own ∈ directives) :
    registry.apply (pieces.flatMap Piece.print) = pieces.flatMap Piece.answer := by
  have symmetric : Std.Symm fun left right : QuietDirective => Text.Apart left.name right.name :=
    ⟨fun _ _ => Text.Apart.symm⟩
  rw [Registry.apply, replaceEach_eq_foldl]
  apply foldl_replace_row spaced
  intro piece member own uses
  have ownListed := known piece member own uses
  constructor
  · exact registered.mem_iff.mpr (List.mem_map_of_mem ownListed)
  · intro directive listed
    obtain ⟨other, otherListed, rfl⟩ := List.mem_map.mp (registered.mem_iff.mp listed)
    by_cases same : own = other
    · exact .inl (congrArg QuietDirective.toDirective same)
    · exact .inr (apart.forall otherListed ownListed (Ne.symm same))

/-- Whatever the order in which some directives are registered, each of their uses becomes
what its handler answers, and the texts between the uses stay. -/
theorem uses_answered_in_any_order (compiler : Compiler) (bound : Nat)
    {directives : List QuietDirective}
    (apart : directives.Pairwise fun left right => Text.Apart left.name right.name)
    {history : List Registration}
    (registered : (history.filterMap Registration.entry?).Perm
      (directives.map fun directive => (directive.name, directive.handler)))
    {pieces : List Piece} (spaced : Spaced pieces)
    (known : ∀ piece ∈ pieces, ∀ own ∈ piece.directive?, own ∈ directives) :
    ({ compiler with registry := Registry.after history } : Compiler).runPass bound
      .customDirectives (pieces.flatMap Piece.print) = pure (pieces.flatMap Piece.answer) := by
  have distinct : ((history.filterMap Registration.entry?).map Prod.fst).Nodup := by
    rw [(registered.map Prod.fst).nodup_iff, List.map_map]
    exact apart.map _ fun left right => Text.Apart.ne
  have listed : (Registry.after history).directives.Perm (directives.map (·.toDirective)) := by
    rw [Registry.directives_after distinct]
    have permuted := registered.map fun entry => Directive.mk entry.1 entry.2
    rwa [List.map_map] at permuted
  exact congrArg pure (apply_row apart listed spaced known)

/-- Answers the current year. -/
def year : QuietDirective where
  name := "year"
  handler _ := "2024"
  ofName := by decide
  quiet _ _ := by decide

/-- Answers its argument from right to left. -/
def mirror : QuietDirective where
  name := "Mirror"
  handler argument? := (argument?.getD "nothing").reverse
  ofName := by decide
  quiet argument? unsigned := by
    cases argument? with
    | none => decide
    | some argument => simpa using unsigned argument rfl

/-- Calls that register the directives, with one between them that is refused. -/
def mirrorHistory : List Registration :=
  [⟨" @Mirror", mirror.handler⟩, ⟨"two words", fun _ => "@year"⟩, ⟨"@@year\n", year.handler⟩]

def mirrorRow : List Piece :=
  [.plain "© " (by decide), .bare year ⟨"YEAR", by decide⟩, .plain ", " (by decide),
    .called mirror ⟨"mirroR", by decide⟩ ⟨"a(b", by decide, by decide⟩,
    .bare year ⟨"year", by decide⟩]

theorem uses_answered_in_any_order_of_mirror :
    [year, mirror].Pairwise (fun left right => Text.Apart left.name right.name) ∧
      (mirrorHistory.filterMap Registration.entry?).Perm
        ([year, mirror].map fun directive => (directive.name, directive.handler)) ∧
      Spaced mirrorRow ∧
      (∀ piece ∈ mirrorRow, ∀ own ∈ piece.directive?, own ∈ [year, mirror]) ∧
      ({ registry := Registry.after mirrorHistory, loader := .ofTable [] } : Compiler).runPass 0
        .customDirectives "© @YEAR, @mirroR(a(b)@year" = pure "© 2024, b(a2024".toList := by
  have apart : [year, mirror].Pairwise fun left right => Text.Apart left.name right.name := by
    decide
  have registered : (mirrorHistory.filterMap Registration.entry?).Perm
      ([year, mirror].map fun directive => (directive.name, directive.handler)) :=
    List.Perm.swap _ _ _
  have spaced : Spaced mirrorRow := by
    refine ⟨?_, ?_, trivial⟩ <;> decide
  have known : ∀ piece ∈ mirrorRow, ∀ own ∈ piece.directive?, own ∈ [year, mirror] := by
    simp [mirrorRow, Piece.directive?]
  exact ⟨apart, registered, spaced, known,
    uses_answered_in_any_order { registry := {}, loader := .ofTable [] } 0 apart registered
      spaced known⟩

end CustomRow

end Scriptlet
