import Mathlib.Data.List.Chain
import Scriptlet.Proofs.Compilation.Idle
import Scriptlet.Proofs.Pattern.Items
import Scriptlet.Proofs.Template.Codes

/-!
# Templates between passes

A template is a row of directives and of texts without signs.  Between two passes the
directives of the earlier passes are lowered and the others are still as they were
written.  A pass lowers its own directives and no others.
-/

namespace Scriptlet

/-- Whether a text that begins with a character stands apart from a directive without
parentheses in front of it. -/
def Text.standsApart (first : Char) : Bool :=
  !isLetter first && first ≠ '('

namespace Template

open Pattern

/-- A directive, or a text that no directive is used in. -/
inductive Token where
  | text (first : Char) (others : Text) (unsigned : '@' ∉ first :: others)
  | use (use : Use)

namespace Use

def written : Use → Text
  | .called _ spelling _ => spelling.written
  | .bare _ spelling => spelling.written

def parentheses : Use → Text
  | .called _ _ argument => '(' :: (argument.text ++ [')'])
  | .bare _ _ => []

theorem print_eq (use : Use) : use.print = '@' :: (use.written ++ use.parentheses) := by
  cases use with
  | called directive spelling argument => rfl
  | bare directive spelling => simp [print, written, parentheses]

theorem spelled (use : Use) : use.written.map Text.fold = use.mark.name.map Text.fold := by
  cases use with
  | called directive spelling argument => exact spelling.spelled
  | bare directive spelling => exact spelling.spelled

theorem written_letters (use : Use) : ∀ character ∈ use.written, Text.isLetter character :=
  Text.isLetter_of_map_fold_eq use.spelled use.mark.name_letters

theorem written_unsigned (use : Use) : '@' ∉ use.written := by
  intro member
  have sign := use.written_letters '@' member
  revert sign
  decide

theorem parentheses_unsigned (use : Use) : '@' ∉ use.parentheses := by
  cases use with
  | called directive spelling argument =>
      have unsigned : '@' ∉ argument.text := fun member => argument.plain '@' member (by simp)
      simp [parentheses, unsigned]
  | bare directive spelling => simp [parentheses]

theorem code_inert (use : Use) : Inert use.code := by
  cases use with
  | called directive spelling argument => exact directive.code_inert argument
  | bare directive spelling => exact directive.code_inert

/-- Where a directive is written, its rule finds it and gives its code. -/
theorem found (use : Use) (rest : Text) :
    use.mark.entry.rule.run? (use.print ++ rest) = some ⟨use.print, use.code, rest⟩ := by
  cases use with
  | called directive spelling argument =>
      have closed : ')' ∉ argument.text := fun member => argument.plain ')' member (by simp)
      exact map_run?_eq_some.mpr
        ⟨_, withArgument_run? spelling.spelled closed rest, rfl⟩
  | bare directive spelling =>
      exact map_run?_eq_some.mpr ⟨_, bare_run?_of_spelled spelling.spelled rest, rfl⟩

end Use

namespace Token

/-- Whether a token is a directive without parentheses. -/
def isBare : Token → Bool
  | .use (.bare _ _) => true
  | _ => false

/-- Whether a token stands apart from a directive without parentheses. -/
def standsApart : Token → Bool
  | .text first _ _ => Text.standsApart first
  | .use _ => true

/-- Whether one token may stand directly before another one. -/
def allows (left right : Token) : Bool :=
  !left.isBare || right.standsApart

/-- How a token is written when some directives are lowered. -/
def staged (lowered : List Mark) : Token → Text
  | .text first others _ => first :: others
  | .use used => if used.mark ∈ lowered then used.code else used.print

theorem staged_of_lowered {used : Use} {lowered : List Mark} (listed : used.mark ∈ lowered) :
    (Token.use used).staged lowered = used.code :=
  if_pos listed

theorem staged_of_pending {used : Use} {lowered : List Mark} (pending : used.mark ∉ lowered) :
    (Token.use used).staged lowered = used.print :=
  if_neg pending

end Token

/-- What directly follows a directive without parentheses stands apart from it. -/
def Spaced (tokens : List Token) : Prop :=
  tokens.IsChain fun left right => left.allows right = true

instance (tokens : List Token) : Decidable (Spaced tokens) :=
  inferInstanceAs (Decidable (List.IsChain _ _))

/-- The text of tokens when some directives are lowered. -/
def stagedText (lowered : List Mark) (tokens : List Token) : Text :=
  tokens.flatMap (Token.staged lowered)

variable {lowered : List Mark} {tokens others : List Token} {used : Use}

private theorem code_standsApart (use : Use) :
    ∃ first rest, use.code = first :: rest ∧ Text.standsApart first = true := by
  have first_of_prefix : ∀ {first : Char} {code : Text}, [first] <+: code →
      Text.standsApart first = true →
      ∃ first rest, code = first :: rest ∧ Text.standsApart first = true := by
    rintro first code ⟨rest, rfl⟩ apart
    exact ⟨first, rest, rfl, apart⟩
  cases use with
  | called directive spelling argument =>
      exact first_of_prefix (directive.code_enclosed argument.text).1 (by decide)
  | bare directive spelling =>
      by_cases closing : directive = .endphp
      · subst closing
        exact first_of_prefix (by decide : [' '] <+: Bare.endphp.code) (by decide)
      · have opened : ['<'] <+: directive.code := by
          cases directive <;> first | exact absurd rfl closing | decide
        exact first_of_prefix opened (by decide)

private theorem staged_standsApart {token : Token} (apart : token.standsApart = true)
    (lowered : List Mark) :
    ∃ first rest, token.staged lowered = first :: rest ∧ Text.standsApart first = true := by
  cases token with
  | text first others unsigned => exact ⟨first, others, rfl, apart⟩
  | use used =>
      by_cases listed : used.mark ∈ lowered
      · rw [Token.staged_of_lowered listed]
        exact code_standsApart used
      · rw [Token.staged_of_pending listed, used.print_eq]
        exact ⟨'@', _, rfl, by decide⟩

/-- What follows the name of a directive: no letter, and a parenthesis only as its own. -/
theorem Use.follows (spaced : Spaced (.use used :: others)) (lowered : List Mark) :
    Text.startsWithLetter (used.parentheses ++ stagedText lowered others) = false ∧
      ((used.parentheses ++ stagedText lowered others).head? = some '(' →
        ∃ directive, used.mark = .called directive) := by
  cases used with
  | called directive spelling argument => exact ⟨rfl, fun _ => ⟨directive, rfl⟩⟩
  | bare directive spelling =>
      cases others with
      | nil => exact ⟨rfl, fun head => nomatch head⟩
      | cons next others =>
          have allowed := (List.isChain_cons_cons.mp spaced).1
          have apart : next.standsApart = true := by
            simpa [Token.allows, Token.isBare] using allowed
          obtain ⟨first, rest, nextEq, firstApart⟩ := staged_standsApart apart lowered
          simp only [Text.standsApart, Bool.and_eq_true, Bool.not_eq_true',
            decide_eq_true_eq] at firstApart
          have whole : stagedText lowered (next :: others) =
              first :: (rest ++ stagedText lowered others) := by
            simp [stagedText, nextEq]
          rw [parentheses, List.nil_append, whole]
          refine ⟨by simpa [Text.startsWithLetter] using firstApart.1, ?_⟩
          intro head
          exact absurd (Option.some.inj head) firstApart.2

/-- Whether the rule of a directive can be found where another one is written. -/
def Mark.reads : Mark → Mark → Bool
  | .called directive, .called other => directive.name = other.name
  | .called _, .bare _ => false
  | .bare directive, other => directive.name.isPrefixOf other.name

/-- Whether each directive comes in the order of rules after those that its own rule
would be found in. -/
def clears : List Mark → List Mark → Bool
  | [], _ => true
  | mark :: later, lowered =>
      (Pass.all.flatMap marksOf).all
          (fun other => !mark.reads other || other = mark || lowered.contains other) &&
        clears later (lowered ++ [mark])

section Absence

variable {α : Type} {name : Text} {pattern : Pattern '@' α}

/-- A pattern that is not found at the sign of a directive is absent from it. -/
private theorem absent_of_run?_eq_none {rest : Text}
    (none : pattern.run? ('@' :: (used.written ++ (used.parentheses ++ rest))) = none) :
    pattern.Absent used.print rest := by
  have unsigned : '@' ∉ used.written ++ used.parentheses := by
    simp [used.written_unsigned, used.parentheses_unsigned]
  rw [used.print_eq]
  refine Absent.cons ?_ (Absent.of_notMem unsigned)
  rw [List.append_assoc]
  exact none

private theorem absent_of_named (named : Named name pattern)
    (letters : ∀ character ∈ name, Text.isLetter character)
    (apart : ¬ name.map Text.fold <+: used.mark.name)
    (spaced : Spaced (.use used :: others)) (lowered : List Mark) :
    pattern.Absent used.print (stagedText lowered others) := by
  apply absent_of_run?_eq_none
  apply named.run?_eq_none letters used.written_letters (Use.follows spaced lowered).1
  rwa [used.spelled, used.mark.name_folded]

private theorem absent_of_called (called : Pattern.Called name pattern)
    (letters : ∀ character ∈ name, Text.isLetter character)
    (apart : ∀ directive, used.mark = .called directive →
      directive.name ≠ name.map Text.fold)
    (spaced : Spaced (.use used :: others)) (lowered : List Mark) :
    pattern.Absent used.print (stagedText lowered others) := by
  obtain ⟨separate, ownParenthesis⟩ := Use.follows spaced lowered
  apply absent_of_run?_eq_none
  apply called.run?_eq_none letters used.written_letters separate
  intro opened same
  obtain ⟨directive, directiveEq⟩ := ownParenthesis opened
  apply apart directive directiveEq
  rw [← same, used.spelled, used.mark.name_folded, directiveEq, Mark.name]

private theorem rule_absent {mark : Mark} (apart : mark.reads used.mark = false)
    (spaced : Spaced (.use used :: others)) (lowered : List Mark) :
    mark.entry.rule.Absent used.print (stagedText lowered others) := by
  have folded := mark.name_folded
  cases mark with
  | called directive =>
      have called : Pattern.Called directive.name (Mark.called directive).entry.rule :=
        (Pattern.Called.withArgument directive.name).map directive.code
      refine absent_of_called called (Mark.called directive).name_letters ?_ spaced lowered
      intro other otherEq same
      have names : other.name = directive.name := same.trans folded
      simp [otherEq, Mark.reads, names] at apart
  | bare directive =>
      have named : Named directive.name (Mark.bare directive).entry.rule :=
        (Mark.bare directive).entry.rule_named
      refine absent_of_named named (Mark.bare directive).name_letters ?_ spaced lowered
      intro begins
      have same : directive.name.map Text.fold = directive.name := folded
      rw [same] at begins
      rw [Mark.reads, List.isPrefixOf_iff_prefix.mpr begins] at apart
      cases apart

/-- A directive is absent from a row if its name begins none of the names there. -/
theorem absent_staged (named : Named name pattern)
    (letters : ∀ character ∈ name, Text.isLetter character)
    (apart : ∀ used, .use used ∈ tokens → ¬ name.map Text.fold <+: used.mark.name)
    (spaced : Spaced (tokens ++ others)) (lowered : List Mark) :
    pattern.Absent (stagedText lowered tokens) (stagedText lowered others) := by
  induction tokens with
  | nil => exact Absent.nil
  | cons token tokens induction =>
      have later := induction
        (fun used member => apart used (List.mem_cons_of_mem token member))
        (List.IsChain.tail spaced)
      have here :
          pattern.Absent (token.staged lowered) (stagedText lowered (tokens ++ others)) := by
        cases token with
        | text first others unsigned => exact Absent.of_notMem unsigned
        | use used =>
            by_cases listed : used.mark ∈ lowered
            · rw [Token.staged_of_lowered listed]
              exact Absent.of_notMem used.code_inert.1
            · rw [Token.staged_of_pending listed]
              exact absent_of_named named letters (apart used List.mem_cons_self) spaced lowered
      rw [stagedText, List.flatMap_append] at here
      exact Absent.append here later

end Absence

theorem replace_staged {mark : Mark} (spaced : Spaced tokens)
    (clear : ∀ other, mark.reads other = true → other = mark ∨ other ∈ lowered) :
    mark.entry.rule.replace id (stagedText lowered tokens) =
      stagedText (lowered ++ [mark]) tokens := by
  apply replace_flatMap
  intro token others suffix
  cases token with
  | text first others unsigned => exact .inr ⟨rfl, Absent.of_notMem unsigned⟩
  | use used =>
      by_cases listed : used.mark ∈ lowered
      · have listedStill : used.mark ∈ lowered ++ [mark] := List.mem_append_left _ listed
        rw [Token.staged_of_lowered listed, Token.staged_of_lowered listedStill]
        exact .inr ⟨rfl, Absent.of_notMem used.code_inert.1⟩
      · rw [Token.staged_of_pending listed]
        by_cases own : used.mark = mark
        · have listedNow : used.mark ∈ lowered ++ [mark] := by simp [own]
          rw [Token.staged_of_lowered listedNow]
          exact .inl ⟨used.code, rfl, own ▸ used.found _⟩
        · have pendingStill : used.mark ∉ lowered ++ [mark] := by simp [listed, own]
          rw [Token.staged_of_pending pendingStill]
          refine .inr ⟨rfl, ?_⟩
          have apart : mark.reads used.mark = false := by
            cases read : mark.reads used.mark with
            | false => rfl
            | true => exact ((clear used.mark read).elim own listed).elim
          exact rule_absent apart (List.IsChain.suffix spaced suffix) lowered

/-- The rules of several directives lower them, one after another. -/
theorem replaceEach_staged {marks : List Mark} (spaced : Spaced tokens)
    (clear : clears marks lowered = true) :
    replaceEach ((marks.map Mark.entry).map Directive.Entry.rule)
        (stagedText lowered tokens) =
      stagedText (lowered ++ marks) tokens := by
  rw [replaceEach_eq_foldl]
  induction marks generalizing lowered with
  | nil => simp
  | cons mark later induction =>
      simp only [clears, Bool.and_eq_true, List.all_eq_true] at clear
      have first : ∀ other, mark.reads other = true → other = mark ∨ other ∈ lowered := by
        intro other read
        have allowed := clear.1 other (mem_marks other)
        simpa [read] using allowed
      rw [List.map_cons, List.map_cons, List.foldl_cons, replace_staged spaced first,
        induction clear.2]
      simp

theorem apply_staged (compiler : Compiler) (compile : Text → Compilation Text) {pass : Pass}
    (follows : pass.entries?.isSome = true) (spaced : Spaced tokens)
    (clear : clears (marksOf pass) lowered = true) :
    compiler.apply compile pass (stagedText lowered tokens) =
      pure (stagedText (lowered ++ marksOf pass) tokens) := by
  obtain ⟨entries, follows⟩ := Option.isSome_iff_exists.mp follows
  rw [compiler.apply_of_entries compile follows, entries_eq follows,
    replaceEach_staged spaced clear]

/-- The words of a template between passes are the names of the directives that are not
lowered yet. -/
theorem words_staged (spaced : Spaced tokens) :
    ∀ word ∈ Text.words (stagedText lowered tokens),
      ∃ used, .use used ∈ tokens ∧ used.mark ∉ lowered ∧ word = used.mark.name := by
  induction tokens with
  | nil => simp [stagedText, Text.words]
  | cons token tokens induction =>
      have later : ∀ word ∈ Text.words (stagedText lowered tokens),
          ∃ used, .use used ∈ token :: tokens ∧ used.mark ∉ lowered ∧
            word = used.mark.name := by
        intro word member
        obtain ⟨used, usedMember, found⟩ := induction (List.IsChain.tail spaced) word member
        exact ⟨used, List.mem_cons_of_mem token usedMember, found⟩
      have whole : stagedText lowered (token :: tokens) =
          token.staged lowered ++ stagedText lowered tokens :=
        List.flatMap_cons
      rw [whole]
      cases token with
      | text first others unsigned =>
          rw [Token.staged, Text.words_append_of_unsigned unsigned]
          exact later
      | use used =>
          by_cases listed : used.mark ∈ lowered
          · rw [Token.staged_of_lowered listed,
              Text.words_append_of_unsigned used.code_inert.1]
            exact later
          · have separate := (Use.follows spaced lowered).1
            rw [Token.staged_of_pending listed, used.print_eq, List.cons_append,
              List.append_assoc, Text.words_directive used.written_letters separate,
              Text.words_append_of_unsigned used.parentheses_unsigned, used.spelled,
              used.mark.name_folded]
            intro word member
            rcases List.mem_cons.mp member with here | further
            · exact ⟨used, List.mem_cons_self, listed, here⟩
            · exact later word further

section Passes

variable (compiler : Compiler) (compile : Text → Compilation Text) {lowered : List Mark}
  {tokens : List Token}

theorem clears_append (first second : List Mark) (lowered : List Mark) :
    clears (first ++ second) lowered =
      (clears first lowered && clears second (lowered ++ first)) := by
  induction first generalizing lowered with
  | nil => simp [clears]
  | cons mark first induction => simp [clears, induction, Bool.and_assoc]

/-- Passes that only follow rules lower their directives, one after another. -/
theorem foldlM_staged {passes : List Pass}
    (follow : ∀ pass ∈ passes, pass.entries?.isSome = true) (spaced : Spaced tokens)
    (clear : clears (passes.flatMap marksOf) lowered = true) :
    passes.foldlM (fun text pass => compiler.apply compile pass text)
        (stagedText lowered tokens) =
      (pure (stagedText (lowered ++ passes.flatMap marksOf) tokens) : Compilation Text) := by
  induction passes generalizing lowered with
  | nil => simp
  | cons pass passes induction =>
      rw [List.flatMap_cons, clears_append, Bool.and_eq_true] at clear
      have first := apply_staged compiler compile (follow pass List.mem_cons_self) spaced clear.1
      have others := induction
        (fun later member => follow later (List.mem_cons_of_mem pass member)) clear.2
      rw [List.foldlM_cons, first, pure_bind, others, List.flatMap_cons, List.append_assoc]

/-- Passes are idle on a row if none of their own directives is still there. -/
theorem foldlM_idle_staged (lowered : List Mark) {passes : List Pass}
    (builtIn : ∀ pass ∈ passes, pass ∉ [Pass.customDirectives, .comments, .echoes])
    (spaced : Spaced tokens)
    (elsewhere : ∀ pass ∈ passes, ∀ used, .use used ∈ tokens → used.mark ∉ lowered →
      used.mark ∉ marksOf pass) :
    passes.foldlM (fun text pass => compiler.apply compile pass text)
        (stagedText lowered tokens) =
      (pure (stagedText lowered tokens) : Compilation Text) := by
  apply compiler.foldlM_of_idle compile
  intro pass passMember
  apply compiler.apply_of_words compile (builtIn pass passMember)
  intro name listed word member
  obtain ⟨used, usedMember, pending, rfl⟩ := words_staged spaced word member
  exact Mark.names_apart (elsewhere pass passMember used usedMember pending) name listed

end Passes

end Template

end Scriptlet
