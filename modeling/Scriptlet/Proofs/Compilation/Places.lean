import Scriptlet.Proofs.Compilation.Recompilation
import Scriptlet.Proofs.Pattern.Decided
import Scriptlet.Proofs.Text.Plain

/-!
# Places left in compiled views

The pass for places fills those whose keys are stored in the end, and leaves the others as
they are written.  It looks neither into the contents that it puts in nor at what the passes
behind it put together.  Where all signs are decided, neither brings in a place.
-/

namespace Scriptlet

namespace Compiler

open Pattern Compilation Directive

variable {compiler : Compiler} {context : Context} {sections : Sections} {text : Text}
  {accepts : Text → Prop}

/-- A compile of a source comes to the pass for places with this text and context. -/
def ReachesPlaces (compiler : Compiler) (source : Text) (before : Context) (text : Text)
    (context : Context) : Prop :=
  ∃ bound, ((Pass.all.take 13).foldlM
    (fun text pass => compiler.runPass bound pass text) source).run before = some (text, context)

theorem passes_refine {bound larger : Nat} (within : bound ≤ larger) (passes : List Pass)
    (source : Text) :
    Refines (passes.foldlM (fun text pass => compiler.runPass bound pass text) source)
      (passes.foldlM (fun text pass => compiler.runPass larger pass text) source) :=
  Refines.compositional.foldlM
    (fun text pass => apply_refines (compile_refines within) pass text) passes source

theorem ReachesPlaces.unique {source left right : Text} {before leftContext rightContext : Context}
    (leftReached : compiler.ReachesPlaces source before left leftContext)
    (rightReached : compiler.ReachesPlaces source before right rightContext) :
    left = right ∧ leftContext = rightContext := by
  obtain ⟨leftBound, leftRan⟩ := leftReached
  obtain ⟨rightBound, rightRan⟩ := rightReached
  have leftAgain := passes_refine (Nat.le_max_left leftBound rightBound) _ _ _ _ _ leftRan
  have rightAgain := passes_refine (Nat.le_max_right leftBound rightBound) _ _ _ _ _ rightRan
  exact Prod.mk.inj (Option.some.inj (leftAgain.symm.trans rightAgain))

/-- The passes from the one for places on only change the text, and resolve the places against
the sections that are stored in the end. -/
theorem Compiles.reachesPlaces {source compiled : Text} {before after : Context}
    (compiles : compiler.Compiles source before compiled after) :
    ∃ text, compiler.ReachesPlaces source before text after ∧
      compiled = compiler.finish
        (replaceEach methodRules (yielding.replace (resolveYield after) text)) := by
  obtain ⟨bound, final, ran, trimmed⟩ := compiles.exists_passes
  have split : Pass.all = Pass.all.take 13 ++
      [.yields, .method, .customDirectives, .comments, .echoes] := rfl
  rw [split, List.foldlM_append] at ran
  obtain ⟨text, middle, reached, ran⟩ := run_bind_eq_some.mp ran
  rw [run_foldlM_cons _ _ (run_yields _ _ text middle)] at ran
  cases ran
  exact ⟨text, ⟨bound, reached⟩, trimmed.symm⟩

/-- No content is stored for the argument of a place. -/
def IsOpen (sections : Sections) (argument : Text) : Prop :=
  Table.get? (Text.unquote argument) sections = none

instance (sections : Sections) (argument : Text) : Decidable (IsOpen sections argument) :=
  inferInstanceAs (Decidable (_ = none))

/-- Resolved places leave the signs of a text decided, if the contents have decided signs. -/
theorem decided_resolved (decided : Decided (fun _ => True) text)
    (contents : ∀ key content, Table.get? key context.sections = some content →
      Decided (IsOpen context.sections) content) :
    Decided (IsOpen context.sections) (yielding.replace (resolveYield context) text) := by
  apply Decided.replace (by decide)
  · intro tail found suffix recognised
    simp only [yielding, keepingWritten, Option.map_eq_some_iff] at recognised
    obtain ⟨use, useFound, rfl⟩ := recognised
    cases stored : Table.get? (Text.unquote use.captured) context.sections with
    | some content =>
        rw [resolveYield, stored]
        exact contents _ content stored
    | none =>
        obtain ⟨behind, rfl⟩ := List.head?_eq_some_iff.mp (head?_of_run? _ useFound)
        have isOpen : IsOpen context.sections use.captured := stored
        obtain ⟨front, written, unsigned, frontDecided⟩ :=
          (decided behind suffix).of_found useFound isOpen
        rw [resolveYield, stored, Option.getD_none, written]
        exact Decided.of_sign unsigned frontDecided
  · intro tail suffix absent
    apply (decided tail suffix).of_absent
    simpa [yielding, keepingWritten] using absent

theorem decided_method (decided : Decided accepts text) :
    Decided accepts (replaceEach methodRules text) := by
  rw [replaceEach_eq_foldl, methodRules, List.foldl_cons, List.foldl_nil, Rule.ofArgument]
  apply Decided.replace (by decide)
  · intro tail found suffix recognised
    obtain ⟨use, useFound, rfl⟩ := map_run?_eq_some.mp recognised
    obtain ⟨behind, rfl⟩ := List.head?_eq_some_iff.mp (head?_of_run? _ useFound)
    have listed : "method".toList ∈ ["yield".toList, "method".toList] :=
      List.mem_cons_of_mem _ List.mem_cons_self
    obtain ⟨front, written, plain⟩ := (decided behind suffix).unsigned listed useFound
    obtain ⟨spelled, -, -, called, -⟩ := withArgument_run?_eq_some.mp useFound
    have inFront : ∀ character ∈ use.captured, character ∈ front := by
      intro character member
      rw [written, Text.called, List.cons.injEq] at called
      simp [called.2, member]
    have unsigned : '@' ∉ Text.unquote use.captured := fun member =>
      plain _ (inFront _ ((Text.unquote_isInfix _).subset member)) (by decide)
    apply Decided.of_unsigned
    have parts : ∀ method, methodField method =
        "<input type=\"hidden\" name=\"_method\" value=".toList ++
        Text.inQuotes method ++ " />".toList := fun _ => rfl
    have opening : '@' ∉ "<input type=\"hidden\" name=\"_method\" value=".toList := by decide
    have closing : '@' ∉ " />".toList := by decide
    rw [parts, Text.inQuotes, id]
    simp only [List.mem_append, List.mem_cons, not_or]
    exact ⟨⟨opening, ⟨by decide, unsigned⟩, by decide⟩, closing⟩
  · exact fun tail suffix _ => decided tail suffix

theorem decided_dropComments (decided : Decided accepts text) :
    Decided accepts (dropComments text) := by
  apply Decided.replace (by decide)
  · exact fun _ _ _ _ => Decided.of_unsigned List.not_mem_nil
  · exact fun tail suffix _ => decided tail suffix

/-- What stands between the marks of an echo is closed by a blank or by a parenthesis. -/
private theorem decided_echo {last : Char} {others closers front back : Text} {closer : Char}
    (braced : '\x7d' ∈ last :: closers) (unclosed : ')' ∉ last :: closers)
    (opened : '@' ∉ front) (listed : closer ∈ [' ', ')']) (unsigned : '@' ∉ back)
    (decided : Decided accepts text) :
    Decided accepts (((between (literal '\x7b' others) (literal last closers)).map fun echo =>
      front ++ (Text.trim echo ++ closer :: back)).replace id text) := by
  apply Decided.replace (by decide)
  · intro tail found suffix recognised
    obtain ⟨use, useFound, rfl⟩ := map_run?_eq_some.mp recognised
    obtain ⟨before, whole⟩ := suffix
    have tailEq := (between (literal '\x7b' others) (literal last closers)).whole useFound
    rw [written_of_between useFound] at tailEq
    have inside : Decided accepts (use.captured ++ (last :: closers ++ use.rest)) :=
      decided.of_suffix ⟨before ++ '\x7b' :: others, by rw [← whole, tailEq]; simp⟩
    exact (Decided.of_unsigned opened).append (inside.trim_closed braced unclosed listed unsigned)
  · exact fun tail suffix _ => decided tail suffix

theorem decided_interpolate (decided : Decided accepts text) :
    Decided accepts (Echo.interpolate .output text) := by
  have unescaped : ∀ expression, Echo.Mode.output.code expression =
      "<%- ".toList ++ (expression ++ ' ' :: "%>".toList) :=
    fun expression => List.append_assoc _ _ _
  have escaped : ∀ expression, Echo.Mode.output.code (Code.escapeCall expression) =
      ("<%- ".toList ++ "escapeHtml(".toList) ++ (expression ++ ')' :: ' ' :: "%>".toList) := by
    intro expression
    have call : Code.escapeCall expression = "escapeHtml(".toList ++ (expression ++ [')']) :=
      List.append_assoc _ _ _
    simp only [unescaped, call, List.append_assoc, List.singleton_append]
  rw [Echo.interpolate, replaceEach_eq_foldl, Echo.patterns, List.foldl_cons, List.foldl_cons,
    List.foldl_nil]
  simp only [escaped]
  simp only [unescaped]
  apply decided_echo (by decide) (by decide) (by decide) (by decide) (by decide)
  exact decided_echo (by decide) (by decide) (by decide) (by decide) (by decide) decided

/-- In a trimmed text with decided signs all places have accepted arguments. -/
theorem accepted_of_trim (decided : Decided accepts text) {tail : Text}
    (suffix : tail <:+ Text.trim text) {found : Found (Text × Text)}
    (recognised : yielding.run? tail = some found) : accepts found.captured.2 := by
  simp only [yielding, keepingWritten, Option.map_eq_some_iff] at recognised
  obtain ⟨use, useFound, rfl⟩ := recognised
  obtain ⟨behind, rfl⟩ := List.head?_eq_some_iff.mp (head?_of_run? _ useFound)
  obtain ⟨before, after, whole⟩ := Text.trim_isInfix text
  obtain ⟨front, trimmed⟩ := suffix
  have inText : '@' :: (behind ++ after) <:+ text :=
    ⟨before ++ front, by rw [← whole, ← trimmed]; simp⟩
  have again := withArgument_run?_local useFound (use.rest ++ after)
  rw [← List.append_assoc, ← (withArgument "yield").whole useFound, List.cons_append] at again
  have accepted := (decided _ inText).accepted again
  exact accepted

/-- The text in front of the pass for places determines the compiled text: each place in it is
filled if its key is stored in the end, and stays as it is written if not.  If all signs of
this text and of the stored contents are decided, and the places in the contents are open, then
all places of the compiled text are open. -/
theorem places_left_are_open (unregistered : compiler.registry.directives = [])
    {source compiled text : Text} {before after middle : Context}
    (compiles : compiler.Compiles source before compiled after)
    (reached : compiler.ReachesPlaces source before text middle) :
    middle = after ∧
      compiled = compiler.finish
        (replaceEach methodRules (yielding.replace (resolveYield after) text)) ∧
      (Decided (fun _ => True) text →
        (∀ key content, Table.get? key after.sections = some content →
          Decided (IsOpen after.sections) content) →
        ∀ tail found, tail <:+ compiled → yielding.run? tail = some found →
          IsOpen after.sections found.captured.2) := by
  obtain ⟨other, otherReached, compiledEq⟩ := compiles.reachesPlaces
  obtain ⟨rfl, rfl⟩ := reached.unique otherReached
  refine ⟨rfl, compiledEq, fun decided contents tail found suffix recognised => ?_⟩
  have resolved := decided_resolved decided contents
  have final := decided_interpolate (decided_dropComments (decided_method resolved))
  rw [compiledEq, finish, Registry.apply_of_unregistered unregistered] at suffix
  exact accepted_of_trim final suffix recognised

/-- A sign that begins no directive, a place with a content, an echo, and a place without
one; the content has an open place itself. -/
theorem places_left_are_open_around_content :
    let compiler : Compiler := { registry := {}, loader := .ofTable [] }
    let source : Text :=
      "@section('k')<b>@yield('m')</b>@endsection x@y.z @yield('k') \x7b\x7b e \x7d\x7d@yield('n')"
    let text : Text := " x@y.z @yield('k') \x7b\x7b e \x7d\x7d@yield('n')"
    let compiled : Text := "x@y.z <b>@yield('m')</b> <%- escapeHtml(e) %>@yield('n')"
    let content : Text := "<b>@yield('m')</b>"
    let after : Context := { sections := [("k", content)] }
    (compiler.registry.directives = [] ∧ compiler.Compiles source {} compiled after ∧
      compiler.ReachesPlaces source {} text after ∧ Decided (fun _ => True) text ∧
      ∀ key content, Table.get? key after.sections = some content →
        Decided (IsOpen after.sections) content) ∧
      ∀ tail found, tail <:+ compiled → yielding.run? tail = some found →
        IsOpen after.sections found.captured.2 := by
  intro compiler source text compiled content after
  have compiles : compiler.Compiles source {} compiled after := ⟨2, by decide +kernel⟩
  have reached : compiler.ReachesPlaces source {} text after := ⟨1, by decide +kernel⟩
  have place : ∀ {accepts : Text → Prop} (argument rest : Text),
      accepts argument → ')' ∉ argument → '\x7d' ∉ argument →
      (∀ character ∈ "yield".toList ++ '(' :: (argument ++ [')']), character ∉ ['@', '\x7b']) →
      '@' ∉ ("yield".toList ++ '(' :: (argument ++ [')'])) ++ rest →
        Decided accepts ('@' :: (("yield".toList ++ '(' :: (argument ++ [')'])) ++ rest)) :=
    fun argument rest accepted closed unbraced plain unsigned =>
      .of_sign unsigned ((SignDecided.of_call rfl closed unbraced accepted plain).append rest)
  have decided : Decided (fun _ => True) text := by
    have word : Decided (fun _ => True) ('@' :: ("y.".toList ++ "z ".toList)) := by
      apply Decided.of_sign (by decide)
      exact ⟨_, _, rfl, Text.forall_notMem rfl, .of_apart _ (by decide), .of_apart _ (by decide)⟩
    have parts : text = " x".toList ++ (('@' :: ("y.".toList ++ "z ".toList)) ++
        (('@' :: (("yield".toList ++ '(' :: ("'k'".toList ++ [')'])) ++
          " \x7b\x7b e \x7d\x7d".toList)) ++
          ('@' :: (("yield".toList ++ '(' :: ("'n'".toList ++ [')'])) ++ [])))) := by
      decide
    rw [parts]
    apply (Decided.of_unsigned (by decide)).append (word.append (Decided.append _ _))
    · exact place _ _ trivial (by decide) (by decide) (Text.forall_notMem rfl) (by decide)
    · exact place _ _ trivial (by decide) (by decide) (Text.forall_notMem rfl) (by decide)
  have contents : ∀ key content, Table.get? key after.sections = some content →
      Decided (IsOpen after.sections) content := by
    intro key stored got
    have listed := Table.mem_of_get? got
    obtain ⟨-, rfl⟩ := Prod.mk.inj (List.mem_singleton.mp listed)
    have parts : content = "<b>".toList ++
        ('@' :: (("yield".toList ++ '(' :: ("'m'".toList ++ [')'])) ++ "</b>".toList)) := by
      decide
    have isOpen : IsOpen after.sections "'m'" := by decide
    rw [parts]
    apply (Decided.of_unsigned (by decide)).append
    exact place _ _ isOpen (by decide) (by decide) (Text.forall_notMem rfl) (by decide)
  have left := (places_left_are_open rfl compiles reached).2.2 decided contents
  exact ⟨⟨rfl, compiles, reached, decided, contents⟩, left⟩

/-- A place in the content of a section stays, though its key is stored. -/
theorem place_in_content_stays :
    let compiler : Compiler := { registry := {}, loader := .ofTable [] }
    let source : Text :=
      "@section('a')@yield('b')@endsection@section('b')x@endsection@yield('a')"
    let context : Context := { sections := [("a", "@yield('b')"), ("b", "x")] }
    compiler.registry.directives = [] ∧ compiler.Compiles source {} "@yield('b')" context ∧
      ¬ ∀ compiled after, compiler.Compiles source {} compiled after →
        ∀ tail found, tail <:+ compiled → yielding.run? tail = some found →
          IsOpen after.sections found.captured.2 := by
  intro compiler source context
  have compiles : compiler.Compiles source {} "@yield('b')" context := ⟨2, by decide +kernel⟩
  refine ⟨rfl, compiles, fun resolved => ?_⟩
  have found : yielding.run? "@yield('b')" = some ⟨"@yield('b')", ("@yield('b')", "'b'"), []⟩ := by
    decide
  have isOpen := resolved _ _ compiles _ _ List.suffix_rfl found
  revert isOpen
  decide

end Compiler

end Scriptlet
