import Mathlib.Data.List.Basic
import Scriptlet.Proofs.Compilation.Idle
import Scriptlet.Proofs.Compilation.Nested
import Scriptlet.Proofs.Composition.Uses
import Scriptlet.Proofs.Pattern.Items

/-!
# Layouts filled by their children

A layout is compiled before its child has stored a section, so its places come out as
they are written.  The child then stores its sections, the inline ones first, and its
own pass over the places fills those that the layout has left.
-/

namespace Scriptlet.Composition

open Pattern

section Places

variable {compiler : Compiler} {compile : Text → Compilation Text}

private def PlaceOrUnsigned (written : Text) : Prop :=
  '@' ∉ written ∨ ∃ argument, '@' ∉ argument ∧ written = Text.called "yield" argument

private theorem words_flatMap {items : List Item} {written : Item → Text}
    (each : ∀ item ∈ items, PlaceOrUnsigned (written item)) :
    ∀ word ∈ Text.words (items.flatMap written), word = "yield".toList := by
  induction items with
  | nil =>
      intro word member
      cases member
  | cons item items induction =>
      have further := induction fun other member => each other (List.mem_cons_of_mem item member)
      intro word member
      rw [List.flatMap_cons] at member
      rcases each item List.mem_cons_self with unsigned | ⟨argument, unsigned, writtenEq⟩
      · rw [Text.words_append_of_unsigned unsigned] at member
        exact further word member
      · have letters : ∀ character ∈ "yield".toList, Text.isLetter character :=
          List.all_eq_true.mp (by decide)
        have rest : '@' ∉ '(' :: (argument ++ [')']) := by
          simp [unsigned]
        have parts : written item ++ items.flatMap written =
            '@' :: ("yield".toList ++
              ('(' :: (argument ++ [')']) ++ items.flatMap written)) := by
          simp [writtenEq, Text.called]
        rw [parts, Text.words_directive letters rfl, Text.words_append_of_unsigned rest] at member
        rcases List.mem_cons.mp member with rfl | later
        · decide
        · exact further word later

private theorem names_apart : ∀ pass : Pass, pass ≠ .yields →
    ∀ name ∈ pass.names, ¬ name.map Text.fold <+: "yield".toList := by
  intro pass
  cases pass <;> decide

/-- Where only places have signs, all passes are idle but the one for places. -/
private theorem idle_of_places (unregistered : compiler.registry.directives = []) {text : Text}
    (places : ∀ word ∈ Text.words text, word = "yield".toList) (unbraced : '\x7b' ∉ text)
    {pass : Pass} (other : pass ≠ .yields) :
    compiler.apply compile pass text = pure text := by
  have unused : ∀ name ∈ pass.names, ∀ word ∈ Text.words text,
      ¬ name.map Text.fold <+: word := by
    intro name listed word member
    rw [places word member]
    exact names_apart pass other name listed
  by_cases builtIn : pass ∉ [Pass.customDirectives, .comments, .echoes]
  · exact compiler.apply_of_words compile builtIn unused
  · simp only [List.mem_cons, List.not_mem_nil, or_false, not_not] at builtIn
    rcases builtIn with rfl | rfl | rfl
    · rw [Compiler.apply, Registry.apply_of_unregistered unregistered]
    · exact compiler.apply_comments_of_unbraced compile unbraced
    · exact compiler.apply_echoes_of_unbraced compile unbraced

/-- The places of items without sections, and the text that fills them. -/
private theorem placeOrUnsigned_withoutSections (item : Item) :
    PlaceOrUnsigned item.withoutSections := by
  cases item with
  | plain character => exact .inl (notMem_plainText (by decide) [character])
  | place key => exact .inr ⟨quoted key.text, quoted_unsigned key, rfl⟩
  | inlineSection key value => exact .inl List.not_mem_nil
  | blockSection key body => exact .inl List.not_mem_nil

private theorem withoutSections_unbraced (items : List Item) :
    '\x7b' ∉ items.flatMap Item.withoutSections := by
  intro member
  obtain ⟨item, -, braced⟩ := List.mem_flatMap.mp member
  cases item with
  | plain character => exact notMem_plainText (by decide) [character] braced
  | place key =>
      have unbraced : '\x7b' ∉ quoted key.text :=
        notMem_quoted (by decide) fun inKey => key.plain _ inKey (by decide)
      simp [Item.withoutSections, Item.print, Text.called, unbraced] at braced
  | inlineSection key value => cases braced
  | blockSection key body => cases braced

theorem compile_plainText (compiler : Compiler) (bound : Nat) (body : List Plain) :
    compiler.compile (bound + 1) (plainText body) = pure (Text.trim (plainText body)) := by
  have unbraced : '\x7b' ∉ plainText body := notMem_plainText (by decide) body
  rw [compiler.compile_of_unsigned (notMem_plainText (by decide) body),
    Directive.dropComments, replace_of_absent_text _ (Absent.of_notMem unbraced),
    Echo.interpolate, replaceEach_of_absent_text fun _ _ => Absent.of_notMem unbraced]

/-- A layout compiles to its trimmed text while no section is stored. -/
theorem compile_layout (unregistered : compiler.registry.directives = []) {layout : List Item}
    (noSections : ∀ item ∈ layout, item.isSection = false) {context : Context}
    (empty : context.sections = []) (bound : Nat) :
    (compiler.compile (bound + 1) (print layout)).run context =
      some (print (trimItems Item.isBlank layout), context) := by
  have written : print layout = layout.flatMap Item.withoutSections := by
    apply List.flatMap_congr
    intro item member
    have kept := noSections item member
    cases item with
    | plain character => rfl
    | place key => rfl
    | inlineSection key value => cases kept
    | blockSection key body => cases kept
  have idle : ∀ pass : Pass, pass ≠ .yields →
      compiler.apply (compiler.compile bound) pass (print layout) = pure (print layout) := by
    intro pass other
    rw [written]
    exact idle_of_places unregistered
      (words_flatMap fun item _ => placeOrUnsigned_withoutSections item)
      (withoutSections_unbraced layout) other
  have places : (compiler.apply (compiler.compile bound) .yields (print layout)).run context =
      some (print layout, context) := by
    have unresolved : Compiler.resolveYield context = Prod.fst := by
      funext use
      rw [Compiler.resolveYield, empty]
      rfl
    have kept : Compiler.yielding.replace Prod.fst (print layout) = print layout :=
      (withArgument "yield").replace_written (print layout)
    rw [Compiler.run_yields, unresolved, kept]
  have split : Pass.all = Pass.all.take 13 ++ .yields :: Pass.all.drop 14 := rfl
  have passes : (Pass.all.foldlM (fun text pass =>
      compiler.apply (compiler.compile bound) pass text) (print layout)).run context =
      some (print layout, context) := by
    rw [split, List.foldlM_append, Compiler.foldlM_of_idle, pure_bind,
      Compiler.run_foldlM_cons _ _ places, Compiler.foldlM_of_idle]
    · rfl
    · intro pass listed
      exact idle pass (by revert pass; decide)
    · intro pass listed
      exact idle pass (by revert pass; decide)
  rw [Compiler.compile, StateT.run_bind, passes, ← trim_print]
  rfl

private theorem content_plain {items : List Item} {key content : Text}
    (defined : (key, content) ∈ definitions items) {character : Char}
    (special : character ∈ ['@', '\x7b']) : character ∉ content := by
  obtain ⟨item, -, definition⟩ := List.mem_filterMap.mp defined
  cases item with
  | plain plain => cases definition
  | place key => cases definition
  | inlineSection key value =>
      cases definition
      intro member
      apply value.plain character member
      simp only [List.mem_cons, List.not_mem_nil, or_false] at special ⊢
      rcases special with rfl | rfl <;> simp
  | blockSection key body =>
      cases definition
      intro member
      have inBody := (Text.trim_isInfix (plainText body)).subset member
      apply notMem_plainText _ body inBody
      simp only [List.mem_cons, List.not_mem_nil, or_false] at special ⊢
      rcases special with rfl | rfl <;> simp

private theorem filled_cases {sections : Sections}
    (contents : ∀ key content, Table.get? key sections = some content →
      ∀ character ∈ ['@', '\x7b'], character ∉ content) (item : Item) :
    PlaceOrUnsigned (item.filled sections) ∧ '\x7b' ∉ item.filled sections := by
  have unfilled := placeOrUnsigned_withoutSections item
  have unbraced := withoutSections_unbraced [item]
  rw [List.flatMap_singleton] at unbraced
  cases item with
  | plain character => exact ⟨unfilled, unbraced⟩
  | place key =>
      cases stored : Table.get? key.text sections with
      | none =>
          rw [Item.filled, stored]
          exact ⟨unfilled, unbraced⟩
      | some content =>
          rw [Item.filled, stored]
          have plain := contents key.text content stored
          exact ⟨.inl (plain '@' (by decide)), plain '\x7b' (by decide)⟩
  | inlineSection key value => exact ⟨unfilled, unbraced⟩
  | blockSection key body => exact ⟨unfilled, unbraced⟩

end Places

/-- The items of a child around the trimmed layout that it extends. -/
def Child.around (child : Child) (layout : List Item) : List Item :=
  child.before ++ (trimItems Item.isBlank layout ++ child.after)

def Child.definitions (child : Child) : List (Text × Text) :=
  Composition.definitions (child.before ++ child.after)

theorem Child.definitions_around (child : Child) {layout : List Item}
    (noSections : ∀ item ∈ layout, item.isSection = false) :
    Composition.definitions (child.around layout) = child.definitions := by
  have none : Composition.definitions (trimItems Item.isBlank layout) = [] := by
    apply List.filterMap_eq_nil_iff.mpr
    intro item member
    have kept := noSections item ((trimItems_isInfix _ layout).subset member)
    cases item with
    | plain character => rfl
    | place key => rfl
    | inlineSection key value => cases kept
    | blockSection key body => cases kept
  unfold Composition.definitions at none
  simp only [Child.around, Child.definitions, Composition.definitions, List.filterMap_append,
    none, List.nil_append]

theorem extension_absent_print (items : List Item) (rest : Text) :
    Compiler.extension.Absent (print items) rest := by
  induction items with
  | nil => exact Absent.nil
  | cons item items induction => exact Absent.append (extension_absent item _) induction

/-- The pass for layouts puts the compiled layout into its place. -/
theorem run_extensions {compiler : Compiler} {compile : Text → Compilation Text}
    (child : Child) {compiled : Text} {context : Context}
    (nested : (compiler.compileNested compile child.layout.text).run context =
      some (compiled, context)) :
    (compiler.apply compile .extensions child.print).run context =
      some (print child.before ++ (compiled ++ print child.after), context) := by
  have closed : ')' ∉ child.layout.text ++ ['\x27'] :=
    fun member => child.layout.quoted_closed (List.mem_cons_of_mem _ member)
  have name : Text.unquote (quoted child.layout.text) = child.layout.text :=
    (unquote_quoted _).trans child.layout.unquoted
  rw [← name] at nested
  exact run_replaceM_of_once (extension_absent_print child.before _)
    (withSomeArgument_run? rfl '\x27' closed (print child.after))
    (extension_absent_print child.after []) nested

/-- The passes for sections take them out of a row with distinct keys and store them. -/
theorem run_sections (compiler : Compiler) {items : List Item}
    (distinct : ((definitions items).map Prod.fst).Nodup) (bound : Nat) :
    ∃ sections : Sections, sections.Perm (definitions items) ∧
      ([Pass.inlineSections, .blockSections].foldlM (fun text pass =>
        compiler.apply (compiler.compile (bound + 1)) pass text) (print items)).run {} =
        some (items.flatMap Item.withoutSections, { sections := sections }) := by
  obtain ⟨sections, permuted, stored⟩ := stored_sections distinct
  have inlines : (compiler.apply (compiler.compile (bound + 1)) .inlineSections
      (print items)).run {} = some (items.flatMap Item.withoutInline,
        items.foldl (fun changed item => store? item.inlineDefinition? changed) {}) :=
    replaceM_flatMap (fun item others _ => inlineSection_finds item _) {}
  have compiled : ∀ body context, (compiler.compile (bound + 1) (plainText body)).run context =
      some (Text.trim (plainText body), context) := by
    intro body context
    rw [compile_plainText]
    rfl
  have blocks : ∀ context, (compiler.apply (compiler.compile (bound + 1)) .blockSections
      (items.flatMap Item.withoutInline)).run context =
        some (items.flatMap Item.withoutSections,
          items.foldl (fun changed item => store? item.blockDefinition? changed) context) :=
    replaceM_flatMap fun item others _ => blockSection_finds compiled item _
  refine ⟨sections, permuted, ?_⟩
  rw [Compiler.run_foldlM_cons _ _ inlines, Compiler.run_foldlM_cons _ _ (blocks _), stored]
  rfl

/-- The passes after those for sections fill the places of a row. -/
theorem run_places {compiler : Compiler} (unregistered : compiler.registry.directives = [])
    (items : List Item) {sections : Sections}
    (contents : ∀ key content, Table.get? key sections = some content →
      ∀ character ∈ ['@', '\x7b'], character ∉ content) (compile : Text → Compilation Text) :
    ((Pass.all.drop 3).foldlM (fun text pass => compiler.apply compile pass text)
        (items.flatMap Item.withoutSections)).run { sections := sections } =
      some (items.flatMap (Item.filled sections), { sections := sections }) := by
  have places : (compiler.apply compile .yields (items.flatMap Item.withoutSections)).run
      { sections := sections } =
        some (items.flatMap (Item.filled sections), { sections := sections }) := by
    have filling : Compiler.yielding.replace (Compiler.resolveYield { sections := sections })
        (items.flatMap Item.withoutSections) = items.flatMap (Item.filled sections) :=
      replace_flatMap fun item others _ => yielding_finds { sections := sections } item _
    rw [Compiler.run_yields, filling]
  have idleBefore : ∀ pass ∈ (Pass.all.drop 3).take 10,
      compiler.apply compile pass (items.flatMap Item.withoutSections) =
        pure (items.flatMap Item.withoutSections) := by
    intro pass listed
    refine idle_of_places unregistered ?_ (withoutSections_unbraced items) (by revert pass; decide)
    exact words_flatMap fun item _ => placeOrUnsigned_withoutSections item
  have idleAfter : ∀ pass ∈ Pass.all.drop 14,
      compiler.apply compile pass (items.flatMap (Item.filled sections)) =
        pure (items.flatMap (Item.filled sections)) := by
    intro pass listed
    refine idle_of_places unregistered ?_ ?_ (by revert pass; decide)
    · exact words_flatMap fun item _ => (filled_cases contents item).1
    · intro braced
      obtain ⟨item, -, inItem⟩ := List.mem_flatMap.mp braced
      exact (filled_cases contents item).2 inItem
  have split : Pass.all.drop 3 = (Pass.all.drop 3).take 10 ++ .yields :: Pass.all.drop 14 := rfl
  rw [split, List.foldlM_append, Compiler.foldlM_of_idle _ _ idleBefore, pure_bind,
    Compiler.run_foldlM_cons _ _ places, Compiler.foldlM_of_idle _ _ idleAfter]
  rfl

/-- The passes after the one for layouts store the sections of a row and fill its
places. -/
theorem run_passes_on_items {compiler : Compiler}
    (unregistered : compiler.registry.directives = []) {items : List Item}
    (distinct : ((definitions items).map Prod.fst).Nodup) (bound : Nat) :
    ∃ sections : Sections, sections.Perm (definitions items) ∧
      ((Pass.all.drop 1).foldlM (fun text pass =>
        compiler.apply (compiler.compile (bound + 1)) pass text) (print items)).run {} =
        some (items.flatMap (Item.filled (definitions items)), { sections := sections }) := by
  obtain ⟨sections, permuted, stored⟩ := run_sections compiler distinct bound
  have sectionsDistinct : (sections.map Prod.fst).Nodup :=
    (permuted.map Prod.fst).nodup_iff.mpr distinct
  have sameFilling : Item.filled (definitions items) = Item.filled sections := by
    funext item
    cases item with
    | place key => simp only [Item.filled, Table.get?_of_perm permuted sectionsDistinct key.text]
    | _ => rfl
  have contents : ∀ key content, Table.get? key sections = some content →
      ∀ character ∈ ['@', '\x7b'], character ∉ content := by
    intro key content got character special
    have entry := (Table.get?_eq_some_iff_mem sectionsDistinct).mp got
    exact content_plain (permuted.mem_iff.mp entry) special
  have split : Pass.all.drop 1 = [.inlineSections, .blockSections] ++ Pass.all.drop 3 := rfl
  refine ⟨sections, permuted, ?_⟩
  rw [sameFilling, split, List.foldlM_append, StateT.run_bind, stored,
    ← run_places unregistered items contents (compiler.compile (bound + 1))]
  rfl

/-- A child compiles to its text with its sections taken out and with the trimmed
layout in its place, whose places are filled by these sections. -/
theorem child_fills_layout {compiler : Compiler}
    (unregistered : compiler.registry.directives = []) (levels : 1 ≤ compiler.depthLimit)
    (child : Child) {layout : List Item} (noSections : ∀ item ∈ layout, item.isSection = false)
    (loaded : compiler.loader.load child.layout.text = .ok (print layout))
    (distinct : (child.definitions.map Prod.fst).Nodup) :
    ∃ sections : Sections, sections.Perm child.definitions ∧
      compiler.Compiles child.print {}
        (Text.trim ((child.around layout).flatMap (Item.filled child.definitions)))
        { sections := sections } := by
  rw [← child.definitions_around noSections] at distinct ⊢
  obtain ⟨sections, permuted, ran⟩ := run_passes_on_items unregistered distinct 0
  refine ⟨sections, permuted, 2, ?_⟩
  have below : ({} : Context).depth < compiler.depthLimit := levels
  have nested : (compiler.compileNested (compiler.compile 1) child.layout.text).run {} =
      some (print (trimItems Item.isBlank layout), {}) := by
    rw [Compiler.compileNested_run_of_ok below loaded, compile_layout unregistered noSections rfl]
    rfl
  have extended := run_extensions child nested
  have around : print child.before ++ (print (trimItems Item.isBlank layout) ++
      print child.after) = print (child.around layout) := by
    simp [print, Child.around]
  rw [around] at extended
  have split : Pass.all = .extensions :: Pass.all.drop 1 := rfl
  rw [Compiler.compile, StateT.run_bind, split, Compiler.run_foldlM_cons _ _ extended, ran]
  rfl

/-- A child with an inline section in front of its layout and a block behind it; the
layout has a place more than there are sections. -/
theorem child_fills_layout_of_three_places :
    let first : Key := ⟨"a", by decide, Text.forall_notMem rfl, rfl⟩
    let second : Key := ⟨"b", by decide, Text.forall_notMem rfl, rfl⟩
    let third : Key := ⟨"c", by decide, Text.forall_notMem rfl, rfl⟩
    let value : Value := ⟨"1, 2", Text.forall_notMem rfl, rfl⟩
    let name : ViewName := ⟨"main", Text.forall_notMem rfl, rfl⟩
    let child : Child :=
      ⟨[.plain ⟨'x', by decide⟩, .inlineSection first value], name,
        [.blockSection second [⟨' ', by decide⟩, ⟨'B', by decide⟩], .plain ⟨'y', by decide⟩]⟩
    let layout : List Item :=
      [.plain ⟨' ', by decide⟩, .place second, .place third, .place first]
    let compiler : Compiler :=
      { registry := {}, loader := .ofTable [("main", print layout)], depthLimit := 1 }
    (compiler.registry.directives = [] ∧ 1 ≤ compiler.depthLimit ∧
      (∀ item ∈ layout, item.isSection = false) ∧
      compiler.loader.load child.layout.text = .ok (print layout) ∧
      (child.definitions.map Prod.fst).Nodup) ∧
    ∃ sections : Sections,
      sections.Perm [("a".toList, "1, 2".toList), ("b".toList, "B".toList)] ∧
      compiler.Compiles
        "x@section('a','1, 2')@extends('main')@section('b') B@endsectiony" {}
        "xB@yield('c')1, 2y" { sections := sections } := by
  intro first second third value name child layout compiler
  have noSections : ∀ item ∈ layout, item.isSection = false := by
    intro item member
    simp only [layout, List.mem_cons, List.not_mem_nil, or_false] at member
    rcases member with rfl | rfl | rfl | rfl <;> rfl
  have distinct : (child.definitions.map Prod.fst).Nodup := by decide
  have loaded : compiler.loader.load child.layout.text = .ok (print layout) := rfl
  refine ⟨⟨rfl, Nat.le_refl 1, noSections, loaded, distinct⟩, ?_⟩
  obtain ⟨sections, permuted, compiles⟩ :=
    child_fills_layout rfl (Nat.le_refl 1) child noSections loaded distinct
  refine ⟨sections, ?_, ?_⟩
  · have stored : child.definitions =
        [("a".toList, "1, 2".toList), ("b".toList, "B".toList)] := by
      decide
    rwa [stored] at permuted
  · have written : child.print =
        "x@section('a','1, 2')@extends('main')@section('b') B@endsectiony".toList := by
      decide
    have filled : Text.trim ((child.around layout).flatMap (Item.filled child.definitions)) =
        "xB@yield('c')1, 2y".toList := by
      decide
    rwa [written, filled] at compiles

end Scriptlet.Composition
