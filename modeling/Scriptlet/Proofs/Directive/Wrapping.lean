import Scriptlet.Proofs.Directive.Entry
import Scriptlet.Proofs.Pattern.Decided

/-!
# Uses whose argument is kept

A text is taken apart in exactly one way into the complete uses of a directive with an argument
and the passages around them, in which no use begins.  The directives of loops, jumps,
conditions, labels and guards replace each use by its trimmed argument between two texts, and
nothing else changes: the passages are kept in order, and each argument appears once.
-/

namespace Scriptlet.Directive

open Pattern

/-- A directive with an argument as it is written in a text. -/
structure Use where
  spelled : Text
  argument : Text
deriving DecidableEq

namespace Use

def written (use : Use) : Text :=
  Text.called use.spelled use.argument

/-- The directive is the one with this name, in any letter case, and its argument ends at the
first closing parenthesis. -/
structure Of (name : Text) (use : Use) : Prop where
  spelling : use.spelled.map Text.fold = name.map Text.fold
  closed : ')' ∉ use.argument

theorem written_ne_nil (use : Use) : use.written ≠ [] :=
  List.cons_ne_nil _ _

end Use

/-- A text begins with a complete use of a directive. -/
def BeginsUse (name text : Text) : Prop :=
  ∃ use after, Use.Of name use ∧ text = use.written ++ after

/-- At no place of the passage, read on into the rest, a use begins. -/
def Unused (name passage rest : Text) : Prop :=
  ∀ tail, tail <:+ passage → tail ≠ [] → ¬ BeginsUse name (tail ++ rest)

/-- The uses of a directive in a text, each with the passage in front of it, and the passage
behind the last one.  No use begins inside a passage. -/
inductive Decomposes (name : Text) : (text : Text) → List (Text × Use) → (last : Text) → Prop where
  | last {passage : Text} (unused : Unused name passage []) : Decomposes name passage [] passage
  | use {passage rest last : Text} {use : Use} {uses : List (Text × Use)}
      (unused : Unused name passage (use.written ++ rest)) (own : Use.Of name use)
      (further : Decomposes name rest uses last) :
      Decomposes name (passage ++ (use.written ++ rest)) ((passage, use) :: uses) last

section Finds

variable {name text : Text}

theorem Use.Of.found {use : Use} (own : Use.Of name use) (rest : Text) :
    (withArgument name).run? (use.written ++ rest) = some ⟨use.written, use.argument, rest⟩ :=
  withArgument_run? own.spelling own.closed rest

theorem exists_use_of_found {found : Found Text}
    (recognised : (withArgument name).run? text = some found) :
    ∃ use, Use.Of name use ∧ found = ⟨use.written, use.argument, found.rest⟩ ∧
      text = use.written ++ found.rest := by
  obtain ⟨spelled, folded, closed, written, whole⟩ := withArgument_run?_eq_some.mp recognised
  refine ⟨⟨spelled, found.captured⟩, ⟨folded, closed⟩, ?_, ?_⟩
  · rw [Use.written, ← written]
  · rw [whole, written]
    rfl

theorem beginsUse_iff : BeginsUse name text ↔ (withArgument name).run? text ≠ none := by
  constructor
  · rintro ⟨use, after, own, rfl⟩
    rw [own.found]
    exact Option.some_ne_none _
  · intro begins
    obtain ⟨found, recognised⟩ := Option.ne_none_iff_exists'.mp begins
    obtain ⟨use, own, -, whole⟩ := exists_use_of_found recognised
    exact ⟨use, found.rest, own, whole⟩

theorem unused_iff_absent {passage rest : Text} :
    Unused name passage rest ↔ (withArgument name).Absent passage rest := by
  simp only [Unused, Absent, beginsUse_iff, ne_eq, not_not]

/-- Two uses that a text begins with are the same. -/
theorem Use.Of.eq_of_append_eq {use other : Use} (own : Use.Of name use)
    (otherOwn : Use.Of name other) {rest otherRest : Text}
    (same : use.written ++ rest = other.written ++ otherRest) :
    use = other ∧ rest = otherRest := by
  have found := own.found rest
  rw [same, otherOwn.found otherRest, Option.some_inj, Found.mk.injEq] at found
  obtain ⟨writtenEq, argumentEq, restEq⟩ := found
  have spelledEq : other.spelled = use.spelled := by
    simpa [Use.written, Text.called, argumentEq] using writtenEq
  obtain ⟨spelled, argument⟩ := use
  obtain ⟨otherSpelled, otherArgument⟩ := other
  cases spelledEq
  cases argumentEq
  exact ⟨rfl, restEq.symm⟩

end Finds

namespace Decomposes

variable {name text last : Text} {uses : List (Text × Use)}

/-- Nothing of a text is lost, and nothing stands in another order. -/
theorem whole (parts : Decomposes name text uses last) :
    text = uses.flatMap (fun part => part.1 ++ part.2.written) ++ last := by
  induction parts with
  | last unused => rfl
  | use unused own further induction =>
      rw [List.flatMap_cons, List.append_assoc, ← induction, List.append_assoc]

/-- Where no use begins at a character, it belongs to the passage that follows. -/
theorem cons {head : Char} (absent : (withArgument name).run? (head :: text) = none)
    (parts : Decomposes name text uses last) :
    ∃ uses last, Decomposes name (head :: text) uses last := by
  cases parts with
  | last unused =>
      rw [unused_iff_absent] at unused
      have longer : (withArgument name).Absent (head :: text) [] :=
        unused.cons (by rwa [List.append_nil])
      exact ⟨[], head :: text, .last (unused_iff_absent.mpr longer)⟩
  | @use passage rest last use uses unused own further =>
      rw [unused_iff_absent] at unused
      have longer : (withArgument name).Absent (head :: passage) (use.written ++ rest) :=
        unused.cons absent
      exact ⟨(head :: passage, use) :: uses, last,
        .use (unused_iff_absent.mpr longer) own further⟩

/-- Every text is taken apart. -/
theorem exists_parts (name text : Text) : ∃ uses last, Decomposes name text uses last := by
  induction text using (withArgument name).search_induction with
  | nil =>
      refine ⟨[], [], .last ?_⟩
      exact unused_iff_absent.mpr Absent.nil
  | found text found recognised induction =>
      obtain ⟨uses, last, parts⟩ := induction
      obtain ⟨use, own, -, whole⟩ := exists_use_of_found recognised
      rw [whole]
      exact ⟨([], use) :: uses, last, .use (unused_iff_absent.mpr Absent.nil) own parts⟩
  | absent head tail unrecognised induction =>
      obtain ⟨uses, last, parts⟩ := induction
      exact parts.cons unrecognised

/-- A passage without a use does not reach into one. -/
theorem not_reaches {passage further rest : Text} {use : Use} (own : Use.Of name use)
    (unused : Unused name (passage ++ further) rest) {after : Text}
    (begins : further ++ rest = use.written ++ after) : further = [] := by
  by_contra nonempty
  exact unused further (List.suffix_append passage further) nonempty ⟨use, after, own, begins⟩

/-- A text is taken apart in one way only. -/
theorem unique (parts : Decomposes name text uses last) {otherUses : List (Text × Use)}
    {otherLast : Text} (other : Decomposes name text otherUses otherLast) :
    otherUses = uses ∧ otherLast = last := by
  induction parts generalizing otherUses with
  | @last passage unused =>
      generalize same : passage = text at other
      cases other with
      | last _ => exact ⟨rfl, rfl⟩
      | @use otherPassage rest _ use _ _ own _ =>
          -- a use that begins nowhere cannot end the first passage
          rw [same] at unused
          have none := not_reaches own unused (List.append_nil _)
          exact absurd (List.append_eq_nil_iff.mp none).1 use.written_ne_nil
  | @use passage rest last use uses unused own further induction =>
      generalize same : passage ++ (use.written ++ rest) = text at other
      cases other with
      | @last otherPassage otherUnused =>
          rw [← same] at otherUnused
          have none := not_reaches own otherUnused (List.append_nil _)
          exact absurd (List.append_eq_nil_iff.mp none).1 use.written_ne_nil
      | @use otherPassage otherRest _ otherUse _ otherUnused otherOwn otherFurther =>
          have samePassage : otherPassage = passage := by
            rcases List.append_eq_append_iff.mp same with ⟨more, longer, begins⟩ |
              ⟨more, longer, begins⟩
            · rw [longer] at otherUnused
              rw [longer, not_reaches own otherUnused begins.symm, List.append_nil]
            · rw [longer] at unused
              rw [longer, not_reaches otherOwn unused begins.symm, List.append_nil]
          subst samePassage
          obtain ⟨rfl, rfl⟩ := own.eq_of_append_eq otherOwn (List.append_cancel_left same)
          obtain ⟨rfl, rfl⟩ := induction otherFurther
          exact ⟨rfl, rfl⟩

/-- Replacing the uses of a directive replaces the uses that a text is taken apart into. -/
theorem replace_eq (parts : Decomposes name text uses last) (replacement : Text → Text) :
    (withArgument name).replace replacement text =
      uses.flatMap (fun part => part.1 ++ replacement part.2.argument) ++ last := by
  induction parts with
  | @last passage unused =>
      have kept := replace_append replacement (unused_iff_absent.mp unused)
      rwa [List.append_nil, replace_nil, List.append_nil] at kept
  | @use passage rest last use uses unused own further induction =>
      rw [replace_append replacement (unused_iff_absent.mp unused),
        (withArgument name).replace_of_found replacement (own.found rest), induction]
      simp only [List.flatMap_cons, List.append_assoc]

end Decomposes

/-- A directive whose uses are replaced by their trimmed argument between two texts. -/
structure Wrap where
  name : Text
  opening : Text
  closing : Text

namespace Wrap

def code (wrap : Wrap) (argument : Text) : Text :=
  wrap.opening ++ Text.trim argument ++ wrap.closing

def entry (wrap : Wrap) : Entry :=
  .argument wrap.name wrap.code

theorem entry_eq (wrap : Wrap) (code : Text → Text)
    (same : ∀ argument, wrap.code argument = code argument) :
    wrap.entry = .argument wrap.name code := by
  rw [entry, funext same]

theorem entry_block (name opening closing : Text) :
    entry ⟨name, Code.opening ++ opening, closing ++ " \x7b %>"⟩ =
      Entry.block name opening closing := by
  apply entry_eq
  intro argument
  simp [code, Code.openBlock, Code.statement, Code.closing]

theorem entry_conditionalJump (name statement : Text) :
    entry ⟨name, "<% if (", ") \x7b " ++ statement ++ " \x7d %>"⟩ =
      .argument name (conditionalJump statement) := by
  apply entry_eq
  intro argument
  simp [code, conditionalJump, Code.statement, Code.opening, Code.closing]

theorem entry_elseif :
    entry ⟨"elseif", "<% \x7d else if (", ") \x7b %>"⟩ =
      .argument "elseif" fun argument =>
        Code.nextBlock ("else if (" ++ Text.trim argument ++ ")") := by
  apply entry_eq
  intro argument
  simp [code, Code.nextBlock, Code.statement, Code.opening, Code.closing]

theorem entry_case :
    entry ⟨"case", "<% case ", ": %>"⟩ =
      .argument "case" fun argument =>
        Code.statement ("case " ++ Text.trim argument ++ ":") := by
  apply entry_eq
  intro argument
  simp [code, Code.statement, Code.opening, Code.closing]

end Wrap

end Scriptlet.Directive

namespace Scriptlet.Pass

open Directive

/-- The directives of a pass whose uses are replaced by their trimmed argument between two
texts. -/
def wraps : Pass → List Wrap
  | .loops =>
      [⟨"foreach", "<% for (", ") \x7b %>"⟩, ⟨"for", "<% for (", ") \x7b %>"⟩,
       ⟨"while", "<% while (", ") \x7b %>"⟩]
  | .jumps =>
      [⟨"continue", "<% if (", ") \x7b continue; \x7d %>"⟩,
       ⟨"break", "<% if (", ") \x7b break; \x7d %>"⟩]
  | .conditionals =>
      [⟨"if", "<% if (", ") \x7b %>"⟩, ⟨"elseif", "<% \x7d else if (", ") \x7b %>"⟩]
  | .caseLabels => [⟨"case", "<% case ", ": %>"⟩]
  | .existenceGuards => [⟨"empty", "<% if (empty(", ")) \x7b %>"⟩]
  | _ => []

/-- These directives are among the rules of their pass, with these texts. -/
theorem entry_listed {pass : Pass} {wrap : Wrap} (listed : wrap ∈ pass.wraps) :
    wrap.entry ∈ pass.entries?.getD [] := by
  cases pass with
  | loops =>
      obtain rfl | rfl | rfl := by simpa only [wraps, List.mem_cons, List.not_mem_nil, or_false]
        using listed
      · exact Wrap.entry_block "foreach" "for (" ")" ▸ List.mem_of_getElem? (i := 0) rfl
      · exact Wrap.entry_block "for" "for (" ")" ▸ List.mem_of_getElem? (i := 2) rfl
      · exact Wrap.entry_block "while" "while (" ")" ▸ List.mem_of_getElem? (i := 4) rfl
  | jumps =>
      obtain rfl | rfl := by simpa only [wraps, List.mem_cons, List.not_mem_nil, or_false]
        using listed
      · exact Wrap.entry_conditionalJump "continue" "continue;" ▸
          List.mem_of_getElem? (i := 0) rfl
      · exact Wrap.entry_conditionalJump "break" "break;" ▸ List.mem_of_getElem? (i := 1) rfl
  | conditionals =>
      obtain rfl | rfl := by simpa only [wraps, List.mem_cons, List.not_mem_nil, or_false]
        using listed
      · exact Wrap.entry_block "if" "if (" ")" ▸ List.mem_of_getElem? (i := 0) rfl
      · exact Wrap.entry_elseif ▸ List.mem_of_getElem? (i := 1) rfl
  | caseLabels =>
      obtain rfl := List.mem_singleton.mp listed
      exact Wrap.entry_case ▸ List.mem_of_getElem? (i := 0) rfl
  | existenceGuards =>
      obtain rfl := List.mem_singleton.mp listed
      exact Wrap.entry_block "empty" "if (empty(" "))" ▸ List.mem_of_getElem? (i := 2) rfl
  | _ => cases listed

/-- A pass with such directives replaces their uses, among those of its other rules. -/
theorem exists_rules {pass : Pass} {wrap : Wrap} (listed : wrap ∈ pass.wraps) :
    ∃ rules, wrap.entry.rule ∈ rules ∧ ∀ (compiler : Compiler) compile text,
      compiler.apply compile pass text = pure (Pattern.replaceEach rules text) := by
  have member := entry_listed listed
  cases follows : pass.entries? with
  | none =>
      rw [follows] at member
      cases member
  | some entries =>
      rw [follows] at member
      exact ⟨entries.map Entry.rule, List.mem_map_of_mem member,
        fun compiler compile => compiler.apply_of_entries compile follows⟩

end Scriptlet.Pass

namespace Scriptlet.Directive

open Pattern

/-- A text is taken apart in exactly one way into the complete uses of a directive and passages
in which no use begins.  Wrapping the argument of the directive keeps the passages, and puts the
trimmed argument between the two texts where each use was.  The passes wrap the arguments of
their directives so. -/
theorem complete_uses_wrapped (name text : Text) :
    (∃ uses last, Decomposes name text uses last ∧
      (∀ otherUses otherLast, Decomposes name text otherUses otherLast →
        otherUses = uses ∧ otherLast = last) ∧
      text = uses.flatMap (fun part => part.1 ++ part.2.written) ++ last ∧
      ∀ opening closing, (Wrap.entry ⟨name, opening, closing⟩).rule.replace id text =
        uses.flatMap (fun part => part.1 ++ (opening ++ Text.trim part.2.argument ++ closing)) ++
          last) ∧
    ∀ pass, ∀ wrap ∈ Pass.wraps pass, ∃ rules, wrap.entry.rule ∈ rules ∧
      ∀ (compiler : Compiler) compile passed,
        compiler.apply compile pass passed = pure (replaceEach rules passed) := by
  obtain ⟨uses, last, parts⟩ := Decomposes.exists_parts name text
  refine ⟨⟨uses, last, parts, fun _ _ => parts.unique, parts.whole, ?_⟩,
    fun _ _ => Pass.exists_rules⟩
  intro opening closing
  have mapped := replace_map (withArgument name) (Wrap.code ⟨name, opening, closing⟩) id text
  exact mapped.trans (parts.replace_eq _)

/-- The name may be spelled with a Kelvin sign, a use inside an argument belongs to the argument,
and a use without an end is none. -/
theorem complete_uses_wrapped_of_kelvin_sign :
    let text : Text := "a @BREA\u212a( x @break(y ) b @break(c"
    let use : Use := ⟨"BREA\u212a", " x @break(y "⟩
    let wrap : Wrap := ⟨"break", "<% if (", ") \x7b break; \x7d %>"⟩
    Decomposes "break" text [("a ".toList, use)] " b @break(c" ∧
      (wrap ∈ Pass.jumps.wraps ∧ ∃ rules, wrap.entry.rule ∈ rules ∧
        ∀ (compiler : Compiler) compile passed,
          compiler.apply compile .jumps passed = pure (replaceEach rules passed)) ∧
      wrap.entry.rule.replace id text =
        "a <% if (x @break(y) \x7b break; \x7d %> b @break(c" := by
  intro text use wrap
  have own : Use.Of "break" use := ⟨by decide, by decide⟩
  have first : Unused "break" "a " (use.written ++ " b @break(c".toList) :=
    unused_iff_absent.mpr (Absent.of_notMem (by decide))
  have behind : Unused "break" " b @break(c" [] :=
    unused_iff_absent.mpr (absent_of_firstUse?_none (by decide))
  have parts : Decomposes "break" text [("a ".toList, use)] " b @break(c" :=
    .use first own (.last behind)
  obtain ⟨⟨uses, last, -, unique, -, replaced⟩, listed⟩ := complete_uses_wrapped "break" text
  obtain ⟨rfl, rfl⟩ := unique _ _ parts
  have member : wrap ∈ Pass.jumps.wraps := List.mem_of_getElem? (i := 1) rfl
  exact ⟨parts, ⟨member, listed .jumps wrap member⟩, (replaced _ _).trans (by decide)⟩

end Scriptlet.Directive
