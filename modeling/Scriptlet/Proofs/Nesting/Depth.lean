import Scriptlet.Proofs.Compilation.Bound
import Scriptlet.Proofs.Nesting.Forms
import Scriptlet.Proofs.Nesting.Switches

/-!
# How deep blocks may nest

Blocks come out as they nest exactly if none of them stands in another one.  Of deeper blocks
both an opening and a closing directive are left over, since a pair ends with the first closing
directive behind the opening one.
-/

namespace Scriptlet.Nesting

open Pattern Template

section Leftovers

variable {dialect : Dialect} {nest : Nest dialect}

/-- Nothing of a directive is left in the code of a tree. -/
theorem Nest.code_unsigned (nest : Nest dialect) : '@' ∉ nest.code := by
  induction nest with
  | done => exact List.not_mem_nil
  | plain character next induction =>
      have unsigned := Token.plain_unsigned character
      rw [List.mem_singleton] at unsigned
      simp [code, unsigned, induction]
  | label directive next induction =>
      have unsigned := (dialect.label_inert _ directive.listed directive.argument).1
      simp [code, Label.code, unsigned, induction]
  | block opening argument body closing next bodyInduction induction =>
      have trimmed : '@' ∉ Text.trim body.code := fun member =>
        bodyInduction ((Text.trim_isInfix body.code).subset member)
      simp [code, (dialect.head_inert argument).1, trimmed, dialect.foot_inert.1, induction]

private theorem uses_ne_nil {name written piece text : Text}
    (spelled : written.map Text.fold = name.map Text.fold) (begins : '@' :: written <+: piece)
    (inside : piece <:+: text) : (bare name).uses text ≠ [] := by
  intro unused
  obtain ⟨front, back, whole⟩ := begins.isInfix.trans inside
  have suffix : '@' :: written ++ back <:+ text := ⟨front, by simp [← whole]⟩
  have nowhere := absent_of_firstUse?_none (uses_eq_nil_iff.mp unused)
  have absent := nowhere _ suffix (List.cons_ne_nil _ _)
  rw [List.append_nil] at absent
  cases absent.symm.trans (bare_run?_of_spelled spelled back)

/-- A text in which all segments are kept has a use of both directives around blocks if and only
if one block stands in another one. -/
private theorem uses_iff {output : Text}
    (inside : Text.trim ((segments nest.tokens).flatMap Segment.code) <:+: output)
    (unsigned : nest.depth ≤ 1 → '@' ∉ output) :
    ((bare dialect.opening).uses output = [] ↔ nest.depth ≤ 1) ∧
      ((bare dialect.closing).uses output = [] ↔ nest.depth ≤ 1) := by
  have unused : ∀ name : Text, nest.depth ≤ 1 → (bare name).uses output = [] := fun name flat =>
    uses_of_absent_text (Absent.of_notMem (unsigned flat))
  refine ⟨⟨fun none => ?_, unused _⟩, ⟨fun none => ?_, unused _⟩⟩
  · by_contra deep
    obtain ⟨⟨token, member, opened⟩, -⟩ := exists_unpaired deep
    cases token with
    | opened spelling argument =>
        have left := (isInfix_code member fun _ same => nomatch same).trans inside
        exact uses_ne_nil spelling.spelled ⟨_, rfl⟩ left none
    | _ => cases opened
  · by_contra deep
    obtain ⟨-, token, member, closed⟩ := exists_unpaired deep
    cases token with
    | closed spelling =>
        have left := (isInfix_code member fun _ same => nomatch same).trans inside
        exact uses_ne_nil spelling.spelled List.prefix_rfl left none
    | _ => cases closed

/-- What a template of nested blocks comes out as, if it comes out as the code of its tree where
no block stands in another one. -/
private theorem lowered_iff {output target : Text}
    (inside : Text.trim ((segments nest.tokens).flatMap Segment.code) <:+: output)
    (flat : nest.depth ≤ 1 → output = target) (unsigned : '@' ∉ target) :
    (output = target ↔ nest.depth ≤ 1) ∧
      ((bare dialect.opening).uses output = [] ↔ nest.depth ≤ 1) ∧
      ((bare dialect.closing).uses output = [] ↔ nest.depth ≤ 1) := by
  have uses := uses_iff inside fun shallow => flat shallow ▸ unsigned
  refine ⟨⟨fun same => uses.1.mp ?_, flat⟩, uses⟩
  exact same ▸ uses_of_absent_text (Absent.of_notMem unsigned)

end Leftovers

/-- Switches are compiled, and forms are lowered, to code that nests as they do exactly if none
of them stands in the body of another one, and exactly then no directive that opens or closes
one is left over. -/
theorem nested_blocks_lowered_iff {compiler : Compiler} (spared : SparesSwitches compiler.registry)
    (view : Nest switches) (form : Nest forms) (context : Context) :
    (∃ output, compiler.Compiles view.print context output context ∧
      (output = Text.trim view.code ↔ view.depth ≤ 1) ∧
      ((bare "switch").uses output = [] ↔ view.depth ≤ 1) ∧
      ((bare "endswitch").uses output = [] ↔ view.depth ≤ 1)) ∧
    (Directive.lowerForms form.print = form.code ↔ form.depth ≤ 1) ∧
    ((bare "form").uses (Directive.lowerForms form.print) = [] ↔ form.depth ≤ 1) ∧
    ((bare "endform").uses (Directive.lowerForms form.print) = [] ↔ form.depth ≤ 1) := by
  have compiles : compiler.Compiles view.print context
      (Text.trim ((segments view.tokens).flatMap Segment.code)) context :=
    ⟨2, by rw [Nest.print, compile_tokens spared]; rfl⟩
  have trimmedUnsigned : '@' ∉ Text.trim view.code := fun member =>
    view.code_unsigned ((Text.trim_isInfix view.code).subset member)
  have switchesLowered := lowered_iff List.infix_rfl
    (fun flat => congrArg Text.trim (segments_code flat)) trimmedUnsigned
  have formsLowered := lowered_iff (Text.trim_isInfix ((segments form.tokens).flatMap Segment.code))
    segments_code form.code_unsigned
  rw [← lowerForms_tokens] at formsLowered
  exact ⟨⟨_, compiles, switchesLowered⟩, formsLowered⟩

/-- A directive written as its name is. -/
private def asNamed {name : Text} : Spelling name :=
  ⟨name, rfl⟩

/-- `@case(label)` in front of what is done in this case. -/
private def caseOf (label : Argument) (next : Nest switches) : Nest switches :=
  .label ⟨(Mark.called .caseLabel).entry, List.mem_cons_self, asNamed, label⟩ next

/-- `@switch(a)@case(1)@switch(b)@case(2)x@endswitch@endswitch`. -/
def switchInCase : Nest switches :=
  .block asNamed ⟨['a'], Text.forall_notMem rfl⟩
    (caseOf ⟨['1'], Text.forall_notMem rfl⟩
      (.block asNamed ⟨['b'], Text.forall_notMem rfl⟩
        (caseOf ⟨['2'], Text.forall_notMem rfl⟩ (.plain ⟨'x', by decide⟩ .done))
        asNamed .done))
    asNamed .done

/-- `@form(a)@form(b)x@endform@endform`. -/
def formInForm : Nest forms :=
  .block asNamed ⟨['a'], Text.forall_notMem rfl⟩
    (.block asNamed ⟨['b'], Text.forall_notMem rfl⟩ (.plain ⟨'x', by decide⟩ .done) asNamed .done)
    asNamed .done

theorem nested_blocks_lowered_iff_of_two_levels :
    let compiler : Compiler := { registry := ⟨[⟨"alert", fun _ => []⟩]⟩, loader := .ofTable [] }
    SparesSwitches compiler.registry ∧
      (∃ output, compiler.Compiles switchInCase.print {} output {} ∧
        output ≠ Text.trim switchInCase.code ∧ (bare "switch").uses output ≠ [] ∧
        (bare "endswitch").uses output ≠ []) ∧
      Directive.lowerForms formInForm.print ≠ formInForm.code ∧
      (bare "form").uses (Directive.lowerForms formInForm.print) ≠ [] ∧
      (bare "endform").uses (Directive.lowerForms formInForm.print) ≠ [] := by
  intro compiler
  have spared : SparesSwitches compiler.registry := by decide
  have deepSwitch : ¬ switchInCase.depth ≤ 1 := by decide
  have deepForm : ¬ formInForm.depth ≤ 1 := by decide
  obtain ⟨⟨output, compiles, same, opened, closed⟩, formSame, formOpened, formClosed⟩ :=
    nested_blocks_lowered_iff spared switchInCase formInForm {}
  refine ⟨spared, ⟨output, compiles, mt same.mp deepSwitch, mt opened.mp deepSwitch,
    mt closed.mp deepSwitch⟩, mt formSame.mp deepForm, mt formOpened.mp deepForm,
    mt formClosed.mp deepForm⟩

/-- The inner switch ends the outer one, and stays as it is written. -/
theorem inner_endswitch_ends_outer :
    let compiler : Compiler := { registry := {}, loader := .ofTable [] }
    compiler.Compiles "@switch(a)@case(1)@switch(b)@case(2)x@endswitch@endswitch" {}
        (("<% switch (a) \x7b %><% case 1: %>@switch(b)" : Text) ++
          "<% case 2: %>x<% \x7d %>@endswitch") {} ∧
      ¬ ∀ (view : Nest switches) (form : Nest forms),
        (∃ output, compiler.Compiles view.print {} output {} ∧ output = Text.trim view.code ∧
          (bare "switch").uses output = [] ∧ (bare "endswitch").uses output = []) ∧
        (bare "form").uses (Directive.lowerForms form.print) = [] ∧
        (bare "endform").uses (Directive.lowerForms form.print) = [] := by
  intro compiler
  have ran : (compiler.compile 2 switchInCase.print).run {} =
      some (("<% switch (a) \x7b %><% case 1: %>@switch(b)".toList ++
        "<% case 2: %>x<% \x7d %>@endswitch".toList), {}) := by
    decide +kernel
  have printed : switchInCase.print =
      "@switch(a)@case(1)@switch(b)@case(2)x@endswitch@endswitch" := by
    decide
  refine ⟨⟨2, by rw [← printed]; exact ran⟩, fun nested => ?_⟩
  obtain ⟨output, ⟨bound, again⟩, same, -⟩ := (nested switchInCase formInForm).1
  have compiled := congrArg Prod.fst (Compiler.compile_unique ran again)
  rw [same] at compiled
  revert compiled
  decide +kernel

end Scriptlet.Nesting
