import Scriptlet.Proofs.Template.Atoms

/-!
# Switches

The pass for switches replaces every switch of a row by its code, for which the body
is compiled on its own.  What is left is a row without directives about switches,
spaced like the row before.
-/

namespace Scriptlet.Template

open Pattern

theorem Token.of_enclosed {text : Text} (enclosed : Enclosed text) (unsigned : '@' ∉ text) :
    ∃ token, Token.of text unsigned = [token] ∧ token.isBare = false ∧
      token.standsApart = true := by
  obtain ⟨others, rfl⟩ := enclosed.1
  exact ⟨.text '<' others unsigned, rfl, rfl, (by decide : Text.standsApart '<' = true)⟩

/-- A token that is no directive and stands apart fits in everywhere. -/
theorem Spaced.around {front back : List Token} {token : Token} (frontSpaced : Spaced front)
    (backSpaced : Spaced back) (closed : token.isBare = false)
    (apart : token.standsApart = true) : Spaced (front ++ token :: back) := by
  refine List.isChain_append.mpr ⟨frontSpaced, List.isChain_cons.mpr ⟨?_, backSpaced⟩, ?_⟩
  · intro next _
    simp [Token.allows, closed]
  · intro last _ next nextEq
    cases nextEq
    simp [Token.allows, apart]

theorem Segment.lower_spaced {segments : List Segment} (front : List Token)
    (spaced : Spaced (front ++ segments.flatMap Segment.tokens)) :
    Spaced (front ++ segments.flatMap fun segment => segment.lower.tokens) := by
  induction segments generalizing front with
  | nil => exact spaced
  | cons segment segments induction =>
      rw [List.flatMap_cons] at spaced ⊢
      cases segment with
      | atom item =>
          rw [← List.append_assoc] at spaced ⊢
          exact induction _ spaced
      | switch opening argument body closing =>
          obtain ⟨token, tokenEq, closed, apart⟩ := Token.of_enclosed
            (switch_enclosed opening argument body closing)
            (switch_inert opening argument body closing).1
          have lowered :
              (Segment.switch opening argument body closing).lower.tokens = [token] :=
            tokenEq
          have frontSpaced : Spaced front := spaced.left_of_append
          have backSpaced : Spaced (segments.flatMap Segment.tokens) :=
            spaced.right_of_append.right_of_append
          have around := Spaced.around frontSpaced backSpaced closed apart
          have split : front ++ token :: segments.flatMap Segment.tokens =
              (front ++ [token]) ++ segments.flatMap Segment.tokens := by
            simp
          rw [lowered, ← List.append_assoc]
          exact induction _ (split ▸ around)

private theorem switch_names_apart {name : Text}
    (listed : name ∈ (marksOf .switches).map Mark.name) {tokens : List Token}
    (unswitched : Unswitched tokens) :
    ∀ used, .use used ∈ tokens → ¬ name.map Text.fold <+: used.mark.name := by
  have apart : ∀ name ∈ (marksOf .switches).map Mark.name,
      ∀ mark ∈ Pass.all.flatMap marksOf, mark ∉ marksOf .switches →
        ¬ name.map Text.fold <+: mark.name := by
    decide +kernel
  exact fun used member =>
    apart name listed used.mark (mem_marks used.mark) (unswitched used member)

variable {lowered : List Mark}

/-- A switch is replaced by its code if its body is compiled to the trimmed code. -/
private theorem run_compileSwitch {compile : Text → Compilation Text}
    (opening : Spelling Called.switch.name) (argument : Argument) {body : List Atom}
    (closing : Spelling Bare.endswitch.name) {text : Text} {context : Context}
    (compiled : (compile (Text.trim text)).run context =
      some (Text.trim (body.flatMap Atom.code), context)) :
    (Compiler.compileSwitch compile (argument.text, text)).run context =
      some (stagedText lowered (Segment.switch opening argument body closing).lower.tokens,
        context) := by
  have code : stagedText lowered (Segment.switch opening argument body closing).lower.tokens =
      Directive.switchCode argument.text (Text.trim (body.flatMap Atom.code)) := by
    rw [switchCode_eq]
    exact Token.staged_of lowered _ (Segment.switch_inert opening argument body closing).1
  rw [code]
  simp [Compiler.compileSwitch, compiled]

/-- A body of a row is compiled to its trimmed code. -/
def CompilesBodies (compile : Text → Compilation Text) (lowered : List Mark) : Prop :=
  ∀ body : List Atom, Unswitched (body.flatMap Atom.tokens) →
    Spaced (body.flatMap Atom.tokens) → ∀ context,
      (compile (Text.trim (stagedText lowered (body.flatMap Atom.tokens)))).run context =
        some (Text.trim (body.flatMap Atom.code), context)

section Pass

variable (pending : ∀ mark ∈ marksOf .switches, mark ∉ lowered)

include pending

private theorem staged_switch (opening : Spelling Called.switch.name) (argument : Argument)
    (body : List Atom) (closing : Spelling Bare.endswitch.name) :
    stagedText lowered (Segment.switch opening argument body closing).tokens =
      Text.called opening.written argument.text ++
        (stagedText lowered (body.flatMap Atom.tokens) ++ '@' :: closing.written) := by
  have openingPending : (Use.called .switch opening argument).mark ∉ lowered :=
    pending _ List.mem_cons_self
  have closingPending : (Use.bare .endswitch closing).mark ∉ lowered :=
    pending _ (List.mem_cons_of_mem _ List.mem_cons_self)
  rw [Segment.tokens, stagedText_use, stagedText_append, stagedText_use,
    Token.staged_of_pending openingPending, Token.staged_of_pending closingPending,
    stagedText_nil, List.append_nil]
  rfl

private theorem switch_found {opening : Spelling Called.switch.name} {argument : Argument}
    {body : List Atom} {closing : Spelling Bare.endswitch.name} {others : List Token}
    (unswitched : Unswitched (body.flatMap Atom.tokens))
    (spaced : Spaced ((Segment.switch opening argument body closing).tokens ++ others)) :
    Directive.switchBlock.run?
        (stagedText lowered (Segment.switch opening argument body closing).tokens ++
          stagedText lowered others) =
      some ⟨stagedText lowered (Segment.switch opening argument body closing).tokens,
        (argument.text, stagedText lowered (body.flatMap Atom.tokens)),
        stagedText lowered others⟩ := by
  have closed : ')' ∉ argument.text := fun member => argument.plain ')' member (by simp)
  have opened := withArgument_run? opening.spelled closed
    (stagedText lowered (body.flatMap Atom.tokens) ++
      '@' :: (closing.written ++ stagedText lowered others))
  have bodySpaced : Spaced (body.flatMap Atom.tokens ++
      (.use (.bare .endswitch closing) :: others)) := by
    have further : Spaced ((body.flatMap Atom.tokens ++ [Token.use (.bare .endswitch closing)]) ++
        others) := List.IsChain.tail spaced
    rwa [List.append_assoc] at further
  have absent : (Pattern.bare Bare.endswitch.name).Absent
      (stagedText lowered (body.flatMap Atom.tokens))
      (stagedText lowered (.use (.bare .endswitch closing) :: others)) :=
    absent_staged (Named.ofBare _) (Mark.bare .endswitch).name_letters
      (switch_names_apart (by simp [marksOf, Mark.name]) unswitched) bodySpaced lowered
  have closingPending : (Use.bare .endswitch closing).mark ∉ lowered :=
    pending _ (List.mem_cons_of_mem _ List.mem_cons_self)
  have ending : stagedText lowered (.use (.bare .endswitch closing) :: others) =
      '@' :: (closing.written ++ stagedText lowered others) := by
    rw [stagedText_use, Token.staged_of_pending closingPending]
    rfl
  rw [ending] at absent
  have found := blockOf_run? closing.spelled opened rfl absent
  rw [staged_switch pending, List.append_assoc, List.append_assoc, List.cons_append]
  exact found

private theorem segment_finds {compile : Text → Compilation Text}
    (bodies : CompilesBodies compile lowered) {segment : Segment} {others : List Token}
    (wellFormed : segment.WellFormed) (spaced : Spaced (segment.tokens ++ others)) :
    (∃ captured, (∀ context : Context,
        (Compiler.compileSwitch compile captured).run context =
          some (stagedText lowered segment.lower.tokens, context)) ∧
      Directive.switchBlock.run?
          (stagedText lowered segment.tokens ++ stagedText lowered others) =
        some ⟨stagedText lowered segment.tokens, captured, stagedText lowered others⟩) ∨
    (stagedText lowered segment.lower.tokens = stagedText lowered segment.tokens ∧
      Directive.switchBlock.Absent (stagedText lowered segment.tokens)
        (stagedText lowered others)) := by
  cases segment with
  | atom item =>
      have named : Named Called.switch.name Directive.switchBlock :=
        ((Pattern.Called.withArgument Called.switch.name).blockOf _).named
      refine .inr ⟨rfl, ?_⟩
      exact absent_staged named (Mark.called .switch).name_letters
        (switch_names_apart (by simp [marksOf, Mark.name]) wellFormed) spaced lowered
  | switch opening argument body closing =>
      have bodySpaced : Spaced (body.flatMap Atom.tokens) :=
        (List.IsChain.tail spaced.left_of_append).left_of_append
      refine .inl ⟨_, fun context => ?_, switch_found pending wellFormed spaced⟩
      exact run_compileSwitch opening argument closing
        (bodies body wellFormed bodySpaced context)

/-- The pass for switches replaces each of them by its code. -/
theorem run_switches {compile : Text → Compilation Text}
    (bodies : CompilesBodies compile lowered) {segments : List Segment}
    (wellFormed : ∀ segment ∈ segments, segment.WellFormed)
    (spaced : Spaced (segments.flatMap Segment.tokens)) (context : Context) :
    (Directive.switchBlock.replaceM (Compiler.compileSwitch compile)
        (stagedText lowered (segments.flatMap Segment.tokens))).run context =
      some (stagedText lowered (segments.flatMap fun segment => segment.lower.tokens),
        context) := by
  have each : ∀ segment others, (segment :: others) <:+ segments →
      (∃ captured, (∀ context : Context,
          (Compiler.compileSwitch compile captured).run context =
            some (stagedText lowered segment.lower.tokens, context)) ∧
        Directive.switchBlock.run? (stagedText lowered segment.tokens ++
            others.flatMap fun other => stagedText lowered other.tokens) =
          some ⟨stagedText lowered segment.tokens, captured,
            others.flatMap fun other => stagedText lowered other.tokens⟩) ∨
      ((stagedText lowered segment.lower.tokens = stagedText lowered segment.tokens ∧
          ∀ context : Context, context = context) ∧
        Directive.switchBlock.Absent (stagedText lowered segment.tokens)
          (others.flatMap fun other => stagedText lowered other.tokens)) := by
    rintro segment others ⟨front, rfl⟩
    rw [List.flatMap_append, List.flatMap_cons] at spaced
    have found := segment_finds pending bodies (wellFormed segment (by simp))
      spaced.right_of_append
    rw [stagedText_flatMap] at found
    exact found.imp_right fun absent => ⟨⟨absent.1, fun _ => rfl⟩, absent.2⟩
  have ran := replaceM_flatMap each context
  rw [← stagedText_flatMap, ← stagedText_flatMap] at ran
  rw [ran]
  simp

end Pass

end Scriptlet.Template
