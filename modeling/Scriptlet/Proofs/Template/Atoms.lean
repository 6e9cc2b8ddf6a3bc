import Scriptlet.Proofs.Template.Echoes
import Scriptlet.Proofs.Template.Row

/-!
# Atoms

Whatever stage a template is at, its atoms can be told apart by their texts: no pass
finds anything in their code, those that are no blanks neither begin nor end with one,
and when their directives are lowered they are what the last passes work on.
-/

namespace Scriptlet.Template

def Unswitched (tokens : List Token) : Prop :=
  ∀ used, .use used ∈ tokens → used.mark ∉ marksOf .switches

theorem Unswitched.flatMap {α : Type} {tokens : α → List Token} {items : List α}
    (each : ∀ item ∈ items, Unswitched (tokens item)) : Unswitched (items.flatMap tokens) := by
  intro used member
  obtain ⟨item, itemMember, usedMember⟩ := List.mem_flatMap.mp member
  exact each item itemMember used usedMember

theorem Unswitched.of (text : Text) (unsigned : '@' ∉ text) :
    Unswitched (Token.of text unsigned) := by
  intro used member
  cases text with
  | nil => simp [Token.of] at member
  | cons first others => simp [Token.of] at member

theorem Unswitched.use {used : Use} (other : used.mark ∉ marksOf .switches) :
    Unswitched [.use used] := by
  intro same member
  cases List.mem_singleton.mp member
  exact other

theorem Passage.unswitched (passage : Passage) : Unswitched passage.tokens := by
  cases passage with
  | plain character => exact Unswitched.of _ (plain_unsigned character)
  | comment text => exact Unswitched.of _ (comment_unsigned text)
  | escaped expression => exact Unswitched.of _ (escaped_unsigned expression)
  | unescaped expression => exact Unswitched.of _ (unescaped_unsigned expression)
  | php opening code closing =>
      intro used member
      simp only [Passage.tokens, List.mem_cons, List.mem_append, List.not_mem_nil,
        or_false] at member
      rcases member with opened | inside | closed
      · cases opened
        simp [Use.mark, marksOf]
      · exact Unswitched.of _ _ used inside
      · cases closed
        simp [Use.mark, marksOf]

theorem Leaf.forall_mem_fold {β : Type} {passage : Passage → List β} {use : Use → List β}
    {property : β → Prop} (ofPassage : ∀ item, ∀ piece ∈ passage item, property piece)
    (ofUse : ∀ used, used.mark ∉ marksOf .switches → ∀ piece ∈ use used, property piece)
    (leaf : Leaf) : ∀ piece ∈ leaf.fold passage use, property piece := by
  cases leaf with
  | passage item => exact ofPassage item
  | _ => exact ofUse _ (by simp [Use.mark, marksOf])

theorem Body.unswitched (body : Body) :
    Unswitched ((Body.atoms body).flatMap Atom.tokens) := by
  have ofPassage : ∀ passage : Passage, ∀ atom ∈ [Atom.passage passage],
      Unswitched atom.tokens := by
    intro passage atom member
    cases List.mem_singleton.mp member
    exact passage.unswitched
  have ofUse : ∀ used : Use, used.mark ∉ marksOf .switches → ∀ atom ∈ [Atom.use used],
      Unswitched atom.tokens := by
    intro used other atom member
    cases List.mem_singleton.mp member
    exact Unswitched.use other
  apply Unswitched.flatMap
  apply Tree.forall_mem_fold _ ofUse
  intro leaf
  cases leaf with
  | simple leaf => exact leaf.forall_mem_fold ofPassage ofUse
  | caseLabel spelling argument => exact ofUse _ (by simp [Use.mark, marksOf])
  | defaultLabel spelling => exact ofUse _ (by simp [Use.mark, marksOf])

/-- The only directives about a switch are those around its body. -/
def Segment.WellFormed : Segment → Prop
  | .atom item => Unswitched item.tokens
  | .switch _ _ body _ => Unswitched (body.flatMap Atom.tokens)

theorem View.segments_wellFormed (view : View) :
    ∀ segment ∈ View.segments view, segment.WellFormed := by
  have ofPassage : ∀ passage : Passage, ∀ segment ∈ [Segment.atom (.passage passage)],
      segment.WellFormed := by
    intro passage segment member
    cases List.mem_singleton.mp member
    exact passage.unswitched
  have ofUse : ∀ used : Use, used.mark ∉ marksOf .switches →
      ∀ segment ∈ [Segment.atom (.use used)], segment.WellFormed := by
    intro used other segment member
    cases List.mem_singleton.mp member
    exact Unswitched.use other
  apply Tree.forall_mem_fold _ ofUse
  intro leaf
  cases leaf with
  | simple leaf => exact leaf.forall_mem_fold ofPassage ofUse
  | switch opening argument body closing =>
      intro segment member
      cases List.mem_singleton.mp member
      exact Body.unswitched body

/-- No pass finds anything in the code of an atom. -/
theorem Atom.code_inert (atom : Atom) : Inert atom.code := by
  cases atom with
  | use used => exact used.code_inert
  | lowered text enclosed inert => exact inert
  | passage item =>
      cases item with
      | plain character =>
          refine Inert.ofUnbraced (plain_unsigned character) fun member => ?_
          exact character.plain (List.mem_singleton.mp member ▸ by simp)
      | comment text => exact Inert.ofUnbraced List.not_mem_nil List.not_mem_nil
      | escaped expression =>
          have unsigned : '@' ∉ Text.trim expression.text := fun member =>
            expression.unsigned ((Text.trim_isInfix expression.text).subset member)
          exact ⟨unsigned_between (by decide) unsigned (by decide),
            expression.echoed.escaped_output_quiet⟩
      | unescaped expression =>
          have unsigned : '@' ∉ Text.trim expression.text := fun member =>
            expression.unsigned ((Text.trim_isInfix expression.text).subset member)
          exact ⟨unsigned_between (by decide) unsigned (by decide),
            expression.echoed.unescaped_output_quiet⟩
      | php opening code closing =>
          have quiet : Text.isQuiet (spaced code.text ++ Bare.endphp.code) = true :=
            spaced_quiet code.unmarked (by decide) (by decide)
          have inside : Inert (spaced code.text ++ Bare.endphp.code) := by
            refine ⟨?_, quiet⟩
            rw [List.mem_append, not_or]
            exact ⟨spaced_unsigned code.unsigned, by decide⟩
          exact Inert.append (by decide : Inert Bare.php.code) inside

theorem Segment.switch_enclosed (opening : Spelling Called.switch.name) (argument : Argument)
    (body : List Atom) (closing : Spelling Bare.endswitch.name) :
    Enclosed (Segment.switch opening argument body closing).code :=
  Enclosed.between (Called.switch.code_enclosed argument.text).1 (by decide) _

theorem Segment.switch_inert (opening : Spelling Called.switch.name) (argument : Argument)
    (body : List Atom) (closing : Spelling Bare.endswitch.name) :
    Inert (Segment.switch opening argument body closing).code := by
  have infixed := Text.trim_isInfix (body.flatMap Atom.code)
  have unsigned : '@' ∉ body.flatMap Atom.code := by
    intro member
    obtain ⟨atom, -, inAtom⟩ := List.mem_flatMap.mp member
    exact atom.code_inert.1 inAtom
  have quiet : Text.isQuiet (body.flatMap Atom.code) = true :=
    Text.isQuiet_flatMap fun atom _ => atom.code_inert.2
  have unmarked : Text.Unmarked (Text.trim (body.flatMap Atom.code)) :=
    fun mark listed inside =>
      Text.unmarked_of_isQuiet quiet mark listed (inside.trans infixed)
  have opened := Called.switch.code_inert argument
  refine ⟨unsigned_between opened.1 (fun member => unsigned (infixed.subset member))
    (by decide), ?_⟩
  exact Text.isQuiet_between opened.2 unmarked (by decide) (by decide)

def Segment.lower : Segment → Atom
  | .atom item => item
  | .switch opening argument body closing =>
      .lowered _ (switch_enclosed opening argument body closing)
        (switch_inert opening argument body closing)

theorem Segment.lower_code (segment : Segment) : segment.lower.code = segment.code := by
  cases segment <;> rfl

theorem Segment.lower_unswitched {segment : Segment} (wellFormed : segment.WellFormed) :
    Unswitched segment.lower.tokens := by
  cases segment with
  | atom item => exact wellFormed
  | switch opening argument body closing =>
      exact Unswitched.of _ (switch_inert opening argument body closing).1

section Trimming

theorem Use.print_tight (use : Use) : Tight use.print := by
  cases use with
  | called directive spelling argument => exact Tight.ofCalled _ _
  | bare directive spelling =>
      exact Tight.ofBare (Use.written_letters (.bare directive spelling))

def Atom.isBlank : Atom → Bool
  | .passage (.plain character) => Text.isBlank character.character
  | _ => false

theorem Atom.code_of_isBlank {atom : Atom} (blank : atom.isBlank = true) :
    ∃ character, atom.code = [character] ∧ Text.isBlank character = true := by
  cases atom with
  | passage item =>
      cases item with
      | plain character => exact ⟨character.character, rfl, blank⟩
      | _ => cases blank
  | _ => cases blank

variable {lowered : List Mark} (pending : ∀ mark ∈ marksOf .rawCode, mark ∉ lowered)

include pending

private theorem staged_use_tight (used : Use) : Tight ((Token.use used).staged lowered) := by
  by_cases listed : used.mark ∈ lowered
  · rw [Token.staged_of_lowered listed]
    apply Tight.ofEnclosed
    cases used with
    | called directive spelling argument => exact directive.code_enclosed argument.text
    | bare directive spelling =>
        apply Bare.code_enclosed
        intro raw
        refine pending (.bare directive) ?_ listed
        simpa [marksOf] using raw
  · rw [Token.staged_of_pending listed]
    exact used.print_tight

private theorem staged_passage_tight (passage : Passage)
    (visible : (Atom.passage passage).isBlank = false) :
    Tight (stagedText lowered passage.tokens) := by
  cases passage with
  | plain character =>
      rw [Passage.tokens, Token.staged_of]
      exact ⟨⟨_, List.prefix_rfl, visible⟩, ⟨_, List.suffix_rfl, visible⟩⟩
  | comment text =>
      rw [Passage.tokens, Token.staged_of]
      exact Tight.between ⟨'\x7b', by decide, by decide⟩
        ⟨'\x7d', by decide, by decide⟩ _
  | escaped expression =>
      rw [Passage.tokens, Token.staged_of]
      exact Tight.between ⟨'\x7b', by decide, by decide⟩
        ⟨'\x7d', by decide, by decide⟩ _
  | unescaped expression =>
      rw [Passage.tokens, Token.staged_of]
      exact Tight.between ⟨'\x7b', by decide, by decide⟩
        ⟨'\x7d', by decide, by decide⟩ _
  | php opening code closing =>
      have opened := staged_use_tight pending (.bare .php opening)
      have closed := staged_use_tight pending (.bare .endphp closing)
      rw [Passage.tokens, stagedText_use, stagedText_append, stagedText_use, stagedText_nil,
        List.append_nil, ← List.append_assoc]
      exact Tight.between opened.first closed.last _

theorem Atom.writtenTightly (atom : Atom) :
    WrittenTightly Atom.isBlank (fun atom => stagedText lowered atom.tokens) atom := by
  cases blank : atom.isBlank with
  | false =>
      apply WrittenTightly.ofTight blank
      cases atom with
      | passage item => exact staged_passage_tight pending item blank
      | use used =>
          have tight := staged_use_tight pending used
          rwa [← List.append_nil ((Token.use used).staged lowered)] at tight
      | lowered text enclosed inert =>
          rw [Atom.tokens, Token.staged_of]
          exact Tight.ofEnclosed enclosed
  | true =>
      have visible : ∀ {property : Prop}, atom.isBlank = false → property := by
        intro property visible
        rw [visible] at blank
        cases blank
      refine ⟨fun _ => ?_, visible, visible⟩
      cases atom with
      | passage item =>
          cases item with
          | plain character =>
              exact ⟨character.character,
                Token.staged_of lowered _ (plain_unsigned character), blank⟩
          | _ => cases blank
      | _ => cases blank

end Trimming

/-- What the last passes make of an atom whose directives are lowered. -/
def Atom.stretch : Atom → Stretch
  | .passage (.comment text) => .comment text
  | .passage (.escaped expression) => .escaped expression
  | .passage (.unescaped expression) => .unescaped expression
  | atom => .quiet atom.code atom.code_inert.2

theorem Atom.stretch_code (atom : Atom) : atom.stretch.code = atom.code := by
  cases atom with
  | passage item => cases item <;> rfl
  | use used => rfl
  | lowered text enclosed inert => rfl

theorem Atom.stretch_print {lowered : List Mark}
    (all : ∀ mark, mark ∉ marksOf .switches → mark ∈ lowered) {atom : Atom}
    (unswitched : Unswitched atom.tokens) :
    stagedText lowered atom.tokens = atom.stretch.print := by
  cases atom with
  | passage item =>
      cases item with
      | plain character => exact Token.staged_of lowered _ (plain_unsigned character)
      | comment text => exact Token.staged_of lowered _ (comment_unsigned text)
      | escaped expression => exact Token.staged_of lowered _ (escaped_unsigned expression)
      | unescaped expression =>
          exact Token.staged_of lowered _ (unescaped_unsigned expression)
      | php opening code closing =>
          have opened : (Use.bare .php opening).mark ∈ lowered :=
            all _ (by simp [Use.mark, marksOf])
          have closed : (Use.bare .endphp closing).mark ∈ lowered :=
            all _ (by simp [Use.mark, marksOf])
          rw [Atom.tokens, Passage.tokens, stagedText_use, stagedText_append, Token.staged_of,
            stagedText_use, Token.staged_of_lowered opened, Token.staged_of_lowered closed,
            stagedText_nil, List.append_nil]
          rfl
  | use used =>
      have listed : used.mark ∈ lowered := all _ (unswitched used List.mem_cons_self)
      rw [Atom.tokens, stagedText_use, Token.staged_of_lowered listed, stagedText_nil,
        List.append_nil]
      rfl
  | lowered text enclosed inert => exact Token.staged_of lowered _ inert.1

end Scriptlet.Template
