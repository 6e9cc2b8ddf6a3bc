import Mathlib.Data.List.Infix
import Scriptlet.Proofs.Template.Mark
import Scriptlet.Proofs.Pattern.Recognition
import Scriptlet.Proofs.Text.Plain

/-!
# Well-formed templates

A template is a tree: blocks and conditionals have bodies, and a switch has a body in
which labels may stand but no other switch.  What a template is written as and the code
that it stands for are both put together, from left to right, from its leaves and its
directives.
-/

namespace Scriptlet.Template

structure Spelling (name : Text) where
  written : Text
  spelled : written.map Text.fold = name.map Text.fold

theorem Spelling.letters {name : Text} (spelling : Spelling name)
    (letters : ∀ character ∈ name, Text.isLetter character) :
    ∀ character ∈ spelling.written, Text.isLetter character :=
  Text.isLetter_of_map_fold_eq spelling.spelled letters

theorem Spelling.unsigned {name : Text} (spelling : Spelling name)
    (letters : ∀ character ∈ name, Text.isLetter character) : '@' ∉ spelling.written := by
  intro member
  have sign := spelling.letters letters '@' member
  revert sign
  decide

structure Argument where
  text : Text
  plain : ∀ character ∈ text, character ∉ ['@', ')', '\x7b', '\x7d']

structure Expression where
  text : Text
  unsigned : '@' ∉ text
  unmarked : ∀ mark ∈ ["\x7b\x7b", "\x7d\x7d", "\x7b!!", "!!\x7d"], ¬ mark.toList <:+: text

/-- Code of the host language between `@php` and `@endphp`. -/
structure RawCode where
  text : Text
  unsigned : '@' ∉ text
  unmarked : ∀ mark ∈ ["\x7b\x7b", "\x7b!!"], ¬ mark.toList <:+: text

inductive Use where
  | called (directive : Called) (spelling : Spelling directive.name) (argument : Argument)
  | bare (directive : Bare) (spelling : Spelling directive.name)

def Use.mark : Use → Mark
  | .called directive _ _ => .called directive
  | .bare directive _ => .bare directive

inductive Passage where
  | plain (character : Plain)
  | comment (text : List Plain)
  | escaped (expression : Expression)
  | unescaped (expression : Expression)
  | php (opening : Spelling Bare.php.name) (code : RawCode)
      (closing : Spelling Bare.endphp.name)

inductive Block where
  | env
  | isset
  | empty
  | foreach
  | forLoop
  | whileLoop

def Block.opening : Block → Called
  | .env => .env
  | .isset => .isset
  | .empty => .empty
  | .foreach => .foreach
  | .forLoop => .forLoop
  | .whileLoop => .whileLoop

def Block.closing : Block → Bare
  | .env => .endenv
  | .isset => .endisset
  | .empty => .endempty
  | .foreach => .endforeach
  | .forLoop => .endfor
  | .whileLoop => .endwhile

inductive Leaf where
  | passage (passage : Passage)
  | method (spelling : Spelling Called.method.name) (argument : Argument)
  | continueIf (spelling : Spelling Called.continueIf.name) (argument : Argument)
  | breakIf (spelling : Spelling Called.breakIf.name) (argument : Argument)
  | continueLoop (spelling : Spelling Bare.continueLoop.name)
  | breakLoop (spelling : Spelling Bare.breakLoop.name)

mutual

inductive Tree (α : Type) : Type where
  | done
  | leaf (leaf : α) (next : Tree α)
  | block (kind : Block) (opening : Spelling kind.opening.name) (argument : Argument)
      (body : Tree α) (closing : Spelling kind.closing.name) (next : Tree α)
  | conditional (opening : Spelling Called.conditional.name) (argument : Argument)
      (body : Tree α) (branches : Branches α) (next : Tree α)

inductive Branches (α : Type) : Type where
  | endif (closing : Spelling Bare.endif.name)
  | otherwise (spelling : Spelling Bare.otherwise.name) (body : Tree α)
      (closing : Spelling Bare.endif.name)
  | alternative (spelling : Spelling Called.alternative.name) (argument : Argument)
      (body : Tree α) (further : Branches α)

end

inductive BodyLeaf where
  | simple (leaf : Leaf)
  | caseLabel (spelling : Spelling Called.caseLabel.name) (argument : Argument)
  | defaultLabel (spelling : Spelling Bare.defaultLabel.name)

abbrev Body := Tree BodyLeaf

inductive ViewLeaf where
  | simple (leaf : Leaf)
  | switch (opening : Spelling Called.switch.name) (argument : Argument) (body : Body)
      (closing : Spelling Bare.endswitch.name)

abbrev View := Tree ViewLeaf

section Folding

variable {α β : Type}

mutual

/-- What stands for the leaves and directives of a tree, from left to right. -/
def Tree.fold (leaf : α → List β) (use : Use → List β) : Tree α → List β
  | .done => []
  | .leaf item next => leaf item ++ next.fold leaf use
  | .block kind opening argument body closing next =>
      use (.called kind.opening opening argument) ++
        (body.fold leaf use ++ (use (.bare kind.closing closing) ++ next.fold leaf use))
  | .conditional opening argument body branches next =>
      use (.called .conditional opening argument) ++
        (body.fold leaf use ++ (branches.fold leaf use ++ next.fold leaf use))

def Branches.fold (leaf : α → List β) (use : Use → List β) : Branches α → List β
  | .endif closing => use (.bare .endif closing)
  | .otherwise spelling body closing =>
      use (.bare .otherwise spelling) ++
        (body.fold leaf use ++ use (.bare .endif closing))
  | .alternative spelling argument body further =>
      use (.called .alternative spelling argument) ++
        (body.fold leaf use ++ further.fold leaf use)

end

def Leaf.fold (passage : Passage → List β) (use : Use → List β) : Leaf → List β
  | .passage item => passage item
  | .method spelling argument => use (.called .method spelling argument)
  | .continueIf spelling argument => use (.called .continueIf spelling argument)
  | .breakIf spelling argument => use (.called .breakIf spelling argument)
  | .continueLoop spelling => use (.bare .continueLoop spelling)
  | .breakLoop spelling => use (.bare .breakLoop spelling)

def BodyLeaf.fold (passage : Passage → List β) (use : Use → List β) : BodyLeaf → List β
  | .simple leaf => leaf.fold passage use
  | .caseLabel spelling argument => use (.called .caseLabel spelling argument)
  | .defaultLabel spelling => use (.bare .defaultLabel spelling)

/-- What stands for the passages and directives in the body of a switch. -/
def Body.fold (passage : Passage → List β) (use : Use → List β) (body : Body) : List β :=
  Tree.fold (BodyLeaf.fold passage use) use body

variable {γ : Type}

mutual

theorem Tree.fold_flatMap (leaf : α → List β) (use : Use → List β) (next : β → List γ)
    (tree : Tree α) :
    (tree.fold leaf use).flatMap next =
      tree.fold (fun item => (leaf item).flatMap next) fun used => (use used).flatMap next := by
  cases tree with
  | done => rfl
  | leaf item following =>
      have later := Tree.fold_flatMap leaf use next following
      simp only [Tree.fold, List.flatMap_append, later]
  | block kind opening argument body closing following =>
      have inner := Tree.fold_flatMap leaf use next body
      have later := Tree.fold_flatMap leaf use next following
      simp only [Tree.fold, List.flatMap_append, inner, later]
  | conditional opening argument body branches following =>
      have inner := Tree.fold_flatMap leaf use next body
      have others := Branches.fold_flatMap leaf use next branches
      have later := Tree.fold_flatMap leaf use next following
      simp only [Tree.fold, List.flatMap_append, inner, others, later]

theorem Branches.fold_flatMap (leaf : α → List β) (use : Use → List β) (next : β → List γ)
    (branches : Branches α) :
    (branches.fold leaf use).flatMap next =
      branches.fold (fun item => (leaf item).flatMap next)
        fun used => (use used).flatMap next := by
  cases branches with
  | endif closing => rfl
  | otherwise spelling body closing =>
      have inner := Tree.fold_flatMap leaf use next body
      simp only [Branches.fold, List.flatMap_append, inner]
  | alternative spelling argument body further =>
      have inner := Tree.fold_flatMap leaf use next body
      have others := Branches.fold_flatMap leaf use next further
      simp only [Branches.fold, List.flatMap_append, inner, others]

end

section Members

variable {leaf : α → List β} {use : Use → List β} {property : β → Prop}

mutual

/-- A property of what stands for the leaves and for the directives of blocks and
conditionals.  None of these directives is about a switch. -/
theorem Tree.forall_mem_fold (ofLeaf : ∀ item, ∀ piece ∈ leaf item, property piece)
    (ofUse : ∀ used, used.mark ∉ marksOf .switches → ∀ piece ∈ use used, property piece)
    (tree : Tree α) : ∀ piece ∈ tree.fold leaf use, property piece := by
  cases tree with
  | done => simp [Tree.fold]
  | leaf item following =>
      have later := Tree.forall_mem_fold ofLeaf ofUse following
      simp only [Tree.fold, List.forall_mem_append]
      exact ⟨ofLeaf item, later⟩
  | block kind opening argument body closing following =>
      have inner := Tree.forall_mem_fold ofLeaf ofUse body
      have later := Tree.forall_mem_fold ofLeaf ofUse following
      simp only [Tree.fold, List.forall_mem_append]
      refine ⟨ofUse _ ?_, inner, ofUse _ ?_, later⟩ <;> cases kind <;>
        simp [Use.mark, Block.opening, Block.closing, marksOf]
  | conditional opening argument body branches following =>
      have inner := Tree.forall_mem_fold ofLeaf ofUse body
      have others := Branches.forall_mem_fold ofLeaf ofUse branches
      have later := Tree.forall_mem_fold ofLeaf ofUse following
      simp only [Tree.fold, List.forall_mem_append]
      exact ⟨ofUse _ (by simp [Use.mark, marksOf]), inner, others, later⟩

theorem Branches.forall_mem_fold (ofLeaf : ∀ item, ∀ piece ∈ leaf item, property piece)
    (ofUse : ∀ used, used.mark ∉ marksOf .switches → ∀ piece ∈ use used, property piece)
    (branches : Branches α) : ∀ piece ∈ branches.fold leaf use, property piece := by
  cases branches with
  | endif closing => exact ofUse _ (by simp [Use.mark, marksOf])
  | otherwise spelling body closing =>
      have inner := Tree.forall_mem_fold ofLeaf ofUse body
      simp only [Branches.fold, List.forall_mem_append]
      exact ⟨ofUse _ (by simp [Use.mark, marksOf]), inner, ofUse _ (by simp [Use.mark, marksOf])⟩
  | alternative spelling argument body further =>
      have inner := Tree.forall_mem_fold ofLeaf ofUse body
      have others := Branches.forall_mem_fold ofLeaf ofUse further
      simp only [Branches.fold, List.forall_mem_append]
      exact ⟨ofUse _ (by simp [Use.mark, marksOf]), inner, others⟩

end

end Members

theorem Leaf.fold_flatMap (passage : Passage → List β) (use : Use → List β)
    (next : β → List γ) (leaf : Leaf) :
    (leaf.fold passage use).flatMap next =
      leaf.fold (fun item => (passage item).flatMap next)
        fun used => (use used).flatMap next := by
  cases leaf <;> rfl

theorem Body.fold_flatMap (passage : Passage → List β) (use : Use → List β)
    (next : β → List γ) (body : Body) :
    (Body.fold passage use body).flatMap next =
      Body.fold (fun item => (passage item).flatMap next)
        (fun used => (use used).flatMap next) body := by
  have leaves : (fun leaf : BodyLeaf => (leaf.fold passage use).flatMap next) =
      BodyLeaf.fold (fun item => (passage item).flatMap next)
        fun used => (use used).flatMap next := by
    funext leaf
    cases leaf with
    | simple leaf => exact leaf.fold_flatMap passage use next
    | caseLabel spelling argument => rfl
    | defaultLabel spelling => rfl
  rw [Body.fold, Tree.fold_flatMap, leaves]
  rfl

end Folding

def Use.print : Use → Text
  | .called _ spelling argument => Text.called spelling.written argument.text
  | .bare _ spelling => '@' :: spelling.written

def Use.code : Use → Text
  | .called directive _ argument => directive.code argument.text
  | .bare directive _ => directive.code

def spaced (text : Text) : Text :=
  ' ' :: (text ++ [' '])

def Passage.print : Passage → Text
  | .plain character => [character.character]
  | .comment text => "\x7b\x7b--" ++ plainText text ++ "--\x7d\x7d"
  | .escaped expression => "\x7b\x7b" ++ spaced expression.text ++ "\x7d\x7d"
  | .unescaped expression => "\x7b!!" ++ spaced expression.text ++ "!!\x7d"
  | .php opening code closing =>
      Use.print (.bare .php opening) ++ (spaced code.text ++ Use.print (.bare .endphp closing))

def Passage.code : Passage → Text
  | .plain character => [character.character]
  | .comment _ => []
  | .escaped expression => "<%- escapeHtml(" ++ Text.trim expression.text ++ ") %>"
  | .unescaped expression => "<%- " ++ Text.trim expression.text ++ " %>"
  | .php opening code closing =>
      Use.code (.bare .php opening) ++ (spaced code.text ++ Use.code (.bare .endphp closing))

def Body.print (body : Body) : Text :=
  Body.fold Passage.print Use.print body

def Body.code (body : Body) : Text :=
  Body.fold Passage.code Use.code body

def ViewLeaf.print : ViewLeaf → Text
  | .simple leaf => leaf.fold Passage.print Use.print
  | .switch opening argument body closing =>
      Use.print (.called .switch opening argument) ++
        (Body.print body ++ Use.print (.bare .endswitch closing))

/-- The code of a leaf.  The body of a switch is trimmed. -/
def ViewLeaf.code : ViewLeaf → Text
  | .simple leaf => leaf.fold Passage.code Use.code
  | .switch opening argument body closing =>
      Use.code (.called .switch opening argument) ++
        (Text.trim (Body.code body) ++ Use.code (.bare .endswitch closing))

def View.print (view : View) : Text :=
  Tree.fold ViewLeaf.print Use.print view

/-- The code of a template, which is put together from the codes of its nodes. -/
def View.code (view : View) : Text :=
  Tree.fold ViewLeaf.code Use.code view

end Scriptlet.Template
