import Scriptlet.Proofs.Template.Staging

/-!
# Templates as rows

Read from left to right, a template is a row of passages, directives and whole
switches, and the body of a switch is a row of passages and directives.  Both give
the row of tokens that the passes for directives work on.
-/

namespace Scriptlet.Template

/-- A passage, a directive, or a switch that is replaced by its code. -/
inductive Atom where
  | passage (passage : Passage)
  | use (use : Use)
  | lowered (text : Text) (enclosed : Enclosed text) (inert : Inert text)

inductive Segment where
  | atom (atom : Atom)
  | switch (opening : Spelling Called.switch.name) (argument : Argument) (body : List Atom)
      (closing : Spelling Bare.endswitch.name)

/-- The token of a text that begins with a character. -/
def Token.of (text : Text) (unsigned : '@' ∉ text) : List Token :=
  match text, unsigned with
  | [], _ => []
  | first :: others, unsigned => [.text first others unsigned]

theorem unsigned_between {left middle right : Text} (leftUnsigned : '@' ∉ left)
    (unsigned : '@' ∉ middle) (rightUnsigned : '@' ∉ right) :
    '@' ∉ left ++ middle ++ right := by
  simp [leftUnsigned, unsigned, rightUnsigned]

theorem spaced_unsigned {text : Text} (unsigned : '@' ∉ text) : '@' ∉ spaced text := by
  simp [spaced, unsigned]

theorem comment_unsigned (text : List Plain) : '@' ∉ Passage.print (.comment text) :=
  unsigned_between (by decide) (notMem_plainText (by simp) text) (by decide)

theorem escaped_unsigned (expression : Expression) :
    '@' ∉ Passage.print (.escaped expression) :=
  unsigned_between (by decide) (spaced_unsigned expression.unsigned)
    (by decide)

theorem unescaped_unsigned (expression : Expression) :
    '@' ∉ Passage.print (.unescaped expression) :=
  unsigned_between (by decide) (spaced_unsigned expression.unsigned)
    (by decide)

theorem plain_unsigned (character : Plain) : '@' ∉ Passage.print (.plain character) :=
  fun member => character.plain (List.mem_singleton.mp member ▸ List.mem_cons_self)

def Passage.tokens : Passage → List Token
  | .plain character => Token.of (Passage.print (.plain character)) (plain_unsigned character)
  | .comment text => Token.of (Passage.print (.comment text)) (comment_unsigned text)
  | .escaped expression =>
      Token.of (Passage.print (.escaped expression)) (escaped_unsigned expression)
  | .unescaped expression =>
      Token.of (Passage.print (.unescaped expression)) (unescaped_unsigned expression)
  | .php opening code closing =>
      .use (.bare .php opening) ::
        (Token.of (spaced code.text) (spaced_unsigned code.unsigned) ++
          [.use (.bare .endphp closing)])

namespace Atom

def tokens : Atom → List Token
  | .passage item => item.tokens
  | .use used => [.use used]
  | .lowered text _ inert => Token.of text inert.1

def code : Atom → Text
  | .passage item => item.code
  | .use used => used.code
  | .lowered text _ _ => text

end Atom

namespace Segment

def tokens : Segment → List Token
  | .atom item => item.tokens
  | .switch opening argument body closing =>
      .use (.called .switch opening argument) ::
        (body.flatMap Atom.tokens ++ [.use (.bare .endswitch closing)])

/-- The code of a segment, with the body of a switch trimmed. -/
def code : Segment → Text
  | .atom item => item.code
  | .switch _ argument body _ =>
      Called.switch.code argument.text ++ Text.trim (body.flatMap Atom.code) ++
        Bare.endswitch.code

end Segment

def Body.atoms (body : Body) : List Atom :=
  Body.fold (fun passage => [.passage passage]) (fun used => [.use used]) body

def ViewLeaf.segments : ViewLeaf → List Segment
  | .simple leaf =>
      leaf.fold (fun passage => [.atom (.passage passage)]) fun used => [.atom (.use used)]
  | .switch opening argument body closing => [.switch opening argument (Body.atoms body) closing]

def View.segments (view : View) : List Segment :=
  Tree.fold ViewLeaf.segments (fun used => [.atom (.use used)]) view

def View.tokens (view : View) : List Token :=
  (View.segments view).flatMap Segment.tokens

/-- Text directly after a directive written without parentheses begins with neither a
letter nor a parenthesis. -/
def View.WellSpaced (view : View) : Prop :=
  Spaced (View.tokens view)

instance (view : View) : Decidable (View.WellSpaced view) :=
  inferInstanceAs (Decidable (Spaced _))

theorem Token.staged_of (lowered : List Mark) (text : Text) (unsigned : '@' ∉ text) :
    stagedText lowered (Token.of text unsigned) = text := by
  cases text with
  | nil => rfl
  | cons first others => simp [Token.of, stagedText, Token.staged]

@[simp] theorem stagedText_nil (lowered : List Mark) : stagedText lowered [] = [] :=
  rfl

theorem stagedText_append (lowered : List Mark) (left right : List Token) :
    stagedText lowered (left ++ right) = stagedText lowered left ++ stagedText lowered right :=
  List.flatMap_append

theorem stagedText_use (lowered : List Mark) (used : Use) (tokens : List Token) :
    stagedText lowered (.use used :: tokens) =
      (Token.use used).staged lowered ++ stagedText lowered tokens :=
  List.flatMap_cons

theorem stagedText_flatMap {α : Type} (lowered : List Mark) (tokens : α → List Token)
    (items : List α) :
    stagedText lowered (items.flatMap tokens) =
      items.flatMap fun item => stagedText lowered (tokens item) :=
  List.flatMap_assoc

/-- Before the passes a template is as it is written. -/
theorem Passage.staged_nil (passage : Passage) :
    stagedText [] passage.tokens = passage.print := by
  cases passage with
  | plain character => rw [Passage.tokens, Token.staged_of]
  | comment text => rw [Passage.tokens, Token.staged_of]
  | escaped expression => rw [Passage.tokens, Token.staged_of]
  | unescaped expression => rw [Passage.tokens, Token.staged_of]
  | php opening code closing =>
      rw [Passage.tokens, stagedText_use, stagedText_append, Token.staged_of, stagedText_use,
        stagedText_nil, List.append_nil, Token.staged_of_pending List.not_mem_nil,
        Token.staged_of_pending List.not_mem_nil]
      rfl

private theorem use_staged_nil (used : Use) : stagedText [] [.use used] = used.print := by
  simp [stagedText, Token.staged]

theorem Body.staged_nil (body : Body) :
    stagedText [] ((Body.atoms body).flatMap Atom.tokens) = Body.print body := by
  have passages : (fun passage : Passage =>
      [Atom.passage passage].flatMap fun atom => stagedText [] atom.tokens) = Passage.print := by
    funext passage
    simp [Atom.tokens, passage.staged_nil]
  have uses : (fun used : Use =>
      [Atom.use used].flatMap fun atom => stagedText [] atom.tokens) = Use.print := by
    funext used
    simp [Atom.tokens, use_staged_nil]
  rw [stagedText_flatMap, Body.atoms, Body.fold_flatMap, passages, uses, Body.print]

theorem Body.code_eq (body : Body) : (Body.atoms body).flatMap Atom.code = Body.code body := by
  have passages : (fun passage : Passage => [Atom.passage passage].flatMap Atom.code) =
      Passage.code := by
    funext passage
    simp [Atom.code]
  have uses : (fun used : Use => [Atom.use used].flatMap Atom.code) = Use.code := by
    funext used
    simp [Atom.code]
  rw [Body.atoms, Body.fold_flatMap, passages, uses, Body.code]

theorem View.staged_nil (view : View) : stagedText [] (View.tokens view) = View.print view := by
  have uses : (fun used : Use =>
      [Segment.atom (.use used)].flatMap fun segment => stagedText [] segment.tokens) =
      Use.print := by
    funext used
    simp [Segment.tokens, Atom.tokens, use_staged_nil]
  have passages : (fun passage : Passage =>
      [Segment.atom (.passage passage)].flatMap fun segment => stagedText [] segment.tokens) =
      Passage.print := by
    funext passage
    simp [Segment.tokens, Atom.tokens, passage.staged_nil]
  have leaves : (fun leaf : ViewLeaf =>
      leaf.segments.flatMap fun segment => stagedText [] segment.tokens) = ViewLeaf.print := by
    funext leaf
    cases leaf with
    | simple leaf =>
        rw [ViewLeaf.segments, Leaf.fold_flatMap, passages, uses, ViewLeaf.print]
    | switch opening argument body closing =>
        rw [ViewLeaf.segments, List.flatMap_cons, List.flatMap_nil, List.append_nil,
          Segment.tokens, stagedText_use, stagedText_append, Body.staged_nil, stagedText_use,
          stagedText_nil, List.append_nil, Token.staged_of_pending List.not_mem_nil,
          Token.staged_of_pending List.not_mem_nil, ViewLeaf.print]
  rw [View.tokens, stagedText_flatMap, View.segments, Tree.fold_flatMap, leaves, uses,
    View.print]

theorem View.code_eq (view : View) :
    (View.segments view).flatMap Segment.code = View.code view := by
  have uses : (fun used : Use => [Segment.atom (.use used)].flatMap Segment.code) =
      Use.code := by
    funext used
    simp [Segment.code, Atom.code]
  have passages : (fun passage : Passage =>
      [Segment.atom (.passage passage)].flatMap Segment.code) = Passage.code := by
    funext passage
    simp [Segment.code, Atom.code]
  have leaves : (fun leaf : ViewLeaf => leaf.segments.flatMap Segment.code) = ViewLeaf.code := by
    funext leaf
    cases leaf with
    | simple leaf =>
        rw [ViewLeaf.segments, Leaf.fold_flatMap, passages, uses, ViewLeaf.code]
    | switch opening argument body closing =>
        rw [ViewLeaf.segments, List.flatMap_cons, List.flatMap_nil, List.append_nil,
          Segment.code, Body.code_eq, ViewLeaf.code, Use.code, Use.code, List.append_assoc]
  rw [View.segments, Tree.fold_flatMap, leaves, uses, View.code]

end Scriptlet.Template
