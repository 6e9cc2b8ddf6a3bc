import Scriptlet.Proofs.Nesting.Dialect

/-!
# Pairs of opening and closing directives

Read from left to right, an opening directive is paired with the first closing one behind it,
whatever is opened in between.  So the pairs of a row are the blocks of a tree exactly if no
block of the tree stands in another one; otherwise opening directives are left in the bodies of
the pairs, and as many closing ones are left behind them.
-/

namespace Scriptlet.Nesting

variable {dialect : Dialect}

/-- A token of its own, or an opening and a closing directive with what is between them. -/
inductive Segment (dialect : Dialect) where
  | loose (token : Token dialect)
  | block (opening : Template.Spelling dialect.opening) (argument : Template.Argument)
      (body : List (Token dialect)) (closing : Template.Spelling dialect.closing)

/-- What is before and behind the first closing directive. -/
def cutAtClosing? : List (Token dialect) →
    Option (List (Token dialect) × Template.Spelling dialect.closing × List (Token dialect))
  | [] => none
  | .closed closing :: tokens => some ([], closing, tokens)
  | token :: tokens => (cutAtClosing? tokens).map fun cut => (token :: cut.1, cut.2)

def Unclosed (tokens : List (Token dialect)) : Prop :=
  ∀ token ∈ tokens, token.isClosed = false

theorem cutAtClosing?_eq_some {tokens body others : List (Token dialect)}
    {closing : Template.Spelling dialect.closing}
    (cut : cutAtClosing? tokens = some (body, closing, others)) :
    tokens = body ++ .closed closing :: others ∧ Unclosed body := by
  fun_induction cutAtClosing? tokens generalizing body with
  | case1 => cases cut
  | case2 first rest =>
      cases cut
      exact ⟨rfl, fun _ member => absurd member List.not_mem_nil⟩
  | case3 token rest other induction =>
      obtain ⟨⟨inner, _, _⟩, innerCut, same⟩ := Option.map_eq_some_iff.mp cut
      cases same
      obtain ⟨rfl, unclosed⟩ := induction innerCut
      refine ⟨rfl, ?_⟩
      rw [Unclosed, List.forall_mem_cons]
      refine ⟨?_, unclosed⟩
      cases token with
      | closed spelling => exact absurd rfl (other spelling)
      | _ => rfl

theorem cutAtClosing?_eq_none {tokens : List (Token dialect)}
    (cut : cutAtClosing? tokens = none) : Unclosed tokens := by
  fun_induction cutAtClosing? tokens with
  | case1 => exact fun _ member => absurd member List.not_mem_nil
  | case2 first rest => cases cut
  | case3 token rest other induction =>
      rw [Unclosed, List.forall_mem_cons]
      refine ⟨?_, induction (Option.map_eq_none_iff.mp cut)⟩
      cases token with
      | closed spelling => exact absurd rfl (other spelling)
      | _ => rfl

theorem length_of_cutAtClosing? {tokens body others : List (Token dialect)}
    {closing : Template.Spelling dialect.closing}
    (cut : cutAtClosing? tokens = some (body, closing, others)) :
    others.length < tokens.length := by
  rw [(cutAtClosing?_eq_some cut).1, List.length_append, List.length_cons]
  omega

/-- The row with every opening directive paired with the first closing one behind it. -/
def segments : List (Token dialect) → List (Segment dialect)
  | [] => []
  | .opened opening argument :: tokens =>
      match cut : cutAtClosing? tokens with
      | some (body, closing, others) =>
          have := length_of_cutAtClosing? cut
          .block opening argument body closing :: segments others
      | none => .loose (.opened opening argument) :: segments tokens
  | token :: tokens => .loose token :: segments tokens
termination_by tokens => tokens.length
decreasing_by all_goals simp only [List.length_cons]; omega

namespace Segment

def tokens : Segment dialect → List (Token dialect)
  | .loose token => [token]
  | .block opening argument body closing =>
      .opened opening argument :: (body ++ [.closed closing])

/-- The tokens of a segment that are in no pair. -/
def unpaired : Segment dialect → List (Token dialect)
  | .loose token => [token]
  | .block _ _ body _ => body

def print (segment : Segment dialect) : Text :=
  segment.tokens.flatMap Token.print

/-- What becomes of a segment.  Whatever is in the body of a pair is in no pair itself. -/
def code : Segment dialect → Text
  | .loose token => token.code
  | .block _ argument body _ =>
      dialect.head argument.text ++ Text.trim (body.flatMap Token.code) ++ dialect.foot

/-- A segment when its pair has been replaced and its labels have not been lowered. -/
def paired : Segment dialect → Text
  | .loose token => token.print
  | segment => segment.code

end Segment

theorem segments_tokens (tokens : List (Token dialect)) :
    (segments tokens).flatMap Segment.tokens = tokens := by
  fun_induction segments tokens with
  | case1 => rfl
  | case2 opening argument tokens body closing others cut _ induction =>
      rw [(cutAtClosing?_eq_some cut).1, List.flatMap_cons, induction]
      simp [Segment.tokens]
  | case3 opening argument tokens cut induction => simp [Segment.tokens, induction]
  | case4 token tokens other induction => simp [Segment.tokens, induction]

theorem segments_print (tokens : List (Token dialect)) :
    (segments tokens).flatMap Segment.print = tokens.flatMap Token.print := by
  conv_rhs => rw [← segments_tokens tokens, List.flatMap_assoc]
  rfl

/-- The body of a pair has no closing directive, and there is none behind an opening directive
that is in no pair. -/
def Segment.Fits (others : List (Segment dialect)) : Segment dialect → Prop
  | .loose (.opened _ _) => Unclosed (others.flatMap Segment.tokens)
  | .loose _ => True
  | .block _ _ body _ => Unclosed body

theorem segments_fit (tokens : List (Token dialect)) {segment : Segment dialect}
    {others : List (Segment dialect)} (suffix : segment :: others <:+ segments tokens) :
    segment.Fits others := by
  fun_induction segments tokens with
  | case1 => simp at suffix
  | case2 opening argument tokens body closing rest cut _ induction =>
      rcases List.suffix_cons_iff.mp suffix with here | later
      · cases here
        exact (cutAtClosing?_eq_some cut).2
      · exact induction later
  | case3 opening argument tokens cut induction =>
      rcases List.suffix_cons_iff.mp suffix with here | later
      · cases here
        rw [Segment.Fits, segments_tokens]
        exact cutAtClosing?_eq_none cut
      · exact induction later
  | case4 token tokens other induction =>
      rcases List.suffix_cons_iff.mp suffix with here | later
      · cases here
        cases token with
        | opened opening argument => exact absurd rfl (other opening argument)
        | _ => exact trivial
      · exact induction later

theorem unclosed_of_mem_segments {tokens body : List (Token dialect)}
    {opening : Template.Spelling dialect.opening} {argument : Template.Argument}
    {closing : Template.Spelling dialect.closing}
    (listed : .block opening argument body closing ∈ segments tokens) : Unclosed body := by
  obtain ⟨front, others, whole⟩ := List.append_of_mem listed
  exact segments_fit tokens ⟨front, whole.symm⟩

/-- Without closing directives there are no pairs. -/
theorem segments_of_unclosed {tokens : List (Token dialect)} (unclosed : Unclosed tokens) :
    segments tokens = tokens.map Segment.loose := by
  fun_induction segments tokens with
  | case1 => rfl
  | case2 opening argument tokens body closing others cut _ induction =>
      have inside : Token.closed closing ∈ tokens := by
        rw [(cutAtClosing?_eq_some cut).1]
        simp
      cases unclosed _ (List.mem_cons_of_mem _ inside)
  | case3 opening argument tokens cut induction =>
      rw [induction fun token member => unclosed token (List.mem_cons_of_mem _ member),
        List.map_cons]
  | case4 token tokens other induction =>
      rw [induction fun later member => unclosed later (List.mem_cons_of_mem _ member),
        List.map_cons]

theorem block_notMem_of_unclosed {tokens body : List (Token dialect)} (unclosed : Unclosed tokens)
    {opening : Template.Spelling dialect.opening} {argument : Template.Argument}
    {closing : Template.Spelling dialect.closing} :
    .block opening argument body closing ∉ segments tokens := by
  intro listed
  rw [segments_of_unclosed unclosed] at listed
  obtain ⟨token, -, same⟩ := List.mem_map.mp listed
  cases same

/-- The tokens of a row that are in no pair. -/
def unpaired (tokens : List (Token dialect)) : List (Token dialect) :=
  (segments tokens).flatMap Segment.unpaired

/-- A pair has as many opening directives as closing ones. -/
private theorem countP_segments (segments : List (Segment dialect)) :
    (segments.flatMap Segment.unpaired).countP Token.isOpened +
        (segments.flatMap Segment.tokens).countP Token.isClosed =
      (segments.flatMap Segment.unpaired).countP Token.isClosed +
        (segments.flatMap Segment.tokens).countP Token.isOpened := by
  induction segments with
  | nil => rfl
  | cons segment others induction =>
      cases segment with
      | loose token =>
          simp only [List.flatMap_cons, Segment.unpaired, Segment.tokens, List.countP_append]
          omega
      | block opening argument body closing =>
          simp only [List.flatMap_cons, Segment.unpaired, Segment.tokens, List.countP_append,
            List.countP_cons, List.countP_nil, Token.isOpened, Token.isClosed, Bool.false_eq_true,
            if_true, if_false]
          omega

/-- In the row of a tree, as many opening directives are in no pair as closing ones. -/
theorem countP_unpaired (nest : Nest dialect) :
    (unpaired nest.tokens).countP Token.isOpened =
      (unpaired nest.tokens).countP Token.isClosed := by
  have balanced := countP_segments (segments nest.tokens)
  rw [segments_tokens, nest.countP_tokens] at balanced
  exact Nat.add_right_cancel balanced

/-- Opening and closing directives alternate, up to a closing one.  A block is open in front of
the row or not. -/
def Alternates : (opened : Bool) → List (Token dialect) → Prop
  | opened, [] => opened = false
  | opened, .opened _ _ :: tokens => opened = false ∧ Alternates true tokens
  | opened, .closed _ :: tokens => opened = true ∧ Alternates false tokens
  | opened, .plain _ :: tokens => Alternates opened tokens
  | opened, .label _ :: tokens => Alternates opened tokens

private theorem alternates_inside (nest : Nest dialect) (tokens : List (Token dialect)) :
    Alternates true (nest.tokens ++ tokens) ↔ nest.depth = 0 ∧ Alternates true tokens := by
  induction nest with
  | done => simp [Nest.tokens, Nest.depth]
  | plain character next induction => simpa [Nest.tokens, Nest.depth, Alternates] using induction
  | label directive next induction => simpa [Nest.tokens, Nest.depth, Alternates] using induction
  | block opening argument body closing next bodyInduction induction =>
      simp [Nest.tokens, Nest.depth, Alternates]

/-- The row of a tree alternates where no block stands in another one. -/
private theorem alternates_outside (nest : Nest dialect) (tokens : List (Token dialect)) :
    Alternates false (nest.tokens ++ tokens) ↔ nest.depth ≤ 1 ∧ Alternates false tokens := by
  induction nest with
  | done => simp [Nest.tokens, Nest.depth]
  | plain character next induction => simpa [Nest.tokens, Nest.depth, Alternates] using induction
  | label directive next induction => simpa [Nest.tokens, Nest.depth, Alternates] using induction
  | block opening argument body closing next bodyInduction induction =>
      have inside := alternates_inside body (.closed closing :: (next.tokens ++ tokens))
      have deep : max (body.depth + 1) next.depth ≤ 1 ↔ body.depth = 0 ∧ next.depth ≤ 1 := by
        omega
      simp only [Nest.tokens, Nest.depth, List.cons_append, List.append_assoc, Alternates, inside,
        induction, deep, true_and, and_assoc]

/-- What is in no pair, and no opening or closing directive itself. -/
def Token.isNeutral (token : Token dialect) : Bool :=
  !token.isOpened && !token.isClosed

private theorem alternates_append_closed {body : List (Token dialect)} (unclosed : Unclosed body)
    (closing : Template.Spelling dialect.closing) (tokens : List (Token dialect)) :
    Alternates true (body ++ .closed closing :: tokens) ↔
      (∀ token ∈ body, token.isNeutral = true) ∧ Alternates false tokens := by
  induction body with
  | nil => simp [Alternates]
  | cons token body induction =>
      rw [Unclosed, List.forall_mem_cons] at unclosed
      rw [List.cons_append, List.forall_mem_cons]
      cases token with
      | closed spelling => cases unclosed.1
      | _ =>
          simp [Alternates, Token.isNeutral, Token.isOpened, Token.isClosed,
            induction unclosed.2]

private theorem not_alternates_of_unclosed {tokens : List (Token dialect)}
    (unclosed : Unclosed tokens) : ¬ Alternates true tokens := by
  induction tokens with
  | nil => simp [Alternates]
  | cons token tokens induction =>
      rw [Unclosed, List.forall_mem_cons] at unclosed
      have later := induction unclosed.2
      cases token with
      | closed spelling => cases unclosed.1
      | _ => simp [Alternates, later]

private theorem alternates_iff (tokens : List (Token dialect)) :
    Alternates false tokens ↔ ∀ token ∈ unpaired tokens, token.isNeutral = true := by
  rw [unpaired]
  fun_induction segments tokens with
  | case1 => simp [Alternates]
  | case2 opening argument tokens body closing others cut _ induction =>
      -- the body ends with the first closing directive, so it may have no opening one
      obtain ⟨rfl, unclosed⟩ := cutAtClosing?_eq_some cut
      rw [List.flatMap_cons, List.forall_mem_append, ← induction]
      simp [Alternates, Segment.unpaired, alternates_append_closed unclosed]
  | case3 opening argument tokens cut induction =>
      -- nothing closes this one, and it is left over
      have unclosed := cutAtClosing?_eq_none cut
      simp [Alternates, Segment.unpaired, not_alternates_of_unclosed unclosed, Token.isNeutral,
        Token.isOpened]
  | case4 token tokens other induction =>
      cases token with
      | opened opening argument => exact absurd rfl (other opening argument)
      | closed closing => simp [Alternates, Segment.unpaired, Token.isNeutral, Token.isClosed]
      | _ =>
          simpa [Alternates, Segment.unpaired, Token.isNeutral, Token.isOpened, Token.isClosed]
            using induction

/-- All directives of a tree are in pairs exactly if no block stands in another one. -/
theorem depth_le_one_iff (nest : Nest dialect) :
    nest.depth ≤ 1 ↔ ∀ token ∈ unpaired nest.tokens, token.isNeutral = true := by
  have outside := alternates_outside nest []
  rw [List.append_nil] at outside
  rw [← alternates_iff, outside, Alternates]
  simp

/-- Where a block stands in another one, opening and closing directives are left over. -/
theorem exists_unpaired {nest : Nest dialect} (deep : ¬ nest.depth ≤ 1) :
    (∃ token ∈ unpaired nest.tokens, token.isOpened = true) ∧
      ∃ token ∈ unpaired nest.tokens, token.isClosed = true := by
  rw [← List.countP_pos_iff, ← List.countP_pos_iff, countP_unpaired, and_self]
  rw [depth_le_one_iff] at deep
  push Not at deep
  obtain ⟨token, member, other⟩ := deep
  by_cases opened : token.isOpened = true
  · rw [← countP_unpaired]
    exact List.countP_pos_iff.mpr ⟨token, member, opened⟩
  · refine List.countP_pos_iff.mpr ⟨token, member, ?_⟩
    simpa [Token.isNeutral, opened] using other

theorem cutAtClosing?_append {body : List (Token dialect)} (unclosed : Unclosed body)
    (closing : Template.Spelling dialect.closing) (tokens : List (Token dialect)) :
    cutAtClosing? (body ++ .closed closing :: tokens) = some (body, closing, tokens) := by
  induction body with
  | nil => rfl
  | cons token body induction =>
      rw [Unclosed, List.forall_mem_cons] at unclosed
      rw [List.cons_append]
      cases token with
      | closed spelling => cases unclosed.1
      | _ => simp [cutAtClosing?, induction unclosed.2]

theorem unclosed_of_depth {nest : Nest dialect} (blockless : nest.depth = 0) :
    Unclosed nest.tokens := by
  rw [Unclosed]
  induction nest with
  | done => exact fun _ member => absurd member List.not_mem_nil
  | plain character next induction =>
      rw [Nest.tokens, List.forall_mem_cons]
      exact ⟨rfl, induction blockless⟩
  | label directive next induction =>
      rw [Nest.tokens, List.forall_mem_cons]
      exact ⟨rfl, induction blockless⟩
  | block opening argument body closing next bodyInduction induction =>
      rw [Nest.depth] at blockless
      omega

theorem code_of_depth {nest : Nest dialect} (blockless : nest.depth = 0) :
    nest.tokens.flatMap Token.code = nest.code := by
  induction nest with
  | done => rfl
  | plain character next induction =>
      rw [Nest.tokens, List.flatMap_cons, induction blockless]
      rfl
  | label directive next induction =>
      rw [Nest.tokens, List.flatMap_cons, induction blockless]
      rfl
  | block opening argument body closing next bodyInduction induction =>
      rw [Nest.depth] at blockless
      omega

/-- The segments of a tree without blocks in blocks become the code of the tree. -/
theorem segments_code {nest : Nest dialect} (flat : nest.depth ≤ 1) :
    (segments nest.tokens).flatMap Segment.code = nest.code := by
  induction nest with
  | done => simp [Nest.tokens, Nest.code, segments]
  | plain character next induction =>
      simp [Nest.tokens, Nest.code, segments, Segment.code, Token.code, Token.print, induction flat]
  | label directive next induction =>
      simp [Nest.tokens, Nest.code, segments, Segment.code, Token.code, induction flat]
  | block opening argument body closing next bodyInduction induction =>
      rw [Nest.depth] at flat
      have blockless : body.depth = 0 := by omega
      have cut := cutAtClosing?_append (unclosed_of_depth blockless) closing next.tokens
      rw [Nest.tokens, segments]
      split
      · rename_i others _ found
        rw [cut] at found
        cases found
        rw [List.flatMap_cons, induction (by omega), Segment.code, code_of_depth blockless,
          Nest.code]
      · rename_i found
        rw [cut] at found
        cases found

end Scriptlet.Nesting
