import Scriptlet.Proofs.Pattern.Recognition
import Scriptlet.Proofs.Pattern.Signed
import Scriptlet.Proofs.Template.Codes

/-!
# Nested blocks

A dialect has blocks, which are written between two directives, and labels, which stand for
one code each.  A template of nested blocks is a tree, and it is written as a row of tokens.
The code of a tree nests as the tree does.
-/

namespace Scriptlet

/-- How a directive is written.  The argument is left out where it takes none. -/
def Directive.Entry.print (written argument : Text) : Directive.Entry → Text
  | .argument _ _ => Text.called written argument
  | .word _ _ => '@' :: written

namespace Nesting

open Directive Template

/-- The directives of one kind of blocks: the two around a block, and the labels that may stand
anywhere.  A block becomes a head for its argument, its trimmed body and a foot. -/
structure Dialect where
  opening : Text
  closing : Text
  labels : List Entry
  head : Text → Text
  foot : Text
  apart : (opening :: closing :: labels.map Entry.name).Pairwise Text.Apart
  letters : ∀ name ∈ opening :: closing :: labels.map Entry.name,
    ∀ character ∈ name, Text.isLetter character
  head_inert : ∀ argument : Argument, Inert (head argument.text)
  head_opens : ∀ argument, ['<'] <+: head argument
  foot_inert : Inert foot
  foot_closes : ['>'] <:+ foot
  label_inert : ∀ entry ∈ labels, ∀ argument : Argument, Inert (entry.code argument.text)
  label_enclosed : ∀ entry ∈ labels, ∀ argument, Enclosed (entry.code argument)

variable (dialect : Dialect)

def Dialect.names : List Text :=
  dialect.opening :: dialect.closing :: dialect.labels.map Entry.name

structure Label where
  entry : Entry
  listed : entry ∈ dialect.labels
  spelling : Spelling entry.name
  argument : Argument

inductive Token where
  | plain (character : Plain)
  | label (directive : Label dialect)
  | opened (spelling : Spelling dialect.opening) (argument : Argument)
  | closed (spelling : Spelling dialect.closing)

inductive Nest where
  | done
  | plain (character : Plain) (next : Nest)
  | label (directive : Label dialect) (next : Nest)
  | block (opening : Spelling dialect.opening) (argument : Argument) (body : Nest)
      (closing : Spelling dialect.closing) (next : Nest)

variable {dialect}

def Label.print (label : Label dialect) : Text :=
  label.entry.print label.spelling.written label.argument.text

def Label.code (label : Label dialect) : Text :=
  label.entry.code label.argument.text

namespace Token

def print : Token dialect → Text
  | .plain character => [character.character]
  | .label directive => directive.print
  | .opened spelling argument => Text.called spelling.written argument.text
  | .closed spelling => '@' :: spelling.written

/-- What becomes of a token outside of a pair of an opening and a closing directive. -/
def code : Token dialect → Text
  | .label directive => directive.code
  | token => token.print

def isOpened : Token dialect → Bool
  | .opened _ _ => true
  | _ => false

def isClosed : Token dialect → Bool
  | .closed _ => true
  | _ => false

end Token

namespace Nest

def tokens : Nest dialect → List (Token dialect)
  | .done => []
  | .plain character next => .plain character :: next.tokens
  | .label directive next => .label directive :: next.tokens
  | .block opening argument body closing next =>
      .opened opening argument :: (body.tokens ++ .closed closing :: next.tokens)

def print (nest : Nest dialect) : Text :=
  nest.tokens.flatMap Token.print

/-- The code of a tree, which has one head and one foot for each block, around the trimmed code
of its body. -/
def code : Nest dialect → Text
  | .done => []
  | .plain character next => character.character :: next.code
  | .label directive next => directive.code ++ next.code
  | .block _ argument body _ next =>
      dialect.head argument.text ++ Text.trim body.code ++ dialect.foot ++ next.code

/-- How deep blocks stand in each other. -/
def depth : Nest dialect → Nat
  | .done => 0
  | .plain _ next => next.depth
  | .label _ next => next.depth
  | .block _ _ body _ next => max (body.depth + 1) next.depth

/-- Every block is closed. -/
theorem countP_tokens (nest : Nest dialect) :
    nest.tokens.countP Token.isOpened = nest.tokens.countP Token.isClosed := by
  induction nest with
  | done => rfl
  | plain character next induction => simpa [tokens, Token.isOpened, Token.isClosed] using induction
  | label directive next induction => simpa [tokens, Token.isOpened, Token.isClosed] using induction
  | block opening argument body closing next bodyInduction induction =>
      simp only [tokens, List.countP_cons, List.countP_append, Token.isOpened, Token.isClosed,
        bodyInduction, induction, Bool.false_eq_true, if_true, if_false]
      omega

end Nest

end Nesting

end Scriptlet
