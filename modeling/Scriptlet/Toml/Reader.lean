import Scriptlet.Toml.Scalar

/-!
# Reading documents of settings

A document is read line by line into a tree of tables.  Readers take a text to
what they read and the text after it.  Values nest up to a given depth, and what
repeats inside a value or a document is bounded by the length of the text.
-/

namespace Scriptlet.Toml

def nestingLimit : Nat := 80

def skipSpaces (text : Text) : Text :=
  text.dropWhile isSpace

def skipComment : Text → Text
  | '#' :: rest => rest.dropWhile isPlain
  | text => text

/-- The text after white space, line breaks and comments. -/
def skipTrivia : (inComment : Bool) → Text → Text
  | _, '\n' :: rest => skipTrivia false rest
  | _, '\r' :: '\n' :: rest => skipTrivia false rest
  | true, head :: tail => if isPlain head then skipTrivia true tail else head :: tail
  | false, '#' :: rest => skipTrivia true rest
  | false, head :: tail => if isSpace head then skipTrivia false tail else head :: tail
  | _, [] => []

/-- The text after the end of a line, before which a comment may stand. -/
def afterLine? (text : Text) : Option Text :=
  match skipComment (skipSpaces text) with
  | [] => some []
  | rest => afterNewline? rest

/-- Whether a character may stand in a key without quotes. -/
def isKeyCharacter (character : Char) : Bool :=
  character.isAlphanum || character = '_' || character = '-'

def readKeyPart? : Text → Option (Text × Text)
  | '"' :: rest => readBasic? .plain rest
  | '\x27' :: rest => readLiteral? rest
  | text =>
      let name := text.takeWhile isKeyCharacter
      if name = [] then none else some (name, text.dropWhile isKeyCharacter)

/-- A key of one or more parts with dots between them, at most as many as the
bound says: the parts before the last one, and the last one. -/
def readKeyWithin? : (bound : Nat) → Text → Option ((List Text × Text) × Text)
  | 0, _ => none
  | bound + 1, text => do
      let (part, afterPart) ← readKeyPart? (skipSpaces text)
      match skipSpaces afterPart with
      | '.' :: rest =>
          let ((path, last), rest) ← readKeyWithin? bound rest
          return ((part :: path, last), rest)
      | rest => return (([], part), rest)

def readKey? (text : Text) : Option ((List Text × Text) × Text) :=
  readKeyWithin? (nestingLimit - 1) text

def readPair? (readItem? : Text → Option (Item × Text)) (text : Text) :
    Option (((List Text × Text) × Item) × Text) := do
  let (key, afterKey) ← readKey? text
  let afterMark ← after? '=' afterKey
  let (item, rest) ← readItem? (skipSpaces afterMark)
  return ((key, item), rest)

/-- The items of an array up to its closing bracket. -/
def readItems? (readItem? : Text → Option (Item × Text)) :
    (bound : Nat) → Text → Option (List Item × Text)
  | 0, _ => none
  | bound + 1, text =>
      match skipTrivia false text with
      | ']' :: rest => some ([], rest)
      | start => do
          let (item, afterItem) ← readItem? start
          match skipTrivia false afterItem with
          | ',' :: rest =>
              let (items, rest) ← readItems? readItem? bound rest
              return (item :: items, rest)
          | ']' :: rest => return ([item], rest)
          | _ => none

/-- The pairs of a table between braces up to the closing one, at least one. -/
def readPairs? (readItem? : Text → Option (Item × Text)) :
    (bound : Nat) → Entries → Text → Option (Entries × Text)
  | 0, _, _ => none
  | bound + 1, entries, text => do
      let (((path, key), item), afterPair) ← readPair? readItem? text
      let entries ← addDotted? path key item entries
      match skipSpaces afterPair with
      | ',' :: rest => readPairs? readItem? bound entries rest
      | '\x7d' :: rest => return (entries, rest)
      | _ => none

/-- A value at the front of a text, nested less deeply than the given depth. -/
def readItem? : (depth : Nat) → Text → Option (Item × Text)
  | 0, _ => none
  | depth + 1, text =>
      match text with
      | '"' :: _ => (readString? text).map fun read => (.string read.1, read.2)
      | '\x27' :: _ => (readString? text).map fun read => (.string read.1, read.2)
      | '[' :: rest =>
          if depth = 0 then none
          else
            (readItems? (readItem? depth) (rest.length + 1) rest).map
              fun read => (.array read.1, read.2)
      | '\x7b' :: rest =>
          if depth = 0 then none
          else
            match skipSpaces rest with
            | '\x7d' :: rest => some (.table .braces [], rest)
            | pairs =>
                (readPairs? (readItem? depth) (pairs.length + 1) [] pairs).map
                  fun read => (.table .braces read.1, read.2)
      | _ => readScalar? text

/-- What is read of a document: its entries, and the path of the last header. -/
structure Progress where
  entries : Entries
  path : List Text

/-- Read a header between double brackets, after the opening ones. -/
def readElementHeader? (progress : Progress) (text : Text) : Option (Progress × Text) := do
  let ((path, key), rest) ← readKey? text
  let rest ← after? ']' (← after? ']' rest)
  let entries ← changeAt? (openElement? key) path progress.entries
  return (⟨entries, path ++ [key]⟩, rest)

/-- Read a header between brackets, after the opening one. -/
def readTableHeader? (progress : Progress) (text : Text) : Option (Progress × Text) := do
  let ((path, key), rest) ← readKey? text
  let rest ← after? ']' rest
  let entries ← changeAt? (openTable? key) path progress.entries
  return (⟨entries, path ++ [key]⟩, rest)

def readSetting? (progress : Progress) (text : Text) : Option (Progress × Text) := do
  let (((path, key), item), rest) ← readPair? (readItem? nestingLimit) text
  let entries ← changeAt? (addDotted? path key item) progress.path progress.entries
  return (⟨entries, progress.path⟩, rest)

def readLines? : (bound : Nat) → Progress → Text → Option Entries
  | 0, _, _ => none
  | bound + 1, progress, text =>
      match skipSpaces text with
      | [] => some progress.entries
      | '#' :: rest => do readLines? bound progress (← afterLine? ('#' :: rest))
      | '\n' :: rest => readLines? bound progress rest
      | '\r' :: '\n' :: rest => readLines? bound progress rest
      | '[' :: '[' :: rest => do
          let (progress, rest) ← readElementHeader? progress rest
          readLines? bound progress (← afterLine? rest)
      | '[' :: rest => do
          let (progress, rest) ← readTableHeader? progress rest
          readLines? bound progress (← afterLine? rest)
      | pair => do
          let (progress, rest) ← readSetting? progress pair
          readLines? bound progress (← afterLine? rest)

/-- The entries of a document, which may begin with a byte order mark. -/
def parse? (text : Text) : Option Entries :=
  let document :=
    match text with
    | '\ufeff' :: rest => rest
    | _ => text
  readLines? (document.length + 1) ⟨[], []⟩ document

end Scriptlet.Toml
