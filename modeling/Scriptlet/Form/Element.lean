import Scriptlet.Text.Blank

/-!
# Form markup

The elements of an HTML form and how each one is written.  Values are written as
they are given, so whoever builds an element escapes what is not trusted.
-/

namespace Scriptlet.Form

inductive Attribute where
  /-- Written `key="value"`. -/
  | pair (key value : Text)
  | flag (token : Text)
deriving DecidableEq

def Attribute.render : Attribute → Text
  | .pair key value => key ++ "=" ++ Text.inQuotes value
  | .flag token => token

/-- Attributes as they follow the name of an element, each after one space. -/
def renderAttributes (attributes : List Attribute) : Text :=
  attributes.flatMap fun given => ' ' :: given.render

/-- An attribute that is left out where its value is empty. -/
def unlessEmpty (key value : Text) : List Attribute :=
  if value = [] then [] else [.pair key value]

inductive Element where
  | opening (action method : Text) (attributes : List Attribute)
  | closing
  | label (text target : Text)
  | input (name type : Text) (attributes : List Attribute)
  | submit (value : Text)
  | button (value : Text) (attributes : List Attribute)
  | textarea (name value : Text) (attributes : List Attribute)
  | select (name : Text) (options : List (Text × Text)) (attributes : List Attribute)
      (selected? : Option Text)
  | raw (markup : Text)
deriving DecidableEq

def renderInput (name type : Text) (attributes : List Attribute) : Text :=
  "<input"
    ++ renderAttributes
      (.pair "type" (Text.trim type) :: unlessEmpty "name" (Text.trim name) ++ attributes)
    ++ " />"

/-- The markup of one option, given the value that is selected. -/
def renderOption (selected? : Option Text) (option : Text × Text) : Text :=
  let marker : Text := if selected? = some option.1 then " selected" else ""
  "<option value=" ++ Text.inQuotes option.1 ++ marker ++ ">" ++ option.2 ++ "</option>"

def Element.render : Element → Text
  | .opening action method attributes =>
      "<form"
        ++ renderAttributes (unlessEmpty "action" action ++ .pair "method" method :: attributes)
        ++ ">"
  | .closing => "</form>"
  | .label text target =>
      "<label for=" ++ Text.inQuotes (Text.trim target) ++ ">" ++ text ++ "</label>"
  | .input name type attributes => renderInput name type attributes
  | .submit value => renderInput "" "submit" [.pair "value" value]
  | .button value attributes =>
      "<button" ++ renderAttributes attributes ++ ">" ++ value ++ "</button>"
  | .textarea name value attributes =>
      "<textarea" ++ renderAttributes (unlessEmpty "name" (Text.trim name) ++ attributes)
        ++ ">" ++ value ++ "</textarea>"
  | .select name options attributes selected? =>
      "<select" ++ renderAttributes (.pair "name" (Text.trim name) :: attributes) ++ ">"
        ++ options.flatMap (renderOption selected?) ++ "</select>"
  | .raw markup => markup

end Scriptlet.Form
