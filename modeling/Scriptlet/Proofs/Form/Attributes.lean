import Mathlib.Data.List.Forall2
import Scriptlet.Form.Dispatch
import Scriptlet.Proofs.Decimal.Integer

/-!
# Attribute objects

The entries of an object that is given as attributes become one token each, in their order.
The key of an entry decides whether it is a flag or a pair: a numeral marks a flag, but only
where it fits a signed word of 64 bits.  What is written around the tokens does not depend on
the object.
-/

namespace Scriptlet.Form

open Json (Value)
open Decimal (Denotes)

/-- How an entry of an object is written as an attribute. -/
inductive WritesEntry : Text × Value → Text → Prop where
  | flag {key : Text} {number : Int} (integer : Denotes key number)
      (fits : -(2 ^ 63) ≤ number ∧ number < 2 ^ 63) (value : Value) :
      WritesEntry (key, value) (scalar value)
  | pair {key : Text}
      (other : ∀ number, Denotes key number → number < -(2 ^ 63) ∨ 2 ^ 63 ≤ number)
      (value : Value) : WritesEntry (key, value) (key ++ "=\"" ++ scalar value ++ "\"")

theorem WritesEntry.unique {entry : Text × Value} {token other : Text}
    (writes : WritesEntry entry token) (otherWrites : WritesEntry entry other) :
    token = other := by
  cases writes with
  | flag integer fits value =>
      cases otherWrites with
      | flag _ _ _ => rfl
      | pair beyond _ =>
          have outside := beyond _ integer
          omega
  | pair beyond value =>
      cases otherWrites with
      | flag integer fits _ =>
          have outside := beyond _ integer
          omega
      | pair _ _ => rfl

theorem writes_attributeOfEntry (entry : Text × Value) :
    WritesEntry entry (attributeOfEntry entry).render := by
  obtain ⟨key, value⟩ := entry
  have limit : (Decimal.signedLimit64 : Int) = 2 ^ 63 := by decide
  cases read : Decimal.readSigned64? key with
  | some number =>
      obtain ⟨integer, fits⟩ := Decimal.readSigned64?_eq_some_iff.mp read
      rw [Decimal.fitsSigned64_iff, limit] at fits
      have written : (attributeOfEntry (key, value)).render = scalar value := by
        simp [attributeOfEntry, read, Attribute.render]
      rw [written]
      exact .flag integer fits value
  | none =>
      have written : (attributeOfEntry (key, value)).render =
          key ++ "=\"" ++ scalar value ++ "\"" := by
        simp [attributeOfEntry, read, Attribute.render, Text.inQuotes]
      rw [written]
      refine .pair (fun number integer => ?_) value
      by_contra inside
      have fits : Decimal.fitsSigned64 number := by
        rw [Decimal.fitsSigned64_iff, limit]
        omega
      have readable := Decimal.readSigned64?_eq_some_iff.mpr ⟨integer, fits⟩
      rw [read] at readable
      cases readable

theorem writes_entries (entries : List (Text × Value)) :
    List.Forall₂ WritesEntry entries
      (entries.map fun entry => (attributeOfEntry entry).render) := by
  rw [List.forall₂_map_right_iff]
  exact List.forall₂_same.mpr fun entry _ => writes_attributeOfEntry entry

/-- Tokens with one space between them, and one in front. -/
def spaced (tokens : List Text) : Text :=
  if tokens = [] then [] else ' ' :: List.intercalate [' '] tokens

theorem spaced_cons (token : Text) (tokens : List Text) :
    spaced (token :: tokens) = ' ' :: token ++ spaced tokens := by
  cases tokens with
  | nil => simp [spaced]
  | cons second tokens => simp [spaced, List.intercalate_cons_cons]

theorem renderAttributes_eq (attributes : List Attribute) :
    renderAttributes attributes = spaced (attributes.map Attribute.render) := by
  induction attributes with
  | nil => rfl
  | cons first others induction =>
      rw [List.map_cons, spaced_cons, ← induction]
      rfl

theorem renderAttributes_append (left right : List Attribute) :
    renderAttributes (left ++ right) = renderAttributes left ++ renderAttributes right :=
  List.flatMap_append

section Calls

/-- An argument of a call, where a missing one is null. -/
def argument (arguments : List Value) (position : Nat) : Value :=
  arguments[position]?.getD .null

theorem argument_set_self {arguments : List Value} {position : Nat}
    (given : position < arguments.length) (value : Value) :
    argument (arguments.set position value) position = value := by
  rw [argument, List.getElem?_set_self given, Option.getD_some]

theorem argument_set_of_ne {position other : Nat} (differs : position ≠ other)
    (arguments : List Value) (value : Value) :
    argument (arguments.set position value) other = argument arguments other := by
  rw [argument, argument, List.getElem?_set_ne differs]

/-- The value that an argument selects, where it is not null. -/
def chosen? : Value → Option Text
  | .null => none
  | value => some (scalar value)

variable (arguments : List Value)

theorem ofMethod?_start :
    Call.ofMethod? "start" arguments =
      some (.add (.opening (scalar (argument arguments 0))
        (scalarOr "POST" (argument arguments 1)) (attributesOf (argument arguments 2)))) :=
  rfl

theorem ofMethod?_input :
    Call.ofMethod? "input" arguments =
      some (.add (.input (scalar (argument arguments 0))
        (scalarOr "text" (argument arguments 1)) (attributesOf (argument arguments 2)))) :=
  rfl

theorem ofMethod?_textarea :
    Call.ofMethod? "textarea" arguments =
      some (.add (.textarea (scalar (argument arguments 0)) (scalar (argument arguments 1))
        (attributesOf (argument arguments 2)))) :=
  rfl

theorem ofMethod?_button :
    Call.ofMethod? "button" arguments =
      some (.add (.button (scalar (argument arguments 0))
        (attributesOf (argument arguments 1)))) :=
  rfl

theorem ofMethod?_select :
    Call.ofMethod? "select" arguments =
      some (.add (.select (scalar (argument arguments 0)) (optionsOf (argument arguments 1))
        (attributesOf (argument arguments 2)) (chosen? (argument arguments 3)))) := by
  simp only [Call.ofMethod?, chosen?, argument]
  rfl

end Calls

theorem renderAttributes_cons (first : Attribute) (others : List Attribute) :
    renderAttributes (first :: others) = renderAttributes [first] ++ renderAttributes others :=
  renderAttributes_append [first] others

section Elements

variable (name type value : Text) (attributes : List Attribute)

theorem render_opening (action method : Text) :
    (Element.opening action method attributes).render =
      "<form" ++ renderAttributes
        (unlessEmpty "action" action ++ .pair "method" method :: attributes) ++ ">" :=
  rfl

theorem render_input :
    (Element.input name type attributes).render =
      "<input" ++ renderAttributes
        (.pair "type" (Text.trim type) :: unlessEmpty "name" (Text.trim name) ++ attributes) ++
        " />" :=
  rfl

theorem render_textarea :
    (Element.textarea name value attributes).render =
      "<textarea" ++ renderAttributes (unlessEmpty "name" (Text.trim name) ++ attributes) ++
        ">" ++ value ++ "</textarea>" :=
  rfl

theorem render_button :
    (Element.button value attributes).render =
      "<button" ++ renderAttributes attributes ++ ">" ++ value ++ "</button>" :=
  rfl

theorem render_select (options : List (Text × Text)) (selected? : Option Text) :
    (Element.select name options attributes selected?).render =
      "<select" ++ renderAttributes (.pair "name" (Text.trim name) :: attributes) ++ ">" ++
        options.flatMap (renderOption selected?) ++ "</select>" :=
  rfl

end Elements

/-- The methods with attributes, and the position of these among the arguments. -/
inductive TakesAttributes : (method : Text) → (position : Nat) → Prop where
  | start : TakesAttributes "start" 2
  | input : TakesAttributes "input" 2
  | textarea : TakesAttributes "textarea" 2
  | button : TakesAttributes "button" 1
  | select : TakesAttributes "select" 2

/-- What a method writes around the attributes that it is given does not depend on them. -/
theorem exists_frame {method : Text} {position : Nat}
    (takes : TakesAttributes method position) {arguments : List Value}
    (given : position < arguments.length) :
    ∃ before after, ∀ value, ∃ element,
      Call.ofMethod? method (arguments.set position value) = some (.add element) ∧
      element.render = before ++ renderAttributes (attributesOf value) ++ after := by
  let text (other : Nat) : Text := scalar (argument arguments other)
  let named (name : Text) : List Attribute := unlessEmpty "name" (Text.trim name)
  have own := argument_set_self given
  have others (other : Nat) (differs : position ≠ other) (value : Value) :=
    argument_set_of_ne differs arguments value
  cases takes with
  | start =>
      let methodName := scalarOr "POST" (argument arguments 1)
      refine ⟨"<form".toList ++ renderAttributes (unlessEmpty "action" (text 0) ++
        [.pair "method" methodName]), ">".toList, fun value => ⟨_, ofMethod?_start _, ?_⟩⟩
      rw [render_opening, own, others _ (by decide), others _ (by decide), List.append_cons,
        renderAttributes_append, ← List.append_assoc]
  | input =>
      let type := scalarOr "text" (argument arguments 1)
      refine ⟨"<input".toList ++ renderAttributes
          (.pair "type" (Text.trim type) :: named (text 0)),
        " />".toList, fun value => ⟨_, ofMethod?_input _, ?_⟩⟩
      rw [render_input, own, others _ (by decide), others _ (by decide),
        renderAttributes_append, ← List.append_assoc]
  | textarea =>
      refine ⟨"<textarea".toList ++ renderAttributes (named (text 0)),
        ">".toList ++ text 1 ++ "</textarea>", fun value => ⟨_, ofMethod?_textarea _, ?_⟩⟩
      rw [render_textarea, own, others _ (by decide), others _ (by decide),
        renderAttributes_append]
      simp only [List.append_assoc, named, text]
  | button =>
      refine ⟨"<button", ">".toList ++ text 0 ++ "</button>",
        fun value => ⟨_, ofMethod?_button _, ?_⟩⟩
      rw [render_button, own, others _ (by decide)]
      simp only [List.append_assoc, text]
  | select =>
      let options := (optionsOf (argument arguments 1)).flatMap
        (renderOption (chosen? (argument arguments 3)))
      refine ⟨"<select".toList ++ renderAttributes [.pair "name" (Text.trim (text 0))],
        ">".toList ++ options ++ "</select>", fun value => ⟨_, ofMethod?_select _, ?_⟩⟩
      rw [render_select, own, others _ (by decide), others _ (by decide),
        others _ (by decide), renderAttributes_cons]
      simp only [List.append_assoc, options, text]

theorem dispatch_of_add {method : Text} {arguments : List Value} {element : Element}
    (known : Call.ofMethod? method arguments = some (.add element)) (form : Form) :
    dispatch method arguments form = .ok (none, form.add element) := by
  simp only [dispatch, known, Call.run]

/-- An object that is given as attributes is written as one token for each of its entries, in
their order, with one space in front of each.  A numeral as the key of an entry makes the
printed value a flag if it fits a signed word of 64 bits.  Every other entry is a pair. -/
theorem attributes_written {method : Text} {position : Nat}
    (takes : TakesAttributes method position) {arguments : List Value}
    (given : position < arguments.length) (form : Form) :
    ∃ before after, ∀ entries, ∃ tokens, List.Forall₂ WritesEntry entries tokens ∧
      dispatch method (arguments.set position (.object entries)) form =
        .ok (none, ⟨form.buffer ++ (before ++ spaced tokens ++ after)⟩) := by
  obtain ⟨before, after, frame⟩ := exists_frame takes given
  refine ⟨before, after, fun entries => ⟨_, writes_entries entries, ?_⟩⟩
  obtain ⟨element, known, rendered⟩ := frame (.object entries)
  rw [dispatch_of_add known, Form.add, rendered, renderAttributes_eq, attributesOf,
    List.map_map]
  rfl

/-- Signs and leading zeros are no matter for a flag, and a fraction makes no numeral. -/
theorem attributes_written_of_button :
    let entries : List (Text × Value) :=
      [("-007", .string "required"), ("size", .number (.integer 20)), ("+1", .boolean true),
       ("1.0", .null)]
    (TakesAttributes "button" 1 ∧ 1 < [Value.string "go", .null].length) ∧
      ∃ before after, dispatch "button" [.string "go", .object entries] {} =
        .ok (none, ⟨before ++ " required size=\"20\" true 1.0=\"\"" ++ after⟩) := by
  intro entries
  have given : 1 < [Value.string "go", .null].length := by decide
  obtain ⟨before, after, written⟩ := attributes_written .button given {}
  obtain ⟨tokens, each, answered⟩ := written entries
  have unique : Relator.RightUnique WritesEntry := fun _ _ _ => WritesEntry.unique
  have same := List.right_unique_forall₂' unique each (writes_entries entries)
  subst same
  exact ⟨⟨.button, given⟩, before, after, answered⟩

/-- An integer key is written in front of its value where it is beyond the words of 64 bits. -/
theorem integer_key_makes_pair :
    Denotes "9223372036854775808" 9223372036854775808 ∧
    dispatch "button" [.string "go", .object [("9223372036854775808".toList, .string "required")]]
        {} = .ok (none, ⟨"<button 9223372036854775808=\"required\">go</button>"⟩) := by
  constructor
  · exact .unsigned (by decide) (by decide)
  · rfl

end Scriptlet.Form
