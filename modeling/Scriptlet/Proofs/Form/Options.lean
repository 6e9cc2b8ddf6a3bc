import Scriptlet.Proofs.Form.Attributes
import Scriptlet.Proofs.Json.Keys

/-!
# Options of a selection

A selection offers one option for each entry of an object, or for each item of an array under
its position.  Keys of an object differ, and so do printed positions.  So the printed form of
the selected argument is the value of at most one option, and that one is marked.
-/

namespace Scriptlet.Form

open Json (Value)

/-- The values of the options that an argument offers, with their labels: the keys of an object
in their order, or the positions of the items of an array.  Nothing else offers options. -/
inductive Offers : Value → List (Text × Text) → Prop where
  | object (entries : List (Text × Value)) :
      Offers (.object entries) (entries.map fun entry => (entry.1, scalar entry.2))
  | array (items : List Value) :
      Offers (.array items)
        (items.mapIdx fun position item => (Decimal.ofNat position, scalar item))
  | other {value : Value} (notObject : ∀ entries, value ≠ .object entries)
      (notArray : ∀ items, value ≠ .array items) : Offers value []

theorem offers_optionsOf (value : Value) : Offers value (optionsOf value) := by
  unfold optionsOf
  split
  · exact .object _
  · have positions (items : List Value) := List.mapIdx_eq_zipIdx_map (l := items)
      (f := fun position item => (Decimal.ofNat position, scalar item))
    rw [← positions]
    exact .array _
  · exact .other ‹_› ‹_›

/-- Different options have different values. -/
theorem Offers.nodup {value : Value} (distinct : value.DistinctKeys)
    {options : List (Text × Text)} (offers : Offers value options) :
    (options.map Prod.fst).Nodup := by
  cases offers with
  | object entries =>
      rw [List.map_map]
      exact distinct.keys_of_object
  | array items =>
      have positions : (items.mapIdx fun position item =>
          (Decimal.ofNat position, scalar item)).map Prod.fst =
            (List.range' 0 items.length).map Decimal.ofNat := by
        rw [List.mapIdx_eq_zipIdx_map, List.map_map, ← List.zipIdx_map_snd 0 items, List.map_map]
        rfl
      rw [positions]
      exact (List.nodup_range').map Decimal.ofNat_injective
  | other _ _ => exact List.nodup_nil

/-- An option as it is written. -/
structure Choice where
  value : Text
  label : Text
  marked : Bool

namespace Choice

def mark (choice : Choice) : Text :=
  if choice.marked then " selected".toList else []

def markup (choice : Choice) : Text :=
  "<option value=" ++ Text.inQuotes choice.value ++ choice.mark ++ ">" ++ choice.label ++
    "</option>"

/-- An option, marked where its value is the selected one. -/
def of (selected? : Option Text) (option : Text × Text) : Choice :=
  ⟨option.1, option.2, selected? = some option.1⟩

theorem renderOption_eq (selected? : Option Text) (option : Text × Text) :
    renderOption selected? option = (of selected? option).markup := by
  have marks : (of selected? option).mark =
      if selected? = some option.1 then " selected".toList else "".toList :=
    if_congr decide_eq_true_iff rfl rfl
  unfold markup
  rewrite [marks]
  rfl

section Marks

variable {selected? : Option Text} {options : List (Text × Text)}

theorem options_eq :
    (options.map (of selected?)).map (fun choice => (choice.value, choice.label)) = options := by
  rw [List.map_map]
  exact List.map_id _

theorem countP_marked (distinct : (options.map Prod.fst).Nodup) :
    (options.map (of selected?)).countP marked ≤ 1 := by
  rw [List.countP_map]
  cases selected? with
  | none => simp [of, Function.comp_def]
  | some selected =>
      have counted := List.nodup_iff_count_le_one.mp distinct selected
      rw [List.count, List.countP_map] at counted
      refine le_trans (List.countP_mono_left ?_) counted
      intro option _ marked
      simp only [Function.comp_apply, of, Option.some_inj, decide_eq_true_eq] at marked
      rw [Function.comp_apply, marked]
      exact beq_self_eq_true _

theorem marked_iff {choice : Choice} (listed : choice ∈ options.map (of selected?)) :
    choice.marked ↔ selected? = some choice.value := by
  obtain ⟨option, -, rfl⟩ := List.mem_map.mp listed
  exact decide_eq_true_iff

end Marks

end Choice

theorem chosen?_eq_some_iff {value : Value} {text : Text} :
    chosen? value = some text ↔ value ≠ .null ∧ scalar value = text := by
  cases value <;> simp [chosen?]

theorem argument_distinctKeys {arguments : List Value}
    (distinct : ∀ given ∈ arguments, given.DistinctKeys) (position : Nat) :
    (argument arguments position).DistinctKeys := by
  unfold argument
  cases given : arguments[position]? with
  | none => exact .null
  | some value => exact distinct value (List.mem_of_getElem? given)

/-- A selection writes one option for each one that its second argument offers.  At most one of
them is marked, and one is marked exactly where the fourth argument is not null and its printed
form is the value of an option. -/
theorem options_offered_once {arguments : List Value}
    (distinct : ∀ given ∈ arguments, given.DistinctKeys) (form : Form) :
    ∃ choices : List Choice,
      Offers (argument arguments 1) (choices.map fun choice => (choice.value, choice.label)) ∧
      dispatch "select" arguments form = .ok (none, ⟨form.buffer ++ ("<select" ++
        renderAttributes (.pair "name" (Text.trim (scalar (argument arguments 0))) ::
          attributesOf (argument arguments 2)) ++ ">" ++
        choices.flatMap Choice.markup ++ "</select>")⟩) ∧
      choices.countP Choice.marked ≤ 1 ∧
      ((∃ choice ∈ choices, choice.marked) ↔ argument arguments 3 ≠ .null ∧
        scalar (argument arguments 3) ∈ choices.map Choice.value) ∧
      ∀ choice ∈ choices, choice.marked → choice.value = scalar (argument arguments 3) := by
  let selected? := chosen? (argument arguments 3)
  let options := optionsOf (argument arguments 1)
  have offers : Offers (argument arguments 1) options := offers_optionsOf _
  have values := offers.nodup (argument_distinctKeys distinct 1)
  refine ⟨options.map (Choice.of selected?), ?_, ?_, Choice.countP_marked values, ?_, ?_⟩
  · rwa [Choice.options_eq]
  · rw [dispatch_of_add (ofMethod?_select arguments), Form.add, render_select, List.flatMap_map,
      funext (Choice.renderOption_eq selected?)]
  · constructor
    · rintro ⟨choice, listed, marked⟩
      obtain ⟨given, printed⟩ :=
        chosen?_eq_some_iff.mp ((Choice.marked_iff listed).mp marked)
      exact ⟨given, List.mem_map.mpr ⟨choice, listed, printed.symm⟩⟩
    · rintro ⟨given, member⟩
      obtain ⟨choice, listed, printed⟩ := List.mem_map.mp member
      exact ⟨choice, listed, (Choice.marked_iff listed).mpr
        (chosen?_eq_some_iff.mpr ⟨given, printed.symm⟩)⟩
  · intro choice listed marked
    exact (chosen?_eq_some_iff.mp ((Choice.marked_iff listed).mp marked)).2.symm

/-- Keys are compared as they are written: the number 1 selects the key `1` and not `01`. -/
theorem options_offered_once_of_numerals :
    let arguments : List Value :=
      [.string "c", .object [("01", .string "a"), ("1", .string "b")], .null,
       .number (.integer 1)]
    Value.parse? "[\"c\", \x7b\"01\": \"a\", \"1\": \"b\"\x7d, null, 1]" = some (.array arguments) ∧
      (∀ given ∈ arguments, given.DistinctKeys) ∧
      ∃ choices : List Choice, choices.map Choice.value = ["01".toList, "1".toList] ∧
        dispatch "select" arguments {} = .ok (none, ⟨"<select name=\"c\">".toList ++
          choices.flatMap Choice.markup ++ "</select>"⟩) ∧
        choices.countP Choice.marked ≤ 1 ∧ ∃ choice ∈ choices, choice.marked ∧
          choice.value = "1".toList := by
  intro arguments
  have parsed : Value.parse? "[\"c\", \x7b\"01\": \"a\", \"1\": \"b\"\x7d, null, 1]" =
      some (.array arguments) := rfl
  have distinct : ∀ given ∈ arguments, given.DistinctKeys :=
    (Value.distinctKeys_of_parse? parsed).each_of_array
  obtain ⟨choices, offers, written, once, marked, printed⟩ := options_offered_once distinct {}
  have values : choices.map Choice.value = ["01".toList, "1".toList] := by
    generalize same : choices.map (fun choice => (choice.value, choice.label)) = options at offers
    cases offers with
    | object entries =>
        have firsts := congrArg (List.map Prod.fst) same
        rwa [List.map_map] at firsts
    | other notObject _ => exact absurd rfl (notObject _)
  obtain ⟨choice, listed, mark⟩ := marked.mpr ⟨by rintro ⟨⟩, by rw [values]; decide⟩
  exact ⟨parsed, distinct, choices, values, written, once, choice, listed, mark,
    printed choice listed mark⟩

end Scriptlet.Form
