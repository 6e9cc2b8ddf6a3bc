import Mathlib.Data.List.Infix
import Scriptlet.Text

/-!
# Texts without marks

Comments and echoes begin with two braces or with a brace and two exclamation marks.
In a quiet text no brace begins one of these marks, whatever text follows, so quiet
texts can be put together.
-/

namespace Scriptlet.Text

/-- Whether a brace in front of a text begins no mark, whatever follows the text. -/
def quietsBrace : Text → Bool
  | next :: after :: _ => next ≠ '\x7b' && !(next = '!' && after = '!')
  | _ => false

/-- Whether no brace of a text begins a mark, whatever follows the text. -/
def isQuiet : Text → Bool
  | [] => true
  | head :: tail => (head ≠ '\x7b' || quietsBrace tail) && isQuiet tail

theorem quietsBrace_iff {next after : Char} {others : Text} :
    quietsBrace (next :: after :: others) = true ↔
      next ≠ '\x7b' ∧ ¬ (next = '!' ∧ after = '!') := by
  simp only [quietsBrace, Bool.and_eq_true, decide_eq_true_eq, Bool.not_eq_true',
    Bool.and_eq_false_iff, decide_eq_false_iff_not, Decidable.not_and_iff_not_or_not]

/-- Whether no mark reaches from the text before into this text. -/
def separates : Text → Bool
  | first :: _ :: _ => first ≠ '\x7b' && first ≠ '!'
  | _ => false

def Unmarked (text : Text) : Prop :=
  ∀ mark ∈ ["\x7b\x7b", "\x7b!!"], ¬ mark.toList <:+: text

theorem quietsBrace_append {left : Text} (quiet : quietsBrace left = true) (right : Text) :
    quietsBrace (left ++ right) = true := by
  match left, quiet with
  | next :: after :: others, quiet => exact quiet

theorem isQuiet_append {left right : Text} (leftQuiet : isQuiet left = true)
    (rightQuiet : isQuiet right = true) : isQuiet (left ++ right) = true := by
  induction left with
  | nil => exact rightQuiet
  | cons head tail induction =>
      simp only [isQuiet, Bool.and_eq_true, Bool.or_eq_true] at leftQuiet
      simp only [List.cons_append, isQuiet, Bool.and_eq_true, Bool.or_eq_true]
      refine ⟨?_, induction leftQuiet.2⟩
      rcases leftQuiet.1 with other | quiet
      · exact .inl other
      · exact .inr (quietsBrace_append quiet right)

theorem isQuiet_flatMap {α : Type} {written : α → Text} {items : List α}
    (each : ∀ item ∈ items, isQuiet (written item) = true) :
    isQuiet (items.flatMap written) = true := by
  induction items with
  | nil => rfl
  | cons item items induction =>
      rw [List.flatMap_cons]
      exact isQuiet_append (each item List.mem_cons_self)
        (induction fun other member => each other (List.mem_cons_of_mem item member))

theorem isQuiet_of_unbraced {text : Text} (unbraced : '\x7b' ∉ text) : isQuiet text = true := by
  induction text with
  | nil => rfl
  | cons head tail induction =>
      rw [List.mem_cons, not_or] at unbraced
      simp [isQuiet, Ne.symm unbraced.1, induction unbraced.2]

/-- A text without marks is quiet in front of a quiet text that separates it from what
follows. -/
theorem isQuiet_append_of_unmarked {text closing : Text} (unmarked : Unmarked text)
    (separate : separates closing = true) (quiet : isQuiet closing = true) :
    isQuiet (text ++ closing) = true := by
  obtain ⟨first, second, others, rfl, brace, exclamation⟩ : ∃ first second others,
      closing = first :: second :: others ∧ first ≠ '\x7b' ∧ first ≠ '!' := by
    match closing, separate with
    | first :: second :: others, separate =>
        simp only [separates, Bool.and_eq_true, decide_eq_true_eq] at separate
        exact ⟨first, second, others, rfl, separate⟩
  induction text with
  | nil => exact quiet
  | cons head tail induction =>
      have further := induction fun mark listed infixed =>
        unmarked mark listed (List.infix_cons infixed)
      simp only [List.cons_append, isQuiet, Bool.and_eq_true, Bool.or_eq_true]
      refine ⟨?_, further⟩
      by_cases other : head = '\x7b'
      · subst other
        refine .inr ?_
        have notBraces : ∀ rest, tail ≠ '\x7b' :: rest := by
          rintro rest rfl
          exact unmarked _ List.mem_cons_self ⟨[], rest, rfl⟩
        have notExclamations : ∀ rest, tail ≠ '!' :: '!' :: rest := by
          rintro rest rfl
          exact unmarked _ (List.mem_cons_of_mem _ List.mem_cons_self) ⟨[], rest, rfl⟩
        match tail with
        | [] => simp [quietsBrace, brace, exclamation]
        | [next] =>
            have next_ne : next ≠ '\x7b' := fun same => notBraces [] (by rw [same])
            simp [quietsBrace, next_ne, exclamation]
        | next :: after :: rest =>
            have next_ne : next ≠ '\x7b' := fun same => notBraces (after :: rest) (by rw [same])
            have pair : ¬ (next = '!' ∧ after = '!') := by
              rintro ⟨rfl, rfl⟩
              exact notExclamations rest rfl
            exact quietsBrace_iff.mpr ⟨next_ne, pair⟩
      · exact .inl (by simpa using other)

theorem isQuiet_between {opening middle closing : Text} (openingQuiet : isQuiet opening = true)
    (unmarked : Unmarked middle) (separate : separates closing = true)
    (closingQuiet : isQuiet closing = true) : isQuiet (opening ++ middle ++ closing) = true := by
  rw [List.append_assoc]
  exact isQuiet_append openingQuiet (isQuiet_append_of_unmarked unmarked separate closingQuiet)

theorem not_mark_prefix {tail : Text} (quiet : quietsBrace tail = true) {mark : String}
    (listed : mark ∈ ["\x7b\x7b", "\x7b!!"]) (rest : Text) :
    ¬ mark.toList <+: '\x7b' :: (tail ++ rest) := by
  match tail, quiet with
  | next :: after :: others, quiet =>
      rw [quietsBrace_iff] at quiet
      intro begins
      simp only [List.mem_cons, List.not_mem_nil, or_false] at listed
      rcases listed with rfl | rfl
      · have braces : ['\x7b', '\x7b'] <+: '\x7b' :: next :: after :: (others ++ rest) := begins
        simp only [List.cons_prefix_cons, true_and] at braces
        exact quiet.1 braces.1.symm
      · have marks : ['\x7b', '!', '!'] <+: '\x7b' :: next :: after :: (others ++ rest) := begins
        simp only [List.cons_prefix_cons, true_and] at marks
        exact quiet.2 ⟨marks.1.symm, marks.2.1.symm⟩

theorem unmarked_of_isQuiet {text : Text} (quiet : isQuiet text = true) : Unmarked text := by
  intro mark listed infixed
  induction text with
  | nil =>
      have empty := List.infix_nil.mp infixed
      simp only [List.mem_cons, List.not_mem_nil, or_false] at listed
      rcases listed with rfl | rfl <;> cases empty
  | cons head tail induction =>
      simp only [isQuiet, Bool.and_eq_true, Bool.or_eq_true, decide_eq_true_eq] at quiet
      rcases List.infix_cons_iff.mp infixed with begins | later
      · by_cases brace : head = '\x7b'
        · have quietTail := quiet.1.resolve_left (fun other => other brace)
          have plain := not_mark_prefix quietTail listed []
          rw [List.append_nil] at plain
          exact plain (brace ▸ begins)
        · simp only [List.mem_cons, List.not_mem_nil, or_false] at listed
          rcases listed with rfl | rfl <;>
            exact brace (List.cons_prefix_cons.mp begins).1.symm
      · exact induction quiet.2 later

end Scriptlet.Text
