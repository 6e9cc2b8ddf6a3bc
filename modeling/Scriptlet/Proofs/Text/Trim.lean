import Mathlib.Data.List.DropRight
import Scriptlet.Text.Blank
import Scriptlet.Text.Unquote

/-!
# Trimmed texts

Trimming keeps a passage of the text.  A text that is put together from items can
be trimmed item by item, where some items are single blanks and the others neither
begin nor end with one.
-/

namespace Scriptlet

namespace Text

theorem trimBy_isPrefix (unwanted : Char → Bool) (text : Text) :
    trimBy unwanted text <+: text.dropWhile unwanted := by
  rw [trimBy, ← List.reverse_suffix, List.reverse_reverse]
  exact List.dropWhile_suffix unwanted

theorem trimBy_isInfix (unwanted : Char → Bool) (text : Text) :
    trimBy unwanted text <:+: text := by
  have front : text.dropWhile unwanted <:+ text := List.dropWhile_suffix unwanted
  exact (trimBy_isPrefix unwanted text).isInfix.trans front.isInfix

/-- Trimming takes away unwanted characters only. -/
theorem trimBy_parts (unwanted : Char → Bool) (text : Text) :
    ∃ left right, text = left ++ (trimBy unwanted text ++ right) ∧
      (∀ character ∈ left, unwanted character = true) ∧
      ∀ character ∈ right, unwanted character = true := by
  let kept := text.dropWhile unwanted
  have keptParts : kept = trimBy unwanted text ++ (kept.reverse.takeWhile unwanted).reverse := by
    rw [trimBy, ← List.reverse_append, List.takeWhile_append_dropWhile, List.reverse_reverse]
  refine ⟨text.takeWhile unwanted, (kept.reverse.takeWhile unwanted).reverse, ?_, ?_, ?_⟩
  · rw [← keptParts]
    exact List.takeWhile_append_dropWhile.symm
  · intro character member
    exact List.mem_takeWhile_imp member
  · intro character member
    exact List.mem_takeWhile_imp (List.mem_reverse.mp member)

/-- A text without unwanted characters stays as it is. -/
theorem trimBy_of_wanted {unwanted : Char → Bool} {text : Text}
    (wanted : ∀ character ∈ text, unwanted character = false) :
    trimBy unwanted text = text := by
  have kept : ∀ passage : Text, (∀ character ∈ passage, unwanted character = false) →
      passage.dropWhile unwanted = passage := by
    intro passage passageWanted
    cases passage with
    | nil => rfl
    | cons head tail =>
        have headWanted := passageWanted head List.mem_cons_self
        exact List.dropWhile_cons_of_neg (Bool.eq_false_iff.mp headWanted)
  have backwards : ∀ character ∈ text.reverse, unwanted character = false :=
    fun character member => wanted character (List.mem_reverse.mp member)
  rw [trimBy, kept text wanted, kept text.reverse backwards, List.reverse_reverse]

/-- A trimmed text has nothing left to trim. -/
theorem trimBy_trimBy (unwanted : Char → Bool) (text : Text) :
    trimBy unwanted (trimBy unwanted text) = trimBy unwanted text := by
  have front : (trimBy unwanted text).dropWhile unwanted = trimBy unwanted text := by
    obtain ⟨further, whole⟩ := trimBy_isPrefix unwanted text
    cases kept : trimBy unwanted text with
    | nil => rfl
    | cons head tail =>
        have solid := List.head?_dropWhile_not unwanted text
        rw [← whole, kept] at solid
        exact List.dropWhile_cons_of_neg (Bool.eq_false_iff.mp solid)
  have back : trimBy unwanted (trimBy unwanted text) =
      ((trimBy unwanted text).reverse.dropWhile unwanted).reverse := by
    rw [trimBy, front]
  rw [back, trimBy, List.reverse_reverse, List.dropWhile_idempotent]

theorem trim_isInfix (text : Text) : trim text <:+: text :=
  trimBy_isInfix isBlank text

/-- Dropping unwanted characters keeps a passage that does not begin with one. -/
theorem isInfix_dropWhile {unwanted : Char → Bool} {passage text : Text}
    (first : ∃ character, [character] <+: passage ∧ unwanted character = false)
    (inside : passage <:+: text) : passage <:+: text.dropWhile unwanted := by
  obtain ⟨character, begins, wanted⟩ := first
  induction text with
  | nil => exact inside
  | cons head tail induction =>
      cases drops : unwanted head with
      | false => rwa [List.dropWhile_cons_of_neg (by simp [drops])]
      | true =>
          rw [List.dropWhile_cons_of_pos drops]
          rcases List.infix_cons_iff.mp inside with here | later
          · have same := (List.cons_prefix_cons.mp (begins.trans here)).1
            rw [same, drops] at wanted
            cases wanted
          · exact induction later

/-- Unwanted characters in front of a text are trimmed away. -/
theorem trimBy_unwanted_append {unwanted : Char → Bool} {left : Text}
    (allUnwanted : ∀ character ∈ left, unwanted character = true) (text : Text) :
    trimBy unwanted (left ++ text) = trimBy unwanted text := by
  rw [trimBy, List.dropWhile_append_of_pos allUnwanted]
  rfl

/-- Unwanted characters behind a text are trimmed away. -/
theorem trimBy_append_unwanted {unwanted : Char → Bool} {right : Text}
    (allUnwanted : ∀ character ∈ right, unwanted character = true) (text : Text) :
    trimBy unwanted (text ++ right) = trimBy unwanted text := by
  have reversed : ∀ character ∈ right.reverse, unwanted character = true := by
    intro character member
    exact allUnwanted character (List.mem_reverse.mp member)
  simp only [trimBy, List.dropWhile_append]
  split
  · rename_i nothingLeft
    have gone : right.dropWhile unwanted = [] := List.dropWhile_eq_nil_iff.mpr allUnwanted
    have textGone : text.dropWhile unwanted = [] := List.isEmpty_iff.mp nothingLeft
    rw [gone, textGone]
  · rw [List.reverse_append, List.dropWhile_append_of_pos reversed]

theorem unquote_isInfix (text : Text) : unquote text <:+: text :=
  trimBy_isInfix isQuoting text

end Text

def trimItems {α : Type} (unwanted : α → Bool) (items : List α) : List α :=
  ((items.dropWhile unwanted).reverse.dropWhile unwanted).reverse

theorem trimItems_isInfix {α : Type} (unwanted : α → Bool) (items : List α) :
    trimItems unwanted items <:+: items := by
  have front : items.dropWhile unwanted <:+ items := List.dropWhile_suffix unwanted
  have back : trimItems unwanted items <+: items.dropWhile unwanted := by
    rw [trimItems, ← List.reverse_suffix, List.reverse_reverse]
    exact List.dropWhile_suffix unwanted
  exact back.isInfix.trans front.isInfix

/-- How an item is written: as one blank, or with neither end blank. -/
structure WrittenTightly {α : Type} (blank : α → Bool) (written : α → Text) (item : α) :
    Prop where
  ofBlank : blank item = true →
    ∃ character, written item = [character] ∧ Text.isBlank character = true
  head : blank item = false →
    ∃ character, (written item).head? = some character ∧ Text.isBlank character = false
  last : blank item = false →
    ∃ character, (written item).getLast? = some character ∧ Text.isBlank character = false

section

variable {α : Type} {blank : α → Bool} {written : α → Text}

private theorem dropWhile_flatMap {items : List α}
    (ofBlank : ∀ item ∈ items, blank item = true →
      ∃ character, written item = [character] ∧ Text.isBlank character = true)
    (head : ∀ item ∈ items, blank item = false →
      ∃ character, (written item).head? = some character ∧ Text.isBlank character = false) :
    (items.flatMap written).dropWhile Text.isBlank =
      (items.dropWhile blank).flatMap written := by
  induction items with
  | nil => rfl
  | cons item items induction =>
      cases isBlank : blank item with
      | true =>
          obtain ⟨character, writtenEq, characterBlank⟩ :=
            ofBlank item List.mem_cons_self isBlank
          have tail := induction
            (fun other member => ofBlank other (List.mem_cons_of_mem item member))
            (fun other member => head other (List.mem_cons_of_mem item member))
          simp [writtenEq, characterBlank, isBlank, tail]
      | false =>
          obtain ⟨character, headEq, characterBlank⟩ := head item List.mem_cons_self isBlank
          cases whole : written item with
          | nil => simp [whole] at headEq
          | cons first others =>
              have same : first = character := by simpa [whole] using headEq
              subst same
              simp [whole, isBlank, characterBlank]

theorem trim_flatMap {items : List α}
    (tight : ∀ item ∈ items, WrittenTightly blank written item) :
    Text.trim (items.flatMap written) = (trimItems blank items).flatMap written := by
  have front : (items.flatMap written).dropWhile Text.isBlank =
      (items.dropWhile blank).flatMap written :=
    dropWhile_flatMap (fun item member => (tight item member).ofBlank)
      (fun item member => (tight item member).head)
  have remaining : ∀ item ∈ (items.dropWhile blank).reverse,
      WrittenTightly blank written item := by
    intro item member
    apply tight
    exact (List.dropWhile_sublist blank).subset (List.mem_reverse.mp member)
  have back : (((items.dropWhile blank).flatMap written).reverse).dropWhile Text.isBlank =
      ((items.dropWhile blank).reverse.dropWhile blank).flatMap
        fun item => (written item).reverse := by
    rw [List.reverse_flatMap]
    apply dropWhile_flatMap
    · intro item member isBlank
      obtain ⟨character, writtenEq, characterBlank⟩ := (remaining item member).ofBlank isBlank
      exact ⟨character, by simp [writtenEq], characterBlank⟩
    · intro item member isBlank
      obtain ⟨character, lastEq, characterBlank⟩ := (remaining item member).last isBlank
      exact ⟨character, by simpa using lastEq, characterBlank⟩
  rw [Text.trim, Text.trimBy, front, back, trimItems, List.flatMap_reverse]
  simp [Function.comp_def]

/-- Items that are blanks at the ends do not matter for the trimmed text. -/
theorem trim_flatMap_trimItems {items : List α}
    (ofBlank : ∀ item ∈ items, blank item = true →
      ∃ character, written item = [character] ∧ Text.isBlank character = true) :
    Text.trim ((trimItems blank items).flatMap written) =
      Text.trim (items.flatMap written) := by
  let kept := items.dropWhile blank
  have keptMember : ∀ item ∈ kept, item ∈ items :=
    fun item member => (List.dropWhile_sublist blank).subset member
  have writtenBlank : ∀ item ∈ items, blank item = true →
      ∀ character ∈ written item, Text.isBlank character = true := by
    intro item member isBlank character written_
    obtain ⟨only, writtenEq, onlyBlank⟩ := ofBlank item member isBlank
    rw [writtenEq, List.mem_singleton] at written_
    exact written_ ▸ onlyBlank
  have front : Text.trim (items.flatMap written) = Text.trim (kept.flatMap written) := by
    have parts : items.flatMap written =
        (items.takeWhile blank).flatMap written ++ kept.flatMap written := by
      rw [← List.flatMap_append, List.takeWhile_append_dropWhile]
    rw [parts]
    apply Text.trimBy_unwanted_append
    intro character member
    obtain ⟨item, itemMember, written_⟩ := List.mem_flatMap.mp member
    exact writtenBlank item ((List.takeWhile_sublist blank).subset itemMember)
      (List.mem_takeWhile_imp itemMember) character written_
  have split : kept = trimItems blank items ++ (kept.reverse.takeWhile blank).reverse := by
    rw [trimItems, ← List.reverse_append, List.takeWhile_append_dropWhile,
      List.reverse_reverse]
  rw [front, split, List.flatMap_append]
  symm
  apply Text.trimBy_append_unwanted
  intro character member
  obtain ⟨item, itemMember, written_⟩ := List.mem_flatMap.mp member
  have taken : item ∈ kept.reverse.takeWhile blank := List.mem_reverse.mp itemMember
  have inKept : item ∈ kept :=
    List.mem_reverse.mp ((List.takeWhile_sublist blank).subset taken)
  exact writtenBlank item (keptMember item inKept) (List.mem_takeWhile_imp taken)
    character written_

end

end Scriptlet
