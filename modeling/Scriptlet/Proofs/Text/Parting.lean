import Scriptlet.Proofs.Text.Trim

/-!
# Texts that part

A text parts from another one where it goes on plainly and the other one with a sign or a
brace.  Whatever happens to it behind that place, it does not come back to the other text,
and what happens before that place parts it from the other text even sooner.
-/

namespace Scriptlet.Text

/-- Whether a text has a character that is not blank, and the first such character stands in
no opening mark. -/
def beginsPlainly : Text → Bool
  | [] => false
  | head :: tail =>
      if isBlank head then beginsPlainly tail else head ∉ ['@', '\x7b', '-']

theorem beginsPlainly_of_blank {head : Char} (blank : isBlank head = true) (tail : Text) :
    beginsPlainly (head :: tail) = beginsPlainly tail :=
  if_pos blank

theorem beginsPlainly_of_solid {head : Char} (solid : ¬ isBlank head = true) (tail : Text) :
    beginsPlainly (head :: tail) = decide (head ∉ ['@', '\x7b', '-']) :=
  if_neg solid

theorem beginsPlainly_append {left : Text} (begins : beginsPlainly left = true)
    (right : Text) : beginsPlainly (left ++ right) = true := by
  induction left with
  | nil => cases begins
  | cons head tail induction =>
      rw [List.cons_append]
      by_cases blank : isBlank head = true
      · rw [beginsPlainly_of_blank blank] at begins ⊢
        exact induction begins
      · rwa [beginsPlainly_of_solid blank] at begins ⊢

/-- A text that begins plainly does so before its first mark. -/
theorem beginsPlainly_of_append {left right : Text} {mark : Char}
    (marked : mark ∈ ['@', '\x7b', '-'])
    (begins : beginsPlainly (left ++ mark :: right) = true) : beginsPlainly left = true := by
  induction left with
  | nil =>
      have solid : isBlank mark = false := by
        simp only [List.mem_cons, List.not_mem_nil, or_false] at marked
        rcases marked with rfl | rfl | rfl <;> rfl
      simp [beginsPlainly, solid, marked] at begins
  | cons head tail induction =>
      rw [List.cons_append] at begins
      by_cases blank : isBlank head = true
      · rw [beginsPlainly_of_blank blank] at begins ⊢
        exact induction begins
      · rwa [beginsPlainly_of_solid blank] at begins ⊢

theorem not_beginsPlainly_of_mark {mark : Char} (marked : mark ∈ ['@', '\x7b', '-'])
    (rest : Text) : ¬ beginsPlainly (mark :: rest) = true := by
  intro begins
  have impossible : beginsPlainly [] = true := beginsPlainly_of_append marked begins
  cases impossible

theorem beginsPlainly_dropWhile (text : Text) :
    beginsPlainly (text.dropWhile isBlank) = beginsPlainly text := by
  induction text with
  | nil => rfl
  | cons head tail induction =>
      by_cases blank : isBlank head = true
      · rw [List.dropWhile_cons_of_pos blank, beginsPlainly_of_blank blank, induction]
      · rw [List.dropWhile_cons_of_neg blank]

/-- The second text goes on plainly where the first one has a sign or a brace. -/
def Parted (original text : Text) : Prop :=
  ∃ front mark rest plain, mark ∈ ['@', '\x7b'] ∧ beginsPlainly plain = true ∧
    original = front ++ mark :: rest ∧ text = front ++ plain

namespace Parted

variable {original text later : Text}

theorem append_left (parted : Parted original text) (front : Text) :
    Parted (front ++ original) (front ++ text) := by
  obtain ⟨shared, mark, rest, plain, marked, begins, rfl, rfl⟩ := parted
  exact ⟨front ++ shared, mark, rest, plain, marked, begins, by simp, by simp⟩

/-- Of two places where texts part, the earlier one counts. -/
theorem trans (parted : Parted original text) (again : Parted text later) :
    Parted original later := by
  obtain ⟨front, mark, rest, plain, marked, begins, rfl, rfl⟩ := parted
  obtain ⟨shared, other, tail, changed, otherMarked, changedBegins, whole, rfl⟩ := again
  have otherListed : other ∈ ['@', '\x7b', '-'] := List.mem_append_left ['-'] otherMarked
  rcases List.append_eq_append_iff.mp whole with
    ⟨between, rfl, plainEq⟩ | ⟨between, rfl, otherEq⟩
  · have betweenBegins := beginsPlainly_of_append otherListed (plainEq ▸ begins)
    exact ⟨front, mark, rest, between ++ changed, marked,
      beginsPlainly_append betweenBegins changed, rfl, List.append_assoc ..⟩
  · cases between with
    | nil => exact absurd (otherEq ▸ begins) (not_beginsPlainly_of_mark otherListed tail)
    | cons head between =>
        rw [List.cons_append, List.cons.injEq] at otherEq
        obtain ⟨rfl, -⟩ := otherEq
        exact ⟨shared, other, between ++ mark :: rest, changed, otherMarked, changedBegins,
          by simp, rfl⟩

/-- What stands behind a mark that the original does not have is behind the place where the
texts part. -/
theorem before_mark {opening taken rest : Text} (parted : Parted original text)
    (marked : opening.all (fun character => character ∈ ['@', '\x7b', '-']) = true)
    (absent : ¬ opening <:+: original) (whole : text = taken ++ (opening ++ rest))
    (after : Text) : Parted original (taken ++ after) := by
  obtain ⟨front, mark, tail, plain, sign, begins, rfl, rfl⟩ := parted
  simp only [List.all_eq_true, decide_eq_true_eq] at marked
  rcases List.append_eq_append_iff.mp whole with
    ⟨between, rfl, plainEq⟩ | ⟨between, rfl, openingEq⟩
  · cases opening with
    | nil => exact absurd (List.nil_infix) absent
    | cons head opening =>
        have betweenBegins : beginsPlainly between = true :=
          beginsPlainly_of_append (marked head List.mem_cons_self) (plainEq ▸ begins)
        exact ⟨front, mark, tail, between ++ after, sign,
          beginsPlainly_append betweenBegins after, rfl, List.append_assoc ..⟩
  · rcases List.append_eq_append_iff.mp openingEq with
      ⟨further, rfl, -⟩ | ⟨further, rfl, plainEq⟩
    · exact absurd ⟨taken, further ++ mark :: tail, by simp⟩ absent
    · cases further with
      | nil => exact absurd ⟨taken, mark :: tail, by simp⟩ absent
      | cons head further =>
          have listed : head ∈ ['@', '\x7b', '-'] := marked head (by simp)
          rw [plainEq, List.cons_append] at begins
          exact absurd begins (not_beginsPlainly_of_mark listed (further ++ rest))

/-- No text parts from itself. -/
theorem irrefl (text : Text) : ¬ Parted text text := by
  rintro ⟨front, mark, rest, plain, marked, begins, whole, same⟩
  have plainEq : mark :: rest = plain := List.append_cancel_left (whole.symm.trans same)
  have listed : mark ∈ ['@', '\x7b', '-'] := List.mem_append_left ['-'] marked
  exact not_beginsPlainly_of_mark listed rest (plainEq ▸ begins)

/-- Trimming does not bring a parted text back. -/
theorem trim_ne (parted : Parted original text) : trim text ≠ original := by
  intro same
  obtain ⟨front, mark, rest, plain, marked, begins, rfl, rfl⟩ := parted
  have listed : mark ∈ ['@', '\x7b', '-'] := List.mem_append_left ['-'] marked
  -- what is left in front of a text by trimming begins with a character that is not blank
  have begun : front ++ mark :: rest <+: (front ++ plain).dropWhile isBlank :=
    same ▸ trimBy_isPrefix isBlank (front ++ plain)
  have apart : ∀ {passage : Text}, beginsPlainly passage = true → ¬ mark :: rest <+: passage := by
    rintro _ plainly ⟨further, rfl⟩
    exact not_beginsPlainly_of_mark listed (rest ++ further) plainly
  cases front with
  | nil => exact apart ((beginsPlainly_dropWhile plain).trans begins) begun
  | cons head front =>
      by_cases blank : isBlank head = true
      · obtain ⟨further, whole⟩ := begun
        have solid := List.head?_dropWhile_not isBlank (head :: front ++ plain)
        rw [← whole] at solid
        simp [blank] at solid
      · rw [List.cons_append, List.cons_append, List.dropWhile_cons_of_neg blank,
          List.cons_prefix_cons, List.prefix_append_right_inj] at begun
        exact apart begins begun.2

end Parted

end Scriptlet.Text
