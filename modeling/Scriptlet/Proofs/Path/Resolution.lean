import Mathlib.Data.List.TakeWhile
import Scriptlet.Proofs.Path.Names
import Scriptlet.View.Path

/-!
# Where view names resolve

The path of a view is the views directory with a relative path joined to it, so the directory
leads it and no number of slashes in a name reaches the root.  One case is left out: where a
name has nothing but slashes, the suffix stands alone, and a suffix that begins with a slash
is then taken for the whole path.
-/

namespace Scriptlet

namespace Path

/-- A path that starts from another one, which leads it as a text and name by name. -/
structure StartsFrom (base path : Text) : Prop where
  joined : ∃ relative, isAbsolute relative = false ∧ path = join base relative
  leads : base <+: path
  names_lead : names base <+: names path
  isAbsolute_eq : isAbsolute path = isAbsolute base

variable {relative : Text}

theorem isPrefix_join (isRelative : isAbsolute relative = false) (base : Text) :
    base <+: join base relative := by
  rw [join, isRelative]
  split
  · contradiction
  · split
    · exact List.prefix_append ..
    · exact List.prefix_append ..

/-- Joining a relative path adds its names. -/
theorem names_join_of_relative (isRelative : isAbsolute relative = false) (base : Text) :
    names (join base relative) = names base ++ names relative := by
  rw [join, isRelative]
  by_cases empty : base = []
  · subst empty
    rfl
  · cases slash : endsWithSlash base with
    | true =>
        obtain ⟨front, rfl, frontNames⟩ := names_dropLast_of_endsWithSlash slash
        simp [List.append_assoc, names_append_slash, ← frontNames]
    | false => simp [empty, names_append_slash]

theorem isAbsolute_join_of_relative (isRelative : isAbsolute relative = false) (base : Text) :
    isAbsolute (join base relative) = isAbsolute base := by
  cases base with
  | nil =>
      rw [join, isRelative]
      exact isRelative
  | cons head tail =>
      obtain ⟨rest, whole⟩ := isPrefix_join isRelative (head :: tail)
      rw [← whole]
      rfl

theorem startsFrom_join (isRelative : isAbsolute relative = false) (base : Text) :
    StartsFrom base (join base relative) where
  joined := ⟨relative, isRelative, rfl⟩
  leads := isPrefix_join isRelative base
  names_lead := by
    rw [names_join_of_relative isRelative]
    exact List.prefix_append ..
  isAbsolute_eq := isAbsolute_join_of_relative isRelative base

end Path

namespace View

variable {name suffix : Text}

/-- A name of nothing but slashes, with a suffix that begins with one. -/
def Escapes (name suffix : Text) : Prop :=
  (∀ character ∈ name, character = '/') ∧ Path.isAbsolute suffix = true

instance (name suffix : Text) : Decidable (Escapes name suffix) :=
  inferInstanceAs (Decidable (_ ∧ _))

theorem dropSlashes_eq_nil_iff : dropSlashes name = [] ↔ ∀ character ∈ name, character = '/' := by
  rw [dropSlashes, List.dropWhile_eq_nil_iff]
  simp only [decide_eq_true_eq]

theorem isAbsolute_dropSlashes (name : Text) : Path.isAbsolute (dropSlashes name) = false := by
  have notSlash := List.head?_dropWhile_not (· = '/') name
  rw [dropSlashes, Path.isAbsolute]
  cases first : (name.dropWhile (· = '/')).head? with
  | none => rfl
  | some character =>
      rw [first] at notSlash
      simpa using notSlash

/-- What is joined to the views directory is absolute where the suffix stands alone. -/
theorem isAbsolute_withSuffix_iff :
    Path.isAbsolute (withSuffix suffix (dropSlashes name)) = true ↔ Escapes name suffix := by
  have relative := isAbsolute_dropSlashes name
  rw [Escapes, ← dropSlashes_eq_nil_iff]
  generalize dropSlashes name = dropped at relative
  cases dropped with
  | nil =>
      rw [withSuffix]
      split
      · rename_i isSuffix
        have empty : suffix = [] := List.suffix_nil.mp (List.isSuffixOf_iff_suffix.mp isSuffix)
        subst empty
        simp [Path.isAbsolute]
      · simp
  | cons head tail =>
      have sameHead : Path.isAbsolute (withSuffix suffix (head :: tail)) =
          Path.isAbsolute (head :: tail) := by
        rw [withSuffix]
        split <;> rfl
      simp [sameHead, relative]

theorem resolvePath_of_escapes (escapes : Escapes name suffix) (directory : Text) :
    resolvePath directory name suffix = suffix := by
  have bare : withSuffix suffix (dropSlashes name) = suffix := by
    rw [dropSlashes_eq_nil_iff.mpr escapes.1, withSuffix]
    split
    · rename_i isSuffix
      exact (List.suffix_nil.mp (List.isSuffixOf_iff_suffix.mp isSuffix)).symm
    · rfl
  rw [resolvePath, bare, Path.join, if_pos escapes.2]

theorem startsFrom_resolvePath (stays : ¬Escapes name suffix) (directory : Text) :
    Path.StartsFrom directory (resolvePath directory name suffix) := by
  rw [← isAbsolute_withSuffix_iff, Bool.not_eq_true] at stays
  exact Path.startsFrom_join stays directory

/-- Every views directory keeps the views of a name below it, unless the name has nothing but
slashes and the suffix begins with one.  The suffix is then the path, whatever the directory. -/
theorem resolvePath_startsFrom_iff (name suffix : Text) :
    ((∀ directory, Path.StartsFrom directory (resolvePath directory name suffix)) ↔
      ¬Escapes name suffix) ∧
      (Escapes name suffix → ∀ directory, resolvePath directory name suffix = suffix) := by
  refine ⟨⟨fun starts escapes => ?_, startsFrom_resolvePath⟩, resolvePath_of_escapes⟩
  have relative := (starts "views").isAbsolute_eq
  rw [resolvePath_of_escapes escapes, escapes.2] at relative
  cases relative

theorem resolvePath_startsFrom_iff_of_slashes :
    Path.StartsFrom "/app/views" (resolvePath "/app/views" "///admin/users" "/index.html") ∧
      Escapes "//" "/index.html" ∧ resolvePath "/app/views" "//" "/index.html" = "/index.html" :=
  ⟨(resolvePath_startsFrom_iff "///admin/users" "/index.html").1.mpr (by decide) "/app/views",
    by decide,
    (resolvePath_startsFrom_iff "//" "/index.html").2 (by decide) "/app/views"⟩

/-- The empty name leaves the views directory for the root. -/
theorem emptyName_resolves_from_root :
    resolvePath "/app/views" "" "/index.html" = "/index.html" ∧
      ¬Path.StartsFrom "/app/views" (resolvePath "/app/views" "" "/index.html") :=
  ⟨by decide, fun starts => absurd starts.leads (by decide)⟩

end View

end Scriptlet
