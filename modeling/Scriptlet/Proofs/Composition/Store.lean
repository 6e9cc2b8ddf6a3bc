import Scriptlet.Proofs.Composition.Item
import Scriptlet.Proofs.Table

/-!
# What a row of items stores

Inline sections are stored before blocks, so the store does not have the order of the
row.  Where the keys are distinct, it has the same sections.
-/

namespace Scriptlet

namespace Composition

namespace Item

/-- The section that is stored from inside one directive. -/
def inlineDefinition? : Item → Option (Text × Text)
  | .inlineSection key value => some (key.text, value.text)
  | _ => none

def blockDefinition? : Item → Option (Text × Text)
  | .blockSection key body => some (key.text, Text.trim (plainText body))
  | _ => none

/-- What is left of an item after the inline sections are stored. -/
def withoutInline : Item → Text
  | .inlineSection _ _ => []
  | item => item.print

/-- What is left of an item after all sections are stored. -/
def withoutSections : Item → Text
  | .inlineSection _ _ => []
  | .blockSection _ _ => []
  | item => item.print

end Item

def store? : Option (Text × Text) → Context → Context
  | none => id
  | some entry => Context.store entry.1 entry.2

private theorem foldl_store {entries : List (Text × Text)} (context : Context)
    (distinct : ((context.sections ++ entries).map Prod.fst).Nodup) :
    entries.foldl (fun stored entry => stored.store entry.1 entry.2) context =
      { context with sections := context.sections ++ entries } := by
  induction entries generalizing context with
  | nil => simp
  | cons entry entries induction =>
      have new : entry.1 ∉ context.sections.map Prod.fst := by
        rw [List.map_append, List.nodup_append] at distinct
        intro member
        exact distinct.2.2 _ member entry.1 (List.mem_map_of_mem List.mem_cons_self) rfl
      have inserted : Table.insert entry.1 entry.2 context.sections =
          context.sections ++ [entry] :=
        Table.insert_of_notMem new entry.2
      have distinctAfter :
          (((context.store entry.1 entry.2).sections ++ entries).map Prod.fst).Nodup := by
        simpa [Context.store, inserted] using distinct
      rw [List.foldl_cons, induction _ distinctAfter]
      simp [Context.store, inserted]

theorem foldl_store? {ι : Type} (definition? : ι → Option (Text × Text)) (items : List ι)
    (context : Context) :
    items.foldl (fun stored item => store? (definition? item) stored) context =
      (items.filterMap definition?).foldl
        (fun stored entry => stored.store entry.1 entry.2) context := by
  induction items generalizing context with
  | nil => rfl
  | cons item items induction =>
      rw [List.foldl_cons, induction]
      cases defined : definition? item with
      | none => simp [defined, store?]
      | some entry => simp [defined, store?]

/-- The inline sections and the blocks together are the sections of a row. -/
theorem definitions_perm (items : List Item) :
    (items.filterMap Item.inlineDefinition? ++ items.filterMap Item.blockDefinition?).Perm
      (definitions items) := by
  induction items with
  | nil => exact .nil
  | cons item items induction =>
      cases item with
      | plain character => exact induction
      | place key => exact induction
      | inlineSection key value => exact induction.cons _
      | blockSection key body => exact List.perm_middle.trans (induction.cons _)

/-- A row with distinct keys stores its sections in an empty store. -/
theorem stored_sections {items : List Item}
    (distinct : ((definitions items).map Prod.fst).Nodup) :
    ∃ sections : Sections, sections.Perm (definitions items) ∧
      items.foldl (fun stored item => store? item.blockDefinition? stored)
        (items.foldl (fun stored item => store? item.inlineDefinition? stored) {}) =
        { sections := sections } := by
  let inlines := items.filterMap Item.inlineDefinition?
  let blocks := items.filterMap Item.blockDefinition?
  have allDistinct : ((inlines ++ blocks).map Prod.fst).Nodup :=
    ((definitions_perm items).map Prod.fst).nodup_iff.mpr distinct
  have inlinesDistinct : (inlines.map Prod.fst).Nodup := by
    rw [List.map_append] at allDistinct
    exact (List.nodup_append.mp allDistinct).1
  have first : inlines.foldl (fun stored entry => Context.store entry.1 entry.2 stored) {} =
      { sections := inlines } :=
    foldl_store {} inlinesDistinct
  refine ⟨inlines ++ blocks, definitions_perm items, ?_⟩
  rw [foldl_store?, foldl_store?, first]
  exact foldl_store { sections := inlines } allDistinct

end Composition

end Scriptlet
