import Mathlib.Data.List.Nodup
import PlanArchive.Document.Basic
import PlanArchive.Proofs.Store.Memory
import PlanArchive.Proofs.Store.Query
import PlanArchive.Proofs.Text.Spelling

/-!
# Documents that carry the identifiers of their places

A query sees documents and no places. When the documents of a collection carry the identifiers of
their places (`Contents.Labelled`), a query can tell any two of them apart, whatever else they hold,
and its result is determined by what is stored at the places of the collection.
-/

namespace PlanArchive

namespace Contents

variable {c : Contents} {part : String} {collection : Collection} {id : Uuid} {item : Item}

/-! ## Places of a collection -/

/-- The identifiers and documents of a collection in one partition. -/
def placesIn (c : Contents) (part : String) (collection : Collection) : List (Uuid × Item) :=
  (c.entries.filter fun entry =>
    entry.1.part == part && entry.1.collection == collection).map fun entry =>
      (entry.1.id, entry.2)

theorem map_placesIn (c : Contents) (part : String) (collection : Collection) :
    (c.placesIn part collection).map Prod.snd = c.itemsIn part collection := by
  rw [placesIn, itemsIn, List.map_map]
  rfl

theorem mem_placesIn :
    (id, item) ∈ c.placesIn part collection ↔ c.find? ⟨part, collection, id⟩ = some item := by
  rw [find?, List.lookup_eq_some_of_nodup c.distinct]
  simp only [placesIn, List.mem_map, List.mem_filter, Bool.and_eq_true, beq_iff_eq,
    Prod.mk.injEq]
  constructor
  · rintro ⟨⟨⟨_, _, _⟩, _⟩, ⟨stored, rfl, rfl⟩, rfl, rfl⟩
    exact stored
  · intro stored
    exact ⟨_, ⟨stored, rfl, rfl⟩, rfl, rfl⟩

theorem nodup_placesIn (c : Contents) (part : String) (collection : Collection) :
    ((c.placesIn part collection).map Prod.fst).Nodup := by
  rw [placesIn, List.map_map]
  -- Places of one collection in one partition differ in nothing but their identifiers.
  have keys := c.distinct.sublist (List.Sublist.map Prod.fst
    (List.filter_sublist (p := fun entry =>
      entry.1.part == part && entry.1.collection == collection)))
  refine (List.nodup_map_iff_inj_on keys.of_map).mpr ?_
  intro first isFirst second isSecond sameId
  apply List.inj_on_of_nodup_map keys isFirst isSecond
  simp only [List.mem_filter, Bool.and_eq_true, beq_iff_eq] at isFirst isSecond
  obtain ⟨⟨_, _, _⟩, _⟩ := first
  obtain ⟨⟨_, _, _⟩, _⟩ := second
  obtain ⟨_, rfl, rfl⟩ := isFirst
  obtain ⟨_, rfl, rfl⟩ := isSecond
  exact congrArg (DocumentKey.mk _ _) sameId

/-! ## Labels -/

/-- Every document of a collection in one partition carries the identifier of its place. -/
def Labelled (c : Contents) (part : String) (collection : Collection) : Prop :=
  ∀ id item, c.find? ⟨part, collection, id⟩ = some item →
    Field.text? item.doc Field.id = some id.toText

theorem labelled_empty (part : String) (collection : Collection) :
    empty.Labelled part collection := by
  intro id item stored
  cases stored

theorem Labelled.put {key : DocumentKey} (labelled : c.Labelled part collection)
    (isLabel : key.part = part → key.collection = collection →
      Field.text? item.doc Field.id = some key.id.toText) :
    (c.put key item).Labelled part collection := by
  intro id stored found
  rw [find?_put] at found
  split at found
  · rename_i isKey
    cases found
    rw [isLabel (isKey ▸ rfl) (isKey ▸ rfl), ← isKey]
  · exact labelled id stored found

theorem Labelled.erase {key : DocumentKey} (labelled : c.Labelled part collection) :
    (c.erase key).Labelled part collection := by
  intro id stored found
  rw [find?_erase] at found
  split at found
  · cases found
  · exact labelled id stored found

theorem Labelled.tieKey_eq (labelled : c.Labelled part collection)
    (stored : c.find? ⟨part, collection, id⟩ = some item) :
    Query.tieKey item.doc = id.toText := by
  have label : (item.doc.field? "id").bind Json.text? = some id.toText := labelled id item stored
  rw [Query.tieKey, label]
  rfl

/-- No two places have documents that carry one identifier. -/
theorem Labelled.identified_places (labelled : c.Labelled part collection) :
    Query.Identified (fun e : Uuid × Item => e.2.doc) (c.placesIn part collection) := by
  rintro ⟨id, item⟩ isPlace ⟨other, otherItem⟩ isOther same
  have stored := mem_placesIn.mp isPlace
  have alsoStored := mem_placesIn.mp isOther
  rw [labelled.tieKey_eq stored, labelled.tieKey_eq alsoStored] at same
  cases Uuid.toText_injective same
  cases stored.symm.trans alsoStored
  rfl

/-- No two documents carry one identifier. -/
theorem Labelled.identified (labelled : c.Labelled part collection) :
    Query.Identified Item.doc (c.itemsIn part collection) := by
  intro x isItem y isOther same
  obtain ⟨id, stored⟩ := mem_itemsIn.mp isItem
  obtain ⟨other, alsoStored⟩ := mem_itemsIn.mp isOther
  exact congrArg Prod.snd (labelled.identified_places (id, x) (mem_placesIn.mpr stored)
    (other, y) (mem_placesIn.mpr alsoStored) same)

end Contents

end PlanArchive
