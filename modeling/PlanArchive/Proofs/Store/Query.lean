import Mathlib.Data.List.Basic
import PlanArchive.Store.Query

/-!
# Results of queries

A result is sorted by an integer, the largest first, and documents with equal integers by their
identifiers. When no two documents have the same identifier this leaves no choice. The order in
which a store keeps its documents does not matter then (`run_perm`), and it comes to the same
whether documents are selected before they are sorted or after (`run_eq_filter`).
-/

namespace PlanArchive

namespace Query

variable {α : Type} {q : Query} {doc : α → Json} {items others : List α}

/-! ## The order of a result -/

instance transCmp_order (q : Query) : Std.TransCmp q.order := by
  have byInteger : Std.TransCmp fun a b => compare (q.sortKey b) (q.sortKey a) :=
    @Std.TransCmp.opposite _ (compareOn q.sortKey) inferInstance
  have byId : Std.TransCmp fun a b => compare (tieKey b) (tieKey a) :=
    @Std.TransCmp.opposite _ (compareOn tieKey) inferInstance
  exact inferInstanceAs (Std.TransCmp (compareLex _ _))

/-- Documents that stand in no order have one identifier. -/
theorem tieKey_eq_of_order {a b : Json} (equal : q.order a b = .eq) : tieKey a = tieKey b := by
  have sameId := (Ordering.then_eq_eq.mp equal).2
  exact (Std.LawfulEqOrd.eq_of_compare sameId).symm

/-- The documents of two values stand in order. -/
def InOrder (q : Query) (doc : α → Json) (x y : α) : Prop := (q.order (doc x) (doc y)).isLE = true

/-- No two values come with documents of one identifier. -/
def Identified (doc : α → Json) (items : List α) : Prop :=
  ∀ x ∈ items, ∀ y ∈ items, tieKey (doc x) = tieKey (doc y) → x = y

theorem Identified.subset (identified : Identified doc items) (fewer : others ⊆ items) :
    Identified doc others :=
  fun x isItem y isOther same => identified x (fewer isItem) y (fewer isOther) same

theorem InOrder.antisymm {x y : α} (identified : Identified doc items) (isItem : x ∈ items)
    (isOther : y ∈ items) (first : q.InOrder doc x y) (second : q.InOrder doc y x) : x = y :=
  identified x isItem y isOther (tieKey_eq_of_order (Std.OrientedCmp.isLE_antisymm first second))

/-! ## Sorting -/

theorem sort_perm (q : Query) (doc : α → Json) (items : List α) : (q.sort doc items).Perm items :=
  List.mergeSort_perm items _

theorem pairwise_sort (q : Query) (doc : α → Json) (items : List α) :
    (q.sort doc items).Pairwise (q.InOrder doc) := by
  -- The program sorts by what is not greater, which is to say by what is less or equal.
  have isOrder (x y : α) :
      (q.order (doc x) (doc y) != .gt) = (q.order (doc x) (doc y)).isLE := by
    cases q.order (doc x) (doc y) <;> rfl
  rw [sort]
  simp only [isOrder]
  apply List.pairwise_mergeSort
  · exact fun _ _ _ => Std.TransCmp.isLE_trans
  · intro x y
    have swapped : q.order (doc y) (doc x) = (q.order (doc x) (doc y)).swap :=
      Std.OrientedCmp.eq_swap
    rw [swapped]
    cases q.order (doc x) (doc y) <;> rfl

/-- Sorted documents with different identifiers stand in a strict order. -/
theorem pairwise_sort_lt (identified : Identified doc items) (nodup : items.Nodup) :
    (q.sort doc items).Pairwise fun x y => q.order (doc x) (doc y) = .lt := by
  have perm := sort_perm q doc items
  refine List.Pairwise.imp_of_mem ?_ ((pairwise_sort q doc items).and (perm.nodup_iff.mpr nodup))
  rintro x y isSorted isOther ⟨inOrder, different⟩
  rcases Ordering.isLE_iff_eq_lt_or_eq_eq.mp inOrder with isLess | isEqual
  · exact isLess
  · exact absurd (identified x (perm.mem_iff.mp isSorted) y (perm.mem_iff.mp isOther)
      (tieKey_eq_of_order isEqual)) different

/-- There is one way to bring documents with different identifiers in order. -/
theorem eq_sort (identified : Identified doc items) (perm : others.Perm items)
    (inOrder : others.Pairwise (q.InOrder doc)) : others = q.sort doc items := by
  apply List.Perm.eq_of_pairwise _ inOrder (pairwise_sort q doc items)
    (perm.trans (sort_perm q doc items).symm)
  intro x y isOther isSorted first second
  exact first.antisymm identified (perm.mem_iff.mp isOther)
    ((sort_perm q doc items).mem_iff.mp isSorted) second

/-- Sorting before selecting comes to the same as sorting after it. -/
theorem filter_sort (identified : Identified doc items) (p : α → Bool) :
    (q.sort doc items).filter p = q.sort doc (items.filter p) :=
  eq_sort (identified.subset (List.filter_subset_self _)) ((sort_perm q doc items).filter p)
    ((pairwise_sort q doc items).sublist List.filter_sublist)

/-! ## Whole queries -/

/-- A query looks at the documents that values come with and at nothing else. -/
theorem run_map {β : Type} (f : β → α) (values : List β) :
    q.run doc (values.map f) = (q.run (fun x => doc (f x)) values).map f := by
  have sorted (chosen : List β) :
      q.sort doc (chosen.map f) = (q.sort (fun x => doc (f x)) chosen).map f := by
    rw [sort, sort, List.map_mergeSort]
    exact fun _ _ _ _ => rfl
  simp only [run, List.filter_map, sorted]
  cases q.limit with
  | none => rfl
  | some limit => exact List.map_take.symm

/-- The result does not depend on the order in which the documents are kept. -/
theorem run_perm (identified : Identified doc items) (perm : others.Perm items) :
    q.run doc others = q.run doc items := by
  have selected := perm.filter fun x => q.selects (doc x)
  have sorted := eq_sort (identified.subset (List.filter_subset_self _))
    ((sort_perm q doc _).trans selected) (pairwise_sort q doc _)
  simp only [run, sorted]

theorem run_of_limit_none (unlimited : q.limit = none) :
    q.run doc items = q.sort doc (items.filter fun x => q.selects (doc x)) := by
  simp only [run, unlimited]

theorem run_orderedBy (field : String) :
    (orderedBy field).run doc items = (orderedBy field).sort doc items := by
  simp [run, orderedBy, selects]

/-- A query without a limit yields the documents that it selects of all documents in its order. -/
theorem run_eq_filter (identified : Identified doc items) (unlimited : q.limit = none) :
    q.run doc items =
      ((orderedBy q.orderBy).run doc items).filter fun x => q.selects (doc x) := by
  rw [run_of_limit_none unlimited, run_orderedBy, filter_sort identified]
  rfl

theorem foldl_and (q : Query) (conditions : List Condition) :
    conditions.foldl and q = { q with conditions := q.conditions ++ conditions } := by
  induction conditions generalizing q with
  | nil => simp
  | cons c rest inductionHypothesis => simp [inductionHypothesis, and]

end Query

end PlanArchive
