import Mathlib.Order.Defs.Unbundled
import Mathlib.Data.Set.Basic
import PlanArchive.Document.Basic
import PlanArchive.Proofs.Store.Query
import PlanArchive.Proofs.Text.Order

/-!
# The order that a query states

A query tells a database the order of its result in a clause of text, and sorts documents itself
where there is no database. The two see identifiers differently: a row of a table is stored under
one, which is a number, and a document carries it as a text. Here a clause gets a meaning on rows
(`SortTerm.Precedes`), and sorting documents is shown to be what the clause says
(`Query.order_as_stated`).

This is about documents that have the integer which they are sorted by. A database and a store in
memory do not agree about other ones, and nothing is said of them.
-/

namespace PlanArchive

/-- A document in a table, with the identifier that it is stored under. -/
structure Row where
  id : Uuid
  doc : Json
deriving DecidableEq

/-- What rows are ordered by, the largest first. -/
inductive SortTerm where
  /-- The integer in a field of the document. -/
  | integer (field : String)
  /-- The identifier of the row. -/
  | identifier

namespace SortTerm

/-- The term in the language of the database. -/
def render : SortTerm → String
  | .integer field => "(doc->>'" ++ field ++ "')::bigint DESC"
  | .identifier => "id DESC"

/-- The clause that orders rows by some terms; a later one decides when all before it are equal. -/
def clause (terms : List SortTerm) : String := "ORDER BY " ++ ", ".intercalate (terms.map render)

/-- The number that a term finds in a row. -/
def value? : SortTerm → Row → Option Int
  | .integer field, row => (Field.int? row.doc field).map Int64.toInt
  | .identifier, row => some row.id.value

/-- One row comes before another one when rows are ordered by some terms. -/
inductive Precedes : List SortTerm → Row → Row → Prop
  | larger {t : SortTerm} {rest : List SortTerm} {x y : Row} {m n : Int}
      (first : t.value? x = some m) (second : t.value? y = some n) (less : n < m) :
      Precedes (t :: rest) x y
  | tied {t : SortTerm} {rest : List SortTerm} {x y : Row} {n : Int}
      (first : t.value? x = some n) (second : t.value? y = some n) (later : Precedes rest x y) :
      Precedes (t :: rest) x y

variable {t : SortTerm} {rest : List SortTerm} {x y : Row}

theorem not_precedes_nil : ¬ Precedes [] x y := nofun

/-- Where both rows have a number for the first term, these are compared, and the other terms
decide only between equal ones. -/
theorem precedes_cons_iff {m n : Int} (first : t.value? x = some m)
    (second : t.value? y = some n) :
    Precedes (t :: rest) x y ↔ n < m ∨ n = m ∧ Precedes rest x y := by
  constructor
  · intro precedes
    cases precedes with
    | larger alsoFirst alsoSecond less =>
      cases first.symm.trans alsoFirst
      cases second.symm.trans alsoSecond
      exact .inl less
    | tied alsoFirst alsoSecond later =>
      cases first.symm.trans alsoFirst
      cases second.symm.trans alsoSecond
      exact .inr ⟨rfl, later⟩
  · rintro (less | ⟨rfl, later⟩)
    · exact .larger first second less
    · exact .tied first second later

end SortTerm

namespace Query

variable {q : Query} {rows : Set Row} {x y : Row}

/-- What a query orders rows by. -/
def terms (q : Query) : List SortTerm := [.integer q.orderBy, .identifier]

theorem orderClause_eq (q : Query) : q.orderClause = SortTerm.clause q.terms := by
  have rendered : SortTerm.clause q.terms =
      "ORDER BY " ++ ("(doc->>'" ++ q.orderBy ++ "')::bigint DESC" ++ ", " ++ "id DESC") := by
    simp only [SortTerm.clause, terms, List.map_cons, List.map_nil, SortTerm.render,
      String.intercalate_cons_cons, String.intercalate_singleton]
  unfold orderClause
  rw [rendered]
  apply String.toList_injective
  simp

/-- Documents with canonical identifiers are compared by their integers and then by the numbers
that these identifiers are. -/
theorem order_of_labels {a b : Json} {first second : Uuid} (label : tieKey a = first.toText)
    (otherLabel : tieKey b = second.toText) :
    q.order a b =
      (compare (q.sortKey b) (q.sortKey a)).then (compare second.value first.value) := by
  rw [order, label, otherLabel, Uuid.compare_toText]

/-- Rows that a query can order: each has an integer to be sorted by, its document carries its
identifier, and no other one has the same identifier. -/
structure Sortable (q : Query) (rows : Set Row) : Prop where
  integer : ∀ x ∈ rows, ∃ n, Field.int? x.doc q.orderBy = some n
  labelled : ∀ x ∈ rows, Field.text? x.doc Field.id = some x.id.toText
  distinct : ∀ x ∈ rows, ∀ y ∈ rows, x.id = y.id → x = y

namespace Sortable

theorem tieKey_eq (sortable : q.Sortable rows) (isRow : x ∈ rows) :
    tieKey x.doc = x.id.toText := by
  have label : (x.doc.field? "id").bind Json.text? = some x.id.toText := sortable.labelled x isRow
  rw [tieKey, label]
  rfl

theorem value?_eq (sortable : q.Sortable rows) (isRow : x ∈ rows) :
    (SortTerm.integer q.orderBy).value? x = some (q.sortKey x.doc) := by
  obtain ⟨n, found⟩ := sortable.integer x isRow
  have inField : (x.doc.field? q.orderBy).bind Json.int64? = some n := found
  rw [SortTerm.value?, found, sortKey, inField]
  rfl

/-- Sorting puts one document before another one exactly when the clause does. -/
theorem order_eq_lt_iff (sortable : q.Sortable rows) (isRow : x ∈ rows) (isOther : y ∈ rows) :
    q.order x.doc y.doc = .lt ↔ SortTerm.Precedes q.terms x y := by
  have byIdentifier : SortTerm.Precedes [.identifier] x y ↔ (y.id.value : Int) < x.id.value := by
    rw [SortTerm.precedes_cons_iff rfl rfl]
    simp [SortTerm.not_precedes_nil]
  rw [order_of_labels (sortable.tieKey_eq isRow) (sortable.tieKey_eq isOther),
    Ordering.then_eq_lt, Std.compare_eq_lt, Std.compare_eq_iff_eq, Nat.compare_eq_lt, terms,
    SortTerm.precedes_cons_iff (sortable.value?_eq isRow) (sortable.value?_eq isOther),
    byIdentifier, Int.ofNat_lt]

/-- Documents of different rows always stand in an order. -/
theorem order_eq_eq_iff (sortable : q.Sortable rows) (isRow : x ∈ rows) (isOther : y ∈ rows) :
    q.order x.doc y.doc = .eq ↔ x = y := by
  constructor
  · intro equal
    have sameId := tieKey_eq_of_order equal
    rw [sortable.tieKey_eq isRow, sortable.tieKey_eq isOther] at sameId
    exact sortable.distinct x isRow y isOther (Uuid.toText_injective sameId)
  · rintro rfl
    exact Std.ReflCmp.compare_self

theorem isStrictTotalOrder (sortable : q.Sortable rows) :
    IsStrictTotalOrder rows fun x y => q.order x.1.doc y.1.doc = .lt where
  trichotomous := by
    intro x y notLess notGreater
    apply Subtype.ext
    apply (sortable.order_eq_eq_iff x.2 y.2).mp
    cases order : q.order x.1.doc y.1.doc with
    | lt => exact absurd order notLess
    | eq => rfl
    | gt => exact absurd (Std.OrientedCmp.gt_iff_lt.mp order) notGreater
  irrefl := by
    intro x less
    cases less.symm.trans Std.ReflCmp.compare_self
  trans := fun _ _ _ => Std.TransCmp.lt_trans

/-- There is one way to put rows into the order of the clause, and sorting finds it. -/
theorem eq_sort_iff (sortable : q.Sortable rows) {items others : List Row}
    (areRows : ∀ x ∈ items, x ∈ rows) (nodup : items.Nodup) :
    others = q.sort Row.doc items ↔
      others.Perm items ∧ others.Pairwise (SortTerm.Precedes q.terms) := by
  have identified : Identified Row.doc items := by
    intro x isItem y isOther sameKey
    rw [sortable.tieKey_eq (areRows x isItem), sortable.tieKey_eq (areRows y isOther)] at sameKey
    exact sortable.distinct x (areRows x isItem) y (areRows y isOther)
      (Uuid.toText_injective sameKey)
  constructor
  · rintro rfl
    have perm := sort_perm q Row.doc items
    refine ⟨perm, (pairwise_sort_lt identified nodup).imp_of_mem ?_⟩
    intro x y isSorted isOther less
    exact (sortable.order_eq_lt_iff (areRows x (perm.mem_iff.mp isSorted))
      (areRows y (perm.mem_iff.mp isOther))).mp less
  · rintro ⟨perm, inOrder⟩
    apply eq_sort identified perm
    refine inOrder.imp_of_mem ?_
    intro x y isItem isOther precedes
    have less := (sortable.order_eq_lt_iff (areRows x (perm.mem_iff.mp isItem))
      (areRows y (perm.mem_iff.mp isOther))).mpr precedes
    exact Ordering.isLE_of_eq_lt less

end Sortable

/-- Documents are sorted in the order that the clause states. On rows that a query can order the
comparison of their documents is a strict total order, and it is the one of the clause: the larger
integer first, and of equal integers the larger identifier as a number of 128 bits. Canonical texts
of identifiers stand in the order of these numbers, byte by byte. So there is one way to put rows
into the order of the clause, and sorting their documents finds it. -/
theorem order_as_stated (sortable : q.Sortable rows) :
    q.orderClause = SortTerm.clause q.terms ∧
      (∀ x ∈ rows, ∀ y ∈ rows,
        (q.order x.doc y.doc = .lt ↔ SortTerm.Precedes q.terms x y) ∧
        (q.order x.doc y.doc = .eq ↔ x = y) ∧
        q.order y.doc x.doc = (q.order x.doc y.doc).swap) ∧
      IsStrictTotalOrder rows (fun x y => q.order x.1.doc y.1.doc = .lt) ∧
      (∀ first second : Uuid, first.toText.toUTF8.toList < second.toText.toUTF8.toList ↔
        first.value < second.value) ∧
      ∀ items others : List Row, (∀ x ∈ items, x ∈ rows) → items.Nodup →
        (others = q.sort Row.doc items ↔
          others.Perm items ∧ others.Pairwise (SortTerm.Precedes q.terms)) := by
  refine ⟨q.orderClause_eq, ?_, sortable.isStrictTotalOrder, fun _ _ => Uuid.bytes_lt_bytes,
    fun _ _ => sortable.eq_sort_iff⟩
  intro x isRow y isOther
  exact ⟨sortable.order_eq_lt_iff isRow isOther, sortable.order_eq_eq_iff isRow isOther,
    Std.OrientedCmp.eq_swap⟩

/-- A row with a time of submission. -/
def submittedRow (id : Uuid) (submitTime : Int64) : Row :=
  ⟨id, .obj [(Field.id, .str id.toText), (Field.submitTime, .ofInt64 submitTime)]⟩

/-- The largest identifier, submitted before the epoch, and two that were submitted at one time and
follow each other as numbers: the first group of the one ends with a nine, and of the other with a
letter. -/
def submittedRows : List Row :=
  [submittedRow ⟨0xffffffffffffffffffffffffffffffff, by decide⟩ (-1),
    submittedRow ⟨0x00000009ffffffffffffffffffffffff, by decide⟩ 7,
    submittedRow ⟨0x0000000a000000000000000000000000, by decide⟩ 7]

theorem order_as_stated_submittedRows :
    (orderedBy Field.submitTime).Sortable {x | x ∈ submittedRows} ∧
      (orderedBy Field.submitTime).sort Row.doc submittedRows = submittedRows.reverse := by
  have sortable : (orderedBy Field.submitTime).Sortable {x | x ∈ submittedRows} := by
    have integers : ∀ x ∈ submittedRows, ∃ n, Field.int? x.doc Field.submitTime = some n := by
      simp only [submittedRows, List.forall_mem_cons]
      exact ⟨⟨-1, rfl⟩, ⟨7, rfl⟩, ⟨7, rfl⟩, List.forall_mem_nil _⟩
    have labels : ∀ x ∈ submittedRows, Field.text? x.doc Field.id = some x.id.toText := by
      simp only [submittedRows, List.forall_mem_cons]
      exact ⟨rfl, rfl, rfl, List.forall_mem_nil _⟩
    have distinct : ∀ x ∈ submittedRows, ∀ y ∈ submittedRows, x.id = y.id → x = y := by decide
    exact ⟨integers, labels, distinct⟩
  have inOrder : submittedRows.reverse.Pairwise
      (SortTerm.Precedes (orderedBy Field.submitTime).terms) := by
    simp only [submittedRows, List.reverse_cons, List.reverse_nil, List.nil_append,
      List.cons_append, List.pairwise_cons, List.forall_mem_cons]
    refine ⟨⟨?_, ?_, List.forall_mem_nil _⟩, ⟨?_, List.forall_mem_nil _⟩, List.forall_mem_nil _,
      .nil⟩
    · exact .tied rfl rfl (.larger rfl rfl (by decide))
    · exact .larger rfl rfl (by decide)
    · exact .larger rfl rfl (by decide)
  obtain ⟨-, -, -, -, sorts⟩ := order_as_stated sortable
  have isSorted := (sorts submittedRows _ (fun _ => id) (by decide)).mpr
    ⟨List.reverse_perm _, inOrder⟩
  exact ⟨sortable, isSorted.symm⟩

end Query

end PlanArchive
