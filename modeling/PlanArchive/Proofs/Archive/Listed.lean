import PlanArchive.Proofs.Archive.Requests
import PlanArchive.Proofs.Archive.Searching
import PlanArchive.Proofs.Archive.Tokens
import PlanArchive.Proofs.Store.Order

/-!
# Exact listings

A listing goes through the stored plans from the newest to the oldest and ends with the first one
that does not decode. `NewestFirst` is the one way to put what is stored in that order, `upTo` cuts
it to a limit, and `Yields` says what comes of the plans that are left. Documents may be anything
that carries the identifier of its place: what they hold otherwise decides where they stand and
whether they decode, but never lets the order depend on the order in which a store keeps them
(`list_newestFirst`).
-/

namespace PlanArchive

namespace Archive

variable {a : Archive} {c : Contents} {s t : MemoryStore} {plans others : List (Uuid × Item)}

/-! ## What a listing says of stored plans -/

/-- When a stored plan was submitted; zero when its document has no number there. -/
def submitted (item : Item) : Int := ((Field.int? item.doc Field.submitTime).map Int64.toInt).getD 0

/-- One stored plan was submitted later than another one, or at the same time and has the larger
identifier. -/
def Newer (x y : Uuid × Item) : Prop :=
  submitted y.2 < submitted x.2 ∨ submitted y.2 = submitted x.2 ∧ y.1.value < x.1.value

theorem Newer.asymm {x y : Uuid × Item} (newer : Newer x y) : ¬ Newer y x := by
  unfold Newer at newer ⊢
  omega

/-- The plans that an archive has stored, each once and newer ones before older ones. -/
structure NewestFirst (a : Archive) (c : Contents) (plans : List (Uuid × Item)) : Prop where
  stored : ∀ id item, (id, item) ∈ plans ↔ c.find? (a.key .plan id) = some item
  sorted : plans.Pairwise Newer

/-- There is one way to put the newer plans before the older ones. -/
theorem NewestFirst.unique (first : a.NewestFirst c plans) (second : a.NewestFirst c others) :
    others = plans := by
  have nodup {plans : List (Uuid × Item)} (sorted : plans.Pairwise Newer) : plans.Nodup := by
    refine sorted.imp fun newer same => ?_
    subst same
    exact newer.asymm newer
  have sameMembers : others.Perm plans :=
    (List.perm_ext_iff_of_nodup (nodup second.sorted) (nodup first.sorted)).mpr
      fun (id, item) => (second.stored id item).trans (first.stored id item).symm
  exact sameMembers.eq_of_pairwise (fun _ _ _ _ newer older => absurd older newer.asymm)
    second.sorted first.sorted

theorem NewestFirst.congr
    (same : ∀ id, t.contents.find? (a.key .plan id) = s.contents.find? (a.key .plan id))
    (newestFirst : a.NewestFirst s.contents plans) : a.NewestFirst t.contents plans where
  stored := by
    intro id item
    rw [same]
    exact newestFirst.stored id item
  sorted := newestFirst.sorted

theorem order_eq_lt_iff {x y : Uuid × Item} (labelled : c.Labelled a.part .plans)
    (isStored : c.find? (a.key .plan x.1) = some x.2)
    (alsoStored : c.find? (a.key .plan y.1) = some y.2) :
    (Query.orderedBy Field.submitTime).order x.2.doc y.2.doc = .lt ↔ Newer x y := by
  have isOrder : (Query.orderedBy Field.submitTime).order x.2.doc y.2.doc =
      (compare (submitted y.2) (submitted x.2)).then (compare y.1.value x.1.value) :=
    Query.order_of_labels (labelled.tieKey_eq isStored) (labelled.tieKey_eq alsoStored)
  rw [isOrder, Ordering.then_eq_lt, Std.compare_eq_lt, Std.compare_eq_iff_eq, Nat.compare_eq_lt,
    Newer]

/-- What archives write carries the identifiers of the places it is written to. -/
theorem labelled_sharedHistory (turns : List (Archive × Turn)) (part : String)
    (collection : Collection) : (sharedHistory turns).contents.Labelled part collection := by
  induction turns using List.reverseRecOn with
  | nil => exact Contents.labelled_empty part collection
  | append_singleton earlier t inductionHypothesis =>
    rw [sharedHistory, List.foldl_append]
    obtain ⟨b, call, budget⟩ := t
    rw [← MemoryStore.contents_allowing _ budget] at inductionHypothesis
    cases call with
    | create p => exact labelled_create inductionHypothesis p
    | update x => exact labelled_update inductionHypothesis x
    | delete id => exact labelled_answer (a := b) inductionHypothesis (.delete id)

end Archive

end PlanArchive
