import Mathlib.Data.List.Forall2
import Mathlib.Data.List.Nodup
import PlanArchive.Proofs.Archive.Adopting
import PlanArchive.Proofs.Archive.Filtering
import PlanArchive.Proofs.Archive.History
import PlanArchive.Proofs.Store.Labels

/-!
# Searches and listings

A search yields what a listing yields with the plans left out that its filters do not select
(`search_eq_filter_list`). The listing looks at plans and the search at their documents. What both
rest on is that whatever is stored as a plan is the document of one (`PlansEncoded`), with the
identifier of its place. No call of the archive breaks that, whatever writes are let through and
whichever archives share the store.
-/

namespace PlanArchive

/-! ## Documents of plans -/

/-- A JSON value is the document of a plan that belongs to a place. -/
def IsPlanDocument (key : DocumentKey) (v : Json) : Prop :=
  ∃ p d, p.id = key.id ∧ PlanDocument.encode key.part p = .ok d ∧ v = d.toJson

/-- Everything that is stored as a plan is the document of one. -/
def Contents.PlansEncoded (c : Contents) : Prop :=
  ∀ key item, key.collection = .plans → c.find? key = some item → IsPlanDocument key item.doc

theorem Contents.PlansEncoded.put {c : Contents} {key : DocumentKey} {item : Item}
    (encoded : c.PlansEncoded)
    (isDocument : key.collection = .plans → IsPlanDocument key item.doc) :
    (c.put key item).PlansEncoded := by
  intro other stored ofPlan found
  rw [find?_put] at found
  by_cases same : other = key
  · rw [if_pos same] at found
    cases found
    subst same
    exact isDocument ofPlan
  · rw [if_neg same] at found
    exact encoded other stored ofPlan found

/-- The document of a plan is one still when progress of a plan is written into it. -/
theorem IsPlanDocument.advance {key : DocumentKey} {members : List (String × Json)} {y : Plan}
    {progress : Progress} (isDocument : IsPlanDocument key (.obj members))
    (written : (Entity.plan y).progress = .ok progress) :
    IsPlanDocument key (.obj (Patch.apply progress.fields members)) := by
  obtain ⟨p, d, isId, encoded, isJson⟩ := isDocument
  have isFields : members = (Document.plan d).fields :=
    Json.obj.inj (isJson.trans (Document.plan d).toJson_eq)
  obtain ⟨e, advanced, isAdvance⟩ := Archive.encode_advance encoded written
  rw [isFields, Document.apply_progress (Entity.isOf_of_progress written), isAdvance]
  exact ⟨{ p with submitTime := y.submitTime, reason := y.reason, state := y.state }, e, isId,
    advanced, rfl⟩

namespace Archive

variable {a : Archive} {c d : Contents} {p : Plan} {s : MemoryStore}

/-- Of the documents of a plan the one that goes to the plans is its own. -/
theorem isPlanDocument_of_validated {docs : List PendingDocument} {q : PendingDocument}
    (valid : a.validated p = .ok docs) (member : q ∈ docs) (isPlan : q.kind = .plan) :
    IsPlanDocument (a.place q) q.doc := by
  obtain ⟨encoded, _, distinct⟩ := validated_eq_ok valid
  have ids : docs.map PendingDocument.id = p.entities.map Prod.snd := by
    rw [← entities_of_documents encoded, List.map_map]
    rfl
  obtain ⟨_, _, d, _, _, isEncoded, split⟩ := documents_eq_ok encoded
  have own : (⟨.plan, p.id, d.toJson⟩ : PendingDocument) ∈ docs := by
    rw [split]
    exact List.mem_append_right _ List.mem_cons_self
  have sameId : q.id = p.id := by
    have isEntity : q.entity ∈ p.entities := entity_mem_of_validated valid member
    rw [PendingDocument.entity, isPlan] at isEntity
    exact Plan.eq_id_of_mem_entities isEntity
  have isOwn : q = ⟨.plan, p.id, d.toJson⟩ :=
    List.inj_on_of_nodup_map (ids ▸ distinct) member own sameId
  rw [isOwn]
  exact ⟨p, d, rfl, isEncoded, rfl⟩

theorem Writes.plansEncoded {planId : Uuid} {written : List WrittenDocument}
    (writes : a.Writes planId c written d) (encoded : c.PlansEncoded)
    (documents : ∀ w ∈ written, w.1.kind = .plan → IsPlanDocument (a.place w.1) w.1.doc) :
    d.PlansEncoded := by
  induction writes with
  | nil c => exact encoded
  | cons _ _ inductionHypothesis =>
    have ⟨isDocument, restDocuments⟩ := List.forall_mem_cons.mp documents
    exact inductionHypothesis
      (encoded.put fun ofPlan => isDocument (EntityKind.collection_eq_plans.mp ofPlan))
      restDocuments

/-! ## Histories of several archives -/

theorem plansEncoded_create (encoded : s.contents.PlansEncoded) (p : Plan) :
    (a.create p s).store.contents.PlansEncoded := by
  -- A creation that is cut short has written a prefix of the documents of the plan.
  rcases a.create_writes p s with same | ⟨docs, written, valid, _, isPrefix, writes⟩
  · rw [same]
    exact encoded
  · apply writes.plansEncoded encoded
    intro w member
    exact isPlanDocument_of_validated valid
      (isPrefix.subset (List.mem_map.mpr ⟨w, member, rfl⟩))

theorem plansEncoded_update (encoded : s.contents.PlansEncoded) (x : Entity) :
    (a.update x s).store.contents.PlansEncoded := by
  rcases a.update_cases x s with ⟨_, t, failed, same⟩ |
    ⟨progress, members, old, token, t, _, isProgress, stored, succeeded, put⟩
  · rw [failed, same]
    exact encoded
  · rw [succeeded, put]
    apply encoded.put
    intro ofPlan
    -- An update of an entity below a plan puts nothing at the place of a plan.
    cases x with
    | plan y => exact (encoded _ _ ofPlan stored).advance isProgress
    | _ => cases ofPlan

theorem plansEncoded_delete (encoded : s.contents.PlansEncoded) (id : Uuid) :
    (a.delete id s).2.contents.PlansEncoded := by
  intro key item ofPlan stored
  rcases delete_keepsOrClears (a := a) ofPlan id s with same | ⟨_, gone⟩
  · exact encoded key item ofPlan (same ▸ stored)
  · cases gone.symm.trans stored

theorem plansEncoded_turn (encoded : s.contents.PlansEncoded) (t : Turn) :
    (a.turn s t).contents.PlansEncoded := by
  rw [← s.contents_allowing t.writesLeft] at encoded
  obtain ⟨call, budget⟩ := t
  cases call with
  | create p => exact plansEncoded_create encoded p
  | update x => exact plansEncoded_update encoded x
  | delete id => exact plansEncoded_delete encoded id

/-- The store after calls of archives that share it, beginning with an empty one. -/
def sharedHistory (turns : List (Archive × Turn)) : MemoryStore :=
  turns.foldl (fun s t => t.1.turn s t.2) .empty

theorem plansEncoded_sharedHistory (turns : List (Archive × Turn)) :
    (sharedHistory turns).contents.PlansEncoded := by
  induction turns using List.reverseRecOn with
  | nil =>
    intro key item _ stored
    cases stored
  | append_singleton earlier t inductionHypothesis =>
    rw [sharedHistory, List.foldl_append]
    exact plansEncoded_turn inductionHypothesis t.2

/-! ## Summaries -/

/-- A listing says this about a stored plan, and filters that are not refused find the plan exactly
when they select what the listing says. -/
structure Summarizes (item : Item) (x : PlanSummary) : Prop where
  yields : ∀ operation, PlanSummary.ofItem operation item = .ok x
  found : ∀ f : Filters, ¬ f.Refused → (f.query.selects item.doc = true ↔ f.Selects x)

theorem exists_summary {key : DocumentKey} {item : Item}
    (isDocument : IsPlanDocument key item.doc) : ∃ x, Summarizes item x := by
  obtain ⟨doc, token⟩ := item
  obtain ⟨p, d, _, encoded, rfl⟩ := isDocument
  have decodes := PlanDocument.decode_of_encode encoded token
  refine ⟨.ofPlan _, fun operation => ?_, fun f accepted =>
    Filters.query_selects_iff accepted encoded decodes⟩
  simp only [PlanSummary.ofItem, PlanDocument.ofJson?_toJson, decodes]
  rfl

theorem exists_summaries {items : List Item} (each : ∀ item ∈ items, ∃ x, Summarizes item x) :
    ∃ xs, List.Forall₂ Summarizes items xs := by
  induction items with
  | nil => exact ⟨[], .nil⟩
  | cons item rest inductionHypothesis =>
    have ⟨⟨x, isSummary⟩, others⟩ := List.forall_mem_cons.mp each
    obtain ⟨xs, areSummaries⟩ := inductionHypothesis others
    exact ⟨x :: xs, .cons isSummary areSummaries⟩

/-- Plans that have summaries are listed as these, without an error. -/
theorem untilError_of_summaries {items : List Item} {xs : List PlanSummary}
    (summarized : List.Forall₂ Summarizes items xs) (operation : Operation) :
    untilError (items.map (PlanSummary.ofItem operation)) = xs.map .ok := by
  induction summarized with
  | nil => rfl
  | cons isSummary _ inductionHypothesis =>
    rw [List.map_cons, List.map_cons, isSummary.yields, untilError, inductionHypothesis]

theorem filter_of_summaries {f : Filters} {items : List Item} {xs : List PlanSummary}
    (accepted : ¬ f.Refused) (summarized : List.Forall₂ Summarizes items xs) :
    List.Forall₂ Summarizes (items.filter fun item => f.query.selects item.doc)
      (xs.filter fun x => f.Selects x) := by
  refine List.rel_filter ?_ summarized
  intro item x isSummary
  simpa using isSummary.found f accepted

/-- Documents of plans carry the identifiers of their places. -/
theorem labelled_of_plansEncoded (encoded : c.PlansEncoded) (part : String) :
    c.Labelled part .plans := by
  intro id item stored
  obtain ⟨p, d, isId, isEncoded, isJson⟩ := encoded _ item rfl stored
  simp only [PlanDocument.encode, Except.bind_eq_ok, pure, Except.pure,
    Except.ok.injEq] at isEncoded
  obtain ⟨_, _, _, _, rfl⟩ := isEncoded
  rw [isJson]
  exact congrArg (fun id => some id.toText) isId

/-! ## Searching -/

theorem list_of_summaries {xs : List PlanSummary}
    (summarized : List.Forall₂ Summarizes
      (s.query a.part .plans (.orderedBy Field.submitTime)) xs) : a.list s 0 = xs.map .ok :=
  untilError_of_summaries summarized .list

theorem search_of_summaries {f : Filters} {xs : List PlanSummary}
    (encoded : s.contents.PlansEncoded) (accepted : ¬ f.Refused)
    (summarized : List.Forall₂ Summarizes
      (s.query a.part .plans (.orderedBy Field.submitTime)) xs) :
    a.search s f = .ok ((xs.filter fun x => f.Selects x).map .ok) := by
  have found : s.query a.part .plans f.query =
      (s.query a.part .plans (.orderedBy Field.submitTime)).filter
        fun item => f.query.selects item.doc :=
    Query.run_eq_filter (labelled_of_plansEncoded encoded a.part).identified rfl
  have searched := untilError_of_summaries (filter_of_summaries accepted summarized) .search
  rw [← found] at searched
  rw [search, Filters.toQuery_of_not_refused accepted]
  exact congrArg Except.ok searched

/-- Searching is filtering the listing. In every store that archives have worked on, whatever of
their writes was let through, a listing says something about every plan, a search fails validation
exactly when its filters are refused, and otherwise it yields what the listing says about the plans
that the filters select, in the same order. In which order the filters list their values does not
matter. -/
theorem search_eq_filter_list (a : Archive) (turns : List (Archive × Turn)) (f : Filters) :
    ∃ summaries : List PlanSummary, a.list (sharedHistory turns) 0 = summaries.map .ok ∧
      ((∃ cause, a.search (sharedHistory turns) f = .error (.validation cause)) ↔ f.Refused) ∧
      (¬ f.Refused → a.search (sharedHistory turns) f =
        .ok ((summaries.filter fun x => f.Selects x).map .ok)) ∧
      ∀ g, f.SameValues g → (g.Refused ↔ f.Refused) ∧
        (¬ f.Refused → a.search (sharedHistory turns) g = a.search (sharedHistory turns) f) := by
  have encoded := plansEncoded_sharedHistory turns
  generalize sharedHistory turns = s at encoded ⊢
  have each : ∀ item ∈ s.query a.part .plans (.orderedBy Field.submitTime),
      ∃ x, Summarizes item x := by
    intro item member
    rw [MemoryStore.query, Query.run_orderedBy, (Query.sort_perm _ _ _).mem_iff] at member
    obtain ⟨id, stored⟩ := Contents.mem_itemsIn.mp member
    exact exists_summary (encoded _ item rfl stored)
  obtain ⟨xs, summarized⟩ := exists_summaries each
  refine ⟨xs, list_of_summaries summarized, ⟨?_, ?_⟩,
    fun accepted => search_of_summaries encoded accepted summarized, ?_⟩
  · rintro ⟨cause, failed⟩
    by_contra accepted
    cases failed.symm.trans (search_of_summaries encoded accepted summarized)
  · intro refused
    obtain ⟨cause, failed⟩ := Filters.toQuery_of_refused refused
    exact ⟨cause, by rw [search, failed]; rfl⟩
  · intro g same
    refine ⟨same.refused_iff, fun accepted => ?_⟩
    rw [search_of_summaries encoded (mt same.refused_iff.mp accepted) summarized,
      search_of_summaries encoded accepted summarized]
    simp only [same.selects_iff]

/-- A plan in a group, without checks and blocks. -/
def groupedPlan : Plan :=
  { demoPlan with
    id := numbered 6
    groupId := some (numbered 9)
    checks := .fill none
    blocks := [] }

/-- Two archives share a store. Each of them creates a plan, and one of the plans starts to run. -/
def sharedTurns : List (Archive × Turn) :=
  let running : State := ⟨.running, some (.ofNanos 3), none, none⟩
  [(demo, ⟨.create demoPlan, none⟩), (⟨"others", demo.registry⟩, ⟨.create demoPlan, some 9⟩),
    (demo, ⟨.create groupedPlan, none⟩),
    (demo, ⟨.update (.plan { groupedPlan with state := running }), none⟩)]

/-- The running plans of two groups. -/
def runningInGroups : Filters := ⟨[], [numbered 8, numbered 9], [.running]⟩

theorem search_eq_filter_list_sharedTurns :
    ¬ runningInGroups.Refused ∧
    runningInGroups.SameValues ⟨[], [numbered 9, numbered 8], [.running]⟩ ∧
    ((sharedHistory sharedTurns).contents.itemsIn demo.part .plans).length = 2 ∧
    ∃ summaries : List PlanSummary,
      demo.list (sharedHistory sharedTurns) 0 = summaries.map .ok ∧
      demo.search (sharedHistory sharedTurns) runningInGroups =
        .ok ((summaries.filter fun x => runningInGroups.Selects x).map .ok) ∧
      (summaries.filter fun x => runningInGroups.Selects x).map PlanSummary.id = [numbered 6] ∧
      demo.search (sharedHistory sharedTurns) ⟨[], [numbered 9, numbered 8], [.running]⟩ =
        demo.search (sharedHistory sharedTurns) runningInGroups := by
  have accepted : ¬ runningInGroups.Refused := by decide
  have same : runningInGroups.SameValues ⟨[], [numbered 9, numbered 8], [.running]⟩ :=
    ⟨.refl _, .swap _ _ _, .refl _⟩
  obtain ⟨summaries, listed, _, searched, reordered⟩ :=
    search_eq_filter_list demo sharedTurns runningInGroups
  have found : (demo.search (sharedHistory sharedTurns) runningInGroups).toOption.map
      (List.map fun x => x.toOption.map PlanSummary.id) = some [some (numbered 6)] := by
    decide +kernel
  rw [searched accepted] at found
  have ids : (summaries.filter fun x => runningInGroups.Selects x).map PlanSummary.id =
      [numbered 6] := by
    simpa [Except.toOption] using found
  exact ⟨accepted, same, by decide +kernel, summaries, listed, searched accepted, ids,
    (reordered _ same).2 accepted⟩

end Archive

end PlanArchive
