import Mathlib.Order.Nat
import Mathlib.Order.Interval.Finset.Nat
import Mathlib.Data.Nat.Count
import PlanArchive.Proofs.Archive.Requests

/-!
# Shadows of a partition

A store is the shadow of a partition of another one when it holds the documents of that partition,
under renamed tokens, and has minted as many tokens as the other store has minted for the partition.
The tokens that the other store minted for the partition are its own; the renaming numbers them
through. A request comes to the same with the shadow, under renamed tokens, and leaves a shadow
(`shadow_answer`); what happens in other partitions leaves it the shadow that it was
(`shadow_elsewhere`).
-/

namespace PlanArchive

variable {own : Nat → Prop} [DecidablePred own] {ρ : Renaming} {part : String}

/-- A renaming that numbers own tokens through and keeps all tokens apart. -/
structure Numbers (own : Nat → Prop) [DecidablePred own] (ρ : Renaming) : Prop where
  injective : Function.Injective ρ
  minted : ∀ n, own n → ρ (.minted n) = .minted (Nat.count own n)

namespace MemoryStore

/-- The second store is the shadow of a partition of the first. -/
structure Shadow (part : String) (own : Nat → Prop) [DecidablePred own] (ρ : Renaming)
    (s t : MemoryStore) : Prop where
  faultless : s.Faultless
  alsoFaultless : t.Faultless
  found : ∀ collection id, t.contents.find? ⟨part, collection, id⟩ =
    (s.contents.find? ⟨part, collection, id⟩).map (Item.renamed ρ)
  minted : t.minted = Nat.count own s.minted

variable {s t u : MemoryStore}

/-! ## Single calls -/

theorem Shadow.current (shadow : Shadow part own ρ s t) (numbers : Numbers own ρ)
    (collection : Collection) (id : Uuid) (demanded : Option VersionToken) :
    t.current ⟨part, collection, id⟩ (demanded.map ρ) =
      (s.current ⟨part, collection, id⟩ demanded).map (Item.renamed ρ) := by
  rw [MemoryStore.current, MemoryStore.current, shadow.found]
  cases s.contents.find? ⟨part, collection, id⟩ with
  | none => rfl
  | some item =>
    cases demanded with
    | none => rfl
    | some token =>
      -- Tokens match exactly when they do under other names.
      have sameMatch : ρ token = (item.renamed ρ).token ↔ token = item.token :=
        numbers.injective.eq_iff
      simp only [Option.map_some, sameMatch]
      split <;> rfl

/-- Storing a document comes to the same when the next token is an own one. -/
theorem Shadow.commit (shadow : Shadow part own ρ s t) (numbers : Numbers own ρ)
    (isOwn : own s.minted) (collection : Collection) (id : Uuid) (doc : Json) :
    SameOutcome (Shadow part own ρ) (translated ρ (s.commit ⟨part, collection, id⟩ doc))
      (t.commit ⟨part, collection, id⟩ doc) := by
  have token : ρ (.minted s.minted) = .minted t.minted := by
    rw [numbers.minted _ isOwn, shadow.minted]
  refine ⟨congrArg Except.ok token, shadow.faultless, shadow.alsoFaultless, ?_, ?_⟩
  · intro other x
    simp only [MemoryStore.commit, translated, Contents.find?_put]
    split
    · rw [Option.map_some, Item.renamed, token]
    · exact shadow.found other x
  · simp only [MemoryStore.commit, translated, Nat.count_succ, if_pos isOwn, shadow.minted]

theorem Shadow.create (shadow : Shadow part own ρ s t) (numbers : Numbers own ρ)
    (collection : Collection) (id : Uuid) (doc : Json)
    (isOwn : s.minted < (s.create ⟨part, collection, id⟩ doc).2.minted → own s.minted) :
    SameOutcome (Shadow part own ρ) (translated ρ (s.create ⟨part, collection, id⟩ doc))
      (t.create ⟨part, collection, id⟩ doc) := by
  rw [MemoryStore.create, admitting_of_faultless shadow.faultless] at isOwn
  rw [MemoryStore.create, admitting_of_faultless shadow.faultless, MemoryStore.create,
    admitting_of_faultless shadow.alsoFaultless, shadow.found]
  cases stored : s.contents.find? ⟨part, collection, id⟩ with
  | some item => exact ⟨rfl, shadow⟩
  | none =>
    rw [stored] at isOwn
    exact shadow.commit numbers (isOwn (Nat.lt_succ_self _)) collection id doc

theorem Shadow.replace (shadow : Shadow part own ρ s t) (numbers : Numbers own ρ)
    (collection : Collection) (id : Uuid) (doc : Json) (demanded : Option VersionToken)
    (isOwn : s.minted < (s.replace ⟨part, collection, id⟩ doc demanded).2.minted →
      own s.minted) :
    SameOutcome (Shadow part own ρ)
      (translated ρ (s.replace ⟨part, collection, id⟩ doc demanded))
      (t.replace ⟨part, collection, id⟩ doc (demanded.map ρ)) := by
  rw [MemoryStore.replace, admitting_of_faultless shadow.faultless] at isOwn
  rw [MemoryStore.replace, admitting_of_faultless shadow.faultless, MemoryStore.replace,
    admitting_of_faultless shadow.alsoFaultless, shadow.current numbers]
  cases found : s.current ⟨part, collection, id⟩ demanded with
  | error e => exact ⟨rfl, shadow⟩
  | ok item =>
    rw [found] at isOwn
    exact shadow.commit numbers (isOwn (Nat.lt_succ_self _)) collection id doc

theorem Shadow.patch (shadow : Shadow part own ρ s t) (numbers : Numbers own ρ)
    (collection : Collection) (id : Uuid) (patches : List Patch) (demanded : Option VersionToken)
    (isOwn : s.minted < (s.patch ⟨part, collection, id⟩ patches demanded).2.minted →
      own s.minted) :
    SameOutcome (Shadow part own ρ)
      (translated ρ (s.patch ⟨part, collection, id⟩ patches demanded))
      (t.patch ⟨part, collection, id⟩ patches (demanded.map ρ)) := by
  unfold MemoryStore.patch at isOwn ⊢
  cases collected : Patch.collect patches with
  | error e => exact ⟨rfl, shadow⟩
  | ok fields =>
    simp only [collected, admitting_of_faultless shadow.faultless] at isOwn
    simp only [admitting_of_faultless shadow.faultless, admitting_of_faultless shadow.alsoFaultless,
      shadow.current numbers]
    cases found : s.current ⟨part, collection, id⟩ demanded with
    | error e => exact ⟨rfl, shadow⟩
    | ok item =>
      simp only [found] at isOwn
      obtain ⟨doc, token⟩ := item
      cases doc with
      | obj members => exact shadow.commit numbers (isOwn (Nat.lt_succ_self _)) collection id _
      | _ => exact ⟨rfl, shadow⟩

theorem Shadow.delete (shadow : Shadow part own ρ s t) (numbers : Numbers own ρ)
    (collection : Collection) (id : Uuid) (demanded : Option VersionToken) :
    SameOutcome (Shadow part own ρ) (s.delete ⟨part, collection, id⟩ demanded)
      (t.delete ⟨part, collection, id⟩ (demanded.map ρ)) := by
  rw [MemoryStore.delete, admitting_of_faultless shadow.faultless, MemoryStore.delete,
    admitting_of_faultless shadow.alsoFaultless, shadow.current numbers]
  cases s.current ⟨part, collection, id⟩ demanded with
  | error e => exact ⟨rfl, shadow⟩
  | ok item =>
    refine ⟨rfl, shadow.faultless, shadow.alsoFaultless, ?_, shadow.minted⟩
    intro other x
    simp only [Except.map, Contents.find?_erase]
    split
    · rfl
    · exact shadow.found other x

/-! ## Queries -/

theorem Shadow.labelled {collection : Collection} (shadow : Shadow part own ρ s t)
    (labelled : s.contents.Labelled part collection) : t.contents.Labelled part collection := by
  intro id stored found
  rw [shadow.found, Option.map_eq_some_iff] at found
  obtain ⟨item, isStored, rfl⟩ := found
  exact labelled id item isStored

/-- Up to their order a shadow keeps the same documents. -/
theorem Shadow.itemsIn_perm (shadow : Shadow part own ρ s t) (collection : Collection) :
    (t.contents.itemsIn part collection).Perm
      ((s.contents.itemsIn part collection).map (Item.renamed ρ)) := by
  have places : (t.contents.placesIn part collection).Perm
      ((s.contents.placesIn part collection).map fun e => (e.1, e.2.renamed ρ)) := by
    apply (List.perm_ext_iff_of_nodup ?_ ?_).mpr
    · rintro ⟨id, item⟩
      rw [Contents.mem_placesIn, shadow.found, Option.map_eq_some_iff, List.mem_map]
      constructor
      · rintro ⟨original, stored, rfl⟩
        exact ⟨(id, original), Contents.mem_placesIn.mpr stored, rfl⟩
      · rintro ⟨⟨_, original⟩, stored, isItem⟩
        cases isItem
        exact ⟨original, Contents.mem_placesIn.mp stored, rfl⟩
    · exact (t.contents.nodup_placesIn part collection).of_map
    · apply List.Nodup.of_map Prod.fst
      rw [List.map_map]
      exact s.contents.nodup_placesIn part collection
  have items := places.map Prod.snd
  rwa [Contents.map_placesIn, List.map_map, show Prod.snd ∘ (fun e : Uuid × Item =>
    (e.1, e.2.renamed ρ)) = Item.renamed ρ ∘ Prod.snd from rfl, ← List.map_map,
    Contents.map_placesIn] at items

/-- Queries of labelled documents do not depend on the order in which they are kept. -/
theorem Shadow.query (shadow : Shadow part own ρ s t) {collection : Collection}
    (labelled : s.contents.Labelled part collection) (q : Query) :
    t.query part collection q = (s.query part collection q).map (Item.renamed ρ) := by
  have identified := (shadow.labelled labelled).identified
  rw [MemoryStore.query, MemoryStore.query,
    ← Query.run_perm identified (shadow.itemsIn_perm collection).symm, Query.run_map]
  rfl

/-! ## All calls -/

theorem Shadow.read (shadow : Shadow part own ρ s t) (collection : Collection) (id : Uuid) :
    t.read ⟨part, collection, id⟩ = (s.read ⟨part, collection, id⟩).map (Item.renamed ρ) := by
  rw [read_eq, read_eq, shadow.found]
  cases s.contents.find? ⟨part, collection, id⟩ <;> rfl

theorem mirroredReads_shadow : MirroredReads part ρ (Shadow part own ρ) where
  read := fun shadow => shadow.read

/-- Writes to a partition and to its shadow come to the same while the tokens are own ones. -/
theorem mirroredWrites_shadow (numbers : Numbers own ρ) (start : Nat) :
    MirroredWrites part ρ (fun u : MemoryStore => ∀ n, start ≤ n → n < u.minted → own n)
      (fun u v => Shadow part own ρ u v ∧ start ≤ u.minted) where
  read := fun related => related.1.read
  create := by
    rintro u v ⟨shadow, isLater⟩ collection id doc isOwn
    obtain ⟨value, stores⟩ := shadow.create numbers collection id doc (isOwn _ isLater)
    exact ⟨value, stores, isLater.trans (touches_create _ _ _).minted⟩
  replace := by
    rintro u v ⟨shadow, isLater⟩ collection id doc demanded isOwn
    obtain ⟨value, stores⟩ := shadow.replace numbers collection id doc demanded (isOwn _ isLater)
    exact ⟨value, stores, isLater.trans (touches_replace _ _ _ _).minted⟩
  patch := by
    rintro u v ⟨shadow, isLater⟩ collection id patches demanded isOwn
    obtain ⟨value, stores⟩ := shadow.patch numbers collection id patches demanded (isOwn _ isLater)
    exact ⟨value, stores, isLater.trans (touches_patch _ _ _ _).minted⟩
  beforeCreate := fun isOwn n after before =>
    isOwn n after (before.trans_le (touches_create _ _ _).minted)
  beforeReplace := fun isOwn n after before =>
    isOwn n after (before.trans_le (touches_replace _ _ _ _).minted)

/-- So do removals from labelled documents. -/
theorem mirroredRemovals_shadow (part : String) (numbers : Numbers own ρ) :
    MirroredRemovals part ρ fun u v : MemoryStore => Shadow part own ρ u v ∧
      ∀ collection, u.contents.Labelled part collection where
  read := fun related => related.1.read
  query := by
    rintro u v ⟨shadow, labelled⟩ collection q
    exact congrArg Except.ok (shadow.query (labelled collection) q)
  delete := by
    rintro u v ⟨shadow, labelled⟩ collection id demanded
    obtain ⟨value, stores⟩ := shadow.delete numbers collection id demanded
    exact ⟨value, stores, fun other => (labelled other).delete _ demanded⟩

end MemoryStore

/-! ## Requests -/

namespace Archive

open MemoryStore

variable {a : Archive} {s t : MemoryStore}

/-- A request comes to the same with the shadow of the archive's partition, under renamed tokens,
and leaves a shadow, when the tokens that are minted for it are own ones. -/
theorem shadow_answer (shadow : Shadow a.part own ρ s t) (numbers : Numbers own ρ)
    (labelled : ∀ collection, s.contents.Labelled a.part collection) (r : Request)
    (isOwn : ∀ n, s.minted ≤ n → n < (a.answer r s).2.minted → own n) :
    (a.answer (r.renamed ρ) t).1 = (a.answer r s).1.renamed ρ ∧
      Shadow a.part own ρ (a.answer r s).2 (a.answer (r.renamed ρ) t).2 := by
  have reads : MirroredReads a.part ρ (Shadow a.part own ρ) := mirroredReads_shadow
  have removals := mirroredRemovals_shadow a.part numbers
  cases r with
  | create p =>
    obtain ⟨value, stores⟩ :=
      create_mirrored (mirroredWrites_shadow numbers s.minted) ⟨shadow, le_refl _⟩ p isOwn
    have ⟨result, entity⟩ := Prod.mk.inj value
    exact ⟨congrArg₂ Reply.created result.symm entity.symm, stores.1⟩
  | update x =>
    obtain ⟨value, stores⟩ :=
      update_mirrored (mirroredWrites_shadow numbers s.minted) ⟨shadow, le_refl _⟩ x isOwn
    have ⟨result, entity⟩ := Prod.mk.inj value
    exact ⟨congrArg₂ Reply.updated result.symm entity.symm, stores.1⟩
  | delete id =>
    obtain ⟨value, stores⟩ := delete_mirrored removals id s t ⟨shadow, labelled⟩
    exact ⟨congrArg Reply.deleted value.symm, stores.1⟩
  | read id => exact ⟨congrArg Reply.read (read_mirrored reads shadow id), shadow⟩
  | «exists» id => exact ⟨congrArg Reply.exists (hasPlan_mirrored reads shadow id), shadow⟩
  | actions ids => exact ⟨congrArg Reply.actions (actions_mirrored reads shadow ids), shadow⟩
  | list limit =>
    exact ⟨congrArg Reply.listed (summaries_mirrored removals ⟨shadow, labelled⟩ _ _), shadow⟩
  | search f =>
    refine ⟨congrArg Reply.searched ?_, shadow⟩
    exact Except.bind_of_each fun q =>
      congrArg Except.ok (summaries_mirrored removals ⟨shadow, labelled⟩ _ q)

/-- What happens in other partitions leaves a shadow the shadow that it was. -/
theorem shadow_elsewhere {part other : String} {u : MemoryStore} (shadow : Shadow part own ρ s t)
    (different : part ≠ other) (stays : StaysIn other s u)
    (foreign : ∀ n, s.minted ≤ n → n < u.minted → ¬ own n) : Shadow part own ρ u t where
  faultless := stays.faultless shadow.faultless
  alsoFaultless := shadow.alsoFaultless
  found := by
    intro collection id
    rw [shadow.found, stays.others _ different]
  minted := by
    obtain ⟨grown, isGrown⟩ := Nat.exists_eq_add_of_le stays.minted
    have none : Nat.count (fun n => own (s.minted + n)) grown = 0 :=
      Nat.count_of_forall_not fun n before => foreign _ (by omega) (by omega)
    rw [shadow.minted, isGrown, Nat.count_add, none, Nat.add_zero]

end Archive

end PlanArchive
