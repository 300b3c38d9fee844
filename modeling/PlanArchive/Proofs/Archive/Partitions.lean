import PlanArchive.Proofs.Archive.Ownership
import PlanArchive.Proofs.Archive.Shadows

/-!
# Archives that share a store

Two archives of different partitions answer requests on one store, in any order. The first of them
notices nothing of the second: with the same requests and no others it replies the same and leaves
the same documents, but for the names of version tokens (`partitions_isolated`). Tokens are minted
from one counter, so that their numbers do tell of the writes in other partitions; what an archive
does with tokens does not depend on their numbers.

The renaming is found by going through the shared run once: the tokens that it mints for the first
archive are numbered as a run without the second one numbers them.
-/

namespace PlanArchive

namespace Archive

open MemoryStore

variable {a b : Archive} {s t : MemoryStore} {calls : List (Request ⊕ Request)}

/-! ## Runs -/

/-- Two archives answer requests on one store. The replies of the first of them, and the store
afterwards. -/
def shared (a b : Archive) : List (Request ⊕ Request) → MemoryStore → List Reply × MemoryStore
  | [], s => ([], s)
  | .inl r :: rest, s =>
    let (reply, t) := a.answer r s
    let (replies, u) := shared a b rest t
    (reply :: replies, u)
  | .inr r :: rest, s => shared a b rest (b.answer r s).2

/-- One archive answers requests: its replies, and the store afterwards. -/
def alone (a : Archive) : List Request → MemoryStore → List Reply × MemoryStore
  | [], s => ([], s)
  | r :: rest, s =>
    let (reply, t) := a.answer r s
    let (replies, u) := alone a rest t
    (reply :: replies, u)

/-- The requests to the first of two archives. -/
abbrev own (calls : List (Request ⊕ Request)) : List Request := calls.filterMap Sum.getLeft?

theorem shared_preserves (property : MemoryStore → Prop)
    (first : ∀ r s, property s → property (a.answer r s).2)
    (second : ∀ r s, property s → property (b.answer r s).2) (holds : property s) :
    property (a.shared b calls s).2 := by
  induction calls generalizing s with
  | nil => exact holds
  | cons call rest inductionHypothesis =>
    cases call with
    | inl r => exact inductionHypothesis (first r s holds)
    | inr r => exact inductionHypothesis (second r s holds)

/-- The serials of the tokens that are minted for the first of two archives. -/
def ownSerials (a b : Archive) : List (Request ⊕ Request) → MemoryStore → List Nat
  | [], _ => []
  | .inl r :: rest, s =>
    let t := (a.answer r s).2
    List.range' s.minted (t.minted - s.minted) ++ ownSerials a b rest t
  | .inr r :: rest, s => ownSerials a b rest (b.answer r s).2

theorem minted_le_of_mem_ownSerials {n : Nat} (isOwn : n ∈ a.ownSerials b calls s) :
    s.minted ≤ n := by
  induction calls generalizing s with
  | nil => cases isOwn
  | cons call rest inductionHypothesis =>
    cases call with
    | inl r =>
      rcases List.mem_append.mp isOwn with isNow | isLater
      · exact (List.mem_range'_1.mp isNow).1
      · exact (staysIn_answer a r s).minted.trans (inductionHypothesis isLater)
    | inr r => exact (staysIn_answer b r s).minted.trans (inductionHypothesis isOwn)

/-- Through a run that another archive takes part in, the shadow of a partition stays one and
replies the same, when the own tokens are those that are minted for the archive of the partition. -/
theorem shadow_shared {isOwn : Nat → Prop} [DecidablePred isOwn] {ρ : Renaming}
    (different : a.part ≠ b.part) (numbers : Numbers isOwn ρ) (shadow : Shadow a.part isOwn ρ s t)
    (labelled : ∀ collection, s.contents.Labelled a.part collection)
    (serials : ∀ n, s.minted ≤ n → (isOwn n ↔ n ∈ a.ownSerials b calls s)) :
    (a.alone ((own calls).map (Request.renamed ρ)) t).1 =
        (a.shared b calls s).1.map (Reply.renamed ρ) ∧
      Shadow a.part isOwn ρ (a.shared b calls s).2
        (a.alone ((own calls).map (Request.renamed ρ)) t).2 := by
  induction calls generalizing s t with
  | nil => exact ⟨rfl, shadow⟩
  | cons call rest inductionHypothesis =>
    cases call with
    | inl r =>
      have grows := (staysIn_answer a r s).minted
      obtain ⟨reply, after⟩ := shadow_answer shadow numbers labelled r fun n from_ before =>
        (serials n from_).mpr (List.mem_append_left _ (List.mem_range'_1.mpr (by omega)))
      obtain ⟨replies, final⟩ := inductionHypothesis after
        (fun collection => labelled_answer (labelled collection) r) fun n later => by
          rw [serials n (grows.trans later), ownSerials, List.mem_append, List.mem_range'_1]
          exact or_iff_right (by omega)
      exact ⟨congrArg₂ List.cons reply replies, final⟩
    | inr r =>
      have stays := staysIn_answer b r s
      have foreign : ∀ n, s.minted ≤ n → n < (b.answer r s).2.minted → ¬ isOwn n := by
        intro n from_ before isAmong
        have later : n ∈ a.ownSerials b rest (b.answer r s).2 := (serials n from_).mp isAmong
        exact absurd (minted_le_of_mem_ownSerials later) before.not_ge
      exact inductionHypothesis (shadow_elsewhere shadow different stays foreign)
        (fun collection => labelled_answer (labelled collection) r)
        fun n later => serials n (stays.minted.trans later)

/-! ## The renaming -/

/-- Gives the tokens of own serials the numbers of these among all own ones, and new names from a
bound on to all others that were minted. -/
def numbering (isOwn : Nat → Prop) [DecidablePred isOwn] (bound : Nat) : Renaming
  | .minted n => .minted (if isOwn n then Nat.count isOwn n else bound + n)
  | .custom text => .custom text

theorem numbers_numbering {isOwn : Nat → Prop} [DecidablePred isOwn] {bound : Nat}
    (bounded : ∀ n, isOwn n → n < bound) : Numbers isOwn (numbering isOwn bound) where
  minted := fun n isAmong => by rw [numbering, if_pos isAmong]
  injective := by
    -- Own serials get numbers below the bound.
    have below (n : Nat) (isAmong : isOwn n) : Nat.count isOwn n < bound :=
      (Nat.count_le isOwn).trans_lt (bounded n isAmong)
    intro first second same
    cases first with
    | custom text =>
      cases second with
      | custom other => exact same
      | minted n => cases same
    | minted n =>
      cases second with
      | custom other => cases same
      | minted m =>
        have sameNumber := VersionToken.minted.inj same
        congr 1
        split at sameNumber <;> split at sameNumber
        · exact Nat.count_injective ‹_› ‹_› sameNumber
        · have := below n ‹_›
          omega
        · have := below m ‹_›
          omega
        · omega

/-! ## Isolation -/

/-- Two archives of different partitions share a store without faults, in which the documents of the
first one's partition carry the identifiers of their places and tokens that the store has minted.
Whatever the two are asked for, in any order, the first one replies as it would with its own
requests only, and the documents of its partition are in the end what they would be, under renamed
version tokens. The renaming keeps tokens apart, and it keeps the names of all tokens that the store
had minted before and of those that no store has minted. -/
theorem partitions_isolated (different : a.part ≠ b.part) (faultless : s.Faultless)
    (labelled : ∀ collection, s.contents.Labelled a.part collection)
    (issued : s.IssuedIn a.part) (calls : List (Request ⊕ Request)) :
    ∃ ρ : Renaming, Function.Injective ρ ∧ (∀ n < s.minted, ρ (.minted n) = .minted n) ∧
      (∀ text, ρ (.custom text) = .custom text) ∧
      (a.alone ((own calls).map (Request.renamed ρ)) s).1 =
        (a.shared b calls s).1.map (Reply.renamed ρ) ∧
      ∀ collection id,
        (a.alone ((own calls).map (Request.renamed ρ)) s).2.contents.find?
            ⟨a.part, collection, id⟩ =
          ((a.shared b calls s).2.contents.find? ⟨a.part, collection, id⟩).map
            (Item.renamed ρ) := by
  let isOwn (n : Nat) : Prop := n < s.minted ∨ n ∈ a.ownSerials b calls s
  obtain ⟨bound, bounded⟩ : ∃ bound, ∀ n, isOwn n → n < bound := by
    obtain ⟨bound, subset⟩ := (a.ownSerials b calls s).toFinset.exists_nat_subset_range
    refine ⟨max s.minted bound, ?_⟩
    rintro n (isOld | isNew)
    · exact isOld.trans_le (le_max_left _ _)
    · exact (Finset.mem_range.mp (subset (List.mem_toFinset.mpr isNew))).trans_le (le_max_right _ _)
  have numbers := numbers_numbering bounded
  have old (n : Nat) (isOld : n < s.minted) : Nat.count isOwn n = n :=
    Nat.count_of_forall fun m before => .inl (before.trans isOld)
  have keeps (n : Nat) (isOld : n < s.minted) :
      numbering isOwn bound (.minted n) = .minted n := by
    rw [numbers.minted n (.inl isOld), old n isOld]
  have start : Shadow a.part isOwn (numbering isOwn bound) s s := by
    refine ⟨faultless, faultless, ?_, (Nat.count_of_forall fun _ isOld => .inl isOld).symm⟩
    intro collection id
    cases stored : s.contents.find? ⟨a.part, collection, id⟩ with
    | none => rfl
    | some item =>
      obtain ⟨doc, token⟩ := item
      cases token with
      | minted n =>
        have isOld := issued collection id _ n stored rfl
        rw [Option.map_some, Item.renamed, keeps n isOld]
      | custom text => rfl
  obtain ⟨replies, final⟩ := shadow_shared different numbers start labelled
    fun n notOld => or_iff_right notOld.not_gt
  exact ⟨_, numbers.injective, keeps, fun _ => rfl, replies, final.found⟩

/-- An archive of another partition. -/
def others : Archive := ⟨"others", demo.registry⟩

/-- A store in which each of two archives created a plan. -/
def busyStore : MemoryStore :=
  (demo.shared others [.inl (.create bystander), .inr (.create original)] .empty).2

/-- The plan as it starts to run, at the revision that its creation in that store leaves. -/
def started : Plan :=
  { original with state := ⟨.running, some (.ofNanos 3), none, some (.minted 10)⟩ }

/-- Both archives write to plans of the same identifiers. -/
def crossedCalls : List (Request ⊕ Request) :=
  [.inl (.create original), .inr (.create bystander), .inl (.update (.plan started)),
    .inl (.update (.plan started)), .inr (.delete original.id), .inl (.read original.id),
    .inl (.list 0), .inr (.update (.plan bystander)), .inl (.delete bystander.id)]

theorem partitions_isolated_crossedCalls :
    demo.part ≠ others.part ∧ busyStore.Faultless ∧
      (∀ collection, busyStore.contents.Labelled demo.part collection) ∧
      busyStore.IssuedIn demo.part ∧
      (demo.shared others crossedCalls busyStore).1[2]? =
        some (.updated (.error (.conflict .update .plan original.id)) (.plan started)) ∧
      (demo.alone (own crossedCalls) busyStore).1 ≠
        (demo.shared others crossedCalls busyStore).1 ∧
      ∃ ρ : Renaming, Function.Injective ρ ∧
        (∀ n < busyStore.minted, ρ (.minted n) = .minted n) ∧
        (∀ text, ρ (.custom text) = .custom text) ∧
        (demo.alone ((own crossedCalls).map (Request.renamed ρ)) busyStore).1 =
          (demo.shared others crossedCalls busyStore).1.map (Reply.renamed ρ) ∧
        ∀ collection id,
          (demo.alone ((own crossedCalls).map (Request.renamed ρ)) busyStore).2.contents.find?
              ⟨demo.part, collection, id⟩ =
            ((demo.shared others crossedCalls busyStore).2.contents.find?
              ⟨demo.part, collection, id⟩).map (Item.renamed ρ) := by
  have different : demo.part ≠ others.part := by decide
  have faultless : busyStore.Faultless :=
    shared_preserves Faultless (fun r s => (staysIn_answer demo r s).faultless)
      (fun r s => (staysIn_answer others r s).faultless) rfl
  have labelled (collection : Collection) : busyStore.contents.Labelled demo.part collection :=
    shared_preserves (fun s => s.contents.Labelled demo.part collection)
      (fun r _ labelled => labelled_answer labelled r)
      (fun r _ labelled => labelled_answer labelled r) (Contents.labelled_empty _ _)
  have issued : busyStore.IssuedIn demo.part :=
    shared_preserves (fun s => s.IssuedIn demo.part)
      (fun r _ issued => issuedIn_answer issued r)
      (fun r _ issued => issuedIn_answer issued r) (issuedIn_empty _)
  exact ⟨different, faultless, labelled, issued, by decide +kernel, by decide +kernel,
    partitions_isolated different faultless labelled issued crossedCalls⟩

end Archive

end PlanArchive
