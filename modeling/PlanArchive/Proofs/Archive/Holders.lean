import Mathlib.Logic.Relation
import PlanArchive.Proofs.Archive.Ownership
import PlanArchive.Proofs.Archive.Tokens

/-!
# No update is lost

Any number of holders share a store without faults. Each creates, reads, updates and deletes as it
likes, on copies in memory whose tokens were obtained from the store for the same document. The
journal beside the store says which write issued a token and what was written since, and
`no_lost_update` says by it alone what becomes of an update: one with a token succeeds exactly when
nothing was written to the document since the token was issued, so that of all copies with one token
at most one is ever written. The invariant behind it is that every token that is held was issued for
the document it is held for (`Sound`).

The holders need no names: a token can be used by whoever obtained it, or was given it.
-/

namespace PlanArchive

/-- A store that is shared, and the tokens that were obtained from it, each for a document. -/
structure Shared where
  store : Journaled MemoryStore
  held : List (EntityRef × VersionToken)

namespace Shared

/-- The empty store before any call. -/
def start : Shared := ⟨⟨.empty, []⟩, []⟩

/-- The token of an entity, if it has one, was obtained for its document. -/
def Holds (d : Shared) (e : EntityRef) (token : Option VersionToken) : Prop :=
  ∀ t ∈ token, (e, t) ∈ d.held

end Shared

/-- The token of an entity in memory, if it has one. -/
def Entity.tokens (x : Entity) : List (EntityRef × VersionToken) :=
  (x.state.token.map (x.ref, ·)).toList

theorem Entity.mem_tokens {x : Entity} {e : EntityRef} {token : VersionToken} :
    (e, token) ∈ x.tokens ↔ x.ref = e ∧ x.state.token = some token := by
  simp only [tokens, Option.mem_toList, Option.map_eq_some_iff, Prod.mk.injEq]
  constructor
  · rintro ⟨_, hasToken, isRef, rfl⟩
    exact ⟨isRef, hasToken⟩
  · rintro ⟨isRef, hasToken⟩
    exact ⟨token, hasToken, isRef, rfl⟩

namespace Archive

variable {a : Archive} {d e : Shared}

/-- One call of one holder. The copies that go into it have no tokens but those obtained for their
documents; the tokens of those that come out of it, whether it succeeded or not, are held too. -/
inductive Step (a : Archive) (d : Shared) : Shared → Prop
  | create (p : Plan) (held : ∀ x ∈ p.states, d.Holds x.entity x.state.token) :
    Step a d ⟨(a.create p d.store).store, (a.create p d.store).entity.tokens ++ d.held⟩
  | read (id : Uuid) (q : Plan) (isRead : a.read d.store id = .ok q) :
    Step a d ⟨d.store, q.tokens ++ d.held⟩
  | update (x : Entity) (held : d.Holds x.ref x.state.token) :
    Step a d ⟨(a.update x d.store).store, (a.update x d.store).entity.tokens ++ d.held⟩
  | delete (id : Uuid) : Step a d ⟨(a.delete id d.store).2, d.held⟩

/-- What calls one after another come to. -/
abbrev Steps (a : Archive) : Shared → Shared → Prop := Relation.ReflTransGen a.Step

/-! ## The invariant -/

/-- The journal is right, the partition is laid out, and what is held was issued. -/
structure Sound (a : Archive) (d : Shared) : Prop where
  recorded : d.store.Recorded
  laidOut : a.LaidOut d.store.store.contents
  issued : ∀ e token, (e, token) ∈ d.held →
    Journaled.Issued d.store.journal (a.key e.1 e.2) token

theorem sound_start (a : Archive) : a.Sound .start where
  recorded := Journaled.recorded_empty
  laidOut := a.wellKept_empty.laidOut
  issued := by
    intro e token isHeld
    cases isHeld

theorem LaidOut.perform {s : MemoryStore} (laidOut : a.LaidOut s.contents) (call : Call) :
    a.LaidOut (a.perform s call).contents :=
  laidOut.turn ⟨call, s.writesLeft⟩

/-- The invariant is kept when the tokens that are handed out were issued or held before. -/
theorem Sound.extend (sound : a.Sound d) {i : Journaled MemoryStore}
    (tokens : List (EntityRef × VersionToken)) (laidOut : a.LaidOut i.store.contents)
    (keeps : i.Recorded ∧ d.store.journal <:+ i.journal)
    (new : ∀ e token, (e, token) ∈ tokens →
      (e, token) ∈ d.held ∨ Journaled.Issued i.journal (a.key e.1 e.2) token) :
    a.Sound ⟨i, tokens ++ d.held⟩ where
  recorded := keeps.1
  laidOut := laidOut
  issued := by
    have still : ∀ e token, (e, token) ∈ d.held →
        Journaled.Issued i.journal (a.key e.1 e.2) token :=
      fun e token isHeld => keeps.2.subset (sound.issued e token isHeld)
    intro e token isHeld
    rcases List.mem_append.mp isHeld with isNew | wasHeld
    · exact (new e token isNew).elim (still e token) id
    · exact still e token wasHeld

/-- What no write to a store with a journal breaks. -/
theorem preserved_journal (journal : List JournalEntry) :
    Preserved fun j : Journaled MemoryStore => j.Recorded ∧ journal <:+ j.journal :=
  Journaled.preserved_recorded.and (Journaled.preserved_suffix journal)

/-- Every call keeps the invariant, and the journal only grows. -/
theorem Sound.step (sound : a.Sound d) (step : a.Step d e) :
    a.Sound e ∧ d.store.journal <:+ e.store.journal := by
  have alike := (preserved_journal d.store.journal).alike
  have isRelated : d.store = d.store ∧ d.store.Recorded ∧ d.store.journal <:+ d.store.journal :=
    ⟨rfl, sound.recorded, List.suffix_rfl⟩
  cases step with
  | create p held =>
    have keeps := (create_alike (a := a) alike isRelated p).stores.2
    have store : (a.create p d.store).store.store = (a.create p d.store.store).store :=
      (create_alike Journaled.alike_store rfl p).stores
    refine ⟨sound.extend _ ?_ keeps ?_, keeps.2⟩
    · rw [store]
      exact sound.laidOut.perform (.create p)
    · intro f token isToken
      rcases mem_tokens_of_create isToken with wasToken | issued
      · obtain ⟨x, isState, rfl, hasToken⟩ := Plan.mem_tokens.mp wasToken
        exact .inl (held x isState token hasToken)
      · exact .inr issued
  | read id q isRead =>
    refine ⟨sound.extend _ sound.laidOut isRelated.2 ?_, List.suffix_rfl⟩
    intro f token isToken
    obtain ⟨x, isState, rfl, hasToken⟩ := Plan.mem_tokens.mp isToken
    rw [read_alike Journaled.alike_store rfl] at isRead
    obtain ⟨item, stored, isCurrent⟩ := current_of_read sound.laidOut isRead x isState
    rw [hasToken, Option.some.injEq] at isCurrent
    exact .inr (isCurrent ▸ sound.recorded.issued_of_stored stored)
  | update x held =>
    have keeps := (update_alike (a := a) alike isRelated x).stores.2
    have store : (a.update x d.store).store.store = (a.update x d.store.store).store :=
      (update_alike Journaled.alike_store rfl x).stores
    refine ⟨sound.extend _ ?_ keeps ?_, keeps.2⟩
    · rw [store]
      exact sound.laidOut.perform (.update x)
    · intro f token isToken
      have ⟨isRef, hasToken⟩ := Entity.mem_tokens.mp isToken
      rw [update_ref] at isRef
      subst isRef
      exact (token_of_update hasToken).imp_left (held token)
  | delete id =>
    have keeps := (delete_alike (a := a) alike id _ _ isRelated).stores.2
    have store : (a.delete id d.store).2.store = (a.delete id d.store.store).2 :=
      (delete_alike Journaled.alike_store id _ _ rfl).stores
    refine ⟨sound.extend [] ?_ keeps (by simp), keeps.2⟩
    rw [store]
    exact sound.laidOut.perform (.delete id)

theorem Sound.steps (sound : a.Sound d) (steps : a.Steps d e) :
    a.Sound e ∧ d.store.journal <:+ e.store.journal := by
  induction steps with
  | refl => exact ⟨sound, List.suffix_rfl⟩
  | tail _ step inductionHypothesis =>
    obtain ⟨before, grows⟩ := inductionHypothesis
    obtain ⟨after, growsOn⟩ := before.step step
    exact ⟨after, grows.trans growsOn⟩

/-! ## One update -/

/-- What an update of an entity with an identifier and points in time that can be encoded comes to:
it is written when its token, if it has one, is that of the stored revision. -/
theorem Sound.update_cases (sound : a.Sound d) {x : Entity} (notNil : x.id.isNil = false)
    (inTime : x.Timely) :
    (∃ item token i, d.store.store.contents.find? (a.key x.kind x.id) = some item ∧
      (∀ t ∈ x.state.token, item.token = t) ∧ a.update x d.store = ⟨.ok (), x.atRevision token, i⟩ ∧
      i.journal = ⟨a.key x.kind x.id, some token⟩ :: d.store.journal ∧
      (i.store.contents.find? (a.key x.kind x.id)).map Item.token = some token) ∨
    (∃ item, d.store.store.contents.find? (a.key x.kind x.id) = some item ∧
      (∃ t ∈ x.state.token, item.token ≠ t) ∧
      a.update x d.store = ⟨.error (.conflict .update x.kind x.id), x, d.store⟩) ∨
    d.store.store.contents.find? (a.key x.kind x.id) = none ∧
      a.update x d.store = ⟨.error (.notFound x.kind x.id), x, d.store⟩ := by
  obtain ⟨progress, encoded⟩ := Entity.exists_progress.mpr inTime
  have collects := Progress.collect_fields (Entity.isOf_of_progress encoded)
  have patching : DocumentStore.patch d.store (a.key x.kind x.id) (Patch.ofFields progress.fields)
      x.state.token = d.store.noting (a.key x.kind x.id) some (d.store.store.patch
        (a.key x.kind x.id) (Patch.ofFields progress.fields) x.state.token) := rfl
  rw [update_eq notNil encoded, patched, patching, MemoryStore.patch, collects]
  simp only [MemoryStore.admitting_of_faultless sound.recorded.faultless, MemoryStore.current]
  cases stored : d.store.store.contents.find? (a.key x.kind x.id) with
  | none => exact .inr (.inr ⟨rfl, rfl⟩)
  | some item =>
    obtain ⟨doc, isDocument, _⟩ := sound.laidOut x.ref item stored
    have isObject : item.doc = .obj doc.fields := isDocument.trans doc.toJson_eq
    cases hasToken : x.state.token with
    | none =>
      simp only [isObject]
      exact .inl ⟨item, _, _, rfl, by simp, rfl, rfl, by simp [Contents.find?_put]⟩
    | some own =>
      by_cases same : own = item.token
      · simp only [if_pos same, isObject]
        exact .inl ⟨item, _, _, rfl, by simp [same], rfl, rfl, by simp [Contents.find?_put]⟩
      · simp only [if_neg same]
        exact .inr (.inl ⟨item, rfl, ⟨own, rfl, Ne.symm same⟩, rfl⟩)

/-- An update under a token that was hit by a later write does not succeed. -/
theorem Sound.update_fails_of_hitSince (sound : a.Sound d) {x : Entity} {t : VersionToken}
    (hasToken : x.state.token = some t)
    (issued : Journaled.Issued d.store.journal (a.key x.kind x.id) t)
    (hit : Journaled.HitSince d.store.journal (a.key x.kind x.id) t) :
    (a.update x d.store).result ≠ .ok () := by
  by_cases valid : x.id.isNil = false ∧ x.Timely
  · rcases sound.update_cases valid.1 valid.2 with
      ⟨item, _, _, stored, isCurrent, _⟩ | ⟨_, _, _, failed⟩ | ⟨_, failed⟩
    · have current := sound.recorded.current_iff_not_hitSince issued
      rw [stored, Option.map_some, isCurrent t hasToken] at current
      exact absurd hit (current.mp rfl)
    · simp [failed]
    · simp [failed]
  · obtain ⟨cause, refused⟩ := update_refused (a := a) (s := d.store) valid
    simp [refused]

/-- An update succeeds exactly when the document is there and nothing was written to it since the
token of the entity, if it has one, was issued. -/
theorem Sound.update_succeeds_iff (sound : a.Sound d) {x : Entity}
    (held : d.Holds x.ref x.state.token) (notNil : x.id.isNil = false) (inTime : x.Timely) :
    (a.update x d.store).result = .ok () ↔ ¬ a.Gone d.store.store.contents x.ref ∧
      ∀ t ∈ x.state.token, ¬ Journaled.HitSince d.store.journal (a.key x.kind x.id) t := by
  have current (t : VersionToken) (hasToken : t ∈ x.state.token) :=
    sound.recorded.current_iff_not_hitSince (sound.issued x.ref t (held t hasToken))
  rcases sound.update_cases notNil inTime with
    ⟨item, _, _, stored, isCurrent, made, _⟩ | ⟨item, stored, ⟨t, hasToken, differs⟩, failed⟩ |
      ⟨gone, failed⟩
  · refine iff_of_true (by rw [made]) ⟨by simp [Gone, Entity.ref, stored], ?_⟩
    intro t hasToken
    refine (current t hasToken).mp ?_
    simp [Entity.ref, stored, isCurrent t hasToken]
  · refine iff_of_false (by simp [failed]) ?_
    rintro ⟨_, notHit⟩
    have isStored := (current t hasToken).mpr (notHit t hasToken)
    simp only [Entity.ref, stored, Option.map_some, Option.some.injEq] at isStored
    exact differs isStored
  · exact iff_of_false (by simp [failed]) fun both => both.1 gone

/-! ## Every run -/

/-- Whatever the holders of a shared store did, an update of an entity with an identifier and points
in time that can be encoded succeeds exactly when the document is there and, if the entity has a
token, nothing was written to the document since that token was issued. It then leaves the entity
with the token that is stored, and no later update under the old token succeeds. When it fails, it
is with a conflict, or because the document is gone, and nothing changes. -/
theorem no_lost_update (reached : a.Steps .start d) {x : Entity}
    (held : d.Holds x.ref x.state.token) (notNil : x.id.isNil = false) (inTime : x.Timely) :
    ((a.update x d.store).result = .ok () ↔ ¬ a.Gone d.store.store.contents x.ref ∧
      ∀ t ∈ x.state.token, ¬ Journaled.HitSince d.store.journal (a.key x.kind x.id) t) ∧
    ((a.update x d.store).result = .ok () → ∃ item,
      (a.update x d.store).store.store.contents.find? (a.key x.kind x.id) = some item ∧
      (a.update x d.store).entity = x.atRevision item.token) ∧
    ((a.update x d.store).result ≠ .ok () → ∃ e, a.update x d.store = ⟨.error e, x, d.store⟩ ∧
      (e = .conflict .update x.kind x.id ∧ ¬ a.Gone d.store.store.contents x.ref ∨
        e = .notFound x.kind x.id ∧ a.Gone d.store.store.contents x.ref)) ∧
    ((a.update x d.store).result = .ok () → ∀ t ∈ x.state.token, ∀ later,
      a.Steps ⟨(a.update x d.store).store, (a.update x d.store).entity.tokens ++ d.held⟩ later →
      ∀ y : Entity, y.ref = x.ref → y.state.token = some t →
        (a.update y later.store).result ≠ .ok ()) := by
  have sound : a.Sound d := ((sound_start a).steps reached).1
  have afterwards := sound.step (.update x held)
  refine ⟨sound.update_succeeds_iff held notNil inTime, ?_⟩
  rcases sound.update_cases notNil inTime with
    ⟨item, token, i, _, _, made, journal, put⟩ | ⟨item, stored, _, failed⟩ | ⟨gone, failed⟩
  · rw [made] at afterwards ⊢
    refine ⟨fun _ => ?_, fun failed => absurd rfl failed, ?_⟩
    · obtain ⟨written, stored, isToken⟩ := Option.map_eq_some_iff.mp put
      exact ⟨written, stored, by rw [isToken]⟩
    · intro _ t hasToken later more y sameRef sameToken
      obtain ⟨stillSound, grows⟩ := afterwards.1.steps more
      have issued := sound.issued x.ref t (held t hasToken)
      have hit : Journaled.HitSince i.journal (a.key x.kind x.id) t := by
        obtain ⟨newer, older, split⟩ := List.append_of_mem issued
        exact ⟨⟨a.key x.kind x.id, some token⟩ :: newer, older, by rw [journal, split]; rfl, _,
          List.mem_cons_self, rfl⟩
      have sameKey : a.key y.kind y.id = a.key x.kind x.id :=
        congrArg (fun e : EntityRef => a.key e.1 e.2) sameRef
      exact stillSound.update_fails_of_hitSince sameToken
        (sameKey ▸ grows.subset (afterwards.2.subset issued)) (sameKey ▸ hit.mono grows)
  · rw [failed]
    refine ⟨by simp, fun _ => ⟨_, rfl, .inl ⟨rfl, ?_⟩⟩, by simp⟩
    simp [Gone, Entity.ref, stored]
  · rw [failed]
    exact ⟨by simp, fun _ => ⟨_, rfl, .inr ⟨rfl, gone⟩⟩, by simp⟩

/-- A copy of the plan as its creation left it. -/
def firstCopy : Plan := (demo.create demoPlan Shared.start.store).entity

/-- The plan was created. -/
def justCreated : Shared :=
  ⟨(demo.create demoPlan Shared.start.store).store, firstCopy.tokens ++ Shared.start.held⟩

/-- One holder has updated the plan; the others still have copies with the first token. -/
def overtaken : Shared :=
  ⟨(demo.update (.plan firstCopy) justCreated.store).store,
    (demo.update (.plan firstCopy) justCreated.store).entity.tokens ++ justCreated.held⟩

theorem no_lost_update_firstCopy :
    demo.Steps .start justCreated ∧ demo.Steps .start overtaken ∧
    justCreated.Holds (Entity.plan firstCopy).ref (Entity.plan firstCopy).state.token ∧
    overtaken.Holds (Entity.plan firstCopy).ref (Entity.plan firstCopy).state.token ∧
    (Entity.plan firstCopy).Timely ∧
    (demo.update (.plan firstCopy) justCreated.store).result = .ok () ∧
    demo.update (.plan firstCopy) overtaken.store =
      ⟨.error (.conflict .update .plan demoPlan.id), .plan firstCopy, overtaken.store⟩ := by
  have noTokens : ∀ x ∈ demoPlan.states, x.state.token = none := by decide
  have creates : demo.Step .start justCreated := by
    refine .create demoPlan fun x isState t hasToken => ?_
    rw [noTokens x isState] at hasToken
    cases hasToken
  have token : firstCopy.state.token = some (.minted 4) := by decide +kernel
  have isHeld : ((.plan, demoPlan.id), .minted 4) ∈ justCreated.held := by decide +kernel
  have held : justCreated.Holds (.plan, firstCopy.id) firstCopy.state.token := by
    intro t hasToken
    rw [token] at hasToken
    cases hasToken
    exact isHeld
  have created : demo.Steps .start justCreated := .single creates
  have reached : demo.Steps .start overtaken := created.tail (.update (.plan firstCopy) held)
  have stillHeld : overtaken.Holds (.plan, firstCopy.id) firstCopy.state.token :=
    fun t hasToken => List.mem_append_right _ (held t hasToken)
  have inTime : (Entity.plan firstCopy).Timely := ⟨by rintro t ⟨⟩, by rintro t ⟨⟩, by rintro t ⟨⟩⟩
  have succeeds : (demo.update (.plan firstCopy) justCreated.store).result = .ok () :=
    Except.eq_ok_of_isOk (by decide +kernel)
  obtain ⟨_, _, _, once⟩ := no_lost_update (x := .plan firstCopy) created held rfl inTime
  obtain ⟨_, _, fails, _⟩ := no_lost_update (x := .plan firstCopy) reached stillHeld rfl inTime
  have stale := once succeeds _ token overtaken .refl (.plan firstCopy) rfl token
  refine ⟨created, reached, held, stillHeld, inTime, succeeds, ?_⟩
  obtain ⟨_, failed, ⟨rfl, _⟩ | ⟨_, gone⟩⟩ := fails stale
  · exact failed
  · have stored : ¬ overtaken.store.store.contents.find? (demo.key .plan demoPlan.id) = none := by
      decide +kernel
    exact absurd gone stored

end Archive

end PlanArchive
