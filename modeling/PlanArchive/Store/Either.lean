import PlanArchive.Store.Basic

/-!
# One of two stores

A store that is of one kind or of another, for a program that chooses its store when it runs.
-/

namespace PlanArchive

/-- The result of a write, with the store seen as another one. -/
def Written.mapStore {σ τ α : Type} (f : σ → τ) (written : Written σ α) : Written τ α :=
  (written.1, f written.2)

instance {σ τ : Type} [DocumentStore σ] [DocumentStore τ] : DocumentStore (σ ⊕ τ) where
  read
    | .inl s => DocumentStore.read s
    | .inr s => DocumentStore.read s
  query
    | .inl s => DocumentStore.query s
    | .inr s => DocumentStore.query s
  create
    | .inl s, key, doc => (DocumentStore.create s key doc).mapStore .inl
    | .inr s, key, doc => (DocumentStore.create s key doc).mapStore .inr
  replace
    | .inl s, key, doc, token => (DocumentStore.replace s key doc token).mapStore .inl
    | .inr s, key, doc, token => (DocumentStore.replace s key doc token).mapStore .inr
  patch
    | .inl s, key, patches, token => (DocumentStore.patch s key patches token).mapStore .inl
    | .inr s, key, patches, token => (DocumentStore.patch s key patches token).mapStore .inr
  delete
    | .inl s, key, token => (DocumentStore.delete s key token).mapStore .inl
    | .inr s, key, token => (DocumentStore.delete s key token).mapStore .inr

end PlanArchive
