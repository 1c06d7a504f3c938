import Provision.Blob.Session
/-!
# Blobs — a store within a larger state

A store is often one part of a state among others. `Store.within` lets it
answer there, touching nothing but its own part: a session with it goes as
if the part were alone, and nothing else sees it.
-/

namespace Provision.Blob

namespace Store

variable {σ ω α : Type}

/-- What an answer with a new part makes of the whole. -/
def lift (put : σ → ω → ω) (w : ω) (r : α × σ) : α × ω := (r.1, put r.2 w)

/-- **The store as a part of a larger state.** -/
def within (store : Store σ) (part : ω → σ) (put : σ → ω → ω) : Store ω where
  get key w := lift put w (store.get key (part w))
  put key data contentType w := lift put w (store.put key data contentType (part w))
  delete key w := lift put w (store.delete key (part w))
  has key w := lift put w (store.has key (part w))

end Store

namespace Session

variable {σ ω α β : Type} {store : Store σ} {part : ω → σ} {put : σ → ω → ω}

/-- **A session with a part goes as if the part were alone.** -/
theorem run_within (hpart : ∀ x w, part (put x w) = x) (s : Session α) (w : ω) :
    (s.run (store.within part put) w).result = (s.run store (part w)).result ∧
      part (s.run (store.within part put) w).state = (s.run store (part w)).state := by
  induction s generalizing w with
  | done a => exact ⟨rfl, rfl⟩
  | log e next ih => exact ih w
  -- an answer leaves the part as the store alone would
  | get key next ih =>
    have h := ih (store.get key (part w)).1 (put (store.get key (part w)).2 w)
    rwa [hpart] at h
  | put key data contentType next ih =>
    have h := ih (store.put key data contentType (part w)).1
      (put (store.put key data contentType (part w)).2 w)
    rwa [hpart] at h
  | delete key next ih =>
    have h := ih (store.delete key (part w)).1 (put (store.delete key (part w)).2 w)
    rwa [hpart] at h
  | has key next ih =>
    have h := ih (store.has key (part w)).1 (put (store.has key (part w)).2 w)
    rwa [hpart] at h

/-- And what does not look at the part sees nothing of it. -/
theorem see_run_within {see : ω → β} (hsee : ∀ x w, see (put x w) = see w) (s : Session α)
    (w : ω) : see (s.run (store.within part put) w).state = see w := by
  induction s generalizing w with
  | done a => rfl
  | log e next ih => exact ih w
  | get key next ih => exact (ih _ _).trans (hsee _ _)
  | put key data contentType next ih => exact (ih _ _).trans (hsee _ _)
  | delete key next ih => exact (ih _ _).trans (hsee _ _)
  | has key next ih => exact (ih _ _).trans (hsee _ _)

end Session

end Provision.Blob
