import BackedToken.Contract.Operation
import BackedToken.Proofs.Host.Steps

/-! Steps on two hosts that match: from related states they give the same outcome and reach related states. -/

namespace BackedToken

namespace Host

variable {σ τ ε δ α β : Type}

def SameOutcome (R : σ → τ → Prop) : EStateM.Result ε σ α → EStateM.Result ε τ α → Prop
  | .ok a s, .ok b t => a = b ∧ R s t
  | .error e s, .error f t => e = f ∧ R s t
  | _, _ => False

def Matches (R : σ → τ → Prop) (x : EStateM ε σ α) (y : EStateM ε τ α) : Prop :=
  ∀ s t, R s t → SameOutcome R (x s) (y t)

namespace Matches

variable {R : σ → τ → Prop}

theorem pure (a : α) : Matches R (pure a : EStateM ε σ α) (pure a) := fun _ _ h => ⟨rfl, h⟩

theorem throw (e : ε) : Matches R (throw e : EStateM ε σ α) (throw e) := fun _ _ h => ⟨rfl, h⟩

section Outcome

variable {x : EStateM ε σ α} {y : EStateM ε τ α} (h : Matches R x y) {s s' : σ} {t t' : τ} (hst : R s t) {a : α} {e : ε}
include h hst

theorem of_ok (hy : y t = .ok a t') : ∃ s', x s = .ok a s' ∧ R s' t' := by
  have hxy := h s t hst
  cases hx : x s with
  | ok b s' =>
    rw [hx, hy] at hxy
    obtain ⟨rfl, hst'⟩ := hxy
    exact ⟨s', rfl, hst'⟩
  | error e s' =>
    rw [hx, hy] at hxy
    exact hxy.elim

theorem of_error (hy : y t = .error e t') : ∃ s', x s = .error e s' ∧ R s' t' := by
  have hxy := h s t hst
  cases hx : x s with
  | ok b s' =>
    rw [hx, hy] at hxy
    exact hxy.elim
  | error e s' =>
    rw [hx, hy] at hxy
    obtain ⟨rfl, hst'⟩ := hxy
    exact ⟨s', rfl, hst'⟩

theorem to_ok (hx : x s = .ok a s') : ∃ t', y t = .ok a t' ∧ R s' t' := by
  cases hy : y t with
  | ok b t' =>
    obtain ⟨s₁, hok, hst'⟩ := h.of_ok hst hy
    rw [hx] at hok
    cases hok
    exact ⟨t', rfl, hst'⟩
  | error e t' =>
    obtain ⟨s₁, herror, _⟩ := h.of_error hst hy
    rw [hx] at herror
    cases herror

end Outcome

theorem bind {x : EStateM ε σ α} {y : EStateM ε τ α} {f : α → EStateM ε σ β} {g : α → EStateM ε τ β}
    (hx : Matches R x y) (hf : ∀ a, Matches R (f a) (g a)) : Matches R (x >>= f) (y >>= g) := by
  intro s t h
  cases hy : y t with
  | ok a t' =>
    obtain ⟨s', hs, h'⟩ := hx.of_ok h hy
    rw [bind_of_ok hs, bind_of_ok hy]
    exact hf a s' t' h'
  | error e t' =>
    obtain ⟨s', hs, h'⟩ := hx.of_error h hy
    rw [bind_of_error hs, bind_of_error hy]
    exact ⟨rfl, h'⟩

theorem ite {condition : Prop} [Decidable condition] {x x' : EStateM ε σ α} {y y' : EStateM ε τ α}
    (hx : Matches R x y) (hx' : Matches R x' y') :
    Matches R (if condition then x else x') (if condition then y else y') := by
  split
  · exact hx
  · exact hx'

theorem adapt {x : EStateM ε σ α} {y : EStateM ε τ α} (hx : Matches R x y) (f : ε → δ) :
    Matches R (EStateM.adaptExcept f x) (EStateM.adaptExcept f y) := by
  intro s t h
  cases hy : y t with
  | ok a t' =>
    obtain ⟨s', hs, h'⟩ := hx.of_ok h hy
    rw [adapt_eq_ok.mpr hs, adapt_eq_ok.mpr hy]
    exact ⟨rfl, h'⟩
  | error e t' =>
    obtain ⟨s', hs, h'⟩ := hx.of_error h hy
    rw [adapt_of_error hs, adapt_of_error hy]
    exact ⟨rfl, h'⟩

theorem mapM {ι : Type} {f : ι → EStateM ε σ α} {g : ι → EStateM ε τ α} (hf : ∀ i, Matches R (f i) (g i))
    (is : List ι) : Matches R (is.mapM f) (is.mapM g) := by
  induction is with
  | nil => exact pure []
  | cons i is ih =>
    rw [List.mapM_cons, List.mapM_cons]
    exact bind (hf i) fun a => bind ih fun as => pure (a :: as)

theorem rejectIf (condition : Prop) [Decidable condition] (rejection : Rejection) :
    Matches R (Attempt.rejectIf condition rejection : Attempt σ Unit) (Attempt.rejectIf condition rejection) :=
  ite (throw rejection) (pure ())

theorem ofResult (x : Except Rejection α) :
    Matches R (Attempt.ofResult x : Attempt σ α) (Attempt.ofResult x) := by
  cases x with
  | ok a => exact pure a
  | error rejection => exact throw rejection

theorem ofPayload (x : Except Payload.Fault α) :
    Matches R (Attempt.ofPayload x : Attempt σ α) (Attempt.ofPayload x) := by
  cases x with
  | ok a => exact pure a
  | error fault => exact throw _

theorem ofPayload_bind {x : Except Payload.Fault α} {f : α → Attempt σ β} {g : α → Attempt τ β}
    (h : ∀ a, x = .ok a → Matches R (f a) (g a)) :
    Matches R (Attempt.ofPayload x >>= f) (Attempt.ofPayload x >>= g) := by
  cases x with
  | ok a => exact h a rfl
  | error fault => exact fun _ _ hst => ⟨rfl, hst⟩

end Matches

structure ReadAlike [Host σ] [Host τ] (R : σ → τ → Prop) : Prop where
  read : ∀ account key, Matches R (Host.read account key) (Host.read account key)
  record : ∀ notice s t, R s t → R (Host.record notice s) (Host.record notice t)

structure AnswerAlike [Host σ] [Host τ] (R : σ → τ → Prop) : Prop extends ReadAlike R where
  perform : ∀ request, Matches R (Host.perform request) (Host.perform request)

end Host

open Host (Matches ReadAlike AnswerAlike)

variable {σ τ ε : Type} [Host σ] [Host τ] {R : σ → τ → Prop}

namespace Host.ReadAlike

theorem log (h : ReadAlike R) (notice : Notice) : Matches R (Host.log notice : EStateM ε σ Unit) (Host.log notice) :=
  fun s t hst => ⟨rfl, h.record notice s t hst⟩

theorem slots (h : ReadAlike R) (token : Address) (base count : Nat) :
    Matches R (Slot.load token base count) (Slot.load token base count) :=
  .mapM (fun key => h.read token key) _

theorem find (h : ReadAlike R) (token : Address) : Matches R (Pool.find? token) (Pool.find? token) := by
  refine .bind (.bind (h.slots token _ _) fun words => ?_) fun pool => .pure _
  exact .bind (h.log _) fun _ => .pure _

theorem existing (h : ReadAlike R) (token : Address) :
    Matches R (Contract.existingPool token) (Contract.existingPool token) := by
  apply Matches.bind ((h.find token).adapt _)
  intro pool
  cases pool with
  | some pool => exact .pure pool
  | none => exact .throw _

theorem backing (h : ReadAlike R) (args : Bytes) : Matches R (Contract.backing args) (Contract.backing args) :=
  .bind (.ofPayload _) fun (token, _) => .bind (h.existing token) fun _ => .bind (.ofResult _) fun _ => .pure _

theorem floorPrice (h : ReadAlike R) (args : Bytes) :
    Matches R (Contract.floorPrice args) (Contract.floorPrice args) :=
  .bind (.ofPayload _) fun token => .bind (h.existing token) fun _ => .bind (.ofResult _) fun _ => .pure _

end Host.ReadAlike

namespace Host.AnswerAlike

theorem ask (h : AnswerAlike R) (request : Host.Request) :
    Matches R (Attempt.ask (Host.perform request)) (Attempt.ask (Host.perform request)) :=
  (h.perform request).adapt _

theorem storePool (h : AnswerAlike R) (pool : Pool) : Matches R pool.store pool.store :=
  .bind (h.log _) fun _ => h.perform (.writeAll _ _)

theorem storePlan (h : AnswerAlike R) (plan : FeePlan) (token : Address) :
    Matches R (plan.store token) (plan.store token) :=
  .bind (h.log _) fun _ => h.perform (.writeAll _ _)

theorem move (h : AnswerAlike R) (source target : Address) (amount : Word) :
    Matches R (Contract.move source target amount) (Contract.move source target amount) :=
  .ite (.pure ()) (.bind (h.perform (.withdraw source amount)) fun _ => h.perform (.deposit target amount))

theorem cover (h : AnswerAlike R) (caller : Address) (amount : Word) :
    Matches R (Contract.requireCover caller amount) (Contract.requireCover caller amount) :=
  .ite (.pure ()) (.bind (h.ask (.balance caller)) fun _ => .rejectIf _ _)

theorem taken (h : AnswerAlike R) (token : Address) :
    Matches R (Contract.isTaken token) (Contract.isTaken token) :=
  .bind (h.perform (.codeSize token)) fun _ => .ite (.pure _) (.bind (h.find token) fun _ => .pure _)

theorem create (h : AnswerAlike R) (settings : Settings) (context : Context) (args : Bytes) :
    Matches R (Contract.create settings context args) (Contract.create settings context args) := by
  refine .bind (.rejectIf _ _) fun _ => .bind (.ofPayload _) fun terms => .bind (.ofResult _) fun _ => ?_
  refine .bind (h.cover _ _) fun _ => .bind (h.ask (.nonce _)) fun nonce => ?_
  refine .bind ((h.taken _).adapt _) fun taken => .bind (.rejectIf _ _) fun _ => ?_
  refine .bind ((h.storePool _).adapt _) fun _ => .bind ((h.move _ _ _).adapt _) fun _ => ?_
  exact .bind ((h.storePlan _ _).adapt _) fun _ => .bind (h.log _) fun _ => .pure _

theorem burn (h : AnswerAlike R) (settings : Settings) (context : Context) (args : Bytes) :
    Matches R (Contract.burn settings context args) (Contract.burn settings context args) := by
  refine .bind (.ofPayload _) fun (token, amount) => .bind (h.existing token) fun pool => ?_
  refine .bind (.ofResult _) fun (pool, recovered) => .bind ((h.storePool pool).adapt _) fun _ => ?_
  exact .bind ((h.move _ _ _).adapt _) fun _ => .bind (h.log _) fun _ => .pure _

end Host.AnswerAlike

end BackedToken
