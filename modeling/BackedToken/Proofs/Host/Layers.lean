import BackedToken.Host.Layers
import BackedToken.Proofs.Host.Matching

/-! Hosts that match on requests that change nothing carry views and journals that match. -/

namespace BackedToken

namespace Host

variable {σ τ ρ υ ε α : Type}

theorem matches_within {R : σ → τ → Prop} {Q : ρ → υ → Prop} {get : ρ → σ} {set : σ → ρ → ρ} {get' : υ → τ}
    {set' : τ → υ → υ} {x : EStateM ε σ α} {y : EStateM ε τ α} (h : Matches R x y)
    (hget : ∀ r u, Q r u → R (get r) (get' u)) (hset : ∀ r u s t, Q r u → R s t → Q (set s r) (set' t u)) :
    Matches Q (within get set x) (within get' set' y) := by
  intro r u hru
  cases hy : y (get' u) with
  | ok a t =>
    obtain ⟨s, hx, hst⟩ := h.of_ok (hget r u hru) hy
    simp only [within, hx, hy]
    exact ⟨rfl, hset r u s t hru hst⟩
  | error e t =>
    obtain ⟨s, hx, hst⟩ := h.of_error (hget r u hru) hy
    simp only [within, hx, hy]
    exact ⟨rfl, hset r u s t hru hst⟩

structure LookAlike [Host σ] [Host τ] (R : σ → τ → Prop) : Prop where
  look : ∀ request : Request, request.mutates = false → Matches R (perform request) (perform request)
  record : ∀ notice s t, R s t → R (Host.record notice s) (Host.record notice t)

end Host

open Host (AnswerAlike LookAlike Matches ReadAlike Request)

variable {σ τ ε α : Type} {R : σ → τ → Prop}

namespace Frozen

def Over (R : σ → τ → Prop) (v : Frozen σ) (u : Frozen τ) : Prop := R v.host u.host

theorem matches_view {x : EStateM ε (Frozen σ) α} {y : EStateM ε (Frozen τ) α} (h : Matches (Over R) x y) :
    Matches R (view x) (view y) :=
  Host.matches_within h (fun _ _ hst => hst) fun _ _ _ _ _ hvu => hvu

theorem readAlike [Host σ] [Host τ] (h : LookAlike R) : ReadAlike (Over R) where
  read account key := Host.matches_within (h.look (.read account key) rfl) (fun _ _ hvu => hvu) fun _ _ _ _ _ hst => hst
  record notice v u hvu := h.record notice v.host u.host hvu

end Frozen

namespace Journal

structure Over (R : σ → τ → Prop) (j : Journal σ) (i : Journal τ) : Prop where
  host : R j.host i.host
  words : j.words = i.words
  balances : j.balances = i.balances

variable {j : Journal σ} {i : Journal τ}

theorem Over.fresh {s : σ} {t : τ} (h : R s t) : Over R { host := s } { host := t } := ⟨h, rfl, rfl⟩

theorem Over.setWord (h : Over R j i) (account : Address) (key value : Word) :
    Over R (j.setWord account key value) (i.setWord account key value) where
  host := h.host
  words := by simp only [Journal.setWord, h.words]
  balances := h.balances

theorem Over.setBalance (h : Over R j i) (account : Address) (amount : Word) :
    Over R (j.setBalance account amount) (i.setBalance account amount) where
  host := h.host
  words := h.words
  balances := by simp only [Journal.setBalance, h.balances]

theorem Over.setWords (h : Over R j i) (account : Address) (writes : List (Word × Word)) :
    Over R (writes.foldl (fun j e => j.setWord account e.1 e.2) j)
      (writes.foldl (fun i e => i.setWord account e.1 e.2) i) := by
  induction writes generalizing j i with
  | nil => exact h
  | cons e rest ih => exact ih (h.setWord account e.1 e.2)

theorem matches_setBalance (account : Address) (amount : Word) :
    Matches (Over R) (modify (setBalance account amount) : Host.Action (Journal σ) Unit)
      (modify (setBalance account amount)) := fun _ _ h => ⟨rfl, h.setBalance account amount⟩

theorem matches_below {x : EStateM ε σ α} {y : EStateM ε τ α} (h : Matches R x y) :
    Matches (Over R) (below x) (below y) :=
  Host.matches_within h (fun _ _ hji => hji.host) fun _ _ _ _ hji hst => ⟨hst, hji.words, hji.balances⟩

variable [Host σ] [Host τ] (h : LookAlike R)
include h

theorem matches_balance (account : Address) : Matches (Over R) (balance account) (balance account) := by
  intro j i hji
  have hbelow := matches_below (h.look (.balance account) rfl) j i hji
  simp only [balance, hji.balances]
  cases i.balances.get? account with
  | some amount => exact ⟨rfl, hji⟩
  | none => exact hbelow

theorem answerAlike_over : AnswerAlike (Over R) := by
  have hperform : ∀ request : Request, Matches (Over R) (Host.perform request) (Host.perform request) := by
    intro request
    cases request with
    | read account key =>
      intro j i hji
      have hbelow := matches_below (h.look (.read account key) rfl) j i hji
      simp only [Host.perform, perform, hji.words]
      cases i.words.get? (account, key) with
      | some value => exact ⟨rfl, hji⟩
      | none => exact hbelow
    | write account key value => exact fun j i hji => ⟨rfl, hji.setWord account key value⟩
    | writeAll account writes => exact fun j i hji => ⟨rfl, hji.setWords account writes⟩
    | balance account => exact matches_balance h account
    | deposit account amount =>
      refine (matches_balance h account).bind fun current => ?_
      cases Word.ofNat? (current.toNat + amount.toNat) with
      | some total => exact matches_setBalance account total
      | none => exact .throw _
    | withdraw account amount =>
      exact (matches_balance h account).bind fun current => .ite (.throw _) (matches_setBalance account _)
    | nonce account => exact matches_below (h.look (.nonce account) rfl)
    | codeSize account => exact matches_below (h.look (.codeSize account) rfl)
  exact
    { read := fun account key => hperform (.read account key)
      record := fun notice j i hji => ⟨h.record notice _ _ hji.host, hji.words, hji.balances⟩
      perform := hperform }

end Journal

end BackedToken
