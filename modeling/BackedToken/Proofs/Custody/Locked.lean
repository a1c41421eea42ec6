import BackedToken.Proofs.Storage.Records
import Mathlib.Algebra.BigOperators.Group.Finset.Basic
import Mathlib.Algebra.Order.BigOperators.Group.Finset
import Mathlib.Data.FinEnum

/-! The coins that the open pools of a world claim, taken over all tokens. -/

namespace BackedToken.World

variable {w w' : World} {token : Address}

def claimed (w : World) (token : Address) : Nat := if (w.pool token).isOpen then (w.pool token).backing.toNat else 0

def locked (w : World) : Nat := ∑ token : Address, w.claimed token

def surplus (custodian : Address) (w : World) : Int := (w.balance custodian).toNat - w.locked

theorem claimed_of_open (h : (w.pool token).isOpen = true) : w.claimed token = (w.pool token).backing.toNat := if_pos h

theorem claimed_of_not_open (h : (w.pool token).isOpen = false) : w.claimed token = 0 := by
  rw [claimed, h]
  rfl

theorem claimed_of_open_le_locked (h : (w.pool token).isOpen = true) :
    (w.pool token).backing.toNat ≤ w.locked := by
  rw [← claimed_of_open h]
  exact Finset.single_le_sum (fun other _ => Nat.zero_le (w.claimed other)) (Finset.mem_univ token)

theorem locked_congr (h : ∀ token, w'.pool token = w.pool token) : w'.locked = w.locked := by
  apply Finset.sum_congr rfl
  intro token _
  rw [claimed, claimed, h]

theorem sum_replace {f g : Address → Nat} {account : Address} (h : ∀ other, account ≠ other → g other = f other) :
    ∑ other, g other + f account = ∑ other, f other + g account := by
  have hrest : ∑ other ∈ Finset.univ.erase account, g other = ∑ other ∈ Finset.univ.erase account, f other :=
    Finset.sum_congr rfl fun other ho => h other (Finset.ne_of_mem_erase ho).symm
  have hnew := Finset.add_sum_erase Finset.univ g (Finset.mem_univ account)
  have hold := Finset.add_sum_erase Finset.univ f (Finset.mem_univ account)
  rw [← hnew, ← hold, hrest]
  omega

theorem locked_replace (w w' : World) {token : Address} (h : ∀ other, token ≠ other → w'.pool other = w.pool other) :
    w'.locked + w.claimed token = w.locked + w'.claimed token := by
  apply sum_replace
  intro other ho
  rw [claimed, claimed, h other ho]

theorem locked_of_pool (w w' : World) {pool : Pool} (hopen : pool.isOpen = true)
    (h : ∀ other, w'.pool other = if token = other then pool else w.pool other) :
    w'.locked + w.claimed token = w.locked + pool.backing.toNat := by
  have hself : w'.pool token = pool := (h token).trans (if_pos rfl)
  have hothers : ∀ other, token ≠ other → w'.pool other = w.pool other := fun other ho => (h other).trans (if_neg ho)
  rw [locked_replace w w' hothers, claimed, hself, if_pos hopen]

theorem surplus_congr {custodian : Address} (hword : ∀ account key, w'.word account key = w.word account key)
    (hbalance : w'.balance custodian = w.balance custodian) : w'.surplus custodian = w.surplus custodian := by
  rw [surplus, surplus, locked_congr (pool_congr hword), hbalance]

theorem Agrees.surplus (h : w'.Agrees w) (custodian : Address) : w'.surplus custodian = w.surplus custodian :=
  surplus_congr h.word (h.balance custodian)

theorem pool_of_no_words (h : w.words = .empty) (token : Address) : (w.pool token).isOpen = false := by
  rw [World.pool, stored_of_no_words h]
  rfl

theorem locked_of_no_words (h : w.words = .empty) : w.locked = 0 :=
  Finset.sum_eq_zero fun token _ => claimed_of_not_open (pool_of_no_words h token)

end BackedToken.World
