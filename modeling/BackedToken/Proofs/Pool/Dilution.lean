import BackedToken.Proofs.Pool.Changes
import Mathlib.Data.ENat.Basic

namespace BackedToken.Pool

variable {pool next last : Pool} {amount : Word}

/-- Ratios of backing to circulating units, compared after a multiplication by both circulating supplies. -/
structure Undiluted (pool next : Pool) : Prop where
  circulating : next.circulating.toNat ≤ pool.circulating.toNat
  ratio : pool.backing.toNat * next.circulating.toNat ≤ next.backing.toNat * pool.circulating.toNat

theorem Undiluted.refl (pool : Pool) : pool.Undiluted pool := ⟨Nat.le_refl _, Nat.le_refl _⟩

theorem Undiluted.trans (h : pool.Undiluted next) (h' : next.Undiluted last) : pool.Undiluted last := by
  refine ⟨h'.circulating.trans h.circulating, ?_⟩
  rcases Nat.eq_zero_or_pos next.circulating.toNat with hnone | hsome
  · have hlast : last.circulating.toNat = 0 := Nat.le_zero.mp (h'.circulating.trans hnone.le)
    rw [hlast, Nat.mul_zero]
    exact Nat.zero_le _
  · apply Nat.le_of_mul_le_mul_right _ hsome
    calc pool.backing.toNat * last.circulating.toNat * next.circulating.toNat
        = pool.backing.toNat * next.circulating.toNat * last.circulating.toNat := Nat.mul_right_comm ..
      _ ≤ next.backing.toNat * pool.circulating.toNat * last.circulating.toNat := Nat.mul_le_mul_right _ h.ratio
      _ = next.backing.toNat * last.circulating.toNat * pool.circulating.toNat := Nat.mul_right_comm ..
      _ ≤ last.backing.toNat * next.circulating.toNat * pool.circulating.toNat := Nat.mul_le_mul_right _ h'.ratio
      _ = last.backing.toNat * pool.circulating.toNat * next.circulating.toNat := Nat.mul_right_comm ..

theorem undiluted_of_redeem {recovered : Word} (h : pool.redeem amount = .ok (next, recovered)) :
    pool.Undiluted next := by
  have hcirculating := circulating_of_redeem h
  have hbacking := backing_of_redeem h
  have hpaid := Nat.div_mul_le_self (amount.toNat * pool.backing.toNat) pool.circulating.toNat
  rw [← (redeem_eq_ok.mp h).2.1] at hpaid
  refine ⟨Nat.le.intro hcirculating, ?_⟩
  apply Nat.le_of_add_le_add_right (b := recovered.toNat * pool.circulating.toNat)
  calc pool.backing.toNat * next.circulating.toNat + recovered.toNat * pool.circulating.toNat
      ≤ pool.backing.toNat * next.circulating.toNat + amount.toNat * pool.backing.toNat := Nat.add_le_add_left hpaid _
    _ = pool.backing.toNat * (next.circulating.toNat + amount.toNat) := by
      rw [Nat.mul_add, Nat.mul_comm amount.toNat]
    _ = (next.backing.toNat + recovered.toNat) * pool.circulating.toNat := by rw [hcirculating, hbacking]
    _ = next.backing.toNat * pool.circulating.toNat + recovered.toNat * pool.circulating.toNat := Nat.add_mul ..

theorem undiluted_of_addBacking (h : pool.addBacking amount = .ok next) : pool.Undiluted next := by
  have hbacking := backing_of_addBacking h
  obtain ⟨_, hnext⟩ := addBacking_eq_ok.mp h
  have hcirculating : next.circulating = pool.circulating := hnext ▸ rfl
  refine ⟨hcirculating ▸ Nat.le_refl _, ?_⟩
  rw [hcirculating, hbacking]
  exact Nat.mul_le_mul_right _ (Nat.le_add_right ..)

theorem Change.undiluted (h : pool.Change next) : pool.Undiluted next := by
  cases h with
  | unchanged => exact .refl pool
  | redeemed redeemed => exact undiluted_of_redeem redeemed
  | credited added => exact undiluted_of_addBacking added

theorem undiluted_of_changes (h : Relation.ReflTransGen Change pool next) : pool.Undiluted next := by
  induction h with
  | refl => exact .refl pool
  | tail _ change ih => exact ih.trans change.undiluted

def level : Except Rejection Word → ℕ∞
  | .ok price => price.toNat
  | .error _ => ⊤

theorem level_share_mono {a b c a' b' c' : Word} (h : a.toNat * b.toNat / c.toNat ≤ a'.toNat * b'.toNat / c'.toNat) :
    level (share a b c) ≤ level (share a' b' c') := by
  cases hnext : share a' b' c' with
  | error rejection => exact le_top
  | ok price' =>
    have hprice' := share_eq_ok.mp hnext
    cases hpool : share a b c with
    | error rejection =>
      have hlarge := (share_eq_error.mp hpool).2
      have hfits := price'.isLt
      omega
    | ok price =>
      rw [level, level, share_eq_ok.mp hpool, hprice']
      exact_mod_cast h

namespace Undiluted

variable (h : pool.Undiluted next)
include h

theorem share_le (factor : Nat) (hsome : 0 < next.circulating.toNat) :
    factor * pool.backing.toNat / pool.circulating.toNat ≤ factor * next.backing.toNat / next.circulating.toNat := by
  have hpool : 0 < pool.circulating.toNat := Nat.lt_of_lt_of_le hsome h.circulating
  rw [Nat.le_div_iff_mul_le hsome]
  apply Nat.le_of_mul_le_mul_right _ hpool
  calc factor * pool.backing.toNat / pool.circulating.toNat * next.circulating.toNat * pool.circulating.toNat
      = factor * pool.backing.toNat / pool.circulating.toNat * pool.circulating.toNat * next.circulating.toNat :=
        Nat.mul_right_comm ..
    _ ≤ factor * pool.backing.toNat * next.circulating.toNat := Nat.mul_le_mul_right _ (Nat.div_mul_le_self ..)
    _ = factor * (pool.backing.toNat * next.circulating.toNat) := Nat.mul_assoc ..
    _ ≤ factor * (next.backing.toNat * pool.circulating.toNat) := Nat.mul_le_mul_left _ h.ratio
    _ = factor * next.backing.toNat * pool.circulating.toNat := (Nat.mul_assoc ..).symm

theorem backingFor_le (hamount : amount ≤ next.circulating) :
    ∃ worth worth', pool.backingFor amount = .ok worth ∧ next.backingFor amount = .ok worth' ∧ worth ≤ worth' := by
  have hpool : amount ≤ pool.circulating := BitVec.le_def.mpr ((BitVec.le_def.mp hamount).trans h.circulating)
  obtain ⟨_, worth, hbefore, hworth⟩ := redeem_of_le hpool
  obtain ⟨_, worth', hafter, hworth'⟩ := redeem_of_le hamount
  refine ⟨worth, worth', backingFor_eq_ok.mpr hworth, backingFor_eq_ok.mpr hworth', BitVec.le_def.mpr ?_⟩
  rw [hworth, hworth']
  rcases Nat.eq_zero_or_pos next.circulating.toNat with hnone | hsome
  · have hzero : amount.toNat = 0 := Nat.le_zero.mp ((BitVec.le_def.mp hamount).trans hnone.le)
    rw [hzero, Nat.zero_mul, Nat.zero_div]
    exact Nat.zero_le _
  · exact h.share_le amount.toNat hsome

theorem level_floorPrice_le (hsome : 0 < next.circulating.toNat) : level pool.floorPrice ≤ level next.floorPrice := by
  have hpool : 0 < pool.circulating.toNat := Nat.lt_of_lt_of_le hsome h.circulating
  rw [floorPrice_eq_backingFor, floorPrice_eq_backingFor, backingFor, backingFor, redeemable?_eq, redeemable?_eq,
    if_neg hpool.ne', if_neg hsome.ne']
  apply level_share_mono
  exact h.share_le coinValue.toNat hsome

end Undiluted

end BackedToken.Pool
