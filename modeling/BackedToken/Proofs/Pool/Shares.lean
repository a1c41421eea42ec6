import BackedToken.Proofs.Pool.Redemption

namespace BackedToken.Pool

variable {pool p : Pool} {amount r : Word}

theorem recovered_le (h : pool.redeem amount = .ok (p, r)) : r.toNat ≤ pool.backing.toNat :=
  Nat.le.intro ((Nat.add_comm ..).trans (backing_of_redeem h))

theorem recovered_bounds (h : pool.redeem amount = .ok (p, r)) (hsome : 0 < pool.circulating.toNat) :
    r.toNat * pool.circulating.toNat ≤ amount.toNat * pool.backing.toNat ∧
      amount.toNat * pool.backing.toNat < (r.toNat + 1) * pool.circulating.toNat := by
  rw [(redeem_eq_ok.mp h).2.1]
  refine ⟨Nat.div_mul_le_self .., ?_⟩
  rw [Nat.mul_comm (_ + 1)]
  exact Nat.lt_mul_div_succ _ hsome

theorem recovered_zero (h : pool.redeem 0 = .ok (p, r)) : r = 0 := by
  obtain ⟨_, hr, _⟩ := redeem_eq_ok.mp h
  apply BitVec.eq_of_toNat_eq
  simpa using hr

theorem recovered_all (h : pool.redeem amount = .ok (p, r)) (hall : amount.toNat = pool.circulating.toNat)
    (hsome : 0 < pool.circulating.toNat) : r = pool.backing := by
  obtain ⟨_, hr, _⟩ := redeem_eq_ok.mp h
  apply BitVec.eq_of_toNat_eq
  rw [hr, hall, Nat.mul_div_cancel_left _ hsome]

theorem redeem_of_lt (h : pool.circulating < amount) : pool.redeem amount = .error
    (if 2 ^ 256 ≤ amount.toNat * pool.backing.toNat / pool.circulating.toNat then .overflow
      else .burnExceedsSupply amount pool.circulating) := by
  split
  · next hlarge => exact redeem_eq_error.mpr (.inl (backingFor_eq_error.mpr ⟨rfl, hlarge⟩))
  · next hfits =>
    have hshare := backingFor_eq_ok.mpr (BitVec.toNat_ofNatLT _ (Nat.not_le.mp hfits))
    exact redeem_eq_error.mpr (.inr ⟨⟨_, hshare⟩, h, rfl⟩)

theorem redemption_exact (pool : Pool) (amount : Word) :
    let circulating := pool.supply.toNat - pool.burned.toNat
    let backing := pool.backing.toNat
    ((∃ p r, pool.redeem amount = .ok (p, r)) ↔ amount.toNat ≤ circulating) ∧
    (∀ p r, pool.redeem amount = .ok (p, r) →
      r.toNat ≤ backing ∧
      (0 < circulating → r.toNat * circulating ≤ amount.toNat * backing ∧
        amount.toNat * backing < (r.toNat + 1) * circulating) ∧
      (amount = 0 → r = 0) ∧
      (0 < circulating → amount.toNat = circulating → r.toNat = backing) ∧
      p.circulating.toNat = circulating - amount.toNat ∧
      ∃ rest burned : Word, rest.toNat = backing - r.toNat ∧ burned.toNat = pool.burned.toNat + amount.toNat ∧
        p = native pool.token rest pool.supply burned ∧ p.amounts = [rest]) ∧
    ∀ rejection, pool.redeem amount = .error rejection ↔ circulating < amount.toNat ∧
      rejection = if 0 < circulating ∧ 2 ^ 256 ≤ amount.toNat * backing / circulating then .overflow
        else .burnExceedsSupply amount (BitVec.ofNat 256 circulating) := by
  intro circulating backing
  have hcirculating : pool.circulating.toNat = circulating := pool.toNat_circulating
  have hcovered : amount ≤ pool.circulating ↔ amount.toNat ≤ circulating := by rw [BitVec.le_def, hcirculating]
  refine ⟨⟨?_, fun hle => ?_⟩, fun p r h => ?_, fun rejection => ?_⟩
  · rintro ⟨p, r, h⟩
    exact hcovered.mp (redeem_eq_ok.mp h).1
  · obtain ⟨p, r, h, _⟩ := redeem_of_le (hcovered.mpr hle)
    exact ⟨p, r, h⟩
  · have hbacking := backing_of_redeem h
    have hleft := circulating_of_redeem h
    have hburned := burned_of_redeem h
    obtain ⟨_, _, hp⟩ := redeem_eq_ok.mp h
    rw [← hcirculating]
    refine ⟨recovered_le h, recovered_bounds h, ?_, ?_, by omega, p.backing, p.burned, by omega, hburned, ?_, ?_⟩
    · rintro rfl
      exact recovered_zero h
    · intro hsome hall
      rw [recovered_all h hall hsome]
    · rw [hp]
      rfl
    · rw [hp]
      rfl
  · by_cases hle : amount.toNat ≤ circulating
    · obtain ⟨p, r, h, _⟩ := redeem_of_le (hcovered.mpr hle)
      simp [h, Nat.not_lt.mpr hle]
    · have hfew := BitVec.not_le.mp (mt hcovered.mp hle)
      have hover : 0 < circulating ∧ 2 ^ 256 ≤ amount.toNat * backing / circulating ↔
          2 ^ 256 ≤ amount.toNat * backing / circulating := by
        refine and_iff_right_of_imp fun hlarge => Nat.pos_of_ne_zero fun hnone => ?_
        rw [hnone, Nat.div_zero] at hlarge
        omega
      rw [redeem_of_lt hfew, hcirculating, Except.error.injEq, eq_comm, and_iff_right (Nat.not_le.mp hle)]
      simp only [hover]
      rfl

end BackedToken.Pool
