import BackedToken.Pool
import BackedToken.Proofs.Numbers

namespace BackedToken.Pool

variable {pool p : Pool} {amount r : Word} {rejection : Rejection}

theorem share_eq_ok {a b c q : Word} : share a b c = .ok q ↔ q.toNat = a.toNat * b.toNat / c.toNat := by
  rw [share, ← Word.ofNat?_eq_some_iff]
  cases Word.ofNat? (a.toNat * b.toNat / c.toNat) with
  | some quotient => rw [Except.ok.injEq, Option.some.injEq]
  | none => simp

theorem share_eq_error {a b c : Word} :
    share a b c = .error rejection ↔ rejection = .overflow ∧ 2 ^ 256 ≤ a.toNat * b.toNat / c.toNat := by
  rw [share, ← Word.ofNat?_eq_none_iff]
  cases Word.ofNat? (a.toNat * b.toNat / c.toNat) <;> simp [eq_comm]

theorem redeemable?_eq : pool.redeemable? = if pool.circulating.toNat = 0 then none else some pool.circulating := by
  have hc := pool.toNat_circulating
  have hzero : pool.circulating = 0 ↔ pool.circulating.toNat = 0 := BitVec.toNat_eq
  have hsupply : pool.supply = 0 ↔ pool.supply.toNat = 0 := BitVec.toNat_eq
  have hnone : pool.supply = 0 ∨ pool.circulating = 0 ↔ pool.circulating.toNat = 0 := by
    rw [hzero, hsupply]
    omega
  simp only [redeemable?, hnone]

theorem backingFor_eq : pool.backingFor amount =
    if pool.circulating.toNat = 0 then .ok 0 else share amount pool.backing pool.circulating := by
  rw [backingFor, redeemable?_eq]
  by_cases hc : pool.circulating.toNat = 0 <;> simp only [hc, if_true, if_false]

theorem backingFor_eq_ok :
    pool.backingFor amount = .ok r ↔ r.toNat = amount.toNat * pool.backing.toNat / pool.circulating.toNat := by
  rw [backingFor_eq]
  by_cases hc : pool.circulating.toNat = 0
  · rw [if_pos hc, hc, Nat.div_zero, Except.ok.injEq, eq_comm]
    exact BitVec.toNat_eq
  · rw [if_neg hc]
    exact share_eq_ok

theorem backingFor_eq_error : pool.backingFor amount = .error rejection ↔
    rejection = .overflow ∧ 2 ^ 256 ≤ amount.toNat * pool.backing.toNat / pool.circulating.toNat := by
  rw [backingFor_eq]
  by_cases hc : pool.circulating.toNat = 0
  · simp [hc]
  · rw [if_neg hc]
    exact share_eq_error

theorem share_comm (a b c : Word) : share a b c = share b a c := by
  rw [share, share, Nat.mul_comm]

theorem floorPrice_eq_backingFor (pool : Pool) : pool.floorPrice = pool.backingFor coinValue := by
  rw [floorPrice, redeemable?_eq, backingFor_eq, share_comm]
  by_cases hc : pool.circulating.toNat = 0 <;> simp only [hc, if_true, if_false]

theorem summary_eq (pool : Pool) : pool.summary = (pool.backingFor coinValue).map fun price =>
    ⟨pool.asset, pool.backing, pool.supply, pool.burned, price, price⟩ := by
  rw [summary, floorPrice_eq_backingFor]
  cases pool.backingFor coinValue <;> rfl

theorem floorPrice_eq_error (h : pool.floorPrice = .error rejection) : rejection = .overflow := by
  rw [floorPrice_eq_backingFor] at h
  exact (backingFor_eq_error.mp h).1

theorem share_le_backing (h : amount ≤ pool.circulating) :
    amount.toNat * pool.backing.toNat / pool.circulating.toNat ≤ pool.backing.toNat := by
  apply Nat.div_le_of_le_mul
  exact Nat.mul_le_mul_right _ (BitVec.le_def.mp h)

theorem burned_add_lt (h : amount ≤ pool.circulating) : pool.burned.toNat + amount.toNat < 2 ^ 256 := by
  have hc := pool.toNat_circulating
  have hle := BitVec.le_def.mp h
  have hs := pool.supply.isLt
  have hb := pool.burned.isLt
  omega

theorem burn_eq_ok : pool.burn amount = .ok p ↔
    amount ≤ pool.circulating ∧ p = native pool.token pool.backing pool.supply (pool.burned + amount) := by
  by_cases hle : amount ≤ pool.circulating
  · have hsum := Word.ofNat?_add_eq_some_iff.mpr ⟨burned_add_lt hle, rfl⟩
    rw [burn, if_neg (BitVec.not_lt.mpr hle), hsum, Except.ok.injEq, and_iff_right hle]
    exact eq_comm
  · rw [burn, if_pos (BitVec.not_le.mp hle)]
    simp [hle]

theorem burn_of_lt (h : pool.circulating < amount) :
    pool.burn amount = .error (.burnExceedsSupply amount pool.circulating) := by
  rw [burn, if_pos h]

theorem redeem_eq (pool : Pool) (amount : Word) : pool.redeem amount = (pool.backingFor amount).bind fun r =>
    if amount ≤ pool.circulating then .ok (native pool.token (pool.backing - r) pool.supply (pool.burned + amount), r)
    else .error (.burnExceedsSupply amount pool.circulating) := by
  rw [redeem]
  cases hr : pool.backingFor amount with
  | error rejection => rfl
  | ok r =>
    by_cases hle : amount ≤ pool.circulating
    · have hb : pool.burn amount = .ok _ := burn_eq_ok.mpr ⟨hle, rfl⟩
      -- a share of what circulates is never more than the backing
      have hpaid : ¬pool.backing < r := by
        have hshare := share_le_backing hle
        rw [← backingFor_eq_ok.mp hr] at hshare
        rw [BitVec.lt_def]
        omega
      simp only [hb, bind, Except.bind, hpaid, if_false, hle, if_true]
      rfl
    · simp only [burn_of_lt (BitVec.not_le.mp hle), bind, Except.bind, hle, if_false]

theorem redeem_eq_ok : pool.redeem amount = .ok (p, r) ↔
    amount ≤ pool.circulating ∧ r.toNat = amount.toNat * pool.backing.toNat / pool.circulating.toNat ∧
      p = native pool.token (pool.backing - r) pool.supply (pool.burned + amount) := by
  rw [redeem_eq, ← backingFor_eq_ok]
  cases pool.backingFor amount with
  | error rejection => simp [Except.bind]
  | ok recovered =>
    by_cases hle : amount ≤ pool.circulating
    · simp only [Except.bind, hle, if_true, Except.ok.injEq, Prod.mk.injEq, true_and]
      constructor
      · rintro ⟨rfl, rfl⟩
        exact ⟨rfl, rfl⟩
      · rintro ⟨rfl, rfl⟩
        exact ⟨rfl, rfl⟩
    · simp [Except.bind, hle]

theorem redeem_eq_error : pool.redeem amount = .error rejection ↔
    pool.backingFor amount = .error rejection ∨
      (∃ recovered, pool.backingFor amount = .ok recovered) ∧ pool.circulating < amount ∧
        rejection = .burnExceedsSupply amount pool.circulating := by
  -- the share is priced before the amount is held against the supply
  rw [redeem_eq, ← BitVec.not_le]
  cases pool.backingFor amount with
  | error fault => simp [Except.bind]
  | ok recovered => by_cases hle : amount ≤ pool.circulating <;> simp [Except.bind, hle, eq_comm]

theorem redeem_of_le (h : amount ≤ pool.circulating) : ∃ p r, pool.redeem amount = .ok (p, r) ∧
    r.toNat = amount.toNat * pool.backing.toNat / pool.circulating.toNat := by
  have hlt := Nat.lt_of_le_of_lt (share_le_backing h) pool.backing.isLt
  have hr := BitVec.toNat_ofNatLT _ hlt
  exact ⟨_, _, redeem_eq_ok.mpr ⟨h, hr, rfl⟩, hr⟩

theorem backingFor_of_redeem (h : pool.redeem amount = .ok (p, r)) : pool.backingFor amount = .ok r :=
  backingFor_eq_ok.mpr (redeem_eq_ok.mp h).2.1

theorem burn_ne_overflow (pool : Pool) (amount : Word) : pool.burn amount ≠ .error .overflow := by
  -- an amount that circulates is not more than the supply less what was burned before
  by_cases hle : amount ≤ pool.circulating
  · simp [burn_eq_ok.mpr ⟨hle, rfl⟩]
  · simp [burn_of_lt (BitVec.not_le.mp hle)]

theorem redeem_ne_underflow (pool : Pool) (amount : Word) : pool.redeem amount ≠ .error .underflow := by
  simp [redeem_eq_error, backingFor_eq_error]

theorem redeem_zero (pool : Pool) : ∃ p, pool.redeem 0 = .ok (p, 0) := by
  have hle : (0 : Word) ≤ pool.circulating := BitVec.le_def.mpr (Nat.zero_le _)
  obtain ⟨p, r, hredeem, hr⟩ := redeem_of_le hle
  obtain rfl : r = 0 := by
    have hnone : (0 : Word).toNat = 0 := rfl
    rw [hnone, Nat.zero_mul, Nat.zero_div] at hr
    exact BitVec.eq_of_toNat_eq hr
  exact ⟨p, hredeem⟩

theorem isOpen_of_redeem (h : pool.redeem amount = .ok (p, r)) : p.isOpen = pool.isOpen := by
  obtain ⟨_, _, rfl⟩ := redeem_eq_ok.mp h
  rfl

theorem backing_of_redeem (h : pool.redeem amount = .ok (p, r)) : p.backing.toNat + r.toNat = pool.backing.toNat := by
  obtain ⟨hle, hr, rfl⟩ := redeem_eq_ok.mp h
  have hpaid : r.toNat ≤ pool.backing.toNat := hr ▸ share_le_backing hle
  rw [native, BitVec.toNat_sub_of_le (BitVec.le_def.mpr hpaid), Nat.sub_add_cancel hpaid]

theorem burned_of_redeem (h : pool.redeem amount = .ok (p, r)) :
    p.burned.toNat = pool.burned.toNat + amount.toNat := by
  obtain ⟨hle, _, rfl⟩ := redeem_eq_ok.mp h
  rw [native, BitVec.toNat_add, Nat.mod_eq_of_lt (burned_add_lt hle)]

theorem supply_of_redeem (h : pool.redeem amount = .ok (p, r)) : p.supply = pool.supply := by
  obtain ⟨_, _, rfl⟩ := redeem_eq_ok.mp h
  rfl

theorem circulating_of_redeem (h : pool.redeem amount = .ok (p, r)) :
    p.circulating.toNat + amount.toNat = pool.circulating.toNat := by
  have hle := BitVec.le_def.mp (redeem_eq_ok.mp h).1
  rw [toNat_circulating] at hle
  rw [toNat_circulating, toNat_circulating, supply_of_redeem h, burned_of_redeem h]
  omega

theorem addBacking_eq_ok : pool.addBacking amount = .ok p ↔
    pool.backing.toNat + amount.toNat < 2 ^ 256 ∧
      p = native pool.token (pool.backing + amount) pool.supply pool.burned := by
  by_cases hlt : pool.backing.toNat + amount.toNat < 2 ^ 256
  · have hsum := Word.ofNat?_add_eq_some_iff.mpr ⟨hlt, rfl⟩
    rw [addBacking, hsum, Except.ok.injEq, and_iff_right hlt]
    exact eq_comm
  · have hnone := Word.ofNat?_eq_none_iff.mpr (Nat.not_lt.mp hlt)
    simp only [addBacking, hnone, reduceCtorEq, hlt, false_and]

theorem isOpen_of_addBacking (h : pool.addBacking amount = .ok p) : p.isOpen = pool.isOpen := by
  obtain ⟨_, rfl⟩ := addBacking_eq_ok.mp h
  rfl

theorem backing_of_addBacking (h : pool.addBacking amount = .ok p) :
    p.backing.toNat = pool.backing.toNat + amount.toNat := by
  obtain ⟨hlt, rfl⟩ := addBacking_eq_ok.mp h
  rw [native, BitVec.toNat_add, Nat.mod_eq_of_lt hlt]

end BackedToken.Pool
