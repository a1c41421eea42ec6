import BackedToken.Proofs.Ledger.Basic
import BackedToken.Proofs.Pool.Dilution

namespace BackedToken.Ledger

open Pool

theorem inWord_of_toNat (w : Word) : inWord w.toNat = .ok w := by
  rw [inWord, if_pos w.isLt, BitVec.ofNat_toNat, BitVec.setWidth_eq]

theorem inWord_add (a b : Word) :
    inWord (a.toNat + b.toNat) = if a.toNat + b.toNat < 2 ^ 256 then .ok (a + b) else .error .overflow := by
  rw [inWord, BitVec.ofNat_add, BitVec.ofNat_toNat, BitVec.ofNat_toNat, BitVec.setWidth_eq, BitVec.setWidth_eq]

theorem share_eq (a b c : Word) : share a b c = inWord (a.toNat * b.toNat / c.toNat) := by
  cases hshare : share a b c with
  | ok quotient => rw [← share_eq_ok.mp hshare, inWord_of_toNat]
  | error rejection =>
    obtain ⟨rfl, hlarge⟩ := share_eq_error.mp hshare
    rw [inWord, if_neg (Nat.not_lt.mpr hlarge)]

namespace Record

variable (record : Record) (token : Address)

theorem circulating_pool : (record.pool token).circulating.toNat = record.circulating := toNat_circulating _

theorem backingFor_pool (amount : Word) :
    (record.pool token).backingFor amount = inWord (record.worth amount.toNat) := by
  rw [backingFor, redeemable?_eq, circulating_pool, worth]
  by_cases hnone : record.circulating = 0
  · rw [if_pos hnone, if_pos hnone]
    rfl
  · rw [if_neg hnone, if_neg hnone, ← circulating_pool record token]
    exact share_eq ..

theorem floorPrice_pool : (record.pool token).floorPrice = inWord (record.worth (10 ^ coinDecimals)) := by
  have hcoin : coinValue.toNat = 10 ^ coinDecimals := by decide
  rw [floorPrice_eq_backingFor, backingFor_pool, hcoin]

theorem redeem_pool (amount : Word) : (record.pool token).redeem amount =
    (record.redeem amount).map fun (rest, paid) => (rest.pool token, paid) := by
  cases hpaid : inWord (record.worth amount.toNat) with
  | error rejection =>
    have hpool : (record.pool token).backingFor amount = .error rejection := (record.backingFor_pool token amount).trans hpaid
    simp only [Pool.redeem, Record.redeem, hpool, hpaid]
    rfl
  | ok paid =>
    have hpool : (record.pool token).backingFor amount = .ok paid := (record.backingFor_pool token amount).trans hpaid
    by_cases hle : amount.toNat ≤ record.circulating
    · have hcovered : amount ≤ (record.pool token).circulating := by
        rw [BitVec.le_def, circulating_pool]
        exact hle
      rw [redeem_eq_ok.mpr ⟨hcovered, backingFor_eq_ok.mp hpool, rfl⟩]
      simp only [Record.redeem, hpaid, bind, Except.bind, dif_pos hle]
      rfl
    · have hlarge : (record.pool token).circulating < amount := by
        rw [BitVec.lt_def, circulating_pool]
        exact Nat.not_le.mp hle
      simp only [Pool.redeem, Record.redeem, Pool.burn, hpool, hpaid, bind, Except.bind, if_pos hlarge, dif_neg hle]
      rfl

theorem addBacking_pool (amount : Word) : (record.pool token).addBacking amount =
    (record.credit amount).map (·.pool token) := by
  rw [Record.credit, inWord_add]
  by_cases hfits : record.backing.toNat + amount.toNat < 2 ^ 256
  · rw [addBacking_eq_ok.mpr ⟨hfits, rfl⟩, if_pos hfits]
    rfl
  · have hnone := Word.ofNat?_eq_none_iff.mpr (Nat.not_lt.mp hfits)
    have hpool : (record.pool token).backing = record.backing := rfl
    rw [addBacking, hpool, hnone, if_neg hfits]
    rfl

section Kept

variable {record next : Record} {amount paid : Word}

theorem keeps_of_credit (h : record.credit amount = .ok next) : next.supply = record.supply ∧ next.plan = record.plan := by
  rw [credit] at h
  cases hbacking : inWord (record.backing.toNat + amount.toNat) with
  | ok backing =>
    rw [hbacking] at h
    cases h
    exact ⟨rfl, rfl⟩
  | error rejection =>
    rw [hbacking] at h
    cases h

theorem keeps_of_redeem (h : record.redeem amount = .ok (next, paid)) :
    next.supply = record.supply ∧ next.plan = record.plan := by
  rw [redeem] at h
  cases hpaid : inWord (record.worth amount.toNat) with
  | ok paid =>
    rw [hpaid] at h
    simp only [bind, Except.bind] at h
    split at h
    · cases h
      exact ⟨rfl, rfl⟩
    · cases h
  | error rejection =>
    rw [hpaid] at h
    cases h

end Kept

end Record

end BackedToken.Ledger
