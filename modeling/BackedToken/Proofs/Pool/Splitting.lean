import BackedToken.Proofs.Pool.Redemption
import Mathlib.Tactic.GCongr
import Mathlib.Tactic.Ring

/-! An amount redeemed in parts, each rounded down against the pool that the parts before it left. -/

namespace BackedToken.Pool

variable {pool next last : Pool} {amount r : Word} {amounts recovered : List Word}

def worth (pool : Pool) (units : Nat) : Nat := units * pool.backing.toNat / pool.circulating.toNat

def total (amounts : List Word) : Nat := (amounts.map BitVec.toNat).sum

def redeemEach (pool : Pool) : List Word → Except Rejection (Pool × List Word)
  | [] => .ok (pool, [])
  | amount :: rest => do
    let (next, recovered) ← pool.redeem amount
    let (last, others) ← next.redeemEach rest
    pure (last, recovered :: others)

structure Spent (pool : Pool) (units coins : Nat) (left : Pool) : Prop where
  supply : left.supply = pool.supply
  burned : left.burned.toNat = pool.burned.toNat + units
  backing : left.backing.toNat + coins = pool.backing.toNat
  circulating : left.circulating.toNat + units = pool.circulating.toNat

theorem Spent.nothing (pool : Pool) : pool.Spent 0 0 pool := ⟨rfl, rfl, rfl, rfl⟩

theorem Spent.trans {units more coins others : Nat} (first : pool.Spent units coins next)
    (rest : next.Spent more others last) : pool.Spent (units + more) (coins + others) last where
  supply := rest.supply.trans first.supply
  burned := by rw [rest.burned, first.burned, Nat.add_assoc]
  backing := by rw [← first.backing, ← rest.backing, Nat.add_assoc, Nat.add_comm others]
  circulating := by rw [← first.circulating, ← rest.circulating, Nat.add_assoc, Nat.add_comm more]

theorem spent_of_redeem (h : pool.redeem amount = .ok (next, r)) : pool.Spent amount.toNat r.toNat next :=
  ⟨supply_of_redeem h, burned_of_redeem h, backing_of_redeem h, circulating_of_redeem h⟩

theorem total_cons (amount : Word) (rest : List Word) : total (amount :: rest) = amount.toNat + total rest := rfl

theorem redeemEach_cons_eq_ok {rest : List Word} : pool.redeemEach (amount :: rest) = .ok (last, recovered) ↔
    ∃ next r others, pool.redeem amount = .ok (next, r) ∧ next.redeemEach rest = .ok (last, others) ∧
      recovered = r :: others := by
  rw [redeemEach]
  cases hfirst : pool.redeem amount with
  | error rejection => simp [bind, Except.bind]
  | ok result =>
    obtain ⟨next, r⟩ := result
    cases hrest : next.redeemEach rest with
    | error rejection => simp [bind, Except.bind, hrest]
    | ok others =>
      simp only [bind, Except.bind, hrest, pure, Except.pure, Except.ok.injEq, Prod.mk.injEq]
      constructor
      · rintro ⟨rfl, rfl⟩
        exact ⟨next, r, others.2, ⟨rfl, rfl⟩, hrest, rfl⟩
      · rintro ⟨_, _, _, ⟨rfl, rfl⟩, hothers, rfl⟩
        rw [hrest, Except.ok.injEq] at hothers
        exact ⟨congrArg Prod.fst hothers, congrArg (r :: ·.2) hothers⟩

theorem worth_of_redeem (h : pool.redeem amount = .ok (next, r)) : r.toNat = pool.worth amount.toNat :=
  (redeem_eq_ok.mp h).2.1

theorem share_add {a b q p B C : Nat} (hb : b ≤ C) (hC : 0 < C) (hq : q = a * (B + q) / (C + a)) (hp : p = b * B / C) :
    q + p ≤ (a + b) * (B + q) / (C + a) ∧ (a + b) * (B + q) / (C + a) ≤ q + p + 1 := by
  obtain ⟨k, rfl⟩ := Nat.exists_eq_add_of_le hb
  have hC' : 0 < b + k + a := by omega
  have hq₁ := Nat.div_mul_le_self (a * (B + q)) (b + k + a)
  have hq₂ := Nat.lt_mul_div_succ (a * (B + q)) hC'
  have hp₁ := Nat.div_mul_le_self (b * B) (b + k)
  have hp₂ := Nat.lt_mul_div_succ (b * B) hC
  rw [← hq] at hq₁ hq₂
  rw [← hp] at hp₁ hp₂
  -- both sides are compared after a multiplication by what circulates between the two steps
  have hwhole : (a + b) * (B + q) * (b + k) = a * (B + q) * k + b * B * (b + k + a) + q * (b + k + a) * b := by ring
  constructor
  · rw [Nat.le_div_iff_mul_le hC']
    apply Nat.le_of_mul_le_mul_right _ hC
    calc (q + p) * (b + k + a) * (b + k)
        = q * (b + k + a) * k + p * (b + k) * (b + k + a) + q * (b + k + a) * b := by ring
      _ ≤ a * (B + q) * k + b * B * (b + k + a) + q * (b + k + a) * b := by gcongr
      _ = (a + b) * (B + q) * (b + k) := hwhole.symm
  · rw [← Nat.lt_succ_iff, Nat.div_lt_iff_lt_mul hC']
    refine lt_of_mul_lt_mul_right ?_ (Nat.zero_le (b + k))
    calc (a + b) * (B + q) * (b + k)
        = a * (B + q) * k + b * B * (b + k + a) + q * (b + k + a) * b := hwhole
      _ < (b + k + a) * (q + 1) * k + (b + k) * (p + 1) * (b + k + a) + (q + 1) * (b + k + a) * b := by
        have hfirst := Nat.mul_le_mul_right k hq₂.le
        have hsecond := Nat.mul_lt_mul_of_pos_right hp₂ hC'
        have hseam : q * (b + k + a) * b ≤ (q + 1) * (b + k + a) * b := by gcongr; omega
        omega
      _ = (q + p + 1).succ * (b + k + a) * (b + k) := by
        rw [Nat.succ_eq_add_one]
        ring

theorem worth_add (h : pool.redeem amount = .ok (next, r)) {units : Nat} (hunits : units ≤ next.circulating.toNat) :
    r.toNat + next.worth units ≤ pool.worth (amount.toNat + units) ∧
      pool.worth (amount.toNat + units) ≤ r.toNat + next.worth units + 1 := by
  have hcirculating := circulating_of_redeem h
  have hbacking := backing_of_redeem h
  have hshare := worth_of_redeem h
  rw [worth, ← hcirculating, ← hbacking] at hshare
  rw [worth, worth, ← hcirculating, ← hbacking]
  rcases Nat.eq_zero_or_pos next.circulating.toNat with hnone | hsome
  · -- the first step redeems everything that circulates
    obtain rfl : units = 0 := by omega
    rw [Nat.add_zero, Nat.zero_mul, Nat.zero_div, Nat.add_zero, ← hshare]
    exact ⟨Nat.le_refl _, Nat.le_succ _⟩
  · exact share_add hunits hsome hshare rfl

theorem exists_redeemEach (h : total amounts ≤ pool.circulating.toNat) :
    ∃ last recovered, pool.redeemEach amounts = .ok (last, recovered) := by
  induction amounts generalizing pool with
  | nil => exact ⟨pool, [], rfl⟩
  | cons amount rest ih =>
    rw [total_cons] at h
    obtain ⟨next, r, hfirst, _⟩ := redeem_of_le (BitVec.le_def.mpr (by omega : amount.toNat ≤ pool.circulating.toNat))
    have hleft := circulating_of_redeem hfirst
    obtain ⟨last, others, hrest⟩ := ih (show total rest ≤ next.circulating.toNat by omega)
    exact ⟨last, r :: others, redeemEach_cons_eq_ok.mpr ⟨next, r, others, hfirst, hrest, rfl⟩⟩

section Each

variable (h : pool.redeemEach amounts = .ok (last, recovered))
include h

theorem spent_of_redeemEach : pool.Spent (total amounts) (total recovered) last := by
  induction amounts generalizing pool recovered with
  | nil =>
    cases h
    exact .nothing _
  | cons amount rest ih =>
    obtain ⟨next, r, others, hfirst, hrest, rfl⟩ := redeemEach_cons_eq_ok.mp h
    exact (spent_of_redeem hfirst).trans (ih hrest)

theorem supply_of_redeemEach : last.supply = pool.supply := (spent_of_redeemEach h).supply

theorem burned_of_redeemEach : last.burned.toNat = pool.burned.toNat + total amounts := (spent_of_redeemEach h).burned

theorem backing_of_redeemEach : last.backing.toNat + total recovered = pool.backing.toNat :=
  (spent_of_redeemEach h).backing

theorem total_recovered_le : total recovered ≤ pool.worth (total amounts) := by
  induction amounts generalizing pool recovered with
  | nil =>
    cases h
    exact Nat.zero_le _
  | cons amount rest ih =>
    obtain ⟨next, r, others, hfirst, hrest, rfl⟩ := redeemEach_cons_eq_ok.mp h
    have hnext := (spent_of_redeemEach hrest).circulating
    have hseam := (worth_add hfirst (by omega : total rest ≤ next.circulating.toNat)).1
    have hothers := ih hrest
    rw [total_cons, total_cons]
    omega

theorem worth_le_total_recovered : pool.worth (total amounts) ≤ total recovered + (amounts.length - 1) := by
  induction amounts generalizing pool recovered with
  | nil =>
    cases h
    simp [worth, total]
  | cons amount rest ih =>
    obtain ⟨next, r, others, hfirst, hrest, rfl⟩ := redeemEach_cons_eq_ok.mp h
    rw [total_cons, total_cons, List.length_cons]
    cases rest with
    | nil =>
      -- the last part is paid in full
      cases hrest
      have hlast := worth_of_redeem hfirst
      simp only [total, List.map_nil, List.sum_nil, Nat.add_zero] at hlast ⊢
      omega
    | cons second others' =>
      have hnext := (spent_of_redeemEach hrest).circulating
      have hseam := (worth_add hfirst (by omega : total (second :: others') ≤ next.circulating.toNat)).2
      have hothers := ih hrest
      rw [List.length_cons] at hothers ⊢
      omega

end Each

theorem splitting_never_pays (pool : Pool) (amounts : List Word) (h : total amounts ≤ pool.circulating.toNat) :
    ∃ last recovered whole paid, pool.redeemEach amounts = .ok (last, recovered) ∧
      pool.redeem (BitVec.ofNat 256 (total amounts)) = .ok (whole, paid) ∧
      total recovered ≤ paid.toNat ∧ paid.toNat ≤ total recovered + (amounts.length - 1) ∧
      last.burned = whole.burned ∧ last.supply = whole.supply ∧ whole.backing ≤ last.backing := by
  obtain ⟨last, recovered, heach⟩ := exists_redeemEach h
  have htotal : (BitVec.ofNat 256 (total amounts)).toNat = total amounts :=
    BitVec.toNat_ofNat .. |>.trans (Nat.mod_eq_of_lt (Nat.lt_of_le_of_lt h pool.circulating.isLt))
  obtain ⟨whole, paid, honce, _⟩ := redeem_of_le (BitVec.le_def.mpr (htotal.le.trans h))
  have hpaid := worth_of_redeem honce
  have hburned := burned_of_redeem honce
  rw [htotal] at hpaid hburned
  have hgain := total_recovered_le heach
  have hloss := worth_le_total_recovered heach
  refine ⟨last, recovered, whole, paid, heach, honce, hpaid ▸ hgain, hpaid ▸ hloss, ?_, ?_, ?_⟩
  · exact BitVec.eq_of_toNat_eq ((burned_of_redeemEach heach).trans hburned.symm)
  · exact (supply_of_redeemEach heach).trans (supply_of_redeem honce).symm
  · have hparts := backing_of_redeemEach heach
    have hwhole := backing_of_redeem honce
    rw [BitVec.le_def]
    omega

theorem splitting_never_pays_sample : ∃ last recovered whole paid,
    redeemEach (.native 1 10 4 0) [1, 1] = .ok (last, recovered) ∧ total recovered = 4 ∧
      redeem (.native 1 10 4 0) 2 = .ok (whole, paid) ∧ paid = 5 ∧ paid.toNat ≤ total recovered + 1 ∧
      whole.backing ≤ last.backing := by
  have hunits : total [1, 1] ≤ (native 1 10 4 0).circulating.toNat := by decide
  obtain ⟨last, recovered, whole, paid, heach, honce, _, hloss, _, _, hbacking⟩ :=
    splitting_never_pays (.native 1 10 4 0) [1, 1] hunits
  have hrecovered : recovered = [2, 2] := by
    have hparts : redeemEach (.native 1 10 4 0) [1, 1] = .ok (.native 1 6 4 2, [2, 2]) := by decide
    rw [hparts] at heach
    cases heach
    rfl
  have hunited : redeem (.native 1 10 4 0) 2 = .ok (whole, paid) := honce
  have hpaid : paid = 5 := by
    have hwhole : redeem (.native 1 10 4 0) 2 = .ok (.native 1 5 4 2, 5) := by decide
    rw [hwhole] at hunited
    cases hunited
    rfl
  exact ⟨last, recovered, whole, paid, heach, hrecovered ▸ rfl, hunited, hpaid, hloss, hbacking⟩

end BackedToken.Pool
