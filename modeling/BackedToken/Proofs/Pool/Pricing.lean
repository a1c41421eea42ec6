import BackedToken.Proofs.Pool.Dilution

/-! Prices in order, where one that does not fit a word counts as the highest. -/

namespace BackedToken.Pool

variable {pool next : Pool} {amount a b : Word} {m n : Nat}

def capped (n : Nat) : ℕ∞ := if n < 2 ^ 256 then n else ⊤

theorem capped_mono (h : m ≤ n) : capped m ≤ capped n := by
  rw [capped, capped]
  by_cases hn : n < 2 ^ 256
  · rw [if_pos (Nat.lt_of_le_of_lt h hn), if_pos hn]
    exact_mod_cast h
  · rw [if_neg hn]
    exact le_top

theorem capped_add_le (m n : Nat) : capped m + capped n ≤ capped (m + n) := by
  by_cases hsum : m + n < 2 ^ 256
  · have hm : m < 2 ^ 256 := Nat.lt_of_le_of_lt (Nat.le_add_right ..) hsum
    have hn : n < 2 ^ 256 := Nat.lt_of_le_of_lt (Nat.le_add_left ..) hsum
    rw [capped, capped, capped, if_pos hm, if_pos hn, if_pos hsum, Nat.cast_add]
  · rw [capped.eq_def (m + n), if_neg hsum]
    exact le_top

theorem level_backingFor (pool : Pool) (amount : Word) :
    level (pool.backingFor amount) = capped (amount.toNat * pool.backing.toNat / pool.circulating.toNat) := by
  cases h : pool.backingFor amount with
  | ok worth =>
    have hworth := backingFor_eq_ok.mp h
    rw [level, capped, ← hworth, if_pos worth.isLt]
  | error rejection =>
    have hlarge := (backingFor_eq_error.mp h).2
    rw [level, capped, if_neg (Nat.not_lt.mpr hlarge)]

theorem circulating_of_burn (h : pool.burn amount = .ok next) :
    next.circulating.toNat + amount.toNat = pool.circulating.toNat := by
  obtain ⟨hle, hnext⟩ := burn_eq_ok.mp h
  have hsupply : next.supply = pool.supply := hnext ▸ rfl
  have hburned : next.burned.toNat = pool.burned.toNat + amount.toNat := by
    rw [hnext, native, BitVec.toNat_add, Nat.mod_eq_of_lt (burned_add_lt hle)]
  rw [BitVec.le_def, toNat_circulating] at hle
  rw [toNat_circulating, toNat_circulating, hsupply, hburned]
  omega

theorem undiluted_of_le (hcirculating : next.circulating ≤ pool.circulating) (hbacking : pool.backing ≤ next.backing) :
    pool.Undiluted next where
  circulating := BitVec.le_def.mp hcirculating
  ratio := Nat.mul_le_mul (BitVec.le_def.mp hbacking) (BitVec.le_def.mp hcirculating)

inductive Raise (pool : Pool) : Pool → Prop
  | burned {amount : Word} {next : Pool} (burned : pool.burn amount = .ok next) : Raise pool next
  | changed {next : Pool} (change : pool.Change next) : Raise pool next

theorem Raise.undiluted (h : pool.Raise next) : pool.Undiluted next := by
  cases h with
  | burned burned =>
    have hcirculating := BitVec.le_def.mpr (Nat.le.intro (circulating_of_burn burned))
    obtain ⟨_, rfl⟩ := burn_eq_ok.mp burned
    exact undiluted_of_le hcirculating (BitVec.le_refl _)
  | changed change => exact change.undiluted

theorem undiluted_of_raises (h : Relation.ReflTransGen Raise pool next) : pool.Undiluted next := by
  induction h with
  | refl => exact .refl pool
  | tail _ raise ih => exact ih.trans raise.undiluted

theorem Undiluted.level_backingFor_le (h : pool.Undiluted next) (hsome : 0 < next.circulating.toNat) (hle : a ≤ b) :
    level (pool.backingFor a) ≤ level (next.backingFor b) := by
  rw [level_backingFor, level_backingFor]
  apply capped_mono
  calc a.toNat * pool.backing.toNat / pool.circulating.toNat
      ≤ a.toNat * next.backing.toNat / next.circulating.toNat := h.share_le a.toNat hsome
    _ ≤ b.toNat * next.backing.toNat / next.circulating.toNat :=
      Nat.div_le_div_right (Nat.mul_le_mul_right _ (BitVec.le_def.mp hle))

theorem level_backingFor_add (pool : Pool) (hsum : a.toNat + b.toNat < 2 ^ 256) :
    level (pool.backingFor a) + level (pool.backingFor b) ≤ level (pool.backingFor (a + b)) := by
  rw [level_backingFor, level_backingFor, level_backingFor, BitVec.toNat_add, Nat.mod_eq_of_lt hsum, Nat.add_mul]
  -- what two truncations lose can only be more than what one loses
  exact (capped_add_le ..).trans (capped_mono Nat.div_add_div_le_add_div)

/-- A unit is never cheaper against a pool with fewer units and more backing, and amounts are worth no less together
than apart. -/
theorem pricing_monotone (pool : Pool) :
    (∀ next : Pool, 0 < next.circulating.toNat →
      next.circulating ≤ pool.circulating ∧ pool.backing ≤ next.backing ∨ Relation.ReflTransGen Raise pool next →
        level pool.floorPrice ≤ level next.floorPrice ∧
        ∀ a b : Word, a ≤ b → level (pool.backingFor a) ≤ level (next.backingFor b)) ∧
    (∀ a b : Word, a.toNat + b.toNat < 2 ^ 256 →
      level (pool.backingFor a) + level (pool.backingFor b) ≤ level (pool.backingFor (a + b))) ∧
    (∀ rejection, pool.floorPrice = .error rejection ↔ rejection = .overflow ∧
      2 ^ 256 ≤ pool.backing.toNat * 10 ^ coinDecimals / pool.circulating.toNat) ∧
    ∀ (amount : Word) rejection, pool.backingFor amount = .error rejection ↔ rejection = .overflow ∧
      2 ^ 256 ≤ amount.toNat * pool.backing.toNat / pool.circulating.toNat := by
  refine ⟨fun next hsome hnext => ?_, fun a b => pool.level_backingFor_add, fun rejection => ?_, fun amount rejection => ?_⟩
  · have hundiluted : pool.Undiluted next := by
      obtain ⟨hcirculating, hbacking⟩ | hraises := hnext
      · exact undiluted_of_le hcirculating hbacking
      · exact undiluted_of_raises hraises
    exact ⟨hundiluted.level_floorPrice_le hsome, fun a b => hundiluted.level_backingFor_le hsome⟩
  · have hcoin : coinValue.toNat = 10 ^ coinDecimals := rfl
    rw [floorPrice_eq_backingFor, backingFor_eq_error, hcoin, Nat.mul_comm]
  · exact backingFor_eq_error

theorem pricing_monotone_sample :
    let pool := native 2 (BitVec.twoPow 256 200) 1024 0
    let next := native 2 (BitVec.twoPow 256 200) 1024 1023
    pool.burn 1023 = .ok next ∧ next.floorPrice = .error .overflow ∧ level pool.floorPrice ≤ level next.floorPrice ∧
      level (pool.backingFor 3) ≤ level (next.backingFor 5) ∧
      level (pool.backingFor 3) + level (pool.backingFor 5) ≤ level (pool.backingFor 8) := by
  intro pool next
  have hburn : pool.burn 1023 = .ok next := burn_eq_ok.mpr ⟨by decide, rfl⟩
  obtain ⟨hmonotone, hadd, _⟩ := pricing_monotone pool
  obtain ⟨hprice, hworth⟩ := hmonotone next (by decide) (.inr (.single (.burned hburn)))
  have hover := ((pricing_monotone next).2.2.1 .overflow).mpr ⟨rfl, by decide⟩
  exact ⟨hburn, hover, hprice, hworth 3 5 (by decide), hadd 3 5 (by decide)⟩

end BackedToken.Pool
