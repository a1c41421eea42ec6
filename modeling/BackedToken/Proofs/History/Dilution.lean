import BackedToken.Proofs.History.Events
import BackedToken.Proofs.Pool.Dilution

namespace BackedToken.World

open Pool

theorem never_diluted (settings : Settings) {w : World} {token : Address} {pool : Pool}
    (h : Pool.find? token w = .ok (some pool) w) (events : List Event) :
    ∃ later, Pool.find? token (w.after settings events) = .ok (some later) (w.after settings events) ∧
      pool.backing.toNat * later.circulating.toNat ≤ later.backing.toNat * pool.circulating.toNat ∧
      (∀ amount ≤ later.circulating, ∃ worth worth', pool.backingFor amount = .ok worth ∧
        later.backingFor amount = .ok worth' ∧ worth ≤ worth') ∧
      (0 < later.circulating.toNat → level pool.floorPrice ≤ level later.floorPrice) ∧
      ∀ rejection, pool.floorPrice = .error rejection ∨ later.floorPrice = .error rejection → rejection = .overflow := by
  obtain ⟨hopen, rfl⟩ := find_eq_some_iff.mp h
  have hundiluted : (w.pool token).Undiluted ((w.after settings events).pool token) :=
    undiluted_of_changes (changes_after hopen events)
  refine ⟨_, find_of_isOpen (isOpen_after hopen events), hundiluted.ratio, ?_, ?_, ?_⟩
  · intro amount hamount
    exact hundiluted.backingFor_le hamount
  · exact hundiluted.level_floorPrice_le
  · rintro rejection (hprice | hprice)
    · exact floorPrice_eq_error hprice
    · exact floorPrice_eq_error hprice

theorem never_diluted_sample :
    let w := (World.setPool {} (.native 2 10 4 0)).setBalance contractAddress 10
    let w' := w.after {} [.call { caller := 1 } (Call.burn 2 1).payload 30000]
    Pool.find? 2 w = .ok (some (.native 2 10 4 0)) w ∧ Pool.find? 2 w' = .ok (some (.native 2 8 4 1)) w' ∧
      10 * 3 ≤ 8 * 4 ∧ level (floorPrice (.native 2 10 4 0)) ≤ level (floorPrice (.native 2 8 4 1)) := by
  intro w w'
  have hpool : w.pool 2 = .native 2 10 4 0 := World.pool_setPool_native_self ..
  have hopen : (w.pool 2).isOpen = true := by
    rw [hpool]
    decide
  have hredeem : (w.pool 2).redeem 1 = .ok (.native 2 8 4 1, 2) := by
    rw [hpool]
    exact redeem_eq_ok.mpr ⟨by decide, by decide, by decide⟩
  have hheld : w.balance contractAddress = 10 := World.balance_setBalance ..
  have hroom : w.balance 1 = 0 := (World.balance_setBalance ..).trans (World.balance_setPool ..)
  have hmove : w.CanMove contractAddress 1 2 := by
    rw [World.CanMove, hheld, hroom]
    decide
  have hcall : Contract.Admitted {} { caller := 1 } (Call.burn 2 1).payload 30000 .burn
      (Payload.write (Call.burn 2 1).pieces) := ⟨Method.split_selector _ _, by decide, rfl, fun _ => rfl⟩
  obtain ⟨v, hexecute, hagrees⟩ := Contract.execute_burn_of hcall (Call.tokenAmount_write 2 1) hopen hredeem hmove
  have hlater : w'.pool 2 = .native 2 8 4 1 := by
    have hafter : w' = v := after_call_of_ok hexecute
    rw [hafter, hagrees.pool, Contract.pool_payOut hredeem, if_pos rfl]
  have hfind : Pool.find? 2 w = .ok (some (.native 2 10 4 0)) w := find_eq_some_iff.mpr ⟨hopen, hpool⟩
  obtain ⟨later, hfind', hratio, _, hprice, _⟩ :=
    never_diluted {} hfind [.call { caller := 1 } (Call.burn 2 1).payload 30000]
  obtain rfl : Pool.native 2 8 4 1 = later := hlater.symm.trans (find_eq_some_iff.mp hfind').2
  exact ⟨hfind, hfind', hratio, hprice (by decide)⟩

end BackedToken.World
