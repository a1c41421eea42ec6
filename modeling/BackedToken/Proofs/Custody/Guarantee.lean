import BackedToken.Proofs.Custody.Solvency

namespace BackedToken.Custody

open Contract World

variable {settings : Settings} {context : Context} {payload args : Bytes} {limit : Gas} {token : Address} {amount : Word}
  {w₀ w : World}

theorem redemption_guaranteed (hempty : w₀.words = .empty) (hrun : Run settings w₀ w)
    (hopen : (w.pool token).isOpen = true) (hamount : amount ≤ (w.pool token).circulating)
    (hroom : (w.balance context.caller).toNat +
      amount.toNat * (w.pool token).backing.toNat / (w.pool token).circulating.toNat < 2 ^ 256)
    (hsplit : Payload.split payload = .ok (Method.burn.selector, args))
    (hargs : Call.tokenAmount args = .ok (token, amount)) (hvalue : context.value = 0)
    (hstatic : context.isStatic = false) (hgas : settings.tariff.required payload ≤ limit) :
    ∃ (recovered : Word) (w' : World), execute settings context payload limit w =
        .ok ⟨settings.tariff.required payload, recovered.bytes⟩ w' ∧
      recovered.toNat = amount.toNat * (w.pool token).backing.toNat / (w.pool token).circulating.toNat := by
  have hcost : settings.tariff.required payload = settings.tariff.cost payload.length .burn := required_of_split hsplit
  have hcall : Admitted settings context payload limit .burn args := ⟨hsplit, hcost ▸ hgas, hvalue, fun _ => hstatic⟩
  obtain ⟨pool, recovered, hredeem, hshare⟩ := Pool.redeem_of_le hamount
  -- the share is at most the backing of this pool, which is at most what all pools claim together
  have hheld : recovered ≤ w.balance settings.custodian := by
    have hbacking := Pool.backing_of_redeem hredeem
    have hclaim := claimed_of_open_le_locked hopen
    have hcover := hrun.covered hempty
    exact BitVec.le_def.mpr (by omega)
  have hmove : w.CanMove settings.custodian context.caller recovered := .inr ⟨hheld, .inr (hshare ▸ hroom)⟩
  obtain ⟨w', hexecute, _⟩ := execute_burn_of hcall hargs hopen hredeem hmove
  exact ⟨recovered, w', hcost ▸ hexecute, hshare⟩

theorem redemption_guaranteed_sample : ∃ w w', Run {} sampleStart w ∧
    execute {} { caller := 1 } (Call.burn sampleToken 10).payload 30000 w = .ok ⟨30000, Word.bytes 65⟩ w' := by
  obtain ⟨w, hrun, hpool, hbalance⟩ := sample_run
  have hsplit : Payload.split (Call.burn sampleToken 10).payload =
      .ok (Method.burn.selector, Payload.write [.address sampleToken, .word 10]) := Method.split_selector _ _
  have hcost : (Settings.tariff {}).required (Call.burn sampleToken 10).payload = 30000 := required_of_split hsplit
  have hopen : (w.pool sampleToken).isOpen = true := by
    rw [hpool]
    rfl
  have hamount : 10 ≤ (w.pool sampleToken).circulating := by
    rw [hpool]
    decide
  have hvalue : Context.value { caller := 1 } = 0 := rfl
  have hstatic : Context.isStatic { caller := 1 } = false := rfl
  have hroom : (w.balance 1).toNat +
      (10 : Word).toNat * (w.pool sampleToken).backing.toNat / (w.pool sampleToken).circulating.toNat < 2 ^ 256 := by
    rw [hpool, hbalance]
    decide
  obtain ⟨recovered, w', hexecute, hshare⟩ := redemption_guaranteed rfl hrun hopen hamount hroom hsplit
    (Call.tokenAmount_write sampleToken 10) hvalue hstatic (UInt64.le_of_eq hcost)
  have hpaid : recovered = 65 := by
    rw [hpool] at hshare
    exact BitVec.eq_of_toNat_eq hshare
  rw [hcost, hpaid] at hexecute
  exact ⟨w, w', hrun, hexecute⟩

end BackedToken.Custody
