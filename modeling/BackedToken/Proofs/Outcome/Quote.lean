import BackedToken.Proofs.Contract.Effects

namespace BackedToken

namespace Contract

open Host

variable {settings : Settings} {context asker : Context} {payload quote args : Bytes} {limit : Gas} {token : Address}
  {amount : Word} {receipt : Receipt} {w w' : World}

theorem quote_of_burn (h : execute settings context payload limit w = .ok receipt w')
    (hsplit : Payload.split payload = .ok (Method.burn.selector, args))
    (hargs : Call.tokenAmount args = .ok (token, amount)) :
    ∃ recovered, w.quote token amount = .ok recovered ∧ receipt.output = recovered.bytes := by
  obtain ⟨pool, recovered, hopen, hredeem, _, houtput, _⟩ := burned_of_execute h hsplit hargs
  refine ⟨recovered, ?_, houtput⟩
  rw [World.quote, if_pos hopen, Pool.backingFor_of_redeem hredeem]

theorem quotes_agree (hquote : Admitted settings asker quote limit .backing args)
    (hargs : Call.tokenAmount args = .ok (token, amount)) (w : World) :
    (∀ context payment paid gas receipt w', Payload.split payment = .ok (Method.burn.selector, paid) →
      Call.tokenAmount paid = .ok (token, amount) → execute settings context payment gas w = .ok receipt w' →
        execute settings asker quote limit w = .ok ⟨settings.tariff.required quote, receipt.output⟩ w) ∧
    (amount.toNat = 10 ^ coinDecimals → ∀ other price priced gas, Admitted settings other price gas .floorPrice priced →
      Call.oneAddress priced = .ok token →
        (∃ worth : Word,
          execute settings asker quote limit w = .ok ⟨settings.tariff.required quote, worth.bytes⟩ w ∧
          execute settings other price gas w = .ok ⟨settings.tariff.required price, worth.bytes⟩ w ∧
          summary token w = .ok ⟨(w.pool token).asset, (w.pool token).backing, (w.pool token).supply,
            (w.pool token).burned, worth, worth⟩ w) ∨
        ∃ rejection,
          execute settings asker quote limit w = .error rejection w ∧
          execute settings other price gas w = .error rejection w ∧
          summary token w = .error rejection w) := by
  refine ⟨fun context payment paid gas receipt w' hsplit hpaid hburn => ?_, ?_⟩
  · obtain ⟨recovered, hworth, houtput⟩ := quote_of_burn hburn hsplit hpaid
    rw [execute_backing_eq hquote hargs, hworth, houtput]
    rfl
  · intro hcoin other price priced gas hprice htoken
    obtain rfl : amount = coinValue := BitVec.eq_of_toNat_eq hcoin
    rw [execute_backing_eq hquote hargs, execute_floorPrice_eq hprice htoken, (displays_world w).summary_eq]
    cases w.quote token coinValue with
    | ok worth => exact .inl ⟨worth, rfl, rfl, rfl⟩
    | error rejection => exact .inr ⟨rejection, rfl, rfl, rfl⟩

theorem quotes_agree_sample :
    let w := (World.setPool {} (.native 2 7 (3 * coinValue) coinValue)).setBalance contractAddress 3
    (∃ w', execute {} { caller := 1 } (Call.burn 2 coinValue).payload 30000 w = .ok ⟨30000, Word.bytes 3⟩ w') ∧
      execute {} { caller := 5, isStatic := true } (Call.backing 2 coinValue).payload 5000 w = .ok ⟨5000, Word.bytes 3⟩ w ∧
      execute {} { caller := 6 } (Call.floorPrice 2).payload 5000 w = .ok ⟨5000, Word.bytes 3⟩ w := by
  intro w
  have hpool : w.pool 2 = .native 2 7 (3 * coinValue) coinValue := World.pool_setPool_native_self ..
  have hopen : (w.pool 2).isOpen = true := by
    rw [hpool]
    decide
  have hburn : Admitted {} { caller := 1 } (Call.burn 2 coinValue).payload 30000 .burn
      (Payload.write (Call.burn 2 coinValue).pieces) := ⟨Method.split_selector _ _, by decide, rfl, fun _ => rfl⟩
  have hquote : Admitted {} { caller := 5, isStatic := true } (Call.backing 2 coinValue).payload 5000 .backing
      (Payload.write (Call.backing 2 coinValue).pieces) := ⟨Method.split_selector _ _, by decide, rfl, nofun⟩
  have hprice : Admitted {} { caller := 6 } (Call.floorPrice 2).payload 5000 .floorPrice
      (Payload.write (Call.floorPrice 2).pieces) := ⟨Method.split_selector _ _, by decide, rfl, nofun⟩
  have hcost : (Settings.tariff {}).required (Call.backing 2 coinValue).payload = 5000 := required_of_split hquote.split
  have hcost' : (Settings.tariff {}).required (Call.floorPrice 2).payload = 5000 := required_of_split hprice.split
  have hredeem : (w.pool 2).redeem coinValue = .ok (.native 2 4 (3 * coinValue) (2 * coinValue), 3) := by
    rw [hpool]
    exact Pool.redeem_eq_ok.mpr ⟨by decide, by decide, by decide⟩
  have hmove : w.CanMove contractAddress 1 3 := .inr ⟨by decide, .inr (by decide)⟩
  obtain ⟨w', hpaid, _⟩ := execute_burn_of hburn (Call.tokenAmount_write 2 coinValue) hopen hredeem hmove
  obtain ⟨hsame, hagree⟩ := quotes_agree hquote (Call.tokenAmount_write 2 coinValue) w
  have hworth := hsame _ _ _ _ _ _ hburn.split (Call.tokenAmount_write 2 coinValue) hpaid
  rw [hcost] at hworth
  refine ⟨⟨w', hpaid⟩, hworth, ?_⟩
  obtain ⟨worth, hquoted, hpriced, _⟩ | ⟨rejection, hrejected, _⟩ :=
    hagree (by decide) _ _ _ _ hprice (Call.oneAddress_write 2)
  · have hsame := hworth.symm.trans hquoted
    simp only [EStateM.Result.ok.injEq, Receipt.mk.injEq] at hsame
    rw [hpriced, hcost', hsame.1.2]
  · cases hworth.symm.trans hrejected

end Contract

end BackedToken
