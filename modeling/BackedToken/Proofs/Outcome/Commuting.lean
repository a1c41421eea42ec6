import BackedToken.Proofs.Contract.Effects

namespace BackedToken

namespace World

open Contract (payOut balance_payOut nonce_payOut codeSize_payOut)

variable {settings : Settings} {one other : Context} {pool next : Pool} {recovered paid : Word}
  {source target third : Address} {amount units : Word} {w v : World}

theorem canMove_comm (htarget : source ≠ target) (hthird : source ≠ third) (h : w.CanMove source target amount)
    (h' : (w.transfer source target amount).CanMove source third units) :
    w.CanMove source third units ∧ (w.transfer source third units).CanMove source target amount := by
  have hsource := toNat_balance_source h htarget
  have hbalance := toNat_balance_transfer h third
  rw [if_neg hthird.symm] at hbalance
  rw [canMove_iff_of_ne htarget] at h
  rw [canMove_iff_of_ne hthird] at h'
  have hfirst : w.CanMove source third units := by
    rw [canMove_iff_of_ne hthird]
    omega
  refine ⟨hfirst, (canMove_iff_of_ne htarget).mpr ?_⟩
  have hsource' := toNat_balance_source hfirst hthird
  have hbalance' := toNat_balance_transfer hfirst target
  rw [if_neg htarget.symm] at hbalance'
  by_cases hsame : target = third
  · -- One account gets both amounts, and it had room for them one after the other.
    subst hsame
    rw [if_pos rfl] at hbalance hbalance'
    omega
  · rw [if_neg hsame] at hbalance'
    omega

theorem Agrees.payOut (h : w.Agrees v) :
    (payOut settings one pool recovered w).Agrees (payOut settings one pool recovered v) where
  word account key := by simp only [Contract.payOut, word_transfer, word_setPool, h.word]
  balance account := by simp only [balance_payOut, balance_transfer_eq_add, h.balance]
  nonce account := by simp only [nonce_payOut, h.nonce]
  codeSize account := by simp only [codeSize_payOut, h.codeSize]

theorem payOut_comm (htokens : pool.token ≠ next.token) :
    (payOut settings other next paid (payOut settings one pool recovered w)).Agrees
      (payOut settings one pool recovered (payOut settings other next paid w)) where
  word account key := by
    simp only [payOut, word_transfer, word_setPool]
    by_cases hpool : pool.token = account
    · have hnext : ¬next.token = account := fun hnext => htokens (hpool.trans hnext.symm)
      simp [hpool, hnext]
    · simp [hpool]
  balance account := by
    simp only [balance_payOut, balance_transfer_eq_add]
    bv_omega
  nonce account := by simp only [nonce_payOut]
  codeSize account := by simp only [codeSize_payOut]

end World

namespace Contract

variable {settings : Settings} {one other : Context} {payload payload' args args' : Bytes} {limit limit' : Gas}
  {token token' : Address} {amount amount' recovered : Word} {pool : Pool} {receipt receipt' : Receipt}
  {v w w₁ w₂ : World}

theorem execute_burn_again (h : execute settings one payload limit w = .ok receipt w₁)
    (hsplit : Payload.split payload = .ok (Method.burn.selector, args))
    (hargs : Call.tokenAmount args = .ok (token, amount))
    (hredeem : (w.pool token).redeem amount = .ok (pool, recovered)) (hpool : v.pool token = w.pool token)
    (hmove : v.CanMove settings.custodian one.caller recovered) :
    ∃ v', execute settings one payload limit v = .ok receipt v' ∧ v'.Agrees (payOut settings one pool recovered v) := by
  obtain ⟨pool', recovered', hopen, hredeem', _, houtput, _⟩ := burned_of_execute h hsplit hargs
  obtain ⟨rfl, rfl⟩ : pool = pool' ∧ recovered = recovered' := by
    simpa using Except.ok.inj (hredeem.symm.trans hredeem')
  rw [← hpool] at hopen hredeem
  obtain ⟨v', hv, hagrees⟩ := execute_burn_of (perform_of_execute h hsplit).1 hargs hopen hredeem hmove
  have hgas := gasUsed_of_execute h hsplit
  rw [required_of_split hsplit] at hgas
  exact ⟨v', by rw [hv, ← houtput, ← hgas], hagrees⟩

theorem canMove_of_agrees_payOut {target : Address} {units : Word}
    (h : v.Agrees (payOut settings one pool recovered w)) : v.CanMove settings.custodian target units ↔
      (w.transfer settings.custodian one.caller recovered).CanMove settings.custodian target units :=
  World.canMove_congr fun account => (h.balance account).trans (balance_payOut account)

theorem burns_commute (hsplit : Payload.split payload = .ok (Method.burn.selector, args))
    (hsplit' : Payload.split payload' = .ok (Method.burn.selector, args'))
    (hargs : Call.tokenAmount args = .ok (token, amount)) (hargs' : Call.tokenAmount args' = .ok (token', amount'))
    (htokens : token ≠ token') (hone : one.caller ≠ settings.custodian) (hother : other.caller ≠ settings.custodian)
    (h : execute settings one payload limit w = .ok receipt w₁)
    (h' : execute settings other payload' limit' w₁ = .ok receipt' w₂) :
    ∃ v₁ v₂, execute settings other payload' limit' w = .ok receipt' v₁ ∧
      execute settings one payload limit v₁ = .ok receipt v₂ ∧ v₂.Agrees w₂ := by
  obtain ⟨pool, recovered, _, hredeem, hmove, _, hagrees⟩ := burned_of_execute h hsplit hargs
  obtain ⟨pool', recovered', _, hredeem', hmove', _, hagrees'⟩ := burned_of_execute h' hsplit' hargs'
  rw [canMove_of_agrees_payOut hagrees] at hmove'
  obtain ⟨hfirst, hsecond⟩ := World.canMove_comm hone.symm hother.symm hmove hmove'
  -- Neither burn touches the pool of the other, so each finds its own as it did before.
  have hpool' : w.pool token' = w₁.pool token' := by rw [hagrees.pool, pool_payOut hredeem, if_neg htokens]
  obtain ⟨v₁, hv₁, hearlier⟩ := execute_burn_again h' hsplit' hargs' hredeem' hpool' hfirst
  rw [← hpool'] at hredeem'
  have hpool : v₁.pool token = w.pool token := by rw [hearlier.pool, pool_payOut hredeem', if_neg htokens.symm]
  obtain ⟨v₂, hv₂, hlater⟩ := execute_burn_again h hsplit hargs hredeem hpool
    ((canMove_of_agrees_payOut hearlier).mpr hsecond)
  have htokens' : pool'.token ≠ pool.token := by
    obtain ⟨_, _, rfl⟩ := Pool.redeem_eq_ok.mp hredeem
    obtain ⟨_, _, rfl⟩ := Pool.redeem_eq_ok.mp hredeem'
    exact htokens.symm
  refine ⟨v₁, v₂, hv₁, hv₂, hlater.trans (.trans ?_ hagrees'.symm)⟩
  exact hearlier.payOut.trans ((World.payOut_comm htokens').trans hagrees.symm.payOut)

theorem burns_commute_sample :
    let pools := (World.setPool {} (.native 2 100 10 0)).setPool (.native 3 200 20 0)
    let w := (pools.setBalance contractAddress 300).setBalance 1 (BitVec.allOnes 256 - 300)
    ∃ v₁ v₂, execute {} { caller := 1 } (Call.burn 3 20).payload 30000 w = .ok ⟨30000, Word.bytes 200⟩ v₁ ∧
      execute {} { caller := 1 } (Call.burn 2 10).payload 30000 v₁ = .ok ⟨30000, Word.bytes 100⟩ v₂ := by
  intro pools w
  have hpools (token : Address) : w.pool token = pools.pool token := World.pool_congr (fun _ _ => rfl) token
  have hpool : w.pool 2 = .native 2 100 10 0 := by
    rw [hpools, World.pool_setPool_of_ne _ (by decide)]
    exact World.pool_setPool_native_self ..
  have hpool' : w.pool 3 = .native 3 200 20 0 := (hpools 3).trans (World.pool_setPool_native_self ..)
  have hcall : Admitted {} { caller := 1 } (Call.burn 2 10).payload 30000 .burn
      (Payload.write (Call.burn 2 10).pieces) := ⟨Method.split_selector _ _, by decide, rfl, fun _ => rfl⟩
  have hcall' : Admitted {} { caller := 1 } (Call.burn 3 20).payload 30000 .burn
      (Payload.write (Call.burn 3 20).pieces) := ⟨Method.split_selector _ _, by decide, rfl, fun _ => rfl⟩
  have hredeem : (w.pool 2).redeem 10 = .ok (.native 2 0 10 10, 100) := by
    rw [hpool]
    exact Pool.redeem_eq_ok.mpr ⟨by decide, by decide, by decide⟩
  have hmove : w.CanMove contractAddress 1 100 := .inr ⟨by decide, .inr (by decide)⟩
  obtain ⟨w₁, h, hagrees⟩ := execute_burn_of hcall (Call.tokenAmount_write 2 10) (by rw [hpool]; decide) hredeem hmove
  have hpool₁ : w₁.pool 3 = .native 3 200 20 0 := by
    rw [hagrees.pool, pool_payOut hredeem, if_neg (by decide), hpool']
  have hredeem' : (w₁.pool 3).redeem 20 = .ok (.native 3 0 20 20, 200) := by
    rw [hpool₁]
    exact Pool.redeem_eq_ok.mpr ⟨by decide, by decide, by decide⟩
  have hmove' : w₁.CanMove contractAddress 1 200 := by
    rw [canMove_of_agrees_payOut hagrees]
    exact .inr ⟨by decide, .inr (by decide)⟩
  obtain ⟨w₂, h', _⟩ := execute_burn_of hcall' (Call.tokenAmount_write 3 20) (by rw [hpool₁]; decide) hredeem' hmove'
  obtain ⟨v₁, v₂, hv₁, hv₂, _⟩ := burns_commute hcall.split hcall'.split (Call.tokenAmount_write 2 10)
    (Call.tokenAmount_write 3 20) (by decide) (by decide) (by decide) h h'
  exact ⟨v₁, v₂, hv₁, hv₂⟩

end Contract

end BackedToken
