import BackedToken.Proofs.History.Conservation
import BackedToken.Proofs.Outcome.Checks
import BackedToken.Proofs.Pool.Dilution

namespace BackedToken

open Check Host World

namespace Contract

variable {settings : Settings} {context : Context} {payload args : Bytes} {limit : Gas} {token : Address}
  {amount recovered : Word} {pool : Pool} {w w' : World}

def burnChecks (settings : Settings) (context : Context) (token : Address) (amount : Word) (w : World) : List Check :=
  let backing := w.word token (Pool.slotKey token 0)
  let supply := w.word token (Pool.slotKey token 1)
  let burned := w.word token (Pool.slotKey token 2)
  let circulating := supply.toNat - burned.toNat
  let share := amount.toNat * backing.toNat / circulating
  [⟨supply ≠ 0, .poolNotFound token⟩,
    ⟨share < 2 ^ 256, .overflow⟩,
    ⟨amount.toNat ≤ circulating, .burnExceedsSupply amount (BitVec.ofNat 256 circulating)⟩] ++
    moveChecks settings.custodian context.caller (BitVec.ofNat 256 share) w

theorem decides_redeem {α : Type} {f : Pool × Word → Attempt World α} {later : List Check}
    (h : ∀ p r, pool.redeem amount = .ok (p, r) → Decides later (f (p, r) w)) :
    Decides (⟨amount.toNat * pool.backing.toNat / pool.circulating.toNat < 2 ^ 256, .overflow⟩ ::
      ⟨amount.toNat ≤ pool.circulating.toNat, .burnExceedsSupply amount pool.circulating⟩ :: later)
      ((Attempt.ofResult (pool.redeem amount) >>= f) w) := by
  refine .cons (fun hlarge => ?_) fun hfits => .cons (fun hexceeds => ?_) fun hle => ?_
  · have hredeem := Pool.redeem_eq_error.mpr (.inl (Pool.backingFor_eq_error.mpr ⟨rfl, Nat.not_lt.mp hlarge⟩))
    exact ⟨w, bind_of_error (Attempt.ofResult_of_error hredeem w)⟩
  · have hshare := Pool.backingFor_eq_ok.mpr (BitVec.toNat_ofNatLT _ hfits)
    have hredeem := Pool.redeem_eq_error.mpr (.inr ⟨⟨_, hshare⟩, BitVec.lt_def.mpr (Nat.not_le.mp hexceeds), rfl⟩)
    exact ⟨w, bind_of_error (Attempt.ofResult_of_error hredeem w)⟩
  · obtain ⟨p, r, hredeem, _⟩ := Pool.redeem_of_le (BitVec.le_def.mpr hle)
    exact .after (Attempt.ofResult_eq_ok.mpr ⟨hredeem, rfl⟩) (h p r hredeem)

theorem burnChecks_eq : burnChecks settings context token amount w =
    ⟨(w.pool token).isOpen = true, .poolNotFound token⟩ ::
      ⟨amount.toNat * (w.pool token).backing.toNat / (w.pool token).circulating.toNat < 2 ^ 256, .overflow⟩ ::
      ⟨amount.toNat ≤ (w.pool token).circulating.toNat, .burnExceedsSupply amount (w.pool token).circulating⟩ ::
      moveChecks settings.custodian context.caller
        (BitVec.ofNat 256 (amount.toNat * (w.pool token).backing.toNat / (w.pool token).circulating.toNat)) w := by
  simp [burnChecks, ← backing_pool, ← supply_pool, ← burned_pool, ← Pool.toNat_circulating, Pool.isOpen]

theorem decides_burn (hargs : Call.tokenAmount args = .ok (token, amount)) :
    Decides (burnChecks settings context token amount w) (burn settings context args w) := by
  rw [burnChecks_eq]
  refine .after (Attempt.ofPayload_eq_ok.mpr ⟨hargs, rfl⟩) ?_
  refine .step (fun hclosed => ⟨w, (displays_world w).existing_of_not_open token (Bool.not_eq_true _ ▸ hclosed)⟩)
    ((displays_world w).existing_of_open token) fun _ => decides_redeem fun p r hredeem => ?_
  have hshare := (Pool.redeem_eq_ok.mp hredeem).2.1
  rw [← hshare, BitVec.ofNat_toNat, BitVec.setWidth_eq, ← moveChecks_setPool]
  exact .after (Attempt.ask_eq_ok.mpr (store_pool p w)) (decides_move (.after rfl (.nil _ _)))

structure Redemption (settings : Settings) (context : Context) (token : Address) (amount recovered : Word)
    (w w' : World) : Prop where
  share : recovered.toNat = amount.toNat * (w.word token (Pool.slotKey token 0)).toNat /
    ((w.word token (Pool.slotKey token 1)).toNat - (w.word token (Pool.slotKey token 2)).toNat)
  backing : (w'.word token (Pool.slotKey token 0)).toNat + recovered.toNat = (w.word token (Pool.slotKey token 0)).toNat
  supply : w'.word token (Pool.slotKey token 1) = w.word token (Pool.slotKey token 1)
  burned : (w'.word token (Pool.slotKey token 2)).toNat = (w.word token (Pool.slotKey token 2)).toNat + amount.toNat
  asset : w'.word token (Pool.slotKey token 3) = nativeCoin.word
  elsewhere : ∀ account key, (token = account → key ∉ Pool.slotKeys account) → w'.word account key = w.word account key
  balance : ∀ account,
    (w'.balance account).toNat + (if account = settings.custodian then recovered.toNat else 0) =
      (w.balance account).toNat + if account = context.caller then recovered.toNat else 0
  nonce : ∀ account, w'.nonce account = w.nonce account
  codeSize : ∀ account, w'.codeSize account = w.codeSize account

theorem Redemption.of_agrees (hredeem : (w.pool token).redeem amount = .ok (pool, recovered))
    (hmove : w.CanMove settings.custodian context.caller recovered)
    (hagrees : w'.Agrees (payOut settings context pool recovered w)) :
    Redemption settings context token amount recovered w w' := by
  have hpool : w'.pool token = pool := by simp [hagrees.pool, pool_payOut hredeem]
  have hbacking := Pool.backing_of_redeem hredeem
  have hburned := Pool.burned_of_redeem hredeem
  obtain ⟨_, hshare, hnext⟩ := Pool.redeem_eq_ok.mp hredeem
  have htoken : pool.token = token := by rw [hnext]; rfl
  have hexchanged : w.Exchanged context.caller settings.custodian (payOut settings context pool recovered w) :=
    exchanged_payOut hmove
  constructor
  case share => rwa [← backing_pool, ← supply_pool, ← burned_pool, ← Pool.toNat_circulating]
  case backing => rwa [← backing_pool, ← backing_pool, hpool]
  case supply => rw [← supply_pool, ← supply_pool, hpool, Pool.supply_of_redeem hredeem]
  case burned => rwa [← burned_pool, ← burned_pool, hpool]
  case asset =>
    rw [hagrees.word, payOut, word_transfer, hnext]
    exact word_setPool_key w _ (by decide : 3 < Pool.slots)
  case elsewhere =>
    intro account key hkey
    rw [hagrees.word]
    exact word_payOut fun h => hkey (htoken.symm.trans h)
  case balance =>
    intro account
    rw [hagrees.balance, balance_payOut]
    exact toNat_balance_transfer hmove account
  case nonce => exact fun account => (hagrees.nonce account).trans (hexchanged.nonce account)
  case codeSize => exact fun account => (hagrees.codeSize account).trans (hexchanged.codeSize account)

theorem burn_outcome {settings : Settings} {context : Context} {payload args : Bytes} {limit : Gas} {token : Address}
    {amount : Word} (hcall : Admitted settings context payload limit .burn args)
    (hargs : Call.tokenAmount args = .ok (token, amount)) (w : World) :
    let checks := burnChecks settings context token amount w
    ((∃ receipt w', execute settings context payload limit w = .ok receipt w') ↔ ∀ check ∈ checks, check.met) ∧
    (∀ rejection w', execute settings context payload limit w = .error rejection w' ↔
      Refuses checks rejection ∧ w' = w) ∧
    (∀ receipt w', execute settings context payload limit w = .ok receipt w' →
      ∃ recovered : Word, receipt = ⟨settings.tariff.required payload, recovered.bytes⟩ ∧
        Redemption settings context token amount recovered w w') ∧
    ∀ (pool : Pool) units, pool.burn units ≠ .error .overflow ∧ pool.redeem units ≠ .error .underflow := by
  intro checks
  have hdecides : Decides checks (execute settings context payload limit w) :=
    (decides_execute hcall.split ((decides_burn hargs).atomically (matches_burn settings context args w))).drop hcall.meets
  refine ⟨hdecides.ok_iff, fun rejection w' => execute_eq_error hdecides, fun receipt w' hexecute => ?_,
    fun pool units => ⟨pool.burn_ne_overflow units, pool.redeem_ne_underflow units⟩⟩
  obtain ⟨_, _, pool, recovered, hdecoded, _, hredeem, hmove, houtput, hagrees⟩ :=
    perform_burn_eq_ok (perform_of_execute hexecute hcall.split).2
  obtain ⟨rfl, rfl⟩ : token = _ ∧ amount = _ := by simpa using Except.ok.inj (hargs.symm.trans hdecoded)
  refine ⟨recovered, ?_, .of_agrees hredeem hmove hagrees⟩
  rw [← houtput, ← gasUsed_of_execute hexecute hcall.split]

theorem burn_outcome_sample :
    let w := World.setPool {} (.native 2 (BitVec.twoPow 256 255) 2 1)
    execute {} { caller := 1 } (Call.burn 2 3).payload 30000 w = .error .overflow w := by
  intro w
  have hpool : w.pool 2 = .native 2 (BitVec.twoPow 256 255) 2 1 := pool_setPool_native_self ..
  have hcall : Admitted {} { caller := 1 } (Call.burn 2 3).payload 30000 .burn
      (Payload.write (Call.burn 2 3).pieces) := ⟨Method.split_selector _ _, by decide, rfl, fun _ => rfl⟩
  refine ((burn_outcome hcall (Call.tokenAmount_write 2 3) w).2.1 _ w).mpr ⟨?_, rfl⟩
  rw [burnChecks_eq, hpool]
  exact .there rfl (.here (by decide))

end Contract

end BackedToken
