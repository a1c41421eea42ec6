import BackedToken.Proofs.History.Lifetime
import BackedToken.Proofs.Pool.Accounting

namespace BackedToken

structure Contract.Drained (settings : Settings) (token : Address) (w : World) : Prop where
  backing {context : Context} {payload args : Bytes} {limit : Gas} {amount : Word}
    (call : Admitted settings context payload limit .backing args) (decoded : Call.tokenAmount args = .ok (token, amount)) :
    execute settings context payload limit w = .ok ⟨settings.tariff.cost payload.length .backing, Word.bytes 0⟩ w
  floorPrice {context : Context} {payload args : Bytes} {limit : Gas}
    (call : Admitted settings context payload limit .floorPrice args) (decoded : Call.oneAddress args = .ok token) :
    execute settings context payload limit w = .ok ⟨settings.tariff.cost payload.length .floorPrice, Word.bytes 0⟩ w
  burn {context : Context} {payload args : Bytes} {limit : Gas} {amount : Word}
    (call : Admitted settings context payload limit .burn args) (decoded : Call.tokenAmount args = .ok (token, amount))
    (positive : amount ≠ 0) : execute settings context payload limit w = .error (.burnExceedsSupply amount 0) w
  burnNone {context : Context} {payload args : Bytes} {limit : Gas}
    (call : Admitted settings context payload limit .burn args) (decoded : Call.tokenAmount args = .ok (token, 0)) :
    ∃ w', execute settings context payload limit w =
      .ok ⟨settings.tariff.cost payload.length .burn, Word.bytes 0⟩ w'

namespace World

open Contract Pool
open Custody (samplePrice sampleStart sampleTerms sampleToken)

variable {settings : Settings} {context : Context} {payload args : Bytes} {limit : Gas} {receipt : Receipt}
  {terms : Terms} {token : Address} {w w' : World}

def flows (settings : Settings) (token : Address) (w : World) : List Event → List Flow
  | [] => []
  | event :: rest =>
    event.flow token (w.step settings event).1 :: (w.step settings event).2.flows settings token rest

section OpenPool

variable (hopen : (w.pool token).isOpen = true)
include hopen

theorem course_after (events : List Event) :
    (w.pool token).Course (w.flows settings token events) ((w.after settings events).pool token) := by
  induction events generalizing w with
  | nil => exact .start
  | cons event rest ih =>
    have hmoves := (w.stepped settings event).moves hopen
    exact (ih (hmoves.change.isOpen.trans hopen)).head hmoves

theorem drained_of_circulating (hnone : (w.pool token).circulating = 0) : Drained settings token w where
  backing call decoded := execute_backing_of call decoded hopen (backingFor_of_drained hnone _)
  floorPrice call decoded := execute_floorPrice_of call decoded hopen (floorPrice_of_drained hnone)
  burn call decoded positive := execute_burn_of_error call decoded hopen (redeem_of_drained hnone positive)
  burnNone call decoded := by
    obtain ⟨pool, hredeem⟩ := (w.pool token).redeem_zero
    obtain ⟨w', hexecute, _⟩ := execute_burn_of call decoded hopen hredeem (.inl rfl)
    exact ⟨w', hexecute⟩

end OpenPool

/-- What burns recovered and what is left are the initial backing and all credits, and what is credited after the last
unit was burned stays out of reach. -/
theorem coins_accounted {w₀ w₁ : World} (hcreate : execute settings context payload limit w₀ = .ok receipt w₁)
    (hsplit : Payload.split payload = .ok (Method.create.selector, args)) (hterms : Terms.ofArguments args = .ok terms)
    (houtput : receipt.output = token.word.bytes) (hapart : Pool.Apart token) (events : List Event) :
    let w := w₁.after settings events
    let flows := w₁.flows settings token events
    ∃ pool, Pool.find? token w = .ok (some pool) w ∧
      recovered flows + pool.backing.toNat = terms.initialBacking.toNat + credited flows ∧
      (pool.circulating = 0 → pool.backing.toNat = credited (afterBurns flows) ∧ Drained settings token w) := by
  intro w flows
  obtain ⟨hpool, hopen, _⟩ := created hcreate hsplit hterms houtput hapart
  have hcourse : (w₁.pool token).Course flows (w.pool token) := course_after hopen events
  have hopen' : (w.pool token).isOpen = true := isOpen_after hopen events
  refine ⟨_, find_of_isOpen hopen', ?_, fun hnone => ⟨?_, drained_of_circulating hopen' hnone⟩⟩
  · have haccounted := hcourse.accounted
    rw [hpool] at haccounted
    exact haccounted
  · -- a pool is created with all of its supply in circulation, and the supply is not zero
    have hsome : 0 < (w₁.pool token).circulating.toNat := by
      rw [toNat_circulating, hpool]
      rw [hpool] at hopen
      exact Nat.pos_of_ne_zero fun hzero => of_decide_eq_true hopen (BitVec.eq_of_toNat_eq hzero)
    exact hcourse.stranded hsome (congrArg BitVec.toNat hnone)

theorem coins_accounted_sample :
    let burn : Event := .call { caller := 1 } (Call.burn sampleToken 100).payload 30000
    ∃ w₁, execute {} { caller := 1 } (Call.create sampleTerms).payload samplePrice sampleStart =
        .ok ⟨samplePrice, sampleToken.word.bytes⟩ w₁ ∧
      let w := w₁.after {} [burn, .credit sampleToken 50]
      let flows := w₁.flows {} sampleToken [burn, .credit sampleToken 50]
      Pool.find? sampleToken w = .ok (some (.native sampleToken 50 100 100)) w ∧
        recovered flows + 50 = 600 + credited flows ∧ credited (afterBurns flows) = 50 ∧
        execute {} { caller := 1 } (Call.burn sampleToken 1).payload 30000 w = .error (.burnExceedsSupply 1 0) w := by
  intro burn
  obtain ⟨w₁, hcreate, hagrees⟩ := Custody.sample_created
  have hsplit := Call.split_create sampleTerms
  obtain ⟨hpool, hopen, _⟩ := created hcreate hsplit Custody.sample_decoded rfl Custody.sample_apart
  have hredeem : (w₁.pool sampleToken).redeem 100 = .ok (.native sampleToken 0 100 100, 600) := by
    rw [hpool]
    exact redeem_eq_ok.mpr ⟨by decide, by decide, rfl⟩
  have hbalance : ∀ account, w₁.balance account = (sampleStart.transfer 1 contractAddress 600).balance account :=
    fun account => (hagrees.balance account).trans (balance_issue account)
  have hmove : w₁.CanMove contractAddress 1 600 := by
    rw [CanMove, hbalance, hbalance]
    decide
  have hcall (amount : Word) : Admitted {} { caller := 1 } (Call.burn sampleToken amount).payload 30000 .burn
      (Payload.write (Call.burn sampleToken amount).pieces) :=
    ⟨Method.split_selector _ _, UInt64.le_refl _, rfl, fun _ => rfl⟩
  obtain ⟨v, hburn, hpaid⟩ := execute_burn_of (hcall 100) (Call.tokenAmount_write sampleToken 100) hopen hredeem hmove
  have hempty : v.pool sampleToken = .native sampleToken 0 100 100 := by
    rw [hpaid.pool, pool_payOut hredeem, if_pos rfl]
  have hcredit : Contract.credit sampleToken 50 v = .ok (.native sampleToken 50 100 100)
      (v.setPool (.native sampleToken 50 100 100)) := credit_of_native hempty (by decide) (by decide)
  have hafter : w₁.after {} [burn, .credit sampleToken 50] = v.setPool (.native sampleToken 50 100 100) := by
    rw [after_cons, step_call_of_ok hburn, after_cons, step_credit_of_ok hcredit]
    rfl
  obtain ⟨pool, hfind, haccounted, hdrained⟩ := coins_accounted hcreate hsplit Custody.sample_decoded rfl
    Custody.sample_apart [burn, .credit sampleToken 50]
  obtain rfl : Pool.native sampleToken 50 100 100 = pool := by
    rw [← (find_eq_some_iff.mp hfind).2, hafter]
    exact (pool_setPool_native_self ..).symm
  obtain ⟨hstranded, hclosed⟩ := hdrained (by decide)
  exact ⟨w₁, hcreate, hfind, haccounted, hstranded.symm,
    hclosed.burn (hcall 1) (Call.tokenAmount_write sampleToken 1) (by decide)⟩

end World

end BackedToken
