import BackedToken.Proofs.Contract.Coins
import BackedToken.Proofs.Contract.Reading
import BackedToken.Proofs.Pool.Redemption

namespace BackedToken

namespace Contract

variable {settings : Settings} {context : Context} {args out : Bytes} {w w' : World}

open World Attempt Host

def newToken (context : Context) (terms : Terms) (w : World) : Address :=
  terms.tokenAddress context.caller (w.nonce context.caller)

def newPool (context : Context) (terms : Terms) (w : World) : Pool :=
  .native (newToken context terms w) terms.initialBacking terms.supply 0

structure Creatable (context : Context) (terms : Terms) (w : World) : Prop where
  caller : context.caller ≠ 0
  valid : terms.validate = .ok ()
  covered : terms.initialBacking ≤ w.balance context.caller
  codeless : w.codeSize (newToken context terms w) = 0
  free : (w.pool (newToken context terms w)).isOpen = false

def issue (settings : Settings) (context : Context) (terms : Terms) (w : World) : World :=
  ((w.setPool (newPool context terms w)).transfer context.caller settings.custodian
    terms.initialBacking).setPlan (newToken context terms w) terms.plan

def payOut (settings : Settings) (context : Context) (pool : Pool) (recovered : Word) (w : World) : World :=
  (w.setPool pool).transfer settings.custodian context.caller recovered

theorem store_pool (pool : Pool) (w : World) : pool.store w = .ok () (w.setPool pool) := rfl

theorem store_plan (plan : FeePlan) (token : Address) (w : World) : plan.store token w = .ok () (w.setPlan token plan) :=
  rfl

theorem requireCover_eq_ok {caller : Address} {amount : Word} :
    requireCover caller amount w = .ok () w' ↔ amount ≤ w.balance caller ∧ w = w' := by
  rw [requireCover]
  split
  · next h =>
    rw [h, pure_eq_ok]
    exact and_congr_left fun _ => iff_of_true rfl (BitVec.le_def.mpr (Nat.zero_le _))
  · have hread : ask (Host.balance caller) w = .ok (w.balance caller) w := rfl
    rw [bind_of_ok hread, rejectIf_eq_ok, BitVec.not_lt]

theorem requireCover_of {σ : Type} [Host σ] {s : σ} (h : Sees s w) {caller : Address} {amount : Word}
    (hcover : amount ≤ w.balance caller) : requireCover caller amount s = .ok () s := by
  rw [requireCover]
  split
  · rfl
  · rw [bind_of_ok (ask_eq_ok.mpr (h.balance caller)), rejectIf_of_not (BitVec.not_lt.mpr hcover)]

theorem isTaken_of {σ : Type} [Host σ] {s : σ} (h : Sees s w) (token : Address) :
    isTaken token s = .ok (decide (0 < w.codeSize token) || (w.pool token).isOpen) s := by
  rw [isTaken, bind_of_ok (h.codeSize token)]
  split
  · next hcode =>
    rw [decide_eq_true hcode]
    rfl
  · next hcode =>
    rw [bind_of_ok (h.find token), decide_eq_false hcode, Bool.false_or]
    cases (w.pool token).isOpen <;> rfl

theorem isTaken_eq (token : Address) (w : World) :
    isTaken token w = .ok (decide (0 < w.codeSize token) || (w.pool token).isOpen) w := isTaken_of (sees_world w) token

theorem isTaken_eq_false_iff {token : Address} :
    (decide (0 < w.codeSize token) || (w.pool token).isOpen) = false ↔
      w.codeSize token = 0 ∧ (w.pool token).isOpen = false := by
  rw [Bool.or_eq_false_iff, decide_eq_false_iff_not, UInt64.pos_iff_ne_zero, not_not]

theorem create_of_sees {σ : Type} [Host σ] {s : σ} {terms : Terms} (h : Sees s w)
    (hargs : Terms.ofArguments args = .ok terms) (hc : Creatable context terms w) :
    create settings context args s =
      (do
        ask (newPool context terms w).store
        ask (move context.caller settings.custodian terms.initialBacking)
        ask (terms.plan.store (newToken context terms w))
        Host.log (.created (newToken context terms w) terms)
        pure (newToken context terms w).word.bytes : Attempt σ Bytes) s := by
  have hfree := isTaken_eq_false_iff.mpr ⟨hc.codeless, hc.free⟩
  apply (bind_of_ok (rejectIf_of_not hc.caller _ s)).trans
  apply (bind_of_ok (ofPayload_eq_ok.mpr ⟨hargs, rfl⟩)).trans
  apply (bind_of_ok (ofResult_eq_ok.mpr ⟨hc.valid, rfl⟩)).trans
  apply (bind_of_ok (requireCover_of h hc.covered)).trans
  apply (bind_of_ok (ask_eq_ok.mpr (h.nonce context.caller))).trans
  apply (bind_of_ok (ask_eq_ok.mpr (isTaken_of h _))).trans
  exact bind_of_ok (rejectIf_of_not (Bool.not_eq_true _ ▸ hfree) _ s)

theorem create_of_creatable {terms : Terms} (hargs : Terms.ofArguments args = .ok terms)
    (hc : Creatable context terms w) :
    create settings context args w =
      (do
        ask (move context.caller settings.custodian terms.initialBacking)
        ask (terms.plan.store (newToken context terms w))
        Host.log (.created (newToken context terms w) terms)
        pure (newToken context terms w).word.bytes : Attempt World Bytes) (w.setPool (newPool context terms w)) :=
  (create_of_sees (sees_world w) hargs hc).trans (bind_of_ok (ask_eq_ok.mpr (store_pool _ w)))

theorem creatable_of_create (h : create settings context args w = .ok out w') :
    ∃ terms, Terms.ofArguments args = .ok terms ∧ Creatable context terms w := by
  obtain ⟨_, _, h₁, h⟩ := bind_eq_ok.mp h
  obtain ⟨hcaller, rfl⟩ := rejectIf_eq_ok.mp h₁
  obtain ⟨terms, _, h₂, h⟩ := bind_eq_ok.mp h
  obtain ⟨hargs, rfl⟩ := ofPayload_eq_ok.mp h₂
  obtain ⟨_, _, h₃, h⟩ := bind_eq_ok.mp h
  obtain ⟨hvalid, rfl⟩ := ofResult_eq_ok.mp h₃
  obtain ⟨_, _, h₄, h⟩ := bind_eq_ok.mp h
  obtain ⟨hcover, rfl⟩ := requireCover_eq_ok.mp h₄
  obtain ⟨nonce, _, h₅, h⟩ := bind_eq_ok.mp h
  cases h₅
  obtain ⟨taken, _, h₆, h⟩ := bind_eq_ok.mp h
  rw [ask_eq_ok, isTaken_eq] at h₆
  cases h₆
  obtain ⟨_, _, h₇, _⟩ := bind_eq_ok.mp h
  obtain ⟨hfree, rfl⟩ := rejectIf_eq_ok.mp h₇
  obtain ⟨hcode, hopen⟩ := isTaken_eq_false_iff.mp (Bool.not_eq_true _ ▸ hfree)
  exact ⟨terms, hargs, hcaller, hvalid, hcover, hcode, hopen⟩

theorem create_eq_ok : create settings context args w = .ok out w' ↔ ∃ terms, Terms.ofArguments args = .ok terms ∧
    Creatable context terms w ∧ w.CanMove context.caller settings.custodian terms.initialBacking ∧
      out = (newToken context terms w).word.bytes ∧ w' = issue settings context terms w := by
  constructor
  · intro h
    obtain ⟨terms, hargs, hc⟩ := creatable_of_create h
    rw [create_of_creatable hargs hc] at h
    obtain ⟨_, _, h₁, h⟩ := bind_eq_ok.mp h
    obtain ⟨hmove, rfl⟩ := move_eq_ok.mp (ask_eq_ok.mp h₁)
    obtain ⟨_, _, h₂, h⟩ := bind_eq_ok.mp h
    rw [ask_eq_ok, store_plan] at h₂
    cases h₂
    obtain ⟨_, _, h₃, h⟩ := bind_eq_ok.mp h
    cases h₃
    obtain ⟨rfl, rfl⟩ := pure_eq_ok.mp h
    exact ⟨terms, hargs, hc, (canMove_setPool _).mp hmove, rfl, rfl⟩
  · rintro ⟨terms, hargs, hc, hmove, hout, hw⟩
    rw [hout, hw, create_of_creatable hargs hc]
    refine bind_eq_ok.mpr ⟨_, _, ask_eq_ok.mpr (move_eq_ok.mpr ⟨(canMove_setPool _).mpr hmove, rfl⟩), ?_⟩
    refine bind_eq_ok.mpr ⟨_, _, ask_eq_ok.mpr (store_plan _ _ _), ?_⟩
    refine bind_eq_ok.mpr ⟨_, _, (displays_world _).log _, ?_⟩
    exact pure_eq_ok.mpr ⟨rfl, rfl⟩

theorem burn_of_displays {σ : Type} [Host σ] {s : σ} {token : Address} {amount recovered : Word} {pool : Pool}
    (h : Displays s w) (hargs : Call.tokenAmount args = .ok (token, amount)) (hopen : (w.pool token).isOpen = true)
    (hredeem : (w.pool token).redeem amount = .ok (pool, recovered)) :
    burn settings context args s =
      (do
        ask pool.store
        ask (move settings.custodian context.caller recovered)
        Host.log (.burned token context.caller amount recovered pool.backing)
        pure recovered.bytes : Attempt σ Bytes) s := by
  apply (bind_of_ok (ofPayload_eq_ok.mpr ⟨hargs, rfl⟩)).trans
  apply (bind_of_ok (h.existing_of_open token hopen)).trans
  exact bind_of_ok (ofResult_eq_ok.mpr ⟨hredeem, rfl⟩)

theorem burn_of_redeem {token : Address} {amount recovered : Word} {pool : Pool}
    (hargs : Call.tokenAmount args = .ok (token, amount)) (hopen : (w.pool token).isOpen = true)
    (hredeem : (w.pool token).redeem amount = .ok (pool, recovered)) :
    burn settings context args w =
      (do
        ask (move settings.custodian context.caller recovered)
        Host.log (.burned token context.caller amount recovered pool.backing)
        pure recovered.bytes : Attempt World Bytes) (w.setPool pool) :=
  (burn_of_displays (displays_world w) hargs hopen hredeem).trans (bind_of_ok (ask_eq_ok.mpr (store_pool pool w)))

theorem burn_of_redeem_error {token : Address} {amount : Word} {rejection : Rejection}
    (hargs : Call.tokenAmount args = .ok (token, amount)) (hopen : (w.pool token).isOpen = true)
    (hredeem : (w.pool token).redeem amount = .error rejection) : burn settings context args w = .error rejection w := by
  apply (bind_of_ok (ofPayload_eq_ok.mpr ⟨hargs, rfl⟩)).trans
  apply (bind_of_ok ((displays_world w).existing_of_open token hopen)).trans
  exact bind_of_error (ofResult_of_error hredeem w)

theorem burn_eq_ok : burn settings context args w = .ok out w' ↔ ∃ token amount pool recovered,
    Call.tokenAmount args = .ok (token, amount) ∧ (w.pool token).isOpen = true ∧
      (w.pool token).redeem amount = .ok (pool, recovered) ∧ w.CanMove settings.custodian context.caller recovered ∧
      out = recovered.bytes ∧ w' = payOut settings context pool recovered w := by
  constructor
  · intro h
    obtain ⟨⟨token, amount⟩, _, h₁, h⟩ := bind_eq_ok.mp h
    obtain ⟨hargs, rfl⟩ := ofPayload_eq_ok.mp h₁
    obtain ⟨_, _, h₂, h⟩ := bind_eq_ok.mp h
    obtain ⟨hopen, rfl, rfl⟩ := ((displays_world _).existing_eq_ok _).mp h₂
    obtain ⟨⟨pool, recovered⟩, _, h₃, h⟩ := bind_eq_ok.mp h
    obtain ⟨hredeem, rfl⟩ := ofResult_eq_ok.mp h₃
    obtain ⟨_, _, h₄, h⟩ := bind_eq_ok.mp h
    rw [ask_eq_ok, store_pool] at h₄
    cases h₄
    obtain ⟨_, _, h₅, h⟩ := bind_eq_ok.mp h
    obtain ⟨hmove, rfl⟩ := move_eq_ok.mp (ask_eq_ok.mp h₅)
    obtain ⟨_, _, h₆, h⟩ := bind_eq_ok.mp h
    cases h₆
    obtain ⟨rfl, rfl⟩ := pure_eq_ok.mp h
    exact ⟨token, amount, pool, recovered, hargs, hopen, hredeem, (canMove_setPool _).mp hmove, rfl, rfl⟩
  · rintro ⟨token, amount, pool, recovered, hargs, hopen, hredeem, hmove, hout, hw⟩
    rw [hout, hw, burn_of_redeem hargs hopen hredeem]
    refine bind_eq_ok.mpr ⟨_, _, ask_eq_ok.mpr (move_eq_ok.mpr ⟨(canMove_setPool _).mpr hmove, rfl⟩), ?_⟩
    refine bind_eq_ok.mpr ⟨_, _, (displays_world _).log _, ?_⟩
    exact pure_eq_ok.mpr ⟨rfl, rfl⟩

theorem credit_eq_ok {token : Address} {amount : Word} {pool : Pool} : credit token amount w = .ok pool w' ↔
    (w.pool token).isOpen = true ∧ (w.pool token).addBacking amount = .ok pool ∧ w' = w.setPool pool := by
  constructor
  · intro h
    obtain ⟨_, _, h₁, h⟩ := bind_eq_ok.mp h
    obtain ⟨hopen, rfl, rfl⟩ := ((displays_world _).existing_eq_ok _).mp h₁
    obtain ⟨_, _, h₂, h⟩ := bind_eq_ok.mp h
    obtain ⟨hadd, rfl⟩ := ofResult_eq_ok.mp h₂
    cases h
    exact ⟨hopen, hadd, rfl⟩
  · rintro ⟨hopen, hadd, rfl⟩
    refine bind_eq_ok.mpr ⟨_, _, (displays_world w).existing_of_open token hopen, ?_⟩
    exact bind_eq_ok.mpr ⟨_, _, ofResult_eq_ok.mpr ⟨hadd, rfl⟩, rfl⟩

theorem credit_of_native {token : Address} {amount backing supply burned : Word}
    (h : w.pool token = .native token backing supply burned) (hsupply : supply ≠ 0)
    (hroom : backing.toNat + amount.toNat < 2 ^ 256) : credit token amount w =
      .ok (.native token (backing + amount) supply burned) (w.setPool (.native token (backing + amount) supply burned)) := by
  refine credit_eq_ok.mpr ⟨?_, ?_, rfl⟩
  · rw [h]
    exact decide_eq_true hsupply
  · rw [h]
    exact Pool.addBacking_eq_ok.mpr ⟨hroom, rfl⟩

section Records

variable {token other : Address} {terms : Terms} {pool : Pool} {amount recovered : Word}

theorem Creatable.newToken_ne (hc : Creatable context terms w) (hopen : (w.pool token).isOpen = true) :
    newToken context terms w ≠ token := by
  rintro rfl
  exact Bool.false_ne_true (hc.free.symm.trans hopen)

theorem pool_issue_of_ne (h : newToken context terms w ≠ token) :
    (issue settings context terms w).pool token = w.pool token := by
  rw [issue, pool_setPlan_of_ne _ h, pool_transfer, pool_setPool_of_ne _ h]

theorem pool_issue (hapart : Pool.Apart (newToken context terms w)) (token : Address) :
    (issue settings context terms w).pool token =
      if newToken context terms w = token then newPool context terms w else w.pool token := by
  split
  · next h =>
    subst h
    rw [issue, pool_setPlan _ hapart, pool_transfer]
    exact pool_setPool_native_self ..
  · next h => exact pool_issue_of_ne h

theorem plan_issue (token : Address) : (issue settings context terms w).plan token =
    if newToken context terms w = token then terms.plan else w.plan token := by
  rw [issue]
  split
  · next h =>
    subst h
    exact plan_setPlan_self ..
  · next h => rw [plan_setPlan_of_ne _ h, plan_transfer, plan_setPool_of_ne _ h]

theorem balance_issue (account : Address) : (issue settings context terms w).balance account =
    (w.transfer context.caller settings.custodian terms.initialBacking).balance account := by
  rw [issue, balance_setPlan, balance_transfer, balance_transfer, balance_setPool]

theorem pool_payOut (hredeem : (w.pool token).redeem amount = .ok (pool, recovered)) (other : Address) :
    (payOut settings context pool recovered w).pool other = if token = other then pool else w.pool other := by
  obtain ⟨_, _, rfl⟩ := Pool.redeem_eq_ok.mp hredeem
  rw [payOut, pool_transfer]
  exact pool_setPool_native ..

theorem plan_payOut (hapart : Pool.Apart token) :
    (payOut settings context pool recovered w).plan token = w.plan token := by
  rw [payOut, plan_transfer, plan_setPool _ hapart]

theorem balance_payOut (account : Address) : (payOut settings context pool recovered w).balance account =
    (w.transfer settings.custodian context.caller recovered).balance account := by
  rw [payOut, balance_transfer, balance_transfer, balance_setPool]

theorem nonce_payOut (account : Address) :
    (payOut settings context pool recovered w).nonce account = w.nonce account := by
  rw [payOut, nonce_transfer]
  exact (w.sameAccounts_setRecord ..).nonce account

theorem codeSize_payOut (account : Address) :
    (payOut settings context pool recovered w).codeSize account = w.codeSize account := by
  rw [payOut, codeSize_transfer]
  exact (w.sameAccounts_setRecord ..).codeSize account

theorem pool_setPool_addBacking (hadd : (w.pool token).addBacking amount = .ok pool) (other : Address) :
    (w.setPool pool).pool other = if token = other then pool else w.pool other := by
  obtain ⟨_, rfl⟩ := Pool.addBacking_eq_ok.mp hadd
  exact pool_setPool_native ..

end Records

end Contract

end BackedToken
