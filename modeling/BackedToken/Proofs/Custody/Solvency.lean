import BackedToken.Proofs.Contract.Effects
import BackedToken.Proofs.Custody.Locked
import BackedToken.Proofs.Payload.Creation
import Mathlib.Logic.Relation

/-! Runs in which nobody but the contract spends from the custodian's account. -/

namespace BackedToken

namespace Terms

theorem supply_ne_zero {terms : Terms} (h : terms.validate = .ok ()) : terms.supply ≠ 0 := by
  intro hs
  rw [validate, if_pos hs] at h
  cases h

end Terms

namespace Custody

open Contract World

def Creates (payload : Bytes) (receipt : Receipt) (token : Address) : Prop :=
  ∃ args, Payload.split payload = .ok (Method.create.selector, args) ∧ receipt.output = token.word.bytes

inductive Step (settings : Settings) : World → World → Prop
  | accepted {context : Context} {payload : Bytes} {limit : Gas} {receipt : Receipt} {w w' : World}
      (caller : context.caller ≠ settings.custodian)
      (executed : execute settings context payload limit w = .ok receipt w')
      (apart : ∀ token, Creates payload receipt token → Pool.Apart token) : Step settings w w'
  | rejected {context : Context} {payload : Bytes} {limit : Gas} {rejection : Rejection} {w w' : World}
      (caller : context.caller ≠ settings.custodian)
      (executed : execute settings context payload limit w = .error rejection w') : Step settings w w'
  | credited {token : Address} {amount : Word} {pool : Pool} {w v w' : World}
      (credited : credit token amount w = .ok pool v)
      (deposited : Host.deposit settings.custodian amount v = .ok () w') : Step settings w w'
  | funded {token : Address} {amount : Word} {pool : Pool} {w v w' : World}
      (deposited : Host.deposit settings.custodian amount w = .ok () v)
      (credited : credit token amount v = .ok pool w') : Step settings w w'
  | setBalance {w : World} (account : Address) (amount : Word) (other : account ≠ settings.custodian) :
      Step settings w (w.setBalance account amount)
  | setNonce {w : World} (account : Address) (nonce : UInt64) : Step settings w (w.setNonce account nonce)
  | setCodeSize {w : World} (account : Address) (size : UInt64) : Step settings w (w.setCodeSize account size)

def Run (settings : Settings) : World → World → Prop := Relation.ReflTransGen (Step settings)

variable {settings : Settings} {context : Context} {payload out : Bytes} {token : Address} {amount recovered : Word}
  {terms : Terms} {pool : Pool} {w w' : World}

theorem locked_issue (hc : Creatable context terms w) (hapart : Pool.Apart (newToken context terms w)) :
    (issue settings context terms w).locked = w.locked + terms.initialBacking.toNat := by
  have hopen : (newPool context terms w).isOpen = true := decide_eq_true (Terms.supply_ne_zero hc.valid)
  have hlocked := locked_of_pool w (issue settings context terms w) hopen (pool_issue hapart)
  rwa [claimed_of_not_open hc.free, Nat.add_zero] at hlocked

theorem surplus_issue (hcaller : context.caller ≠ settings.custodian) (hc : Creatable context terms w)
    (hmove : w.CanMove context.caller settings.custodian terms.initialBacking)
    (hapart : Pool.Apart (newToken context terms w)) :
    (issue settings context terms w).surplus settings.custodian = w.surplus settings.custodian := by
  have hbalance := toNat_balance_target hmove hcaller
  rw [← balance_issue] at hbalance
  rw [surplus, surplus, hbalance, locked_issue hc hapart]
  omega

theorem surplus_payOut (hcaller : context.caller ≠ settings.custodian) (hopen : (w.pool token).isOpen = true)
    (hredeem : (w.pool token).redeem amount = .ok (pool, recovered))
    (hmove : w.CanMove settings.custodian context.caller recovered) :
    (payOut settings context pool recovered w).surplus settings.custodian = w.surplus settings.custodian := by
  have hopen' : pool.isOpen = true := (Pool.isOpen_of_redeem hredeem).trans hopen
  have hlocked := locked_of_pool w (payOut settings context pool recovered w) hopen' (pool_payOut hredeem)
  rw [claimed_of_open hopen] at hlocked
  have hbacking := Pool.backing_of_redeem hredeem
  have hpaid : (payOut settings context pool recovered w).balance settings.custodian =
      (w.transfer settings.custodian context.caller recovered).balance settings.custodian := balance_payOut _
  have hbalance := toNat_balance_source hmove hcaller.symm
  rw [surplus, surplus, hpaid]
  omega

theorem locked_credit (hopen : (w.pool token).isOpen = true) (hadd : (w.pool token).addBacking amount = .ok pool) :
    (w.setPool pool).locked = w.locked + amount.toNat := by
  have hopen' : pool.isOpen = true := (Pool.isOpen_of_addBacking hadd).trans hopen
  have hlocked := locked_of_pool w (w.setPool pool) hopen' (pool_setPool_addBacking hadd)
  rw [claimed_of_open hopen, Pool.backing_of_addBacking hadd] at hlocked
  omega

theorem surplus_deposit {custodian : Address} (h : Host.deposit custodian amount w = .ok () w') :
    w'.surplus custodian = w.surplus custodian + amount.toNat := by
  obtain ⟨hroom, rfl⟩ := deposit_eq_ok.mp h
  have hlocked : (w.setBalance custodian (w.balance custodian + amount)).locked = w.locked := rfl
  rw [surplus, surplus, hlocked, balance_setBalance, if_pos rfl, BitVec.toNat_add, Nat.mod_eq_of_lt hroom]
  omega

theorem surplus_credit (custodian : Address) (h : credit token amount w = .ok pool w') :
    w'.surplus custodian + amount.toNat = w.surplus custodian := by
  obtain ⟨hopen, hadd, rfl⟩ := credit_eq_ok.mp h
  rw [surplus, surplus, locked_credit hopen hadd, balance_setPool]
  omega

theorem surplus_effect (hcaller : context.caller ≠ settings.custodian) (h : Effect settings context payload w out w')
    (hapart : ∀ args token, Payload.split payload = .ok (Method.create.selector, args) → out = token.word.bytes →
      Pool.Apart token) : w'.surplus settings.custodian = w.surplus settings.custodian := by
  cases h with
  | create split decoded creatable movable agrees =>
    rw [agrees.surplus, surplus_issue hcaller creatable movable (hapart _ _ split rfl)]
  | burn split decoded isOpen redeemed movable agrees =>
    rw [agrees.surplus, surplus_payOut hcaller isOpen redeemed movable]
  | query => rfl

theorem Step.surplus (h : Step settings w w') : w'.surplus settings.custodian = w.surplus settings.custodian := by
  cases h with
  | accepted caller executed apart =>
    exact surplus_effect caller (effect_of_execute executed) fun args token split hout => apart token ⟨args, split, hout⟩
  | rejected caller executed => rw [undone_execute _ _ _ _ _ _ _ executed]
  | credited credited deposited =>
    have hadded := surplus_deposit deposited
    have hclaimed := surplus_credit settings.custodian credited
    omega
  | funded deposited credited =>
    have hadded := surplus_deposit deposited
    have hclaimed := surplus_credit settings.custodian credited
    omega
  | setBalance account amount other =>
    refine surplus_congr (fun _ _ => rfl) ?_
    rw [balance_setBalance, if_neg other]
  | setNonce account nonce => exact surplus_congr (fun _ _ => rfl) rfl
  | setCodeSize account size => exact surplus_congr (fun _ _ => rfl) rfl

theorem Run.surplus {w₀ : World} (h : Run settings w₀ w) :
    w.surplus settings.custodian = w₀.surplus settings.custodian := by
  induction h with
  | refl => rfl
  | tail _ step ih => rw [step.surplus, ih]

theorem Run.covered {w₀ : World} (hempty : w₀.words = .empty) (h : Run settings w₀ w) :
    w.locked ≤ (w.balance settings.custodian).toNat := by
  have hsurplus := h.surplus
  rw [World.surplus, World.surplus, locked_of_no_words hempty] at hsurplus
  omega

section Sample

def sampleStart : World := World.setBalance {} 1 1000

def sampleTerms : Terms := { name := "Coin", symbol := "CN", supply := 100, initialBacking := 600 }

def sampleToken : Address := sampleTerms.tokenAddress 1 0

theorem sample_decoded : Terms.ofArguments (Payload.write sampleTerms.pieces) = .ok sampleTerms := by
  apply Terms.ofArguments_write_pieces
  rw [Terms.length_write_pieces]
  decide

theorem sample_address : sampleToken = 692507413678081093320847742856351298005918195782 := by
  rw [sampleToken, Terms.tokenAddress, Word.digest_eq]
  decide +kernel

theorem sample_apart : Pool.Apart sampleToken := by
  rw [sample_address, Pool.Apart, Pool.slotBase, FeePlan.slotBase, Slot.base, Slot.base, Word.digest_eq, Word.digest_eq]
  decide +kernel

def samplePrice : Gas := Tariff.cost {} (Call.create sampleTerms).payload.length .create

theorem sample_token : newToken { caller := 1 } sampleTerms sampleStart = sampleToken := by
  have hnonce : sampleStart.nonce 1 = 0 := rfl
  rw [newToken, hnonce, sampleToken]

theorem sample_creatable : Creatable { caller := 1 } sampleTerms sampleStart := by
  refine ⟨by decide, by decide, by decide, rfl, ?_⟩
  exact pool_of_no_words rfl _

theorem sample_created_for (custodian : Address) : ∃ w,
    execute { custodian } { caller := 1 } (Call.create sampleTerms).payload samplePrice sampleStart =
      .ok ⟨samplePrice, sampleToken.word.bytes⟩ w ∧
    w.Agrees (issue { custodian } { caller := 1 } sampleTerms sampleStart) := by
  have hmove : sampleStart.CanMove 1 custodian 600 := by
    refine .inr ⟨by decide, ?_⟩
    by_cases hown : 1 = custodian
    · exact .inl hown
    · have hnone : sampleStart.balance custodian = 0 := (balance_setBalance ..).trans (if_neg hown)
      rw [hnone]
      exact .inr (by decide)
  have hcall : Admitted { custodian } { caller := 1 } (Call.create sampleTerms).payload samplePrice .create
      (Payload.write sampleTerms.pieces) := ⟨Method.split_selector _ _, UInt64.le_refl _, rfl, fun _ => rfl⟩
  exact sample_token ▸ execute_create_of hcall sample_decoded sample_creatable hmove

theorem sample_created : ∃ w, execute {} { caller := 1 } (Call.create sampleTerms).payload samplePrice sampleStart =
      .ok ⟨samplePrice, sampleToken.word.bytes⟩ w ∧
    w.Agrees (issue {} { caller := 1 } sampleTerms sampleStart) := sample_created_for contractAddress

theorem sample_credited {w : World} (h : w.pool sampleToken = .native sampleToken 600 100 0) :
    credit sampleToken 50 w = .ok (.native sampleToken 650 100 0) (w.setPool (.native sampleToken 650 100 0)) :=
  credit_of_native h (by decide) (by decide)

theorem sample_run : ∃ w, Run {} sampleStart w ∧ w.pool sampleToken = .native sampleToken 650 100 0 ∧
    w.balance 1 = 400 := by
  obtain ⟨w₁, hexecute, hagrees⟩ := sample_created
  have hstep : Step {} sampleStart w₁ := by
    refine .accepted (by decide) hexecute ?_
    rintro token ⟨_, _, hout⟩
    exact Address.eq_of_word_bytes hout ▸ sample_apart
  have hpool : w₁.pool sampleToken = .native sampleToken 600 100 0 := by
    rw [hagrees.pool, pool_issue (sample_token ▸ sample_apart), if_pos sample_token, newPool, sample_token]
    rfl
  have hbalance : ∀ account, w₁.balance account = (sampleStart.transfer 1 contractAddress 600).balance account :=
    fun account => (hagrees.balance account).trans (balance_issue account)
  have hcredit := sample_credited hpool
  have hdeposit : Host.deposit contractAddress 50 (w₁.setPool (.native sampleToken 650 100 0)) = .ok ()
      ((w₁.setPool (.native sampleToken 650 100 0)).setBalance contractAddress 650) := by
    have hheld : (w₁.setPool (.native sampleToken 650 100 0)).balance contractAddress = 600 := by
      rw [balance_setPool, hbalance]
      rfl
    refine deposit_eq_ok.mpr ⟨?_, ?_⟩
    · rw [hheld]
      decide
    · rw [hheld]
      rfl
  refine ⟨_, .tail (.single hstep) (.credited hcredit hdeposit), pool_setPool_native_self .., ?_⟩
  rw [balance_setBalance, if_neg (by decide), balance_setPool, hbalance]
  rfl

end Sample

theorem surplus_constant {settings : Settings} {w₀ w : World} (hempty : w₀.words = .empty) (hrun : Run settings w₀ w) :
    ((w.balance settings.custodian).toNat : Int) - w.locked = (w₀.balance settings.custodian).toNat - w₀.locked ∧
      w₀.locked = 0 ∧ w.locked ≤ (w.balance settings.custodian).toNat :=
  ⟨hrun.surplus, locked_of_no_words hempty, hrun.covered hempty⟩

theorem surplus_constant_sample : ∃ w, Run {} sampleStart w ∧ w.pool sampleToken = .native sampleToken 650 100 0 ∧
    ((w.balance contractAddress).toNat : Int) - w.locked = 0 ∧ 650 ≤ w.locked := by
  obtain ⟨w, hrun, hpool, _⟩ := sample_run
  obtain ⟨hconstant, hnone, _⟩ := surplus_constant rfl hrun
  have hopen : (w.pool sampleToken).isOpen = true := by
    rw [hpool]
    rfl
  have hclaim := claimed_of_open_le_locked hopen
  rw [hpool] at hclaim
  rw [hnone] at hconstant
  exact ⟨w, hrun, hpool, hconstant, hclaim⟩

end Custody

end BackedToken
