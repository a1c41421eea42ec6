import BackedToken.Contract.Operation
import BackedToken.Proofs.Numbers
import BackedToken.Proofs.Storage.Records

namespace BackedToken

namespace World

variable {w w' : World} {source target account : Address} {amount : Word}

theorem withdraw_eq_ok : Host.withdraw account amount w = .ok () w' ↔
    amount ≤ w.balance account ∧ w' = w.setBalance account (w.balance account - amount) := by
  simp only [Host.withdraw, Host.perform, perform]
  split
  · next h => simp [BitVec.not_le.mpr h]
  · next h => simp [BitVec.not_lt.mp h, eq_comm]

theorem deposit_eq_ok : Host.deposit account amount w = .ok () w' ↔
    (w.balance account).toNat + amount.toNat < 2 ^ 256 ∧ w' = w.setBalance account (w.balance account + amount) := by
  simp only [Host.deposit, Host.perform, perform]
  cases hs : Word.ofNat? ((w.balance account).toNat + amount.toNat) with
  | some total =>
    obtain ⟨hlt, rfl⟩ := Word.ofNat?_add_eq_some_iff.mp hs
    simp only [EStateM.Result.ok.injEq, true_and, hlt, eq_comm]
  | none =>
    have hge := Word.ofNat?_eq_none_iff.mp hs
    constructor
    · intro he
      cases he
    · rintro ⟨hlt, _⟩
      exact absurd hlt (Nat.not_lt.mpr hge)

theorem withdraw_of_lt (h : w.balance account < amount) :
    Host.withdraw account amount w = .error (.balanceInsufficient account amount (w.balance account)) w := by
  simp only [Host.withdraw, Host.perform, perform, h, if_true]

theorem deposit_of_ge (h : 2 ^ 256 ≤ (w.balance account).toNat + amount.toNat) :
    Host.deposit account amount w = .error (.balanceOverflow account) w := by
  simp only [Host.deposit, Host.perform, perform, Word.ofNat?_eq_none_iff.mpr h]

def CanMove (w : World) (source target : Address) (amount : Word) : Prop :=
  amount = 0 ∨ amount ≤ w.balance source ∧
    (source = target ∨ (w.balance target).toNat + amount.toNat < 2 ^ 256)

def transfer (w : World) (source target : Address) (amount : Word) : World :=
  if amount = 0 then w
  else
    let paid := w.setBalance source (w.balance source - amount)
    paid.setBalance target (paid.balance target + amount)

theorem balance_setPool (w : World) (pool : Pool) (account : Address) :
    (w.setPool pool).balance account = w.balance account := (w.sameAccounts_setRecord ..).balance account

theorem balance_setPlan (w : World) (token : Address) (plan : FeePlan) (account : Address) :
    (w.setPlan token plan).balance account = w.balance account := (w.sameAccounts_setRecord ..).balance account

theorem balance_transfer (w : World) (source target other : Address) (amount : Word) :
    (w.transfer source target amount).balance other =
      if source = target then w.balance other
      else if source = other then w.balance other - amount
      else if target = other then w.balance other + amount
      else w.balance other := by
  rw [transfer]
  split
  · next h => simp [h]
  · simp only [balance_setBalance]
    by_cases hst : source = target
    · subst hst
      simp only [if_true]
      split
      · next ho =>
        subst ho
        bv_omega
      · rfl
    · have hts : ¬target = source := fun h => hst h.symm
      simp only [hst, if_false]
      by_cases hs : source = other
      · subst hs
        simp [hts]
      · simp only [hs, if_false]
        split
        · next ht => rw [ht]
        · rfl

theorem balance_transfer_eq_add (w : World) (source target account : Address) (amount : Word) :
    (w.transfer source target amount).balance account =
      w.balance account + (if target = account then amount else 0) - if source = account then amount else 0 := by
  rw [balance_transfer]
  by_cases hs : source = account
  · subst hs
    by_cases ht : target = source
    · simp only [ht, if_true, BitVec.add_sub_cancel]
    · simp [ht, Ne.symm ht]
  · by_cases ht : target = account
    · subst ht
      simp [hs]
    · simp [hs, ht]

theorem canMove_congr {v : World} (h : ∀ account, v.balance account = w.balance account) :
    v.CanMove source target amount ↔ w.CanMove source target amount := by
  simp only [CanMove, h]

theorem canMove_setPool (pool : Pool) :
    (w.setPool pool).CanMove source target amount ↔ w.CanMove source target amount :=
  canMove_congr (w.balance_setPool pool)

theorem canMove_iff_of_ne (hst : source ≠ target) : w.CanMove source target amount ↔
    amount.toNat ≤ (w.balance source).toNat ∧ (w.balance target).toNat + amount.toNat < 2 ^ 256 := by
  constructor
  · rintro (rfl | ⟨hle, hroom⟩)
    · exact ⟨Nat.zero_le _, (w.balance target).isLt⟩
    · exact ⟨hle, hroom.resolve_left hst⟩
  · rintro ⟨hle, hroom⟩
    exact .inr ⟨hle, .inr hroom⟩

theorem toNat_balance_target (h : w.CanMove source target amount) (hst : source ≠ target) :
    ((w.transfer source target amount).balance target).toNat = (w.balance target).toNat + amount.toNat := by
  rw [balance_transfer, if_neg hst, if_neg hst, if_pos rfl]
  rcases h with rfl | ⟨_, hroom⟩
  · exact congrArg BitVec.toNat (BitVec.add_zero _)
  · rw [BitVec.toNat_add, Nat.mod_eq_of_lt (hroom.resolve_left hst)]

theorem toNat_balance_source (h : w.CanMove source target amount) (hst : source ≠ target) :
    ((w.transfer source target amount).balance source).toNat + amount.toNat = (w.balance source).toNat := by
  rw [balance_transfer, if_neg hst, if_pos rfl]
  rcases h with rfl | ⟨hle, _⟩
  · exact congrArg BitVec.toNat (BitVec.sub_zero _)
  · rw [BitVec.toNat_sub_of_le hle, Nat.sub_add_cancel (BitVec.le_def.mp hle)]

theorem toNat_balance_transfer (h : w.CanMove source target amount) (account : Address) :
    ((w.transfer source target amount).balance account).toNat + (if account = source then amount.toNat else 0) =
      (w.balance account).toNat + if account = target then amount.toNat else 0 := by
  by_cases hst : source = target
  · simp [balance_transfer, hst]
  · by_cases hs : account = source
    · subst hs
      simp [toNat_balance_source h hst, hst]
    · by_cases ht : account = target
      · subst ht
        simp [toNat_balance_target h hst, hs]
      · simp [balance_transfer, hst, hs, ht, Ne.symm hs, Ne.symm ht]

theorem nonce_transfer (w : World) (source target : Address) (amount : Word) :
    (w.transfer source target amount).nonce = w.nonce := by
  rw [transfer]
  split <;> rfl

theorem codeSize_transfer (w : World) (source target : Address) (amount : Word) :
    (w.transfer source target amount).codeSize = w.codeSize := by
  rw [transfer]
  split <;> rfl

theorem word_transfer (w : World) (source target : Address) (amount : Word) (account : Address) (key : Word) :
    (w.transfer source target amount).word account key = w.word account key := by
  rw [transfer]
  split <;> rfl

theorem pool_transfer (w : World) (source target : Address) (amount : Word) (token : Address) :
    (w.transfer source target amount).pool token = w.pool token :=
  pool_congr (w.word_transfer source target amount) token

theorem plan_transfer (w : World) (source target : Address) (amount : Word) (token : Address) :
    (w.transfer source target amount).plan token = w.plan token :=
  plan_congr (w.word_transfer source target amount) token

theorem move_eq_ok : Contract.move source target amount w = .ok () w' ↔
    w.CanMove source target amount ∧ w' = w.transfer source target amount := by
  rw [Contract.move, CanMove, transfer]
  by_cases h : amount = 0
  · rw [if_pos h, if_pos h, Host.pure_eq_ok]
    simp only [h, true_or, true_and, eq_comm]
  · rw [if_neg h, if_neg h, or_iff_right h]
    constructor
    · intro hmove
      obtain ⟨_, w₁, hpay, hget⟩ := Host.bind_eq_ok.mp hmove
      obtain ⟨hle, rfl⟩ := withdraw_eq_ok.mp hpay
      obtain ⟨hroom, rfl⟩ := deposit_eq_ok.mp hget
      refine ⟨⟨hle, ?_⟩, rfl⟩
      by_cases hst : source = target
      · exact .inl hst
      · rw [balance_setBalance, if_neg hst] at hroom
        exact .inr hroom
    · rintro ⟨⟨hle, hroom⟩, rfl⟩
      refine Host.bind_eq_ok.mpr ⟨(), _, withdraw_eq_ok.mpr ⟨hle, rfl⟩, deposit_eq_ok.mpr ⟨?_, rfl⟩⟩
      rw [balance_setBalance]
      split
      · rw [BitVec.toNat_sub_of_le hle, Nat.sub_add_cancel (BitVec.le_def.mp hle)]
        exact (w.balance source).isLt
      · next hst => exact hroom.resolve_left hst

def moveFault (w : World) (source target : Address) (amount : Word) : Host.Fault :=
  if w.balance source < amount then .balanceInsufficient source amount (w.balance source) else .balanceOverflow target

theorem move_of_not_canMove (h : ¬w.CanMove source target amount) :
    ∃ v, Contract.move source target amount w = .error (w.moveFault source target amount) v ∧
      ∀ account key, v.word account key = w.word account key := by
  rw [CanMove, not_or, not_and, not_or] at h
  obtain ⟨hamount, hroom⟩ := h
  rw [Contract.move, if_neg hamount]
  by_cases hle : amount ≤ w.balance source
  · obtain ⟨hst, hfull⟩ := hroom hle
    have hpay := withdraw_eq_ok.mpr ⟨hle, rfl⟩
    refine ⟨w.setBalance source (w.balance source - amount), ?_, fun _ _ => rfl⟩
    rw [Host.bind_of_ok hpay, moveFault, if_neg (BitVec.not_lt.mpr hle), deposit_of_ge]
    rw [balance_setBalance, if_neg hst]
    exact Nat.not_lt.mp hfull
  · have hlt := BitVec.not_le.mp hle
    refine ⟨w, Host.bind_of_error ?_, fun _ _ => rfl⟩
    rw [withdraw_of_lt hlt, moveFault, if_pos hlt]

end World

end BackedToken
