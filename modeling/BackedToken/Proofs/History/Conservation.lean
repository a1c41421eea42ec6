import BackedToken.Proofs.History.Events

namespace BackedToken

namespace World

open Contract

variable {settings : Settings} {context : Context} {payload out : Bytes} {one other account : Address} {amount : Word}
  {terms : Terms} {pool : Pool} {w v w' : World}

def coins (w : World) : Nat := ∑ account : Address, (w.balance account).toNat

theorem coins_congr (h : ∀ account, w'.balance account = w.balance account) : w'.coins = w.coins :=
  Finset.sum_congr rfl fun account _ => congrArg BitVec.toNat (h account)

theorem coins_setBalance (w : World) (account : Address) (amount : Word) :
    (w.setBalance account amount).coins + (w.balance account).toNat = w.coins + amount.toNat := by
  have hself : (w.setBalance account amount).balance account = amount := by rw [balance_setBalance, if_pos rfl]
  have hothers : ∀ other, account ≠ other →
      ((w.setBalance account amount).balance other).toNat = (w.balance other).toNat := by
    intro other ho
    rw [balance_setBalance, if_neg ho]
  have hsum := sum_replace hothers
  rwa [hself] at hsum

theorem coins_withdraw (h : Host.withdraw account amount w = .ok () w') : w'.coins + amount.toNat = w.coins := by
  obtain ⟨hle, rfl⟩ := withdraw_eq_ok.mp h
  have hset := w.coins_setBalance account (w.balance account - amount)
  rw [BitVec.toNat_sub_of_le hle] at hset
  rw [BitVec.le_def] at hle
  omega

theorem coins_deposit (h : Host.deposit account amount w = .ok () w') : w'.coins = w.coins + amount.toNat := by
  obtain ⟨hroom, rfl⟩ := deposit_eq_ok.mp h
  have hset := w.coins_setBalance account (w.balance account + amount)
  rw [BitVec.toNat_add, Nat.mod_eq_of_lt hroom] at hset
  omega

theorem coins_move (h : Contract.move one other amount w = .ok () w') : w'.coins = w.coins := by
  rw [Contract.move] at h
  split at h
  · obtain ⟨_, rfl⟩ := Host.pure_eq_ok.mp h
    rfl
  · obtain ⟨_, v, hpay, hget⟩ := Host.bind_eq_ok.mp h
    rw [coins_deposit hget, coins_withdraw hpay]

structure Exchanged (one other : Address) (w w' : World) : Prop where
  coins : w'.coins = w.coins
  balance : ∀ account, account ≠ one → account ≠ other → w'.balance account = w.balance account
  nonce : ∀ account, w'.nonce account = w.nonce account
  codeSize : ∀ account, w'.codeSize account = w.codeSize account

theorem SameAccounts.exchanged (h : w'.SameAccounts w) (one other : Address) : w.Exchanged one other w' :=
  ⟨coins_congr h.balance, fun account _ _ => h.balance account, h.nonce, h.codeSize⟩

theorem Agrees.sameAccounts (h : w'.Agrees w) : w'.SameAccounts w := ⟨h.balance, h.nonce, h.codeSize⟩

namespace Exchanged

theorem refl (w : World) : w.Exchanged one other w := (Agrees.refl w).sameAccounts.exchanged one other

theorem swap (h : w.Exchanged one other w') : w.Exchanged other one w' :=
  ⟨h.coins, fun account ho hone => h.balance account hone ho, h.nonce, h.codeSize⟩

theorem trans (h : w.Exchanged one other v) (h' : v.Exchanged one other w') : w.Exchanged one other w' where
  coins := h'.coins.trans h.coins
  balance account hone ho := (h'.balance account hone ho).trans (h.balance account hone ho)
  nonce account := (h'.nonce account).trans (h.nonce account)
  codeSize account := (h'.codeSize account).trans (h.codeSize account)

end Exchanged

theorem exchanged_transfer (h : w.CanMove one other amount) : w.Exchanged one other (w.transfer one other amount) where
  coins := coins_move (move_eq_ok.mpr ⟨h, rfl⟩)
  balance account hone ho := by
    rw [balance_transfer, if_neg hone.symm, if_neg ho.symm, ite_self]
  nonce account := congrFun (w.nonce_transfer one other amount) account
  codeSize account := congrFun (w.codeSize_transfer one other amount) account

theorem exchanged_issue (h : w.CanMove context.caller settings.custodian terms.initialBacking) :
    w.Exchanged context.caller settings.custodian (issue settings context terms w) := by
  have hpool : w.Exchanged context.caller settings.custodian (w.setPool (newPool context terms w)) :=
    (w.sameAccounts_setRecord ..).exchanged ..
  have hcoins := exchanged_transfer ((canMove_setPool (newPool context terms w)).mpr h)
  exact (hpool.trans hcoins).trans ((World.sameAccounts_setRecord ..).exchanged ..)

theorem exchanged_payOut (h : w.CanMove settings.custodian context.caller amount) :
    w.Exchanged context.caller settings.custodian (payOut settings context pool amount w) := by
  have hpool : w.Exchanged context.caller settings.custodian (w.setPool pool) :=
    (w.sameAccounts_setRecord ..).exchanged ..
  exact hpool.trans (exchanged_transfer ((canMove_setPool pool).mpr h)).swap

theorem exchanged_of_effect (h : Effect settings context payload w out w') :
    w.Exchanged context.caller settings.custodian w' := by
  cases h with
  | create split decoded creatable movable agrees =>
    exact (exchanged_issue movable).trans (agrees.sameAccounts.exchanged ..)
  | burn split decoded isOpen redeemed movable agrees =>
    exact (exchanged_payOut movable).trans (agrees.sameAccounts.exchanged ..)
  | query => exact .refl w

theorem word_issue {key : Word} (h : newToken context terms w = account →
    key ∉ Pool.slotKeys account ++ FeePlan.slotKeys account) :
    (issue settings context terms w).word account key = w.word account key := by
  have hpool : newToken context terms w = account → key ∉ Pool.slotKeys account := fun ht hk =>
    h ht (List.mem_append_left _ hk)
  have hplan : newToken context terms w = account → key ∉ FeePlan.slotKeys account := fun ht hk =>
    h ht (List.mem_append_right _ hk)
  rw [issue, word_setPlan_outside _ hplan, word_transfer, word_setPool_outside w hpool]

theorem word_payOut {key : Word} (h : pool.token = account → key ∉ Pool.slotKeys account) :
    (payOut settings context pool amount w).word account key = w.word account key := by
  rw [payOut, word_transfer, word_setPool_outside w h]

inductive Writes (payload out : Bytes) : Address → List Word → Prop
  | created {args : Bytes} {token : Address} (split : Payload.split payload = .ok (Method.create.selector, args))
      (answered : out = token.word.bytes) : Writes payload out token (Pool.slotKeys token ++ FeePlan.slotKeys token)
  | burned {args : Bytes} {token : Address} {amount : Word}
      (split : Payload.split payload = .ok (Method.burn.selector, args))
      (decoded : Call.tokenAmount args = .ok (token, amount)) : Writes payload out token (Pool.slotKeys token)

theorem word_of_effect (h : Effect settings context payload w out w') :
    w' = w ∨ ∃ token keys, Writes payload out token keys ∧
      ∀ account key, (token = account → key ∉ keys) → w'.word account key = w.word account key := by
  cases h with
  | create split decoded creatable movable agrees =>
    refine .inr ⟨_, _, .created split rfl, fun account key hkey => ?_⟩
    rw [agrees.word]
    exact word_issue fun ht => ht ▸ hkey ht
  | @burn _ token _ _ pool _ split decoded isOpen redeemed movable agrees =>
    have htoken : pool.token = token := by
      obtain ⟨_, _, rfl⟩ := Pool.redeem_eq_ok.mp redeemed
      rfl
    refine .inr ⟨_, _, .burned split decoded, fun account key hkey => ?_⟩
    rw [agrees.word]
    exact word_payOut fun ht => (htoken.symm.trans ht) ▸ hkey (htoken.symm.trans ht)
  | query => exact .inl rfl

theorem unchanged_of_effect {m : Method} {args : Bytes} (h : Effect settings context payload w out w')
    (hsplit : Payload.split payload = .ok (m.selector, args)) (hquery : m.mutates = false) : w' = w := by
  cases h with
  | create split decoded creatable movable agrees =>
    obtain ⟨rfl, _⟩ := Method.eq_of_split hsplit split
    cases hquery
  | burn split decoded isOpen redeemed movable agrees =>
    obtain ⟨rfl, _⟩ := Method.eq_of_split hsplit split
    cases hquery
  | query => rfl

/-- No call makes or loses coins, and only the caller, the custodian and the records of one token can be touched. -/
theorem call_frame (settings : Settings) (context : Context) (payload : Bytes) (limit : Gas) (w : World) :
    let response := (w.step settings (.call context payload limit)).1
    let w' := (w.step settings (.call context payload limit)).2
    w'.coins = w.coins ∧
      (∀ account, account ≠ context.caller → account ≠ settings.custodian → w'.balance account = w.balance account) ∧
      (∀ account, w'.nonce account = w.nonce account ∧ w'.codeSize account = w.codeSize account) ∧
      (w' = w ∨ ∃ receipt token keys, response = .called (.ok receipt) ∧ Writes payload receipt.output token keys ∧
        ∀ account key, (token = account → key ∉ keys) → w'.word account key = w.word account key) ∧
      ∀ (m : Method) args, Payload.split payload = .ok (m.selector, args) → m.mutates = false → w' = w := by
  intro response w'
  cases hexecute : execute settings context payload limit w with
  | ok receipt v =>
    have hstep := step_call_of_ok hexecute
    obtain rfl : v = w' := (congrArg Prod.snd hstep).symm
    have heffect := effect_of_execute hexecute
    have hexchanged := exchanged_of_effect heffect
    refine ⟨hexchanged.coins, hexchanged.balance, fun account => ⟨hexchanged.nonce account, hexchanged.codeSize account⟩,
      ?_, fun m args => unchanged_of_effect heffect⟩
    refine (word_of_effect heffect).imp_right fun ⟨token, keys, hwrites, hword⟩ => ?_
    exact ⟨receipt, token, keys, congrArg Prod.fst hstep, hwrites, hword⟩
  | error rejection v =>
    have hsame : w' = w := congrArg Prod.snd (step_call_of_error hexecute)
    rw [hsame]
    exact ⟨rfl, fun _ _ _ => rfl, fun _ => ⟨rfl, rfl⟩, .inl rfl, fun _ _ _ _ => rfl⟩

end World

end BackedToken
