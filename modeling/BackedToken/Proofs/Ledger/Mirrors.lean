import BackedToken.Proofs.Contract.Operations
import BackedToken.Proofs.Custody.Locked
import BackedToken.Proofs.Ledger.Records

namespace BackedToken.Ledger

open Contract World

inductive Mirrored (w : World) (token : Address) : Option Record → Prop
  | absent (isOpen : (w.pool token).isOpen = false) (plan : w.plan token = {}) : Mirrored w token none
  | present {record : Record} (pool : w.pool token = record.pool token) (supply : record.supply ≠ 0)
      (plan : w.plan token = record.plan) (apart : Pool.Apart token) : Mirrored w token (some record)

structure Mirrors (l : Ledger) (w : World) : Prop where
  record : ∀ token, Mirrored w token (l.record? token)
  balance : w.balance = l.balance
  nonce : w.nonce = l.nonce
  codeSize : w.codeSize = l.codeSize

variable {l : Ledger} {w v : World} {token : Address}

theorem Mirrored.congr {entry : Option Record} (h : Mirrored w token entry) (hpool : v.pool token = w.pool token)
    (hplan : v.plan token = w.plan token) : Mirrored v token entry := by
  cases h with
  | absent isOpen plan => exact .absent (hpool ▸ isOpen) (hplan ▸ plan)
  | present pool supply plan apart => exact .present (hpool ▸ pool) supply (hplan ▸ plan) apart

theorem mirrored_update {entries : Address → Option Record} {record : Record} (hself : Mirrored v token (some record))
    (hothers : ∀ other, token ≠ other → Mirrored v other (entries other)) (other : Address) :
    Mirrored v other (Function.update entries token (some record) other) := by
  by_cases hother : token = other
  · subst hother
    rw [Function.update_self]
    exact hself
  · rw [Function.update_of_ne (Ne.symm hother)]
    exact hothers other hother

theorem getD_insert {ν : Type} [Zero ν] {t : Table Address ν} {values : Address → ν}
    (h : (fun other => (t.get? other).getD 0) = values) (account : Address) (value : ν) :
    (fun other => ((t.insert account value).get? other).getD 0) = Function.update values account value := by
  subst h
  funext other
  rw [Table.get?_insert, Function.update_apply]
  by_cases hother : other = account
  · rw [if_pos hother.symm, if_pos hother]
    rfl
  · rw [if_neg (Ne.symm hother), if_neg hother]

theorem mirrors_opening (h : w.words = .empty) : (opening w).Mirrors w :=
  ⟨fun token => .absent (pool_of_no_words h token) (plan_of_no_words h token), rfl, rfl, rfl⟩

namespace Mirrors

variable (h : l.Mirrors w)
include h

theorem agrees (hagrees : v.Agrees w) : l.Mirrors v where
  record token := (h.record token).congr (hagrees.pool token) (hagrees.plan token)
  balance := (funext hagrees.balance).trans h.balance
  nonce := (funext hagrees.nonce).trans h.nonce
  codeSize := (funext hagrees.codeSize).trans h.codeSize

theorem setBalance (account : Address) (amount : Word) :
    (l.setBalance account amount).Mirrors (w.setBalance account amount) where
  record token := (h.record token).congr rfl rfl
  balance := getD_insert h.balance account amount
  nonce := h.nonce
  codeSize := h.codeSize

theorem setNonce (account : Address) (nonce : UInt64) :
    Mirrors { l with nonce := Function.update l.nonce account nonce } (w.setNonce account nonce) where
  record token := (h.record token).congr rfl rfl
  balance := h.balance
  nonce := getD_insert h.nonce account nonce
  codeSize := h.codeSize

theorem setCodeSize (account : Address) (size : UInt64) :
    Mirrors { l with codeSize := Function.update l.codeSize account size } (w.setCodeSize account size) where
  record token := (h.record token).congr rfl rfl
  balance := h.balance
  nonce := h.nonce
  codeSize := getD_insert h.codeSize account size

theorem transfer (source target : Address) (amount : Word) :
    Mirrors { l with balance := (w.transfer source target amount).balance } (w.transfer source target amount) where
  record token := (h.record token).congr (pool_transfer ..) (plan_transfer ..)
  balance := rfl
  nonce := (nonce_transfer ..).trans h.nonce
  codeSize := (codeSize_transfer ..).trans h.codeSize

theorem setPool {record next : Record} (hrecord : l.record? token = some record) (hsupply : next.supply = record.supply)
    (hplan : next.plan = record.plan) : (l.setRecord token next).Mirrors (w.setPool (next.pool token)) where
  record := by
    have hentry := h.record token
    rw [hrecord] at hentry
    cases hentry with
    | present pool supply plan apart =>
      apply mirrored_update
      · refine .present (pool_setPool_native_self ..) (hsupply ▸ supply) ?_ apart
        rw [plan_setPool _ apart, plan, hplan]
      · intro other hother
        exact (h.record other).congr (pool_setPool_of_ne _ hother) (plan_setPool_of_ne _ hother)
  balance := (funext (balance_setPool w _)).trans h.balance
  nonce := (funext (w.sameAccounts_setRecord _ _ _).nonce).trans h.nonce
  codeSize := (funext (w.sameAccounts_setRecord _ _ _).codeSize).trans h.codeSize

theorem issue {settings : Settings} {context : Context} {terms : Terms} (hsupply : terms.supply ≠ 0)
    (hapart : Pool.Apart (newToken context terms w)) :
    Mirrors { l.setRecord (newToken context terms w) (.ofTerms terms) with
      balance := ((w.setPool (newPool context terms w)).transfer context.caller settings.custodian
        terms.initialBacking).balance }
      (issue settings context terms w) where
  record := by
    apply mirrored_update
    · refine .present ?_ hsupply ?_ hapart
      · rw [pool_issue hapart, if_pos rfl]
        rfl
      · rw [plan_issue, if_pos rfl]
        rfl
    · intro other hother
      refine (h.record other).congr (pool_issue_of_ne hother) ?_
      rw [plan_issue, if_neg hother]
  balance := funext (balance_setPlan _ _ _)
  nonce := by
    rw [Contract.issue]
    refine (funext (sameAccounts_setRecord _ _ _ _).nonce).trans ((nonce_transfer ..).trans ?_)
    exact (funext (w.sameAccounts_setRecord _ _ _).nonce).trans h.nonce
  codeSize := by
    refine (funext (sameAccounts_setRecord _ _ _ _).codeSize).trans ((codeSize_transfer ..).trans ?_)
    exact (funext (w.sameAccounts_setRecord _ _ _).codeSize).trans h.codeSize

end Mirrors

end BackedToken.Ledger
