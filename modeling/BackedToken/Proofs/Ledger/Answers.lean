import BackedToken.Proofs.Ledger.Mirrors

namespace BackedToken.Ledger

open Contract Host World Attempt

inductive Answers {σ α β : Type} (R : α → σ → β → Prop) : EStateM.Result Rejection σ α → Except Rejection β → Prop
  | ok {a : α} {s : σ} {b : β} (related : R a s b) : Answers R (.ok a s) (.ok b)
  | error {rejection : Rejection} {s : σ} : Answers R (.error rejection s) (.error rejection)

def Read {σ α β : Type} (s : σ) (view : β → α) (a : α) (s' : σ) (b : β) : Prop := a = view b ∧ s' = s

section Answers

variable {σ α β γ δ : Type} {R : α → σ → β → Prop} {S : γ → σ → δ → Prop} {s : σ}

theorem Answers.bind {x : Attempt σ α} {m : Except Rejection β} {f : α → Attempt σ γ} {g : β → Except Rejection δ}
    (hx : Answers R (x s) m) (hf : ∀ a s' b, R a s' b → m = .ok b → Answers S (f a s') (g b)) :
    Answers S ((x >>= f) s) (m >>= g) := by
  generalize hr : x s = outcome at hx
  cases hx with
  | ok related =>
    rw [bind_of_ok hr]
    exact hf _ _ _ related rfl
  | error =>
    rw [bind_of_error hr]
    exact .error

theorem Answers.map {outcome : EStateM.Result Rejection σ α} {m : Except Rejection β} {S : α → σ → δ → Prop}
    {f : β → δ} (h : Answers R outcome m) (hf : ∀ a s b, R a s b → S a s (f b)) : Answers S outcome (m.map f) := by
  cases h with
  | ok related => exact .ok (hf _ _ _ related)
  | error => exact .error

theorem Answers.read {x : Attempt σ α} {m : Except Rejection β} {view : β → α} {f : α → Attempt σ γ}
    {g : β → Except Rejection δ} (hx : Answers (Read s view) (x s) m)
    (hf : ∀ b, m = .ok b → Answers S (f (view b) s) (g b)) : Answers S ((x >>= f) s) (m >>= g) := by
  apply hx.bind
  rintro _ _ b ⟨rfl, rfl⟩ hm
  exact hf b hm

theorem Answers.after {x : Attempt σ α} {m : Except Rejection δ} {f : α → Attempt σ γ} {a : α} {s' : σ}
    (hx : x s = .ok a s') (hf : Answers S (f a s') m) : Answers S ((x >>= f) s) m := by
  rw [bind_of_ok hx]
  exact hf

theorem answers_ofResult (m : Except Rejection β) (view : β → α) (s : σ) :
    Answers (Read s view) (ofResult (m.map view) s) m := by
  cases m with
  | ok b => exact .ok ⟨rfl, rfl⟩
  | error rejection => exact .error

theorem answers_result (m : Except Rejection α) (s : σ) : Answers (Read s id) (ofResult m s) m := by
  cases m with
  | ok a => exact .ok ⟨rfl, rfl⟩
  | error rejection => exact .error

theorem answers_ofPayload (m : Except Payload.Fault α) (s : σ) : Answers (Read s id) (ofPayload m s) (decoded m) := by
  cases m with
  | ok a => exact .ok ⟨rfl, rfl⟩
  | error fault => exact .error

theorem answers_rejectIf {condition expected : Prop} [Decidable condition] [Decidable expected]
    (h : condition ↔ expected) (rejection : Rejection) (s : σ) :
    Answers (Read s id) (rejectIf condition rejection s) (refuseIf expected rejection) := by
  rw [refuseIf]
  split
  · next hrefused =>
    rw [rejectIf_of (h.mpr hrefused)]
    exact .error
  · next hpassed =>
    rw [rejectIf_of_not (mt h.mp hpassed)]
    exact .ok ⟨rfl, rfl⟩

end Answers

section Coins

variable {l : Ledger} {w : World}

theorem setBalance_self (l : Ledger) (account : Address) : l.setBalance account (l.balance account) = l := by
  rw [setBalance, Function.update_eq_self]

theorem pay_zero (l : Ledger) (source target : Address) : l.pay source target 0 = .ok l := by
  have hheld : ¬l.balance source < 0 := BitVec.not_lt.mpr (BitVec.le_def.mpr (Nat.zero_le _))
  have hroom : ¬2 ^ 256 ≤ (l.balance target).toNat + (0 : Word).toNat := Nat.not_le.mpr (l.balance target).isLt
  have hwithdraw : l.withdraw source 0 = .ok l := by
    rw [Ledger.withdraw, refuseIf, if_neg hheld]
    exact congrArg Except.ok ((congrArg (l.setBalance source) (BitVec.sub_zero _)).trans (l.setBalance_self source))
  have hdeposit : l.deposit target 0 = .ok l := by
    rw [Ledger.deposit, refuseIf, if_neg hroom]
    exact congrArg Except.ok ((congrArg (l.setBalance target) (BitVec.add_zero _)).trans (l.setBalance_self target))
  rw [pay, hwithdraw]
  exact hdeposit

def Rebalanced (l : Ledger) (next : World) (_ : Unit) (w' : World) (l' : Ledger) : Prop :=
  w' = next ∧ l' = { l with balance := next.balance }

theorem rebalanced_setBalance (h : w.balance = l.balance) (account : Address) (amount : Word) :
    Rebalanced l (w.setBalance account amount) () (w.setBalance account amount) (l.setBalance account amount) := by
  have hbalance : (w.setBalance account amount).balance = Function.update l.balance account amount :=
    getD_insert h account amount
  refine ⟨rfl, ?_⟩
  rw [hbalance]
  rfl

variable (h : w.balance = l.balance) (account : Address) (amount : Word)
include h

theorem answers_withdraw : Answers (Rebalanced l (w.setBalance account (w.balance account - amount)))
    (ask (Host.withdraw account amount) w) (l.withdraw account amount) := by
  rw [Ledger.withdraw, refuseIf, ← h]
  by_cases hheld : w.balance account < amount
  · rw [if_pos hheld, ask, adapt_of_error (withdraw_of_lt hheld)]
    exact .error
  · rw [if_neg hheld, ask_eq_ok.mpr (withdraw_eq_ok.mpr ⟨BitVec.not_lt.mp hheld, rfl⟩)]
    exact .ok (rebalanced_setBalance h account _)

theorem answers_deposit : Answers (Rebalanced l (w.setBalance account (w.balance account + amount)))
    (ask (Host.deposit account amount) w) (l.deposit account amount) := by
  rw [Ledger.deposit, refuseIf, ← h]
  by_cases hfull : 2 ^ 256 ≤ (w.balance account).toNat + amount.toNat
  · rw [if_pos hfull, ask, adapt_of_error (deposit_of_ge hfull)]
    exact .error
  · rw [if_neg hfull, ask_eq_ok.mpr (deposit_eq_ok.mpr ⟨Nat.not_le.mp hfull, rfl⟩)]
    exact .ok (rebalanced_setBalance h account _)

omit account amount in
theorem answers_move (source target : Address) (amount : Word) :
    Answers (Rebalanced l (w.transfer source target amount)) (ask (move source target amount) w)
      (l.pay source target amount) := by
  rw [move, transfer]
  split
  · next hzero =>
    rw [hzero, pay_zero]
    exact .ok ⟨rfl, h ▸ rfl⟩
  · rw [ask_bind, pay]
    apply (answers_withdraw h source amount).bind
    rintro _ _ paid ⟨rfl, hpaid⟩ _
    have hheld : (w.setBalance source (w.balance source - amount)).balance = paid.balance := hpaid ▸ rfl
    subst hpaid
    exact answers_deposit hheld target amount

end Coins

end BackedToken.Ledger
