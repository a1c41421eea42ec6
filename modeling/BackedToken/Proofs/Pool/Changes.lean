import BackedToken.Proofs.Pool.Redemption
import Mathlib.Logic.Relation

/-! A redemption and a credit are the only changes of a pool, and neither touches the supply. -/

namespace BackedToken.Pool

variable {pool next : Pool}

inductive Change (pool : Pool) : Pool → Prop
  | unchanged : Change pool pool
  | redeemed {amount recovered : Word} {next : Pool} (redeemed : pool.redeem amount = .ok (next, recovered)) :
      Change pool next
  | credited {amount : Word} {next : Pool} (added : pool.addBacking amount = .ok next) : Change pool next

namespace Change

variable (h : pool.Change next)
include h

theorem supply : next.supply = pool.supply := by
  cases h with
  | unchanged => rfl
  | redeemed redeemed => exact supply_of_redeem redeemed
  | credited added =>
    obtain ⟨_, rfl⟩ := addBacking_eq_ok.mp added
    rfl

theorem isOpen : next.isOpen = pool.isOpen := by
  rw [Pool.isOpen, Pool.isOpen, h.supply]

theorem burned_le : pool.burned ≤ next.burned := by
  cases h with
  | unchanged => exact BitVec.le_refl _
  | redeemed redeemed =>
    rw [BitVec.le_def, burned_of_redeem redeemed]
    exact Nat.le_add_right ..
  | credited added =>
    obtain ⟨_, rfl⟩ := addBacking_eq_ok.mp added
    exact BitVec.le_refl _

end Change

structure Flow where
  units : Nat := 0
  recovered : Nat := 0
  credited : Nat := 0

inductive Moves (pool : Pool) : Flow → Pool → Prop
  | still : pool.Moves {} pool
  | redeemed {amount recovered : Word} {next : Pool} (redeemed : pool.redeem amount = .ok (next, recovered)) :
      pool.Moves { units := amount.toNat, recovered := recovered.toNat } next
  | credited {amount : Word} {next : Pool} (added : pool.addBacking amount = .ok next) :
      pool.Moves { credited := amount.toNat } next

theorem Moves.change {flow : Flow} (h : pool.Moves flow next) : pool.Change next := by
  cases h with
  | still => exact .unchanged
  | redeemed redeemed => exact .redeemed redeemed
  | credited added => exact .credited added

structure Issued (pool : Pool) (units : Word) : Prop where
  supply : pool.supply = units
  asset : pool.asset = nativeCoin
  burned : pool.burned ≤ units

theorem issued_native (token : Address) (backing units : Word) : (native token backing units 0).Issued units :=
  ⟨rfl, rfl, BitVec.le_def.mpr (Nat.zero_le _)⟩

theorem Issued.change {units : Word} (hissued : pool.Issued units) (h : pool.Change next) : next.Issued units := by
  cases h with
  | unchanged => exact hissued
  | redeemed redeemed =>
    have hburned := burned_of_redeem redeemed
    obtain ⟨hle, _, rfl⟩ := redeem_eq_ok.mp redeemed
    refine ⟨hissued.supply, rfl, ?_⟩
    have hbefore := BitVec.le_def.mp hissued.burned
    rw [BitVec.le_def, toNat_circulating, hissued.supply] at hle
    rw [BitVec.le_def, hburned]
    omega
  | credited added =>
    obtain ⟨_, rfl⟩ := addBacking_eq_ok.mp added
    exact ⟨hissued.supply, rfl, hissued.burned⟩

theorem Issued.changes {units : Word} (hissued : pool.Issued units) (h : Relation.ReflTransGen Change pool next) :
    next.Issued units := by
  induction h with
  | refl => exact hissued
  | tail _ change ih => exact ih.change change

end BackedToken.Pool
