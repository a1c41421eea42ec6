import BackedToken.Proofs.Pool.Changes
import BackedToken.Proofs.Pool.Shares
import Mathlib.Algebra.GroupWithZero.Nat
import Mathlib.Data.List.DropRight

namespace BackedToken.Pool

variable {pool next last : Pool} {flow : Flow} {flows : List Flow}

namespace Moves

variable (h : pool.Moves flow next)
include h

theorem backing : flow.recovered + next.backing.toNat = pool.backing.toNat + flow.credited := by
  cases h with
  | still => exact Nat.zero_add _
  | redeemed redeemed => exact (Nat.add_comm ..).trans (backing_of_redeem redeemed)
  | credited added => exact (Nat.zero_add _).trans (backing_of_addBacking added)

theorem circulating : next.circulating.toNat + flow.units = pool.circulating.toNat := by
  cases h with
  | still => rfl
  | redeemed redeemed => exact circulating_of_redeem redeemed
  | credited added =>
    obtain ⟨_, rfl⟩ := addBacking_eq_ok.mp added
    rfl

theorem recovered_eq_zero (hunits : flow.units = 0) : flow.recovered = 0 := by
  cases h with
  | still => rfl
  | @redeemed amount _ _ redeemed =>
    obtain rfl : amount = 0 := BitVec.eq_of_toNat_eq hunits
    exact congrArg BitVec.toNat (recovered_zero redeemed)
  | credited added => rfl

theorem drained (hunits : 0 < flow.units) (hnone : next.circulating.toNat = 0) : next.backing.toNat = 0 := by
  cases h with
  | still => exact absurd hunits (Nat.lt_irrefl 0)
  | @redeemed amount recovered _ redeemed =>
    have hall : amount.toNat = pool.circulating.toNat := by
      have hcirculating := circulating_of_redeem redeemed
      omega
    have hbacking := backing_of_redeem redeemed
    rw [recovered_all redeemed hall (hall ▸ hunits)] at hbacking
    omega
  | credited added => exact absurd hunits (Nat.lt_irrefl 0)

end Moves

inductive Course (pool : Pool) : List Flow → Pool → Prop
  | start : pool.Course [] pool
  | moves {flows : List Flow} {flow : Flow} {next last : Pool} (course : pool.Course flows next)
      (moves : next.Moves flow last) : pool.Course (flows ++ [flow]) last

def recovered (flows : List Flow) : Nat := (flows.map Flow.recovered).sum

def credited (flows : List Flow) : Nat := (flows.map Flow.credited).sum

def afterBurns (flows : List Flow) : List Flow := flows.rtakeWhile fun flow => flow.units = 0

theorem recovered_concat : recovered (flows ++ [flow]) = recovered flows + flow.recovered := by
  rw [recovered, List.map_append, List.sum_append, List.map_singleton, List.sum_singleton, recovered]

theorem credited_concat : credited (flows ++ [flow]) = credited flows + flow.credited := by
  rw [credited, List.map_append, List.sum_append, List.map_singleton, List.sum_singleton, credited]

theorem afterBurns_concat : afterBurns (flows ++ [flow]) = if flow.units = 0 then afterBurns flows ++ [flow] else [] := by
  simp only [afterBurns, List.rtakeWhile_concat, decide_eq_true_eq]

namespace Course

theorem head (hmoves : pool.Moves flow next) (h : next.Course flows last) : pool.Course (flow :: flows) last := by
  induction h with
  | start => exact .moves .start hmoves
  | moves course moves ih => exact .moves ih moves

variable (h : pool.Course flows last)
include h

theorem accounted : recovered flows + last.backing.toNat = pool.backing.toNat + credited flows := by
  induction h with
  | start => exact Nat.zero_add _
  | moves course moves ih =>
    have hbacking := moves.backing
    rw [recovered_concat, credited_concat]
    omega

theorem stranded (hsome : 0 < pool.circulating.toNat) (hnone : last.circulating.toNat = 0) :
    last.backing.toNat = credited (afterBurns flows) := by
  induction h with
  | start => exact absurd hnone hsome.ne'
  | @moves flows flow next last course moves ih =>
    rw [afterBurns_concat]
    split
    · next hunits =>
      -- the units were gone before, and this step can only have added coins
      have hcirculating := moves.circulating
      have hbacking := moves.backing
      have hrecovered := moves.recovered_eq_zero hunits
      have hbefore := ih (by omega)
      rw [credited_concat]
      omega
    · next hunits => exact moves.drained (Nat.pos_of_ne_zero hunits) hnone

end Course

section Drained

variable {amount : Word} (hnone : pool.circulating = 0)
include hnone

theorem backingFor_of_drained (amount : Word) : pool.backingFor amount = .ok 0 := by
  rw [backingFor, redeemable?_eq, hnone]
  rfl

theorem floorPrice_of_drained : pool.floorPrice = .ok 0 := by
  rw [floorPrice_eq_backingFor, backingFor_of_drained hnone]

theorem redeem_of_drained (hamount : amount ≠ 0) : pool.redeem amount = .error (.burnExceedsSupply amount 0) := by
  have hexceeds : pool.circulating < amount := by
    rw [hnone, BitVec.lt_def]
    exact Nat.pos_of_ne_zero fun hzero => hamount (BitVec.eq_of_toNat_eq hzero)
  exact redeem_eq_error.mpr (.inr ⟨⟨0, backingFor_of_drained hnone amount⟩, hexceeds, by rw [hnone]⟩)

end Drained

end BackedToken.Pool
