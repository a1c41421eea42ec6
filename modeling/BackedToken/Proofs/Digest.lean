import BackedToken.Proofs.Numbers
import Mathlib.Algebra.BigOperators.Group.List.Basic

/-! The digest with the lanes of each round written out, for evaluation in proofs. -/

namespace BackedToken

namespace Keccak

def mixed : Lanes → Lanes
  | [a0, a1, a2, a3, a4, b0, b1, b2, b3, b4, c0, c1, c2, c3, c4, d0, d1, d2, d3, d4, e0, e1, e2, e3, e4] =>
    let p0 := a0 ^^^ b0 ^^^ c0 ^^^ d0 ^^^ e0
    let p1 := a1 ^^^ b1 ^^^ c1 ^^^ d1 ^^^ e1
    let p2 := a2 ^^^ b2 ^^^ c2 ^^^ d2 ^^^ e2
    let p3 := a3 ^^^ b3 ^^^ c3 ^^^ d3 ^^^ e3
    let p4 := a4 ^^^ b4 ^^^ c4 ^^^ d4 ^^^ e4
    let r0 := rotate p0 1
    let r1 := rotate p1 1
    let r2 := rotate p2 1
    let r3 := rotate p3 1
    let r4 := rotate p4 1
    [a0 ^^^ p4 ^^^ r1, a1 ^^^ p0 ^^^ r2, a2 ^^^ p1 ^^^ r3, a3 ^^^ p2 ^^^ r4, a4 ^^^ p3 ^^^ r0,
      b0 ^^^ p4 ^^^ r1, b1 ^^^ p0 ^^^ r2, b2 ^^^ p1 ^^^ r3, b3 ^^^ p2 ^^^ r4, b4 ^^^ p3 ^^^ r0,
      c0 ^^^ p4 ^^^ r1, c1 ^^^ p0 ^^^ r2, c2 ^^^ p1 ^^^ r3, c3 ^^^ p2 ^^^ r4, c4 ^^^ p3 ^^^ r0,
      d0 ^^^ p4 ^^^ r1, d1 ^^^ p0 ^^^ r2, d2 ^^^ p1 ^^^ r3, d3 ^^^ p2 ^^^ r4, d4 ^^^ p3 ^^^ r0,
      e0 ^^^ p4 ^^^ r1, e1 ^^^ p0 ^^^ r2, e2 ^^^ p1 ^^^ r3, e3 ^^^ p2 ^^^ r4, e4 ^^^ p3 ^^^ r0]
  | lanes => mixColumns lanes

def scattered : Lanes → Lanes
  | [a0, a1, a2, a3, a4, b0, b1, b2, b3, b4, c0, c1, c2, c3, c4, d0, d1, d2, d3, d4, e0, e1, e2, e3, e4] =>
    [rotate a0 0, rotate b1 44, rotate c2 43, rotate d3 21, rotate e4 14,
      rotate a3 28, rotate b4 20, rotate c0 3, rotate d1 45, rotate e2 61,
      rotate a1 1, rotate b2 6, rotate c3 25, rotate d4 8, rotate e0 18,
      rotate a4 27, rotate b0 36, rotate c1 10, rotate d2 15, rotate e3 56,
      rotate a2 62, rotate b3 55, rotate c4 39, rotate d0 41, rotate e1 2]
  | lanes => scatter lanes

def combined : Lanes → Lanes
  | [a0, a1, a2, a3, a4, b0, b1, b2, b3, b4, c0, c1, c2, c3, c4, d0, d1, d2, d3, d4, e0, e1, e2, e3, e4] =>
    [a0 ^^^ (~~~a1 &&& a2), a1 ^^^ (~~~a2 &&& a3), a2 ^^^ (~~~a3 &&& a4), a3 ^^^ (~~~a4 &&& a0), a4 ^^^ (~~~a0 &&& a1),
      b0 ^^^ (~~~b1 &&& b2), b1 ^^^ (~~~b2 &&& b3), b2 ^^^ (~~~b3 &&& b4), b3 ^^^ (~~~b4 &&& b0), b4 ^^^ (~~~b0 &&& b1),
      c0 ^^^ (~~~c1 &&& c2), c1 ^^^ (~~~c2 &&& c3), c2 ^^^ (~~~c3 &&& c4), c3 ^^^ (~~~c4 &&& c0), c4 ^^^ (~~~c0 &&& c1),
      d0 ^^^ (~~~d1 &&& d2), d1 ^^^ (~~~d2 &&& d3), d2 ^^^ (~~~d3 &&& d4), d3 ^^^ (~~~d4 &&& d0), d4 ^^^ (~~~d0 &&& d1),
      e0 ^^^ (~~~e1 &&& e2), e1 ^^^ (~~~e2 &&& e3), e2 ^^^ (~~~e3 &&& e4), e3 ^^^ (~~~e4 &&& e0), e4 ^^^ (~~~e0 &&& e1)]
  | lanes => combineRows lanes

theorem mixed_eq (lanes : Lanes) : mixed lanes = mixColumns lanes := by
  unfold mixed
  split <;> rfl

theorem scattered_eq (lanes : Lanes) : scattered lanes = scatter lanes := by
  unfold scattered
  split <;> rfl

theorem combined_eq (lanes : Lanes) : combined lanes = combineRows lanes := by
  unfold combined
  split <;> rfl

def unrolledRound (lanes : Lanes) (constant : UInt64) : Lanes :=
  addConstant constant (combined (scattered (mixed lanes)))

theorem unrolledRound_eq : unrolledRound = round := by
  funext lanes constant
  rw [unrolledRound, mixed_eq, scattered_eq, combined_eq, round]

def unrolledAbsorb (lanes : Lanes) (block : Bytes) : Lanes :=
  roundConstants.foldl unrolledRound (List.zipWith (· ^^^ ·) lanes (blockLanes block))

theorem unrolledAbsorb_eq : unrolledAbsorb = absorb := by
  funext lanes block
  rw [unrolledAbsorb, unrolledRound_eq, absorb, permute]

theorem length_tabulate (f : Nat → Nat → UInt64) : (tabulate f).length = 25 := by simp [tabulate]

theorem length_addConstant (constant : UInt64) (lanes : Lanes) : (addConstant constant lanes).length = lanes.length := by
  cases lanes <;> rfl

theorem length_round (lanes : Lanes) (constant : UInt64) : (round lanes constant).length = 25 := by
  rw [round, length_addConstant, combineRows, length_tabulate]

theorem length_permute {lanes : Lanes} (h : lanes.length = 25) : (permute lanes).length = 25 :=
  List.foldlRecOn (motive := fun lanes => lanes.length = 25) _ round h fun lanes _ constant _ =>
    length_round lanes constant

theorem length_absorb {lanes : Lanes} (h : lanes.length = 25) (block : Bytes) : (absorb lanes block).length = 25 := by
  apply length_permute
  simp [blockLanes, h]

theorem length_lanesBytes (lanes : Lanes) : (lanes.flatMap laneBytes).length = lanes.length * 8 := by
  simp [List.length_flatMap, laneBytes]

theorem length_digest (bytes : Bytes) : (digest bytes).length = 32 := by
  have hlanes : ((blocks (pad bytes)).foldl absorb (List.replicate 25 0)).length = 25 :=
    List.foldlRecOn (motive := fun lanes => lanes.length = 25) _ absorb rfl fun lanes h block _ => length_absorb h block
  rw [digest, length_lanesBytes, List.length_take, hlanes]
  rfl

end Keccak

theorem Word.bytes_digest (bytes : Bytes) : (Word.digest bytes).bytes = Keccak.digest bytes :=
  bytes_ofBytes (Keccak.length_digest bytes)

theorem Word.digest_eq (bytes : Bytes) : Word.digest bytes =
    .ofBytes ((((Keccak.blocks (Keccak.pad bytes)).foldl Keccak.unrolledAbsorb (List.replicate 25 0)).take 4).flatMap
      Keccak.laneBytes) := by
  rw [Word.digest, Keccak.digest, Keccak.unrolledAbsorb_eq]

end BackedToken
