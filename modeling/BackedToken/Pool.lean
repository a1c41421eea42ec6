import BackedToken.Token.Terms

/-! Products are taken in full and quotients rounded down, so rounding favours the pool. -/

namespace BackedToken

def coinDecimals : Nat := 18

def coinValue : Word := BitVec.ofNat 256 (Nat.pow 10 coinDecimals)

structure Pool where
  token : Address
  asset : Address
  backing : Word
  supply : Word
  burned : Word
  assets : List Address
  amounts : List Word
  deriving DecidableEq

structure Pool.Summary where
  asset : Address
  backing : Word
  supply : Word
  burned : Word
  floorPrice : Word
  perToken : Word
  deriving DecidableEq

namespace Pool

def native (token : Address) (backing supply burned : Word) : Pool :=
  ⟨token, nativeCoin, backing, supply, burned, [nativeCoin], [backing]⟩

def isOpen (pool : Pool) : Bool := pool.supply ≠ 0

def circulating (pool : Pool) : Word := BitVec.ofNat 256 (pool.supply.toNat - pool.burned.toNat)

theorem toNat_circulating (pool : Pool) : pool.circulating.toNat = pool.supply.toNat - pool.burned.toNat := by
  have h := pool.supply.isLt
  rw [circulating, BitVec.toNat_ofNat]
  omega

def share (a b c : Word) : Except Rejection Word :=
  match Word.ofNat? (a.toNat * b.toNat / c.toNat) with
  | some quotient => .ok quotient
  | none => .error .overflow

def redeemable? (pool : Pool) : Option Word :=
  if pool.supply = 0 ∨ pool.circulating = 0 then none else some pool.circulating

def floorPrice (pool : Pool) : Except Rejection Word :=
  match pool.redeemable? with
  | some circulating => share pool.backing coinValue circulating
  | none => .ok 0

def backingFor (pool : Pool) (amount : Word) : Except Rejection Word :=
  match pool.redeemable? with
  | some circulating => share amount pool.backing circulating
  | none => .ok 0

def burn (pool : Pool) (amount : Word) : Except Rejection Pool :=
  if pool.circulating < amount then .error (.burnExceedsSupply amount pool.circulating)
  else match Word.ofNat? (pool.burned.toNat + amount.toNat) with
    | some burned => .ok (native pool.token pool.backing pool.supply burned)
    | none => .error .overflow

def redeem (pool : Pool) (amount : Word) : Except Rejection (Pool × Word) := do
  let recovered ← pool.backingFor amount
  let burned ← pool.burn amount
  if pool.backing < recovered then .error .underflow
  else
    let rest := pool.backing - recovered
    pure ({ burned with backing := rest, amounts := [rest] }, recovered)

def addBacking (pool : Pool) (amount : Word) : Except Rejection Pool :=
  match Word.ofNat? (pool.backing.toNat + amount.toNat) with
  | some backing => .ok (native pool.token backing pool.supply pool.burned)
  | none => .error .overflow

def summary (pool : Pool) : Except Rejection Summary := do
  let price ← pool.floorPrice
  let perToken ← pool.backingFor coinValue
  pure ⟨pool.asset, pool.backing, pool.supply, pool.burned, price, perToken⟩

end Pool

end BackedToken
