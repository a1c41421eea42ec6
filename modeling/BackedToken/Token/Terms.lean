import BackedToken.Rejection

namespace BackedToken

def nativeCoin : Address := 0

structure FeePlan where
  rates : Vector Word 12 := Vector.replicate 12 0
  onlySB : Bool := false
  owner : Address := 0
  enableLGE : Bool := false
  deriving DecidableEq

namespace FeePlan

def buyRates (plan : FeePlan) : List Word := plan.rates.toList.take 6

def sellRates (plan : FeePlan) : List Word := plan.rates.toList.drop 6

end FeePlan

structure Terms where
  name : String := ""
  symbol : String := ""
  supply : Word := 0
  backingAsset : Address := nativeCoin
  initialBacking : Word := 0
  plan : FeePlan := {}
  deriving DecidableEq

def basisPoints : Nat := 10000

def feeCap : Nat := 500

namespace Terms

def preimage (creator : Address) (nonce : UInt64) (terms : Terms) : Bytes :=
  creator.bytes ++ Bytes.bigEndian Word.size nonce.toNat ++ Bytes.ofText terms.name ++ Bytes.ofText terms.symbol ++
    terms.supply.bytes.dropWhile (· == 0)

def tokenAddress (creator : Address) (nonce : UInt64) (terms : Terms) : Address :=
  (Word.digest (terms.preimage creator nonce)).address

def sideTotal (rates : List Word) : Word := rates.foldl Word.saturatingAdd 0

def validate (terms : Terms) : Except Rejection Unit :=
  if terms.supply = 0 then .error .zeroSupply
  else if feeCap < (sideTotal terms.plan.buyRates).toNat then
    .error (.buyFeesTooHigh (sideTotal terms.plan.buyRates) feeCap)
  else if feeCap < (sideTotal terms.plan.sellRates).toNat then
    .error (.sellFeesTooHigh (sideTotal terms.plan.sellRates) feeCap)
  else if terms.backingAsset ≠ nativeCoin then .error (.unsupportedBackingAsset terms.backingAsset)
  else .ok ()

end Terms

end BackedToken
