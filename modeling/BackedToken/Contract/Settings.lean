import BackedToken.Contract.Method

namespace BackedToken

abbrev Gas := UInt64

namespace Gas

def clamp (n : Nat) : Gas := UInt64.ofNat (min n (UInt64.size - 1))

theorem toNat_clamp (n : Nat) : (clamp n).toNat = min n (UInt64.size - 1) := by
  rw [clamp, UInt64.toNat_ofNat_of_lt']
  rw [UInt64.size]
  omega

end Gas

structure Tariff where
  create : Gas := 100000
  perByte : Gas := 200
  backing : Gas := 5000
  burn : Gas := 30000
  floorPrice : Gas := 5000
  deriving DecidableEq

namespace Tariff

def cost (tariff : Tariff) (length : Nat) : Method → Gas
  | .create => Gas.clamp (tariff.create.toNat + (Gas.clamp ((length - Payload.selectorSize) * tariff.perByte.toNat)).toNat)
  | .backing => tariff.backing
  | .burn => tariff.burn
  | .floorPrice => tariff.floorPrice

def required (tariff : Tariff) (payload : Bytes) : Gas :=
  match Payload.split payload with
  | .ok (selector, _) =>
    match Method.ofSelector? selector with
    | some m => tariff.cost payload.length m
    | none => 0
  | .error _ => 0

end Tariff

def contractAddress : Address := 0x100

def contractName : String := "SmartDeFi Asset Backing"

structure Settings where
  /-- The account that holds the locked coins of every pool. -/
  custodian : Address := contractAddress
  tariff : Tariff := {}
  deriving DecidableEq

end BackedToken
