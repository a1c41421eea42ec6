import BackedToken.Contract.Call
import BackedToken.Contract.Settings
import BackedToken.Pool
import BackedToken.Storage.Records
import BackedToken.Token.Terms

namespace BackedToken

structure Context where
  caller : Address
  value : Word := 0
  isStatic : Bool := false

namespace Contract

open Attempt (ask ofPayload ofResult reject rejectIf)

variable {σ : Type} [Host σ]

def move (source target : Address) (amount : Word) : Host.Action σ Unit :=
  if amount = 0 then pure ()
  else do
    Host.withdraw source amount
    Host.deposit target amount

def requireCover (caller : Address) (amount : Word) : Attempt σ Unit :=
  if amount = 0 then pure ()
  else do
    let balance ← ask (Host.balance caller)
    rejectIf (balance < amount) (.insufficientBalance amount balance)

def isTaken (token : Address) : Host.Action σ Bool := do
  let size ← Host.codeSize token
  if 0 < size then pure true
  else
    let pool ← Pool.find? token
    pure pool.isSome

def existingPool (token : Address) : Attempt σ Pool := do
  match ← ask (Pool.find? token) with
  | some pool => pure pool
  | none => reject (.poolNotFound token)

def create (settings : Settings) (context : Context) (args : Bytes) : Attempt σ Bytes := do
  rejectIf (context.caller = 0) .zeroCaller
  let terms ← ofPayload (Terms.ofArguments args)
  ofResult terms.validate
  requireCover context.caller terms.initialBacking
  let nonce ← ask (Host.nonce context.caller)
  let token := terms.tokenAddress context.caller nonce
  let taken ← ask (isTaken token)
  rejectIf (taken = true) (.tokenExists token)
  ask (Pool.native token terms.initialBacking terms.supply 0).store
  ask (move context.caller settings.custodian terms.initialBacking)
  ask (terms.plan.store token)
  Host.log (.created token terms)
  pure token.word.bytes

def burn (settings : Settings) (context : Context) (args : Bytes) : Attempt σ Bytes := do
  let (token, amount) ← ofPayload (Call.tokenAmount args)
  let pool ← existingPool token
  let (pool, recovered) ← ofResult (pool.redeem amount)
  ask pool.store
  ask (move settings.custodian context.caller recovered)
  Host.log (.burned token context.caller amount recovered pool.backing)
  pure recovered.bytes

def backing (args : Bytes) : Attempt σ Bytes := do
  let (token, amount) ← ofPayload (Call.tokenAmount args)
  let pool ← existingPool token
  let worth ← ofResult (pool.backingFor amount)
  pure worth.bytes

def floorPrice (args : Bytes) : Attempt σ Bytes := do
  let token ← ofPayload (Call.oneAddress args)
  let pool ← existingPool token
  let price ← ofResult pool.floorPrice
  pure price.bytes

/-- Adds to the backing of a pool. The host credits the custodian with the same coins. -/
def credit (token : Address) (amount : Word) : Attempt σ Pool := do
  let pool ← existingPool token
  let pool ← ofResult (pool.addBacking amount)
  ask pool.store
  Host.log (.credited token amount pool.backing)
  pure pool

def summary (token : Address) : Attempt σ Pool.Summary := do
  let pool ← existingPool token
  ofResult pool.summary

end Contract

end BackedToken
