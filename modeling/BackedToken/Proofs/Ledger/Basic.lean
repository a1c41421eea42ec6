import BackedToken.Proofs.History.Events
import Mathlib.Logic.Function.Basic

/-! A ledger of tokens: one record for each token and one balance for each account, without slots, journals or views.
-/

namespace BackedToken

structure Ledger.Record where
  backing : Word
  supply : Word
  burned : Word
  plan : FeePlan
  burned_le : burned ≤ supply

structure Ledger where
  record? : Address → Option Ledger.Record
  balance : Address → Word
  nonce : Address → UInt64
  codeSize : Address → UInt64

namespace Ledger

def inWord (n : Nat) : Except Rejection Word := if n < 2 ^ 256 then .ok (BitVec.ofNat 256 n) else .error .overflow

def refuseIf (condition : Prop) [Decidable condition] (rejection : Rejection) : Except Rejection Unit :=
  if condition then .error rejection else .ok ()

def decoded {α : Type} (result : Except Payload.Fault α) : Except Rejection α := result.mapError .malformedPayload

def named (selector : Bytes) : Except Rejection Method :=
  match Method.ofSelector? selector with
  | some m => .ok m
  | none => .error (.unknownSelector selector)

namespace Record

variable (record : Record)

def circulating : Nat := record.supply.toNat - record.burned.toNat

def worth (units : Nat) : Nat :=
  if record.circulating = 0 then 0 else units * record.backing.toNat / record.circulating

theorem burned_add_le {amount : Word} (h : amount.toNat ≤ record.circulating) :
    record.burned + amount ≤ record.supply := by
  have hburned := BitVec.le_def.mp record.burned_le
  have hsupply := record.supply.isLt
  rw [circulating] at h
  rw [BitVec.le_def, BitVec.toNat_add, Nat.mod_eq_of_lt (by omega)]
  omega

def redeem (amount : Word) : Except Rejection (Record × Word) := do
  let paid ← inWord (record.worth amount.toNat)
  if h : amount.toNat ≤ record.circulating then
    pure ({ record with
      backing := record.backing - paid
      burned := record.burned + amount
      burned_le := record.burned_add_le h }, paid)
  else throw (.burnExceedsSupply amount (BitVec.ofNat 256 record.circulating))

def credit (amount : Word) : Except Rejection Record := do
  let backing ← inWord (record.backing.toNat + amount.toNat)
  pure { record with backing }

def ofTerms (terms : Terms) : Record where
  backing := terms.initialBacking
  supply := terms.supply
  burned := 0
  plan := terms.plan
  burned_le := BitVec.le_def.mpr (Nat.zero_le _)

def pool (token : Address) : Pool := .native token record.backing record.supply record.burned

end Record

variable (l : Ledger)

def setRecord (token : Address) (record : Record) : Ledger :=
  { l with record? := Function.update l.record? token (some record) }

def setBalance (account : Address) (amount : Word) : Ledger :=
  { l with balance := Function.update l.balance account amount }

def plan (token : Address) : FeePlan := ((l.record? token).map Record.plan).getD {}

def lookup (token : Address) : Except Rejection Record :=
  match l.record? token with
  | some record => .ok record
  | none => .error (.poolNotFound token)

def withdraw (account : Address) (amount : Word) : Except Rejection Ledger := do
  refuseIf (l.balance account < amount) (.host (.balanceInsufficient account amount (l.balance account)))
  pure (l.setBalance account (l.balance account - amount))

def deposit (account : Address) (amount : Word) : Except Rejection Ledger := do
  refuseIf (2 ^ 256 ≤ (l.balance account).toNat + amount.toNat) (.host (.balanceOverflow account))
  pure (l.setBalance account (l.balance account + amount))

def pay (source target : Address) (amount : Word) : Except Rejection Ledger := do
  let paid ← l.withdraw source amount
  paid.deposit target amount

section Calls

variable (settings : Settings) (context : Context) (args payload : Bytes) (limit : Gas)

def create : Except Rejection (Bytes × Ledger) := do
  refuseIf (context.caller = 0) .zeroCaller
  let terms ← decoded (Terms.ofArguments args)
  terms.validate
  refuseIf (l.balance context.caller < terms.initialBacking)
    (.insufficientBalance terms.initialBacking (l.balance context.caller))
  let token := terms.tokenAddress context.caller (l.nonce context.caller)
  refuseIf (0 < l.codeSize token ∨ (l.record? token).isSome = true) (.tokenExists token)
  let paid ← l.pay context.caller settings.custodian terms.initialBacking
  pure (token.word.bytes, paid.setRecord token (.ofTerms terms))

def burn : Except Rejection (Bytes × Ledger) := do
  let (token, amount) ← decoded (Call.tokenAmount args)
  let record ← l.lookup token
  let (rest, recovered) ← record.redeem amount
  let paid ← l.pay settings.custodian context.caller recovered
  pure (recovered.bytes, paid.setRecord token rest)

def backing : Except Rejection Bytes := do
  let (token, amount) ← decoded (Call.tokenAmount args)
  let record ← l.lookup token
  let worth ← inWord (record.worth amount.toNat)
  pure worth.bytes

def floorPrice : Except Rejection Bytes := do
  let token ← decoded (Call.oneAddress args)
  let record ← l.lookup token
  let price ← inWord (record.worth (10 ^ coinDecimals))
  pure price.bytes

def perform : Method → Except Rejection (Bytes × Ledger)
  | .create => l.create settings context args
  | .burn => l.burn settings context args
  | .backing => (l.backing args).map (·, l)
  | .floorPrice => (l.floorPrice args).map (·, l)

def execute : Except Rejection (Receipt × Ledger) := do
  let (selector, args) ← decoded (Payload.split payload)
  let m ← named selector
  let gas := settings.tariff.cost payload.length m
  refuseIf (limit < gas) (.outOfGas gas limit)
  refuseIf (context.value ≠ 0) (.nonPayable context.value)
  refuseIf (m.mutates = true ∧ context.isStatic = true) .readOnly
  let (output, l) ← l.perform settings context args m
  pure (⟨gas, output⟩, l)

end Calls

def credit (token : Address) (amount : Word) : Except Rejection (Pool × Ledger) := do
  let record ← l.lookup token
  let credited ← record.credit amount
  pure (credited.pool token, l.setRecord token credited)

def step (settings : Settings) (l : Ledger) : Event → Response × Ledger
  | .call context payload limit =>
    match l.execute settings context payload limit with
    | .ok (receipt, l') => (.called (.ok receipt), l')
    | .error rejection => (.called (.error rejection), l)
  | .credit token amount =>
    match l.credit token amount with
    | .ok (pool, l') => (.credited (.ok pool), l')
    | .error rejection => (.credited (.error rejection), l)
  | .setBalance account amount => (.changed, l.setBalance account amount)
  | .setNonce account nonce => (.changed, { l with nonce := Function.update l.nonce account nonce })
  | .setCodeSize account size => (.changed, { l with codeSize := Function.update l.codeSize account size })

def outcomes {σ : Type} (step : σ → Event → Response × σ) (s : σ) : List Event → List (Response × σ)
  | [] => []
  | event :: rest => step s event :: outcomes step (step s event).2 rest

def opening (w : World) : Ledger := ⟨fun _ => none, w.balance, w.nonce, w.codeSize⟩

end Ledger

end BackedToken
