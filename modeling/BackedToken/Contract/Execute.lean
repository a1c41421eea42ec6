import BackedToken.Contract.Operation
import BackedToken.Host.Layers

/-! A mutating method runs on a journal and a query on a frozen view, so the host changes only when a mutating call
succeeds. -/

namespace BackedToken

structure Receipt where
  gasUsed : Gas
  output : Bytes
  deriving DecidableEq

namespace Contract

open Attempt (ofPayload reject rejectIf)

variable {σ : Type} [Host σ]

def methodOf (selector : Bytes) : Attempt σ Method :=
  match Method.ofSelector? selector with
  | some m => pure m
  | none => reject (.unknownSelector selector)

def perform (settings : Settings) (context : Context) (args : Bytes) : Method → Attempt σ Bytes
  | .create => Journal.atomically (create settings context args)
  | .burn => Journal.atomically (burn settings context args)
  | .backing => Frozen.view (backing args)
  | .floorPrice => Frozen.view (floorPrice args)

def handle (settings : Settings) (context : Context) (payload : Bytes) (limit : Gas) : Attempt σ Receipt := do
  let (selector, args) ← ofPayload (Payload.split payload)
  let m ← methodOf selector
  let gas := settings.tariff.cost payload.length m
  rejectIf (limit < gas) (.outOfGas gas limit)
  rejectIf (context.value ≠ 0) (.nonPayable context.value)
  rejectIf (m.mutates = true ∧ context.isStatic = true) .readOnly
  let output ← perform settings context args m
  pure ⟨gas, output⟩

def execute (settings : Settings) (context : Context) (payload : Bytes) (limit : Gas) : Attempt σ Receipt := fun s =>
  match handle settings context payload limit s with
  | .ok receipt s => .ok receipt s
  | .error rejection s => .error rejection (Host.record (.rejected context.caller rejection) s)

/-- Runs a call as its caller sees it: the reason of a rejection is not told. -/
def run (settings : Settings) (context : Context) (payload : Bytes) (limit : Gas) : EStateM Failure σ Receipt :=
  EStateM.adaptExcept Rejection.failure (execute settings context payload limit)

end Contract

end BackedToken
