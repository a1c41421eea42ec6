import BackedToken.Host.Basic

/-! A monitor lists the requests that reach a host, and can be set to fail one of them. -/

namespace BackedToken

namespace Host

/-- A failure to come: the first request of the kind after `passes` more of them. -/
structure Trap where
  kind : Kind
  passes : Nat
  reason : String

end Host

structure Monitor (σ : Type) where
  host : σ
  takesBatches : Bool := false
  trap : Option Host.Trap := none
  requests : List Host.Request := []
  notices : List Notice := []

namespace Monitor

open Host (Action Request Trap)

variable {σ ε α : Type}

def below (step : EStateM ε σ α) : EStateM ε (Monitor σ) α :=
  Host.within Monitor.host (fun s m => { m with host := s }) step

def arrive (request : Request) : Action (Monitor σ) Unit :=
  modify fun m => { m with requests := m.requests ++ [request] }

def checkTrap (request : Request) : Action (Monitor σ) Unit := fun m =>
  match m.trap with
  | none => .ok () m
  | some trap =>
    if trap.kind ≠ request.kind then .ok () m
    else if trap.passes = 0 then .error (.backend trap.reason) { m with trap := none }
    else .ok () { m with trap := some { trap with passes := trap.passes - 1 } }

variable [Host σ]

def pass (request : Request) : Action (Monitor σ) request.Reply := do
  arrive request
  checkTrap request
  below (Host.perform request)

def perform : (request : Request) → Action (Monitor σ) request.Reply
  | .writeAll account writes => fun m =>
    if m.takesBatches then pass (.writeAll account writes) m
    else (writes.forM fun e => pass (.write account e.1 e.2)) m
  | request => pass request

instance : Host (Monitor σ) where
  perform := perform
  record notice m := { m with notices := m.notices ++ [notice] }

end Monitor

end BackedToken
