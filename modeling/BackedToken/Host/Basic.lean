import BackedToken.Notice

/-! Hosts answer requests. An answer may fail and may change the host, a read included, so views of hosts are hosts
themselves. -/

namespace BackedToken

namespace Host

inductive Request
  | read (account : Address) (key : Word)
  | write (account : Address) (key value : Word)
  | writeAll (account : Address) (writes : List (Word × Word))
  | balance (account : Address)
  | deposit (account : Address) (amount : Word)
  | withdraw (account : Address) (amount : Word)
  | nonce (account : Address)
  | codeSize (account : Address)
  deriving DecidableEq

inductive Kind
  | read
  | write
  | writeAll
  | balance
  | deposit
  | withdraw
  | nonce
  | codeSize
  deriving DecidableEq, Repr

namespace Request

abbrev Reply : Request → Type
  | read _ _ => Word
  | write _ _ _ => Unit
  | writeAll _ _ => Unit
  | balance _ => Word
  | deposit _ _ => Unit
  | withdraw _ _ => Unit
  | nonce _ => UInt64
  | codeSize _ => UInt64

def kind : Request → Kind
  | read _ _ => .read
  | write _ _ _ => .write
  | writeAll _ _ => .writeAll
  | balance _ => .balance
  | deposit _ _ => .deposit
  | withdraw _ _ => .withdraw
  | nonce _ => .nonce
  | codeSize _ => .codeSize

def mutates : Request → Bool
  | write _ _ _ | writeAll _ _ | deposit _ _ | withdraw _ _ => true
  | _ => false

end Request

abbrev Action (σ α : Type) := EStateM Fault σ α

end Host

class Host (σ : Type) where
  perform (request : Host.Request) : Host.Action σ request.Reply
  record (notice : Notice) : σ → σ

namespace Host

variable {σ τ ε α : Type} [Host σ]

def read (account : Address) (key : Word) : Action σ Word := perform (.read account key)

def write (account : Address) (key value : Word) : Action σ Unit := perform (.write account key value)

def writeAll (account : Address) (writes : List (Word × Word)) : Action σ Unit := perform (.writeAll account writes)

def balance (account : Address) : Action σ Word := perform (.balance account)

def deposit (account : Address) (amount : Word) : Action σ Unit := perform (.deposit account amount)

def withdraw (account : Address) (amount : Word) : Action σ Unit := perform (.withdraw account amount)

def nonce (account : Address) : Action σ UInt64 := perform (.nonce account)

def codeSize (account : Address) : Action σ UInt64 := perform (.codeSize account)

def log (notice : Notice) : EStateM ε σ Unit := fun s => .ok () (record notice s)

def within (get : τ → σ) (set : σ → τ → τ) (step : EStateM ε σ α) : EStateM ε τ α := fun t =>
  match step (get t) with
  | .ok a s => .ok a (set s t)
  | .error e s => .error e (set s t)

end Host

abbrev Attempt (σ α : Type) := EStateM Rejection σ α

namespace Attempt

variable {σ α : Type}

def reject (rejection : Rejection) : Attempt σ α := throw rejection

def rejectIf (condition : Prop) [Decidable condition] (rejection : Rejection) : Attempt σ Unit :=
  if condition then reject rejection else pure ()

def ask (step : Host.Action σ α) : Attempt σ α := EStateM.adaptExcept .host step

def ofResult : Except Rejection α → Attempt σ α
  | .ok a => pure a
  | .error rejection => reject rejection

def ofPayload : Except Payload.Fault α → Attempt σ α
  | .ok a => pure a
  | .error fault => reject (.malformedPayload fault)

end Attempt

end BackedToken
