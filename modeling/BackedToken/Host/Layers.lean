import BackedToken.Host.Basic
import BackedToken.Table

/-! Views that refuse every mutation, and journals that buffer the writes of one operation. -/

namespace BackedToken

structure Frozen (σ : Type) where
  host : σ

namespace Frozen

variable {σ ε α : Type}

def below (step : EStateM ε σ α) : EStateM ε (Frozen σ) α :=
  Host.within Frozen.host (fun s _ => ⟨s⟩) step

def perform [Host σ] (request : Host.Request) : Host.Action (Frozen σ) request.Reply :=
  if request.mutates then throw .writeProtected else below (Host.perform request)

instance [Host σ] : Host (Frozen σ) where
  perform := perform
  record notice v := ⟨Host.record notice v.host⟩

def view (operation : EStateM ε (Frozen σ) α) : EStateM ε σ α :=
  Host.within Frozen.mk (fun v _ => v.host) operation

end Frozen

structure Journal (σ : Type) where
  host : σ
  words : Table (Address × Word) Word := .empty
  balances : Table Address Word := .empty

namespace Journal

open Host (Action Request)

variable {σ ε α : Type}

def isEmpty (j : Journal σ) : Bool := j.words.isEmpty && j.balances.isEmpty

def below (step : EStateM ε σ α) : EStateM ε (Journal σ) α :=
  Host.within Journal.host (fun s j => { j with host := s }) step

def setWord (account : Address) (key value : Word) (j : Journal σ) : Journal σ :=
  { j with words := j.words.insert (account, key) value }

def setBalance (account : Address) (amount : Word) (j : Journal σ) : Journal σ :=
  { j with balances := j.balances.insert account amount }

variable [Host σ]

def balance (account : Address) : Action (Journal σ) Word := fun j =>
  match j.balances.get? account with
  | some amount => .ok amount j
  | none => below (Host.balance account) j

def perform : (request : Request) → Action (Journal σ) request.Reply
  | .read account key => fun j =>
    match j.words.get? (account, key) with
    | some value => .ok value j
    | none => below (Host.read account key) j
  | .write account key value => fun j => .ok () (j.setWord account key value)
  | .writeAll account writes => fun j => .ok () (writes.foldl (fun j e => j.setWord account e.1 e.2) j)
  | .balance account => balance account
  | .deposit account amount => do
    let current ← balance account
    match Word.ofNat? (current.toNat + amount.toNat) with
    | some total => modify (setBalance account total)
    | none => throw (.balanceOverflow account)
  | .withdraw account amount => do
    let current ← balance account
    if current < amount then throw (.balanceInsufficient account amount current)
    else modify (setBalance account (current - amount))
  | .nonce account => below (Host.nonce account)
  | .codeSize account => below (Host.codeSize account)

instance : Host (Journal σ) where
  perform := perform
  record notice j := { j with host := Host.record notice j.host }

def batches (words : List ((Address × Word) × Word)) : Table Address (List (Word × Word)) :=
  words.foldl (fun t e => t.insert e.1.1 ((t.get? e.1.1).getD [] ++ [(e.1.2, e.2)])) .empty

def flushWords (batch : Address × List (Word × Word)) : Action σ Unit := do
  Host.log (.committing batch.1 batch.2.length)
  Host.writeAll batch.1 batch.2

def flushBalance (entry : Address × Word) : Action σ Unit := do
  let current ← Host.balance entry.1
  if current < entry.2 then Host.deposit entry.1 (entry.2 - current)
  else if entry.2 < current then Host.withdraw entry.1 (current - entry.2)
  else pure ()

def flush (words : Table (Address × Word) Word) (balances : Table Address Word) : Action σ Unit := do
  (batches words.entries).entries.forM flushWords
  balances.entries.forM flushBalance

def commit (j : Journal σ) : EStateM.Result Host.Fault σ Unit := flush j.words j.balances j.host

def atomically (operation : Attempt (Journal σ) α) : Attempt σ α := fun s =>
  match operation { host := s } with
  | .error rejection j => .error rejection j.host
  | .ok a j =>
    match j.commit with
    | .ok () s => .ok a s
    | .error fault s => .error (.host fault) s

end Journal

end BackedToken
