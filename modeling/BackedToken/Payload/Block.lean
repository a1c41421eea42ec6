import BackedToken.Rejection
import BackedToken.Word

/-! Argument blocks are read by word index. A dynamic value is reached through the offset that its word holds. -/

namespace BackedToken.Payload

def selectorSize : Nat := 4

def split (payload : Bytes) : Except Fault (Bytes × Bytes) :=
  if payload.length < selectorSize then .error (.truncated selectorSize payload.length)
  else .ok (payload.take selectorSize, payload.drop selectorSize)

structure Block where
  bytes : Bytes

namespace Block

def size (b : Block) : Nat := b.bytes.length

def need (b : Block) (n : Nat) : Except Fault Unit :=
  if b.size < n then .error (.truncated n b.size) else .ok ()

def ofArguments (bytes : Bytes) (head : Nat) : Except Fault Block :=
  if bytes.length % Word.size ≠ 0 then .error (.unaligned bytes.length)
  else do
    need ⟨bytes⟩ (head * Word.size)
    pure ⟨bytes⟩

def wordAt (b : Block) (offset : Nat) : Except Fault Word := do
  b.need (offset + Word.size)
  pure (Word.ofBytes ((b.bytes.drop offset).take Word.size))

/-- A word beyond the block is out of range if its end is no 64-bit position. -/
def word (b : Block) (index : Nat) : Except Fault Word :=
  if b.size < Word.size * (index + 1) ∧ UInt64.size ≤ Word.size * (index + 1) then .error .range
  else b.wordAt (Word.size * index)

def address (b : Block) (index : Nat) : Except Fault Address := do
  let w ← b.word index
  if w.address.word = w then pure w.address else .error .address

def flag (b : Block) (index : Nat) : Except Fault Bool := do
  let w ← b.word index
  if w = 0 then pure false else if w = 1 then pure true else .error .flag

def bounded (w : Word) (bound : Nat) : Except Fault Nat :=
  if bound < w.toNat then .error .range else pure w.toNat

def offset (b : Block) (index : Nat) : Except Fault Nat := do
  bounded (← b.word index) b.size

def tail (b : Block) (index : Nat) : Except Fault Block := do
  let start ← b.offset index
  pure ⟨b.bytes.drop start⟩

def dynamic (b : Block) (index : Nat) : Except Fault Bytes := do
  let start ← b.offset index
  let length ← bounded (← b.wordAt start) (b.size - (start + Word.size))
  pure ((b.bytes.drop (start + Word.size)).take length)

def text (b : Block) (index : Nat) : Except Fault String := do
  match Bytes.text? (← b.dynamic index) with
  | some text => pure text
  | none => .error .text

end Block

end BackedToken.Payload
