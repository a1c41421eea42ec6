import BackedToken.Word

namespace BackedToken.Payload

def padded (n : Nat) : Nat := (n + (Word.size - 1)) / Word.size * Word.size

def dynamicSize (n : Nat) : Nat := Word.size + padded n

inductive Piece
  | raw (bytes : Bytes)
  | word (w : Word)
  | number (n : Nat)
  | address (a : Address)
  | flag (b : Bool)
  | dynamic (bytes : Bytes)

namespace Piece

def bytes : Piece → Bytes
  | raw bytes => bytes
  | word w => w.bytes
  | number n => Word.bytes (BitVec.ofNat 256 n)
  | address a => a.word.bytes
  | flag b => (Word.ofBool b).bytes
  | dynamic bytes =>
    Word.bytes (BitVec.ofNat 256 bytes.length) ++ bytes ++ List.replicate (padded bytes.length - bytes.length) 0

def size : Piece → Nat
  | raw bytes => bytes.length
  | dynamic bytes => dynamicSize bytes.length
  | _ => Word.size

end Piece

def write (pieces : List Piece) : Bytes := pieces.flatMap Piece.bytes

theorem le_padded (n : Nat) : n ≤ padded n := by
  simp only [padded, Word.size]
  omega

theorem Piece.length_bytes (p : Piece) : p.bytes.length = p.size := by
  cases p with
  | dynamic bytes =>
    have h := le_padded bytes.length
    simp only [Piece.bytes, Piece.size, dynamicSize, List.length_append, Word.length_bytes, List.length_replicate, Word.size]
    omega
  | _ => simp [Piece.bytes, Piece.size, Word.length_bytes, Word.size]

theorem write_cons (p : Piece) (pieces : List Piece) : write (p :: pieces) = p.bytes ++ write pieces := rfl

end BackedToken.Payload
