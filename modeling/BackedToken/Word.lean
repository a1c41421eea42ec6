import BackedToken.Bytes
import BackedToken.Keccak

namespace BackedToken

abbrev Word := BitVec 256

abbrev Address := BitVec 160

inductive Misspelling
  | digits
  | wordSize
  | addressSize
  deriving DecidableEq, Repr

def Misspelling.message : Misspelling → String
  | digits => "Invalid hex string"
  | wordSize => "Invalid hash"
  | addressSize => "Invalid address"

namespace Word

def size : Nat := 32

def bytes (w : Word) : Bytes := Bytes.bigEndian size w.toNat

def ofBytes (bytes : Bytes) : Word := BitVec.ofNat 256 bytes.value

def ofNat? (n : Nat) : Option Word :=
  if (BitVec.ofNat 256 n).toNat = n then some (BitVec.ofNat 256 n) else none

def ofBool (b : Bool) : Word := if b then 1 else 0

def saturatingAdd (a b : Word) : Word := (ofNat? (a.toNat + b.toNat)).getD (BitVec.allOnes 256)

def address (w : Word) : Address := w.setWidth 160

def digits (w : Word) : List Char := Hex.encode w.bytes

def text (w : Word) : String := String.ofList w.digits

def decimal (w : Word) : String := toString w.toNat

def parse (text : String) : Except Misspelling Word :=
  match Hex.decode (Hex.unmarked text.toList) with
  | none => .error .digits
  | some bytes => if bytes.length = size then .ok (ofBytes bytes) else .error .wordSize

def digest (bytes : Bytes) : Word := ofBytes (Keccak.digest bytes)

theorem length_bytes (w : Word) : w.bytes.length = 32 := Bytes.length_bigEndian _ _

end Word

namespace Address

def size : Nat := 20

def bytes (a : Address) : Bytes := Bytes.bigEndian size a.toNat

def ofBytes (bytes : Bytes) : Address := BitVec.ofNat 160 bytes.value

def word (a : Address) : Word := a.setWidth 256

def digits (a : Address) : List Char := Hex.encode a.bytes

def text (a : Address) : String := String.ofList ('0' :: 'x' :: a.digits)

def parse (text : String) : Except Misspelling Address :=
  match Hex.decode (Hex.unmarked text.toList) with
  | none => .error .digits
  | some bytes => if bytes.length = size then .ok (ofBytes bytes) else .error .addressSize

theorem address_word (a : Address) : a.word.address = a := by
  apply BitVec.eq_of_toNat_eq
  have h := a.isLt
  simp only [word, Word.address, BitVec.toNat_setWidth]
  omega

theorem length_bytes (a : Address) : a.bytes.length = 20 := Bytes.length_bigEndian _ _

end Address

end BackedToken
