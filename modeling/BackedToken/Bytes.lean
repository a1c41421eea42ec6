namespace BackedToken

abbrev Bytes := List UInt8

namespace Bytes

def bigEndian : Nat → Nat → Bytes
  | 0, _ => []
  | width + 1, n => bigEndian width (n / 256) ++ [UInt8.ofNat n]

def value (bytes : Bytes) : Nat := bytes.foldl (fun n b => 256 * n + b.toNat) 0

def ofText (text : String) : Bytes := text.toByteArray.data.toList

def text? (bytes : Bytes) : Option String := String.fromUTF8? bytes.toByteArray

theorem length_bigEndian (width n : Nat) : (bigEndian width n).length = width := by
  induction width generalizing n with
  | zero => rfl
  | succ width ih => simp [bigEndian, ih]

end Bytes

namespace Hex

def digit (n : Nat) : Char := if n < 10 then Char.ofNat (48 + n) else Char.ofNat (87 + n)

def value? (c : Char) : Option Nat :=
  if 48 ≤ c.toNat ∧ c.toNat ≤ 57 then some (c.toNat - 48)
  else if 97 ≤ c.toNat ∧ c.toNat ≤ 102 then some (c.toNat - 87)
  else if 65 ≤ c.toNat ∧ c.toNat ≤ 70 then some (c.toNat - 55)
  else none

def encode (bytes : Bytes) : List Char := bytes.flatMap fun b => [digit (b.toNat / 16), digit (b.toNat % 16)]

def decode : List Char → Option Bytes
  | [] => some []
  | [_] => none
  | high :: low :: rest => do
    let high ← value? high
    let low ← value? low
    let bytes ← decode rest
    pure (UInt8.ofNat (16 * high + low) :: bytes)

def ofNat (n : Nat) : List Char := Nat.toDigits 16 n

def nat? (digits : List Char) : Option Nat := digits.foldlM (fun n c => (value? c).map (16 * n + ·)) 0

def padded (width n : Nat) : List Char := List.replicate (width - (ofNat n).length) '0' ++ ofNat n

def unmarked : List Char → List Char
  | '0' :: 'x' :: rest => rest
  | digits => digits

theorem value?_digit {n : Nat} (h : n < 16) : value? (digit n) = some n := by
  have all : ∀ i : Fin 16, value? (digit i) = some i.val := by decide
  exact all ⟨n, h⟩

theorem encode_cons (b : UInt8) (rest : Bytes) :
    encode (b :: rest) = digit (b.toNat / 16) :: digit (b.toNat % 16) :: encode rest := rfl

theorem decode_encode (bytes : Bytes) : decode (encode bytes) = some bytes := by
  induction bytes with
  | nil => rfl
  | cons b rest ih =>
    have hb : b.toNat < 256 := b.toNat_lt
    have hbyte : UInt8.ofNat (16 * (b.toNat / 16) + b.toNat % 16) = b := by
      rw [Nat.div_add_mod]
      exact UInt8.ofNat_toNat
    rw [encode_cons, decode, value?_digit (by omega), value?_digit (by omega), ih]
    exact congrArg (fun c => some (c :: rest)) hbyte

end Hex

end BackedToken
