import BackedToken.Word
import Mathlib.Algebra.Group.Nat.Defs

namespace BackedToken

namespace Bytes

theorem value_concat (bytes : Bytes) (b : UInt8) : value (bytes ++ [b]) = 256 * value bytes + b.toNat := by
  simp [value]

theorem value_bigEndian (width n : Nat) : value (bigEndian width n) = n % 256 ^ width := by
  induction width generalizing n with
  | zero => simp [bigEndian, value, Nat.mod_one]
  | succ width ih =>
    rw [bigEndian, value_concat, ih, Nat.pow_succ, Nat.mul_comm (256 ^ width), Nat.mod_mul, UInt8.toNat_ofNat']
    omega

theorem div_concat (n : Nat) (b : UInt8) : (256 * n + b.toNat) / 256 = n := by
  have hb : b.toNat < 256 := b.toNat_lt
  omega

theorem ofNat_concat (n : Nat) (b : UInt8) : UInt8.ofNat (256 * n + b.toNat) = b := by
  have hb : b.toNat < 256 := b.toNat_lt
  apply UInt8.toNat_inj.mp
  rw [UInt8.toNat_ofNat']
  omega

theorem bigEndian_value (bytes : Bytes) : bigEndian bytes.length (value bytes) = bytes := by
  obtain ⟨front, rfl⟩ : ∃ front : Bytes, bytes = front.reverse := ⟨bytes.reverse, by simp⟩
  induction front with
  | nil => rfl
  | cons b front ih =>
    rw [List.reverse_cons, value_concat, List.length_append, List.length_singleton, bigEndian, div_concat, ih,
      ofNat_concat]

theorem value_lt (bytes : Bytes) : value bytes < 256 ^ bytes.length := by
  have h := value_bigEndian bytes.length (value bytes)
  rw [bigEndian_value] at h
  rw [h]
  exact Nat.mod_lt _ (Nat.pow_pos (by decide))

theorem bigEndian_inj {width m n : Nat} (hm : m < 256 ^ width) (hn : n < 256 ^ width) :
    bigEndian width m = bigEndian width n ↔ m = n := by
  constructor
  · intro h
    have hvalue := congrArg value h
    rwa [value_bigEndian, value_bigEndian, Nat.mod_eq_of_lt hm, Nat.mod_eq_of_lt hn] at hvalue
  · rintro rfl
    rfl

theorem drop_bigEndian (front width n : Nat) : (bigEndian (front + width) n).drop front = bigEndian width n := by
  induction width generalizing n with
  | zero => exact List.drop_of_length_le (Nat.le_of_eq (length_bigEndian ..))
  | succ width ih =>
    rw [← Nat.add_assoc, bigEndian, List.drop_append_of_le_length, ih, bigEndian]
    rw [length_bigEndian]
    exact Nat.le_add_right ..

theorem bigEndian_mod (width n : Nat) : bigEndian width (n % 256 ^ width) = bigEndian width n := by
  have h := bigEndian_value (bigEndian width n)
  rwa [length_bigEndian, value_bigEndian] at h

end Bytes

namespace Word

theorem ofNat?_eq_some_iff {n : Nat} {w : Word} : ofNat? n = some w ↔ w.toNat = n := by
  by_cases h : (BitVec.ofNat 256 n).toNat = n
  · rw [ofNat?, if_pos h, Option.some.injEq, ← BitVec.toNat_inj, h]
    exact eq_comm
  · rw [ofNat?, if_neg h]
    have hne : w.toNat ≠ n := by
      rintro rfl
      exact h (by rw [BitVec.ofNat_toNat, BitVec.setWidth_eq])
    simp only [reduceCtorEq, hne]

theorem ofNat?_eq_none_iff {n : Nat} : ofNat? n = none ↔ 2 ^ 256 ≤ n := by
  rw [ofNat?, ite_eq_right_iff, BitVec.toNat_ofNat, Nat.mod_eq_iff_lt (by decide), ← Nat.not_lt]
  simp

theorem ofNat?_add_eq_some_iff {a b total : Word} :
    ofNat? (a.toNat + b.toNat) = some total ↔ a.toNat + b.toNat < 2 ^ 256 ∧ total = a + b := by
  rw [ofNat?_eq_some_iff]
  constructor
  · intro h
    have hlt : a.toNat + b.toNat < 2 ^ 256 := h ▸ total.isLt
    refine ⟨hlt, BitVec.eq_of_toNat_eq ?_⟩
    rw [h, BitVec.toNat_add, Nat.mod_eq_of_lt hlt]
  · rintro ⟨hlt, rfl⟩
    rw [BitVec.toNat_add, Nat.mod_eq_of_lt hlt]

theorem value_bytes (w : Word) : w.bytes.value = w.toNat := by
  rw [bytes, Bytes.value_bigEndian]
  exact Nat.mod_eq_of_lt w.isLt

theorem ofBytes_bytes (w : Word) : ofBytes w.bytes = w := by
  rw [ofBytes, value_bytes, BitVec.ofNat_toNat, BitVec.setWidth_eq]

theorem bytes_ofBytes {bs : Bytes} (h : bs.length = 32) : (ofBytes bs).bytes = bs := by
  have hlt := Bytes.value_lt bs
  have hval : (ofBytes bs).toNat = bs.value := by
    simp only [ofBytes, BitVec.toNat_ofNat]
    rw [h] at hlt
    omega
  have hbs := Bytes.bigEndian_value bs
  rw [h] at hbs
  rw [bytes, hval, size, hbs]

theorem bytes_address (w : Word) : w.address.bytes = w.bytes.drop 12 := by
  have hlow : w.address.toNat = w.toNat % 256 ^ Address.size := BitVec.toNat_setWidth ..
  rw [Address.bytes, hlow, Bytes.bigEndian_mod]
  exact (Bytes.drop_bigEndian 12 20 w.toNat).symm

end Word

namespace Address

theorem value_bytes (a : Address) : a.bytes.value = a.toNat := by
  rw [bytes, Bytes.value_bigEndian]
  exact Nat.mod_eq_of_lt a.isLt

theorem ofBytes_bytes (a : Address) : ofBytes a.bytes = a := by
  rw [ofBytes, value_bytes, BitVec.ofNat_toNat, BitVec.setWidth_eq]

theorem bytes_ofBytes {bs : Bytes} (h : bs.length = 20) : (ofBytes bs).bytes = bs := by
  have hlt := Bytes.value_lt bs
  have hbs := Bytes.bigEndian_value bs
  rw [h] at hlt hbs
  have hval : (ofBytes bs).toNat = bs.value := Nat.mod_eq_of_lt hlt
  rw [bytes, hval, size, hbs]

theorem bytes_inj {a b : Address} : a.bytes = b.bytes ↔ a = b :=
  (Function.LeftInverse.injective ofBytes_bytes).eq_iff

theorem eq_of_word_bytes {a b : Address} (h : a.word.bytes = b.word.bytes) : a = b := by
  have hword : a.word = b.word := by
    rw [← Word.ofBytes_bytes a.word, h, Word.ofBytes_bytes]
  rw [← address_word a, hword, address_word]

end Address

end BackedToken
