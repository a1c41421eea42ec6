import BackedToken.Proofs.Payload.Fixed

/-! Reading with positions of 64 bits, where sums, differences and slices may have no result. -/

namespace BackedToken

theorem Word.word_address_eq_iff {w : Word} : w.address.word = w ↔ w.bytes.take 12 = List.replicate 12 0 := by
  have hnumber : w.bytes.numberAt 0 = w.toNat := by
    have hwhole : w.bytes.take size = w.bytes := List.take_of_length_le (Nat.le_of_eq w.length_bytes)
    rw [Bytes.numberAt, List.drop_zero, hwhole, value_bytes]
  have hlow : w.address.word.toNat = w.toNat % 2 ^ 160 := by
    rw [Address.toNat_word, address, BitVec.toNat_setWidth]
  have hinside : 0 + Word.size ≤ w.bytes.length := Nat.le_of_eq w.length_bytes.symm
  rw [← BitVec.toNat_inj, hlow, Nat.mod_eq_iff_lt (by decide), ← hnumber, Bytes.numberAt_lt_iff hinside, List.drop_zero]

namespace Payload

/-- A reading that may fail, and is `none` where an operation has no result. -/
abbrev Guarded (α : Type) := ExceptT Fault Option α

namespace Guarded

variable {α β : Type}

def settled (r : Except Fault α) : Guarded α := ExceptT.mk (some r)

def within (p : Prop) [Decidable p] (a : α) : Guarded α := if p then pure a else ExceptT.mk none

def sum (m n : Nat) : Guarded Nat := within (m + n < UInt64.size) (m + n)

def difference (m n : Nat) : Guarded Nat := within (n ≤ m) (m - n)

def narrow (w : Word) : Guarded Nat := within (w.toNat < UInt64.size) w.toNat

def slice (bytes : Bytes) (start stop : Nat) : Guarded Bytes :=
  within (start ≤ stop ∧ stop ≤ bytes.length) ((bytes.drop start).take (stop - start))

def filling (size : Nat) (bytes : Bytes) : Guarded Bytes := within (bytes.length = size) bytes

def checked (n : Nat) : Guarded Nat := if n < UInt64.size then pure n else throw .range

def wordAt (b : Block) (offset : Nat) : Guarded Word := do
  let stop ← checked (offset + Word.size)
  settled (b.need stop)
  let word ← filling Word.size (← slice b.bytes offset stop)
  pure (Word.ofBytes word)

def word (b : Block) (index : Nat) : Guarded Word := do
  let offset ← checked (index * Word.size)
  wordAt b offset

def address (b : Block) (index : Nat) : Guarded Address := do
  let w ← word b index
  let padding ← slice w.bytes 0 (Word.size - Address.size)
  if padding.any (· != 0) then throw .address
  let low ← filling Address.size (← slice w.bytes (Word.size - Address.size) Word.size)
  pure (Address.ofBytes low)

def flag (b : Block) (index : Nat) : Guarded Bool := do
  let w ← word b index
  if w = 0 then pure false else if w = 1 then pure true else throw .flag

def bounded (w : Word) (bound : Nat) : Guarded Nat := if bound < w.toNat then throw .range else narrow w

def offset (b : Block) (index : Nat) : Guarded Nat := do
  bounded (← word b index) b.size

def tail (b : Block) (index : Nat) : Guarded Block := do
  let start ← offset b index
  pure ⟨← slice b.bytes start b.size⟩

def dynamic (b : Block) (index : Nat) : Guarded Bytes := do
  let start ← offset b index
  let w ← wordAt b start
  let start ← sum start Word.size
  let length ← bounded w (← difference b.size start)
  slice b.bytes start (← sum start length)

def text (b : Block) (index : Nat) : Guarded String := do
  match Bytes.text? (← dynamic b index) with
  | some text => pure text
  | none => throw .text

section Rules

theorem settled_bind {r : Except Fault α} {f : α → Guarded β} {g : α → Except Fault β}
    (h : ∀ a, r = .ok a → f a = settled (g a)) : (settled r >>= f) = settled (r >>= g) := by
  cases r with
  | ok a => exact h a rfl
  | error fault => rfl

variable {p : Prop} [Decidable p] {a : α}

theorem within_of (h : p) : within p a = settled (.ok a) := if_pos h

theorem within_bind {f : α → Guarded β} (h : p) : (within p a >>= f) = f a := by
  rw [within_of h]
  rfl

theorem checked_bind {n : Nat} {f : Nat → Guarded β} (h : n < UInt64.size) : (checked n >>= f) = f n := by
  rw [checked, if_pos h]
  rfl

theorem checked_bind_of_ge {n : Nat} {f : Nat → Guarded β} (h : UInt64.size ≤ n) :
    (checked n >>= f) = settled (.error .range) := by
  rw [checked, if_neg (Nat.not_lt.mpr h)]
  rfl

end Rules

theorem bounded_eq {w : Word} {bound : Nat} (h : bound < UInt64.size) : bounded w bound = settled (Block.bounded w bound) := by
  rw [bounded, Block.bounded]
  split
  · rfl
  · next hw => exact within_of (Nat.lt_of_le_of_lt (Nat.not_lt.mp hw) h)

variable {b : Block} (hb : b.size + Word.size < UInt64.size)

theorem wordAt_eq {start : Nat} (h : start + Word.size < UInt64.size) : wordAt b start = settled (b.wordAt start) := by
  rw [wordAt, checked_bind h]
  apply settled_bind
  intro _ hneed
  have hinside := Block.need_eq_ok.mp hneed
  have hstop : start + Word.size - start = Word.size := Nat.add_sub_cancel_left ..
  have hlength : ((b.bytes.drop start).take Word.size).length = Word.size := by
    rw [List.length_take, List.length_drop, Nat.min_eq_left]
    exact Nat.le_sub_of_add_le' hinside
  rw [slice, within_bind ⟨Nat.le_add_right .., hinside⟩, hstop, filling, within_bind hlength]
  rfl

include hb

theorem word_eq (index : Nat) : word b index = settled (b.word index) := by
  have hindex : index * Word.size + Word.size = Word.size * (index + 1) := by rw [Nat.mul_comm, Nat.mul_succ]
  by_cases hstop : Word.size * (index + 1) < UInt64.size
  · have hcond : ¬(b.size < Word.size * (index + 1) ∧ UInt64.size ≤ Word.size * (index + 1)) :=
      not_and_of_not_right _ (Nat.not_le.mpr hstop)
    rw [word, checked_bind (by omega), wordAt_eq (by omega), Block.word, if_neg hcond, Nat.mul_comm]
  · have hcond : b.size < Word.size * (index + 1) ∧ UInt64.size ≤ Word.size * (index + 1) := by omega
    rw [Block.word, if_pos hcond]
    -- either the start of the word or its end is no position
    by_cases hstart : index * Word.size < UInt64.size
    · rw [word, checked_bind hstart, wordAt, checked_bind_of_ge (by omega)]
    · rw [word, checked_bind_of_ge (Nat.not_lt.mp hstart)]

theorem address_eq (index : Nat) : address b index = settled (b.address index) := by
  rw [address, word_eq hb]
  apply settled_bind
  intro w _
  have hlength := w.length_bytes
  have hpadding : Word.size - Address.size = 12 := rfl
  have hlow : ((w.bytes.drop 12).take (Word.size - 12)).length = Address.size := by
    rw [List.length_take, List.length_drop, hlength]
    rfl
  have hzeros : (w.bytes.take 12).any (· != 0) = false ↔ w.address.word = w := by
    rw [Word.word_address_eq_iff, List.eq_replicate_iff, List.any_eq_false]
    simp [hlength]
  have hrest : (w.bytes.drop 12).take (Word.size - 12) = w.address.bytes := by
    rw [Word.bytes_address, List.take_of_length_le]
    rw [List.length_drop, hlength]
    exact Nat.le_refl _
  rw [hpadding, slice, within_bind (by omega), slice, within_bind (by rw [hlength]; decide), filling, within_bind hlow,
    hrest, Address.ofBytes_bytes, List.drop_zero]
  by_cases hpadded : w.address.word = w
  · rw [hzeros.mpr hpadded, if_pos hpadded]
    rfl
  · rw [Bool.of_not_eq_false (mt hzeros.mp hpadded), if_neg hpadded]
    rfl

theorem flag_eq (index : Nat) : flag b index = settled (b.flag index) := by
  rw [flag, word_eq hb]
  apply settled_bind
  intro w _
  split
  · rfl
  · split <;> rfl

theorem offset_eq (index : Nat) : offset b index = settled (b.offset index) := by
  rw [offset, word_eq hb]
  apply settled_bind
  intro w _
  exact bounded_eq (by omega)

theorem tail_eq (index : Nat) : tail b index = settled (b.tail index) := by
  rw [tail, offset_eq hb]
  apply settled_bind
  intro start hstart
  obtain ⟨_, hle, rfl⟩ := Block.offset_eq_ok.mp hstart
  have hrest : (b.bytes.drop (b.bytes.numberAt (Word.size * index))).length = b.size - b.bytes.numberAt (Word.size * index) :=
    List.length_drop
  rw [slice, within_bind ⟨hle, Nat.le_refl _⟩, ← hrest, List.take_length]
  rfl

theorem dynamic_eq (index : Nat) : dynamic b index = settled (b.dynamic index) := by
  rw [dynamic, offset_eq hb]
  apply settled_bind
  intro offset hoffset
  obtain ⟨_, hle, hnumber⟩ := Block.offset_eq_ok.mp hoffset
  rw [wordAt_eq (by omega)]
  apply settled_bind
  intro w hw
  have hstart := (Block.wordAt_eq_ok.mp hw).1
  rw [sum, within_bind (by omega), difference, within_bind hstart, bounded_eq (by omega)]
  apply settled_bind
  intro length hlength
  obtain ⟨hfits, rfl⟩ := Block.bounded_eq_ok.mp hlength
  have hstop : offset + Word.size + w.toNat ≤ b.size := by omega
  have hcount : offset + Word.size + w.toNat - (offset + Word.size) = w.toNat := Nat.add_sub_cancel_left ..
  rw [sum, within_bind (by omega), slice, within_of ⟨Nat.le_add_right .., hstop⟩, hcount]
  rfl

theorem text_eq (index : Nat) : text b index = settled (b.text index) := by
  rw [text, dynamic_eq hb]
  apply settled_bind
  intro content _
  cases Bytes.text? content <;> rfl

end Guarded

end Payload

end BackedToken
