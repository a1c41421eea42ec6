import BackedToken.Proofs.Payload.Extent
import Mathlib.Order.Bounds.Defs

namespace BackedToken

namespace Payload

theorem padded_isLeast (n : Nat) : IsLeast {m | Word.size ∣ m ∧ n ≤ m} (padded n) := by
  constructor
  · exact ⟨Dvd.intro_left _ rfl, le_padded n⟩
  · rintro m ⟨⟨k, rfl⟩, hm⟩
    have hlt := padded_lt n
    have hdvd : padded n % Word.size = 0 := Nat.mul_mod_left _ _
    rw [Word.size] at *
    omega

theorem length_write_concat (pieces : List Piece) (p : Piece) :
    (write (pieces ++ [p])).length = (write pieces).length + p.size := by
  simp [write, p.length_bytes]

theorem bytes_dynamic (content : Bytes) : ∃ padding < Word.size, (Piece.dynamic content).bytes =
    Word.bytes (BitVec.ofNat 256 content.length) ++ content ++ List.replicate padding 0 := by
  refine ⟨padded content.length - content.length, ?_, rfl⟩
  have hlt := padded_lt content.length
  have hpos : 0 < Word.size := by decide
  omega

theorem dynamic_found_anywhere :
    (∀ pieces p, (write (pieces ++ [p])).length = (write pieces).length + p.size) ∧
    (∀ content, (Piece.dynamic content).size = dynamicSize content.length) ∧
    (∀ n, IsLeast {m | Word.size ∣ m ∧ n ≤ m} (padded n)) ∧
    (∀ content, ∃ padding < Word.size, (Piece.dynamic content).bytes =
      Word.bytes (BitVec.ofNat 256 content.length) ++ content ++ List.replicate padding 0) ∧
    ∀ (before content after : Bytes) (index : Nat), content.length < 2 ^ 256 →
      Word.size * (index + 1) ≤ before.length → before.numberAt (Word.size * index) = before.length →
      Block.dynamic ⟨before ++ (Piece.dynamic content).bytes ++ after⟩ index = .ok content := by
  refine ⟨length_write_concat, fun _ => rfl, padded_isLeast, bytes_dynamic, ?_⟩
  intro before content after index hcontent hinside hposition
  have hword : Block.word ⟨before ++ (Piece.dynamic content).bytes ++ after⟩ index =
      .ok (BitVec.ofNatLT _ (before.numberAt_lt (Word.size * index))) := by
    apply Block.word_eq_ok.mpr
    rw [List.append_assoc, Bytes.numberAt_word_append _ hinside, BitVec.toNat_ofNatLT]
    refine ⟨?_, rfl⟩
    rw [Block.size, List.length_append]
    exact Nat.le_add_right_of_le hinside
  apply Block.dynamic_append hword _ hcontent
  rw [BitVec.toNat_ofNatLT, hposition]

theorem dynamic_found_sample :
    let before := Word.bytes 7 ++ Word.bytes 64
    let content := List.replicate 32 5
    content.length < 2 ^ 256 ∧ Word.size * 2 ≤ before.length ∧ before.numberAt (Word.size * 1) = before.length ∧
      Block.dynamic ⟨before ++ (Piece.dynamic content).bytes ++ [9]⟩ 1 = .ok content := by
  intro before content
  have hshort : content.length < 2 ^ 256 := by decide
  have hinside : Word.size * 2 ≤ before.length := by decide
  have hposition : before.numberAt (Word.size * 1) = before.length := by decide
  exact ⟨hshort, hinside, hposition, dynamic_found_anywhere.2.2.2.2 before content [9] 1 hshort hinside hposition⟩

end Payload

end BackedToken
