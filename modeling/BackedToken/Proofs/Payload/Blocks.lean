import BackedToken.Contract.Call
import BackedToken.Proofs.Numbers

namespace BackedToken

namespace Payload

theorem bind_eq_ok {ε α β : Type} {x : Except ε α} {f : α → Except ε β} {b : β} :
    (x >>= f) = .ok b ↔ ∃ a, x = .ok a ∧ f a = .ok b := by
  cases x with
  | ok a => exact ⟨fun h => ⟨a, rfl, h⟩, fun ⟨_, ha, h⟩ => Except.ok.inj ha ▸ h⟩
  | error e => exact ⟨nofun, nofun⟩

namespace Block

variable (before after : Bytes)

theorem wordAt_append (w : Word) : wordAt ⟨before ++ w.bytes ++ after⟩ before.length = .ok w := by
  have hlong : ¬(before ++ w.bytes ++ after).length < before.length + Word.size := by
    rw [List.length_append, List.length_append, Word.length_bytes, Word.size]
    omega
  have hword : ((before ++ w.bytes ++ after).drop before.length).take Word.size = w.bytes := by
    rw [List.append_assoc, List.drop_left, ← (show w.bytes.length = Word.size from w.length_bytes), List.take_left]
  simp only [wordAt, need, size, hlong, if_false, hword, Word.ofBytes_bytes]
  rfl

theorem word_append {index : Nat} (h : before.length = Word.size * index) (w : Word) :
    word ⟨before ++ w.bytes ++ after⟩ index = .ok w := by
  have hlong : ¬(before ++ w.bytes ++ after).length < Word.size * (index + 1) := by
    rw [List.length_append, List.length_append, Word.length_bytes, h, Word.size]
    omega
  rw [word, size, if_neg (not_and_of_not_left _ hlong), ← h]
  exact wordAt_append before after w

theorem address_of_word {b : Block} {index : Nat} {a : Address} (h : b.word index = .ok a.word) :
    b.address index = .ok a := by
  simp only [address, h, bind, Except.bind, Address.address_word, if_true]
  rfl

theorem address_append {index : Nat} (h : before.length = Word.size * index) (a : Address) :
    address ⟨before ++ a.word.bytes ++ after⟩ index = .ok a :=
  address_of_word (word_append before after h a.word)

end Block

end Payload

namespace Call

open Payload (Block)

theorem tokenAmount_write (token : Address) (amount : Word) :
    tokenAmount (Payload.write [.address token, .word amount]) = .ok (token, amount) := by
  have hwrite : Payload.write [.address token, .word amount] = token.word.bytes ++ amount.bytes ++ [] := by
    simp [Payload.write, Payload.Piece.bytes]
  have hblock : Block.ofArguments (token.word.bytes ++ amount.bytes ++ []) 2 =
      .ok ⟨token.word.bytes ++ amount.bytes ++ []⟩ := by
    simp only [Block.ofArguments, Block.need, Block.size, List.length_append, Word.length_bytes]
    rfl
  have htoken : Block.address ⟨[] ++ token.word.bytes ++ (amount.bytes ++ [])⟩ 0 = .ok token :=
    Block.address_append [] _ rfl token
  rw [List.nil_append, ← List.append_assoc] at htoken
  have hamount : Block.word ⟨token.word.bytes ++ amount.bytes ++ []⟩ 1 = .ok amount :=
    Block.word_append _ [] (Word.length_bytes _) amount
  simp only [tokenAmount, hwrite, hblock, htoken, hamount, bind, Except.bind]
  rfl

theorem oneAddress_write (token : Address) : oneAddress (Payload.write [.address token]) = .ok token := by
  have hwrite : Payload.write [.address token] = [] ++ token.word.bytes ++ [] := by
    simp [Payload.write, Payload.Piece.bytes]
  have hblock : Block.ofArguments ([] ++ token.word.bytes ++ []) 1 = .ok ⟨[] ++ token.word.bytes ++ []⟩ := by
    simp only [Block.ofArguments, Block.need, Block.size, List.length_append, Word.length_bytes]
    rfl
  simp only [oneAddress, hwrite, hblock, bind, Except.bind]
  exact Block.address_append [] [] rfl token

end Call

end BackedToken
