import BackedToken.Proofs.Contract.Selectors
import BackedToken.Proofs.Payload.Grammar

namespace BackedToken

theorem Bytes.take_add_eq_append {bytes front back : Bytes} {m n : Nat} (h : front.length = m) :
    bytes.take (m + n) = front ++ back ↔ bytes.take m = front ∧ (bytes.drop m).take n = back := by
  rw [List.take_add]
  constructor
  · intro happend
    have hlength : (bytes.take m).length = front.length := by
      have htotal := congrArg List.length happend
      simp only [List.length_append, List.length_take, List.length_drop] at htotal
      rw [List.length_take]
      omega
    exact List.append_inj happend hlength
  · rintro ⟨rfl, rfl⟩
    rfl

namespace Payload

namespace Block

variable {b : Block} {index : Nat}

theorem word_eq_ok_iff_bytes {w : Word} :
    b.word index = .ok w ↔ (b.bytes.drop (Word.size * index)).take Word.size = w.bytes := by
  rw [word_eq_ok, ← Word.toNat_ofBytes_take, BitVec.toNat_inj]
  constructor
  · rintro ⟨hinside, rfl⟩
    refine (Word.bytes_ofBytes ?_).symm
    rw [List.length_take, List.length_drop]
    rw [size, Word.size] at *
    omega
  · intro hbytes
    have hlength := congrArg List.length hbytes
    rw [List.length_take, List.length_drop, Word.length_bytes] at hlength
    refine ⟨?_, by rw [hbytes, Word.ofBytes_bytes]⟩
    rw [size, Word.size] at *
    omega

theorem address_eq_ok_iff_bytes {a : Address} :
    b.address index = .ok a ↔ (b.bytes.drop (Word.size * index)).take Word.size = a.word.bytes := by
  rw [address_eq_ok, ← Address.toNat_word, ← word_eq_ok, word_eq_ok_iff_bytes]

end Block

structure Exact {α : Type} (read : Bytes → Except Fault α) (written : α → Bytes) (size : Nat) : Prop where
  reads : ∀ args a, read args = .ok a ↔ args.length % 32 = 0 ∧ args.take size = written a
  followed : ∀ args a, read args = .ok a ↔ ∃ words, words.length % 32 = 0 ∧ args = written a ++ words
  undoes : ∀ a, read (written a) = .ok a
  injective : Function.Injective written

theorem Exact.of_reads {α : Type} {read : Bytes → Except Fault α} {written : α → Bytes} {size : Nat}
    (hsize : ∀ a, (written a).length = size) (hwords : size % 32 = 0)
    (hreads : ∀ args a, read args = .ok a ↔ args.length % 32 = 0 ∧ args.take size = written a) :
    Exact read written size := by
  have hundoes : ∀ a, read (written a) = .ok a := by
    intro a
    exact (hreads _ _).mpr ⟨hsize a ▸ hwords, List.take_of_length_le (Nat.le_of_eq (hsize a))⟩
  refine ⟨hreads, fun args a => ?_, hundoes, fun a a' h => ?_⟩
  · rw [hreads]
    constructor
    · rintro ⟨haligned, hfront⟩
      have hlength := congrArg List.length hfront
      rw [List.length_take, hsize] at hlength
      refine ⟨args.drop size, ?_, by rw [← hfront, List.take_append_drop]⟩
      rw [List.length_drop]
      omega
    · rintro ⟨words, haligned, rfl⟩
      refine ⟨?_, List.take_left' (hsize a)⟩
      rw [List.length_append, hsize]
      omega
  · exact Except.ok.inj ((hundoes a).symm.trans (h ▸ hundoes a'))

end Payload

namespace Call

open Payload (Block bind_eq_ok)
open Payload.Block (ofArguments_eq_ok address_eq_ok_iff_bytes word_eq_ok_iff_bytes)

variable {args : Bytes} {token : Address} {amount w : Word}

theorem drop_payload (call : Call) : call.payload.drop 4 = Payload.write call.pieces := by
  have hselector : call.method.selector.length = 4 := call.method.length_selector
  rw [payload, ← hselector, List.drop_left]

theorem write_tokenAmount (token : Address) (amount : Word) :
    Payload.write [.address token, .word amount] = token.word.bytes ++ amount.bytes := by
  simp [Payload.write, Payload.Piece.bytes]

theorem write_oneAddress (token : Address) : Payload.write [.address token] = token.word.bytes := by
  simp [Payload.write, Payload.Piece.bytes]

theorem block_eq_ok {α : Type} (words : Nat) {f : Block → Except Payload.Fault α} {front : Bytes} {a : α}
    (hlength : front.length = words * Word.size) (hf : f ⟨args⟩ = .ok a ↔ args.take (words * Word.size) = front) :
    (Block.ofArguments args words >>= f) = .ok a ↔
      args.length % 32 = 0 ∧ args.take (words * Word.size) = front := by
  constructor
  · intro h
    obtain ⟨_, hblock, h⟩ := bind_eq_ok.mp h
    obtain ⟨haligned, _, rfl⟩ := ofArguments_eq_ok.mp hblock
    exact ⟨haligned, hf.mp h⟩
  · rintro ⟨haligned, hfront⟩
    -- the words at the front are all there, so the block holds as many
    have hlong := congrArg List.length hfront
    rw [List.length_take, hlength] at hlong
    exact bind_eq_ok.mpr ⟨_, ofArguments_eq_ok.mpr ⟨haligned, by omega, rfl⟩, hf.mpr hfront⟩

theorem tokenAmount_eq_ok : tokenAmount args = .ok (token, amount) ↔
    args.length % 32 = 0 ∧ args.take 64 = token.word.bytes ++ amount.bytes := by
  apply block_eq_ok 2
  · rw [List.length_append, Word.length_bytes, Word.length_bytes]
    rfl
  · have htwo : 2 * Word.size = 32 + 32 := rfl
    rw [htwo, Bytes.take_add_eq_append token.word.length_bytes]
    constructor
    · intro h
      obtain ⟨_, htoken, h⟩ := bind_eq_ok.mp h
      obtain ⟨_, hamount, h⟩ := bind_eq_ok.mp h
      cases h
      exact ⟨address_eq_ok_iff_bytes.mp htoken, word_eq_ok_iff_bytes.mp hamount⟩
    · rintro ⟨htoken, hamount⟩
      refine bind_eq_ok.mpr ⟨_, address_eq_ok_iff_bytes.mpr htoken, ?_⟩
      exact bind_eq_ok.mpr ⟨_, word_eq_ok_iff_bytes.mpr hamount, rfl⟩

theorem oneAddress_eq_ok : oneAddress args = .ok token ↔ args.length % 32 = 0 ∧ args.take 32 = token.word.bytes := by
  apply block_eq_ok 1 (Word.length_bytes _)
  exact address_eq_ok_iff_bytes

theorem oneWord_eq_ok : oneWord args = .ok w ↔ args.length % 32 = 0 ∧ args.take 32 = w.bytes := by
  apply block_eq_ok 1 (Word.length_bytes _)
  exact word_eq_ok_iff_bytes

theorem fixed_arguments_exact :
    Payload.Exact tokenAmount (fun p : Address × Word => (backing p.1 p.2).payload.drop 4) 64 ∧
    Payload.Exact tokenAmount (fun p : Address × Word => (burn p.1 p.2).payload.drop 4) 64 ∧
    Payload.Exact oneAddress (fun token => (floorPrice token).payload.drop 4) 32 ∧
    Payload.Exact oneAddress (fun token => token.word.bytes) 32 ∧
    Payload.Exact oneWord Word.bytes 32 := by
  have hpair : Payload.Exact tokenAmount (fun p : Address × Word => p.1.word.bytes ++ p.2.bytes) 64 := by
    refine .of_reads (fun p => ?_) rfl fun args p => tokenAmount_eq_ok
    rw [List.length_append, Word.length_bytes, Word.length_bytes]
  have haddress : Payload.Exact oneAddress (fun token => token.word.bytes) 32 :=
    .of_reads (fun token => token.word.length_bytes) rfl fun _ _ => oneAddress_eq_ok
  simp only [drop_payload, pieces, write_tokenAmount, write_oneAddress]
  exact ⟨hpair, hpair, haddress, haddress, .of_reads Word.length_bytes rfl fun _ _ => oneWord_eq_ok⟩

example : Call.tokenAmount ((Call.burn 2 7).payload.drop 4 ++ List.replicate 32 9) = .ok (2, 7) := by decide +kernel

end Call

end BackedToken
