import BackedToken.Proofs.Payload.Grammar

namespace BackedToken

namespace Bytes

variable {bytes : Bytes} {start index : Nat} (more : Bytes)

theorem drop_take_append {count : Nat} (h : start + count ≤ bytes.length) :
    ((bytes ++ more).drop start).take count = (bytes.drop start).take count := by
  rw [List.drop_append_of_le_length (Nat.le_of_add_right_le h), List.take_append_of_le_length]
  rw [List.length_drop]
  exact Nat.le_sub_of_add_le' h

theorem numberAt_append (h : start + Word.size ≤ bytes.length) :
    (bytes ++ more).numberAt start = bytes.numberAt start :=
  congrArg value (drop_take_append more h)

theorem numberAt_word_append (h : Word.size * (index + 1) ≤ bytes.length) :
    (bytes ++ more).numberAt (Word.size * index) = bytes.numberAt (Word.size * index) :=
  numberAt_append more h

namespace HoldsText

variable (h : bytes.HoldsText index)
include h

theorem end_le : bytes.numberAt (Word.size * index) + Word.size +
    bytes.numberAt (bytes.numberAt (Word.size * index)) ≤ bytes.length := by
  have hlength := h.length_inside
  have hcontent := h.content_inside
  omega

theorem length_content : (bytes.content index).length = bytes.numberAt (bytes.numberAt (Word.size * index)) := by
  have hend := h.end_le
  rw [content, List.length_take, List.length_drop]
  omega

variable (hhead : Word.size * (index + 1) ≤ bytes.length)
include hhead

theorem content_append : (bytes ++ more).content index = bytes.content index := by
  rw [content, content, numberAt_word_append more hhead, numberAt_append more h.length_inside]
  exact drop_take_append more h.end_le

theorem append : (bytes ++ more).HoldsText index where
  length_inside := by
    rw [numberAt_word_append more hhead, List.length_append]
    exact Nat.le_add_right_of_le h.length_inside
  content_inside := by
    rw [numberAt_word_append more hhead, numberAt_append more h.length_inside, List.length_append]
    have hend := h.end_le
    omega
  utf8 := h.content_append more hhead ▸ h.utf8

end HoldsText

end Bytes

theorem Payload.padded_lt (n : Nat) : padded n < n + Word.size := by
  rw [padded, Word.size]
  omega

namespace Terms

open Payload (Block)

variable {args : Bytes} {terms : Terms} (more : Bytes)

namespace Legible

variable (h : Legible args)
include h

theorem first_inside : Word.size ≤ args.length := by
  have haligned := h.aligned
  have hnonempty := h.nonempty
  rw [Word.size] at *
  omega

theorem length_append_mod : (args ++ more).length % Word.size = more.length % Word.size := by
  rw [List.length_append, Nat.add_mod, h.aligned, Nat.zero_add, Nat.mod_mod]

theorem tupleOf_append : tupleOf (args ++ more) = tupleOf args ++ more := by
  rw [tupleOf, Bytes.numberAt_append more (Nat.zero_add _ ▸ h.first_inside), List.drop_append_of_le_length h.offset]
  rfl

theorem numberAt_append {i : Nat} (hi : i < headWords) :
    (tupleOf args ++ more).numberAt (Word.size * i) = (tupleOf args).numberAt (Word.size * i) :=
  Bytes.numberAt_word_append more (head_inside h.head hi)

theorem padding_append {i : Nat} (hi : i < headWords) :
    ((tupleOf args ++ more).drop (Word.size * i)).take 12 = ((tupleOf args).drop (Word.size * i)).take 12 := by
  apply Bytes.drop_take_append
  have hword := head_inside h.head hi
  rw [Word.size] at *
  omega

theorem append (hmore : more.length % Word.size = 0) : Legible (args ++ more) where
  aligned := (h.length_append_mod more).trans hmore
  nonempty := List.length_append ▸ Nat.add_pos_left h.nonempty _
  offset := by
    rw [Bytes.numberAt_append more (Nat.zero_add _ ▸ h.first_inside), List.length_append]
    exact Nat.le_add_right_of_le h.offset
  head := by
    rw [h.tupleOf_append, List.length_append]
    exact Nat.le_add_right_of_le h.head
  backingAsset := by rw [h.tupleOf_append, h.padding_append more (by decide), h.backingAsset]
  owner := by rw [h.tupleOf_append, h.padding_append more (by decide), h.owner]
  onlySB := by rw [h.tupleOf_append, h.numberAt_append more (by decide)]; exact h.onlySB
  enableLGE := by rw [h.tupleOf_append, h.numberAt_append more (by decide)]; exact h.enableLGE
  name := by rw [h.tupleOf_append]; exact h.name.append more (head_inside h.head (by decide))
  symbol := by rw [h.tupleOf_append]; exact h.symbol.append more (head_inside h.head (by decide))

theorem spelled_append (hs : Spelled (tupleOf args) terms) : Spelled (tupleOf (args ++ more)) terms := by
  rw [h.tupleOf_append]
  have hrate : ∀ i, i < 12 → ratesIndex + i < headWords := by
    intro i hi
    rw [ratesIndex, headWords]
    omega
  constructor
  case name => rw [h.name.content_append more (head_inside h.head (by decide)), hs.name]
  case symbol => rw [h.symbol.content_append more (head_inside h.head (by decide)), hs.symbol]
  case rates => exact fun i hi => by rw [h.numberAt_append more (hrate i hi), hs.rates i hi]
  case supply => rw [h.numberAt_append more (by decide), hs.supply]
  case backingAsset => rw [h.numberAt_append more (by decide), hs.backingAsset]
  case initialBacking => rw [h.numberAt_append more (by decide), hs.initialBacking]
  case onlySB => rw [h.numberAt_append more (by decide), hs.onlySB]
  case owner => rw [h.numberAt_append more (by decide), hs.owner]
  case enableLGE => rw [h.numberAt_append more (by decide), hs.enableLGE]

end Legible

theorem ofArguments_append (h : ofArguments args = .ok terms) (hmore : more.length % Word.size = 0) :
    ofArguments (args ++ more) = .ok terms := by
  obtain ⟨hlegible, hspelled⟩ := legible_of_ofArguments h
  exact ofArguments_of_legible (hlegible.append more hmore) (hlegible.spelled_append more hspelled)

theorem ofArguments_of_unaligned (h : args.length % Word.size ≠ 0) : ofArguments args = .error (.unaligned args.length) := by
  simp only [ofArguments, Block.ofArguments, if_pos h, bind, Except.bind]

theorem tupleOf_write_pieces (terms : Terms) : tupleOf (Payload.write terms.pieces) = terms.tuple := by
  obtain ⟨_, _, htuple⟩ := Block.tail_eq_ok.mp (@tail_write_pieces terms)
  exact (congrArg Block.bytes htuple).symm

theorem symbol_end (hshort : terms.tuple.length < 2 ^ 256) :
    terms.tuple.numberAt (Word.size * 1) = terms.symbolOffset ∧
      terms.tuple.numberAt terms.symbolOffset = (Bytes.ofText terms.symbol).length := by
  have hoffset : (BitVec.ofNat 256 terms.symbolOffset).toNat = terms.tuple.numberAt (Word.size * 1) :=
    (Block.word_eq_ok.mp (word_tuple (by decide : 1 < headWords))).2
  have hlength := terms.length_tuple
  rw [BitVec.toNat_ofNat, Nat.mod_eq_of_lt (by rw [symbolOffset]; omega)] at hoffset
  obtain ⟨_, hholds, hsymbol⟩ := Block.text_eq_ok.mp (symbol_tuple hshort)
  refine ⟨hoffset.symm, ?_⟩
  rw [hsymbol, hholds.length_content, ← hoffset]

theorem eq_of_ofArguments_start (hshort : terms.tuple.length < 2 ^ 256) {front : Bytes} {decoded : Terms}
    (hfront : front <+: Payload.write terms.pieces) (h : ofArguments front = .ok decoded) :
    front = Payload.write terms.pieces := by
  obtain ⟨rest, hwhole⟩ := hfront
  obtain ⟨hlegible, _⟩ := legible_of_ofArguments h
  obtain ⟨haligned, _, _⟩ := Block.ofArguments_eq_ok.mp (@block_write_pieces terms)
  have htuple : tupleOf front ++ rest = terms.tuple := by
    rw [← hlegible.tupleOf_append, hwhole, tupleOf_write_pieces]
  obtain ⟨hoffset, hsymbol⟩ := symbol_end hshort
  have hstart : (tupleOf front).numberAt (Word.size * 1) = terms.symbolOffset := by
    rw [← hlegible.numberAt_append rest (by decide), htuple, hoffset]
  have hinside := hlegible.symbol.length_inside
  have hend := hlegible.symbol.end_le
  rw [hstart] at hinside hend
  rw [← Bytes.numberAt_append rest hinside, htuple, hsymbol] at hend
  -- the front holds the symbol to its last byte, so what is cut off is less than a word of padding
  have hlength := congrArg List.length htuple
  have hpadded := Payload.padded_lt (Bytes.ofText terms.symbol).length
  have hcut : rest.length < Word.size := by
    rw [List.length_append, length_tuple, Payload.dynamicSize] at hlength
    rw [symbolOffset, Payload.dynamicSize] at hend
    rw [Payload.dynamicSize] at hlength
    omega
  have hrest : rest = [] := by
    rw [← hwhole, hlegible.length_append_mod, Nat.mod_eq_of_lt hcut] at haligned
    exact List.length_eq_zero_iff.mp haligned
  rw [← hwhole, hrest, List.append_nil]

end Terms

namespace Call

theorem creation_extent :
    (∀ terms : Terms, (create terms).payload.length < UInt64.size →
      ∀ front, front <+: Payload.write terms.pieces → front ≠ Payload.write terms.pieces →
        ∃ fault, Terms.ofArguments front = .error fault) ∧
    ∀ (args : Bytes) (terms : Terms), Terms.ofArguments args = .ok terms → ∀ more : Bytes,
      (more.length % Word.size = 0 → Terms.ofArguments (args ++ more) = .ok terms) ∧
      (more.length % Word.size ≠ 0 →
        Terms.ofArguments (args ++ more) = .error (.unaligned (args.length + more.length))) := by
  refine ⟨fun terms hfits front hfront hproper => ?_, fun args terms h more => ⟨Terms.ofArguments_append more h, ?_⟩⟩
  · cases hread : Terms.ofArguments front with
    | error fault => exact ⟨fault, rfl⟩
    | ok decoded =>
      have hshort : terms.tuple.length < 2 ^ 256 := by
        rw [length_payload_create, Terms.write_pieces, List.length_append, UInt64.size] at hfits
        omega
      exact absurd (Terms.eq_of_ofArguments_start hshort hfront hread) hproper
  · intro hmore
    rw [← List.length_append]
    apply Terms.ofArguments_of_unaligned
    rwa [(Terms.legible_of_ofArguments h).1.length_append_mod]

theorem creation_extent_sample :
    let terms : Terms := { name := "", symbol := "ΩΩΩΩΩΩΩΩΩΩΩΩΩΩΩΩ", supply := 100 }
    let args := Payload.write terms.pieces
    (∃ fault, Terms.ofArguments (args.take 736) = .error fault) ∧
      Terms.ofArguments (args ++ List.replicate 64 255) = .ok terms ∧
      Terms.ofArguments (args ++ [0]) = .error (.unaligned 769) := by
  intro terms args
  have hlength : args.length = 768 := by
    rw [Terms.length_write_pieces]
    decide
  have hfits : (create terms).payload.length < UInt64.size := by
    rw [length_payload_create, hlength]
    decide
  have hread : Terms.ofArguments args = .ok terms := by
    apply Terms.ofArguments_write_pieces
    rw [hlength]
    decide
  have hproper : args.take 736 ≠ args := by
    intro h
    have := congrArg List.length h
    rw [List.length_take, hlength] at this
    omega
  obtain ⟨hcut, hextend⟩ := creation_extent
  refine ⟨hcut terms hfits _ ⟨_, List.take_append_drop ..⟩ hproper, (hextend args terms hread _).1 (by decide), ?_⟩
  rw [(hextend args terms hread [0]).2 (by decide), hlength]
  rfl

end Call

end BackedToken
