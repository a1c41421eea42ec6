import BackedToken.Proofs.Contract.Selectors
import BackedToken.Proofs.Payload.Blocks
import Mathlib.Algebra.GroupWithZero.Nat

namespace BackedToken

namespace Bytes

theorem text?_ofText (text : String) : text? (ofText text) = some text := by
  have hbytes : (ofText text).toByteArray = text.toByteArray := by
    apply ByteArray.ext
    rw [ofText, List.data_toByteArray, Array.toArray_toList]
  rw [text?, hbytes, String.fromUTF8?, dif_pos text.isValidUTF8]
  rfl

theorem ofText_of_text? {bytes : Bytes} {text : String} (h : text? bytes = some text) : ofText text = bytes := by
  rw [text?, String.fromUTF8?] at h
  split at h
  · cases h
    exact congrArg Array.toList List.data_toByteArray
  · cases h

end Bytes

namespace Payload

theorem write_append (first rest : List Piece) : write (first ++ rest) = write first ++ write rest :=
  List.flatMap_append

theorem length_write (pieces : List Piece) : (write pieces).length = (pieces.map Piece.size).sum := by
  induction pieces with
  | nil => rfl
  | cons p rest ih => rw [write_cons, List.length_append, p.length_bytes, ih, List.map_cons, List.sum_cons]

theorem mapM_of_ok {ε α β : Type} {f : α → Except ε β} {g : α → β} {as : List α} (h : ∀ a ∈ as, f a = .ok (g a)) :
    as.mapM f = .ok (as.map g) := by
  induction as with
  | nil => rfl
  | cons a rest ih =>
    rw [List.forall_mem_cons] at h
    simp only [List.mapM_cons, h.1, ih h.2, bind, Except.bind]
    rfl

theorem le_dynamicSize (n : Nat) : n ≤ dynamicSize n := Nat.le_trans (le_padded n) (Nat.le_add_left ..)

theorem dynamicSize_mod (n : Nat) : dynamicSize n % Word.size = 0 := by
  rw [dynamicSize, padded, Nat.add_mul_mod_self_right, Nat.mod_self]

theorem dynamicSize_le (n : Nat) : dynamicSize n ≤ n + 2 * Word.size := by
  rw [dynamicSize, padded, Word.size]
  omega

theorem length_write_words (words : List Word) : (write (words.map .word)).length = Word.size * words.length := by
  have hsizes : (words.map Piece.word).map Piece.size = List.replicate words.length Word.size := by
    rw [List.map_map, ← List.map_const']
    rfl
  rw [length_write, hsizes, List.sum_replicate_nat, Nat.mul_comm]

namespace Block

theorem bounded_of_le {w : Word} {bound : Nat} (h : w.toNat ≤ bound) : bounded w bound = .ok w.toNat := by
  rw [bounded, if_neg (Nat.not_lt.mpr h)]
  rfl

section Words

variable (words : List Word) (rest : Bytes) {i : Nat}

theorem word_write (hi : i < words.length) : word ⟨write (words.map .word) ++ rest⟩ i = .ok words[i] := by
  have hwords : write (words.map .word) =
      write ((words.take i).map .word) ++ words[i].bytes ++ write ((words.drop (i + 1)).map .word) := by
    calc write (words.map .word)
        = write ((words.take i ++ words[i] :: words.drop (i + 1)).map .word) := by
          rw [← List.drop_eq_getElem_cons hi, List.take_append_drop]
      _ = _ := by
          rw [List.map_append, write_append, List.map_cons, write_cons, List.append_assoc]
          rfl
  have hbefore : (write ((words.take i).map .word)).length = Word.size * i := by
    rw [length_write_words, List.length_take_of_le (Nat.le_of_lt hi)]
  rw [hwords, List.append_assoc]
  exact word_append _ _ hbefore _

end Words

variable {b : Block} {index : Nat}

theorem flag_of_word {v : Bool} (h : b.word index = .ok (Word.ofBool v)) : b.flag index = .ok v := by
  simp only [flag, h, bind, Except.bind]
  cases v <;> rfl

theorem dynamic_append {before content after : Bytes} {w : Word}
    (hword : word ⟨before ++ (Piece.dynamic content).bytes ++ after⟩ index = .ok w) (hw : w.toNat = before.length)
    (hcontent : content.length < 2 ^ 256) :
    dynamic ⟨before ++ (Piece.dynamic content).bytes ++ after⟩ index = .ok content := by
  obtain ⟨padding, hpiece⟩ : ∃ padding, before ++ (Piece.dynamic content).bytes ++ after =
      before ++ Word.bytes (BitVec.ofNat 256 content.length) ++ (content ++ padding) :=
    ⟨List.replicate (padded content.length - content.length) 0 ++ after, by simp [Piece.bytes]⟩
  rw [hpiece] at hword ⊢
  have hlength : (BitVec.ofNat 256 content.length).toNat = content.length := by
    rw [BitVec.toNat_ofNat, Nat.mod_eq_of_lt hcontent]
  have hfront : (before ++ Word.bytes (BitVec.ofNat 256 content.length)).length = before.length + Word.size := by
    rw [List.length_append, Word.length_bytes, Word.size]
  have hsize : size ⟨before ++ Word.bytes (BitVec.ofNat 256 content.length) ++ (content ++ padding)⟩ =
      before.length + Word.size + (content.length + padding.length) := by
    rw [size, List.length_append, hfront, List.length_append]
  have hoffset : offset ⟨before ++ Word.bytes (BitVec.ofNat 256 content.length) ++ (content ++ padding)⟩ index =
      .ok before.length := by
    simp only [offset, hword, bind, Except.bind]
    rw [bounded_of_le (by omega), hw]
  have hbounded : bounded (BitVec.ofNat 256 content.length) (content.length + padding.length) = .ok content.length := by
    rw [bounded_of_le (by omega), hlength]
  simp only [dynamic, hoffset, wordAt_append, bind, Except.bind, hsize, Nat.add_sub_cancel_left, hbounded, ← hfront,
    List.drop_left, List.take_left]
  rfl

theorem text_of_dynamic {text : String} (h : b.dynamic index = .ok (Bytes.ofText text)) : b.text index = .ok text := by
  simp only [Block.text, h, bind, Except.bind, Bytes.text?_ofText]
  rfl

theorem bytes_of_ofArguments {args : Bytes} {count : Nat} (h : ofArguments args count = .ok b) : b.bytes = args := by
  rw [ofArguments] at h
  split at h
  · cases h
  · obtain ⟨_, _, h⟩ := bind_eq_ok.mp h
    cases h
    rfl

theorem size_tail_le {t : Block} (h : b.tail index = .ok t) : t.size ≤ b.size := by
  obtain ⟨start, _, h⟩ := bind_eq_ok.mp h
  cases h
  rw [size, size, List.length_drop]
  exact Nat.sub_le ..

theorem length_dynamic_le {content : Bytes} (h : b.dynamic index = .ok content) : content.length ≤ b.size := by
  obtain ⟨start, _, h⟩ := bind_eq_ok.mp h
  obtain ⟨w, _, h⟩ := bind_eq_ok.mp h
  obtain ⟨length, _, h⟩ := bind_eq_ok.mp h
  cases h
  rw [size, List.length_take, List.length_drop]
  exact Nat.le_trans (Nat.min_le_right ..) (Nat.sub_le ..)

theorem length_text_le {text : String} (h : b.text index = .ok text) : (Bytes.ofText text).length ≤ b.size := by
  obtain ⟨content, hcontent, h⟩ := bind_eq_ok.mp h
  split at h
  · next text' htext =>
    cases h
    rw [Bytes.ofText_of_text? htext]
    exact length_dynamic_le hcontent
  · cases h

end Block

end Payload

namespace Terms

open Payload (Block Piece)

variable {terms : Terms}

def head (terms : Terms) : List Word :=
  [BitVec.ofNat 256 nameOffset, BitVec.ofNat 256 terms.symbolOffset, terms.supply, terms.backingAsset.word,
    terms.initialBacking] ++ terms.plan.rates.toList ++
  [Word.ofBool terms.plan.onlySB, terms.plan.owner.word, Word.ofBool terms.plan.enableLGE]

def texts (terms : Terms) : List Piece := [.dynamic (Bytes.ofText terms.name), .dynamic (Bytes.ofText terms.symbol)]

def tuple (terms : Terms) : Bytes := Payload.write (terms.head.map .word) ++ Payload.write terms.texts

theorem length_head (terms : Terms) : terms.head.length = headWords := by
  simp [head, headWords]

theorem write_pieces (terms : Terms) :
    Payload.write terms.pieces = Payload.write ([BitVec.ofNat 256 Word.size].map .word) ++ terms.tuple := by
  simp [pieces, tuple, head, texts, Payload.write, Piece.bytes, List.flatMap_map]

theorem length_tuple (terms : Terms) : terms.tuple.length = nameOffset +
    (Payload.dynamicSize (Bytes.ofText terms.name).length + Payload.dynamicSize (Bytes.ofText terms.symbol).length) := by
  rw [tuple, List.length_append, Payload.length_write_words, length_head, Payload.length_write, nameOffset, Nat.mul_comm]
  rfl

theorem length_write_pieces (terms : Terms) : (Payload.write terms.pieces).length = (1 + headWords) * Word.size +
    Payload.dynamicSize (Bytes.ofText terms.name).length + Payload.dynamicSize (Bytes.ofText terms.symbol).length := by
  rw [write_pieces, List.length_append, Payload.length_write_words, length_tuple, nameOffset, Nat.add_mul]
  simp only [List.length_singleton]
  omega

theorem word_tuple {i : Nat} (hi : i < headWords) : Block.word ⟨terms.tuple⟩ i = .ok (terms.head.getD i 0) := by
  have hhead : i < terms.head.length := terms.length_head.symm ▸ hi
  rw [List.getD_eq_getElem?_getD, List.getElem?_eq_getElem hhead]
  exact Block.word_write _ _ hhead

theorem rates_tuple :
    (List.range 12).mapM (fun i => Block.word ⟨terms.tuple⟩ (ratesIndex + i)) = .ok terms.plan.rates.toList := by
  have hread : ∀ i ∈ List.range 12, Block.word ⟨terms.tuple⟩ (ratesIndex + i) = .ok (terms.plan.rates.toList.getD i 0) := by
    intro i hi
    rw [List.mem_range] at hi
    rw [word_tuple (by rw [ratesIndex, headWords]; omega)]
    simp [head, ratesIndex, Nat.add_comm 5 i, List.getElem?_append, hi]
  have hrates : (List.range 12).map (fun i => terms.plan.rates.toList.getD i 0) = terms.plan.rates.toList := by
    apply List.ext_getElem
    · simp
    · intro i hi _
      simp at hi
      simp [hi]
  rw [Payload.mapM_of_ok hread, hrates]

theorem text_tuple {before : Bytes} {text : String} {after : Bytes} {i : Nat} (hi : i < headWords)
    (htuple : terms.tuple = before ++ (Piece.dynamic (Bytes.ofText text)).bytes ++ after)
    (hoffset : terms.head.getD i 0 = BitVec.ofNat 256 before.length) (hshort : terms.tuple.length < 2 ^ 256) :
    Block.text ⟨terms.tuple⟩ i = .ok text := by
  have hword : Block.word ⟨terms.tuple⟩ i = .ok (BitVec.ofNat 256 before.length) := hoffset ▸ word_tuple hi
  have hlength := congrArg List.length htuple
  have hcontent := Payload.le_dynamicSize (Bytes.ofText text).length
  rw [List.length_append, List.length_append, Piece.length_bytes, Piece.size] at hlength
  apply Block.text_of_dynamic
  rw [htuple] at hword ⊢
  apply Block.dynamic_append hword
  · rw [BitVec.toNat_ofNat, Nat.mod_eq_of_lt (by omega)]
  · omega

theorem name_tuple (hshort : terms.tuple.length < 2 ^ 256) : Block.text ⟨terms.tuple⟩ 0 = .ok terms.name := by
  have htuple : terms.tuple = Payload.write (terms.head.map .word) ++ (Piece.dynamic (Bytes.ofText terms.name)).bytes ++
      (Piece.dynamic (Bytes.ofText terms.symbol)).bytes := by
    simp [tuple, texts, Payload.write]
  refine text_tuple (by decide) htuple ?_ hshort
  rw [Payload.length_write_words, length_head]
  rfl

theorem symbol_tuple (hshort : terms.tuple.length < 2 ^ 256) : Block.text ⟨terms.tuple⟩ 1 = .ok terms.symbol := by
  have htuple : terms.tuple = Payload.write (terms.head.map .word) ++ (Piece.dynamic (Bytes.ofText terms.name)).bytes ++
      (Piece.dynamic (Bytes.ofText terms.symbol)).bytes ++ [] := by
    simp [tuple, texts, Payload.write]
  refine text_tuple (by decide) htuple ?_ hshort
  rw [List.length_append, Payload.length_write_words, length_head, Piece.length_bytes]
  rfl

theorem block_write_pieces :
    Block.ofArguments (Payload.write terms.pieces) 1 = .ok ⟨Payload.write terms.pieces⟩ := by
  have hlength := terms.length_write_pieces
  have hname := Payload.dynamicSize_mod (Bytes.ofText terms.name).length
  have hsymbol := Payload.dynamicSize_mod (Bytes.ofText terms.symbol).length
  have haligned : (Payload.write terms.pieces).length % Word.size = 0 := by
    rw [Word.size] at *
    omega
  have hlong : ¬(Payload.write terms.pieces).length < 1 * Word.size := by
    rw [headWords, Word.size] at *
    omega
  rw [Block.ofArguments, if_neg (not_not.mpr haligned), Block.need, Block.size, if_neg hlong]
  rfl

theorem tail_write_pieces : Block.tail ⟨Payload.write terms.pieces⟩ 0 = .ok ⟨terms.tuple⟩ := by
  have hword : Block.word ⟨Payload.write terms.pieces⟩ 0 = .ok (BitVec.ofNat 256 Word.size) := by
    rw [write_pieces]
    exact Block.word_write [BitVec.ofNat 256 Word.size] _ (Nat.zero_lt_one)
  have hfront : (Payload.write ([BitVec.ofNat 256 Word.size].map .word)).length = Word.size :=
    Payload.length_write_words _
  have hoffset : Block.offset ⟨Payload.write terms.pieces⟩ 0 = .ok Word.size := by
    simp only [Block.offset, hword, bind, Except.bind]
    apply Block.bounded_of_le
    rw [Block.size, write_pieces, List.length_append, hfront]
    exact Nat.le_add_right ..
  have hdrop : (Payload.write terms.pieces).drop Word.size = terms.tuple := by
    rw [write_pieces]
    exact List.drop_left' hfront
  simp only [Block.tail, hoffset, bind, Except.bind, hdrop]
  rfl

theorem ofArguments_write_pieces (h : (Payload.write terms.pieces).length < 2 ^ 256) :
    ofArguments (Payload.write terms.pieces) = .ok terms := by
  have hshort : terms.tuple.length < 2 ^ 256 := by
    rw [write_pieces, List.length_append] at h
    omega
  have hneed : Block.need ⟨terms.tuple⟩ (headWords * Word.size) = .ok () := by
    rw [Block.need, Block.size, length_tuple, nameOffset, if_neg (by omega)]
  have hsupply : Block.word ⟨terms.tuple⟩ 2 = .ok terms.supply := word_tuple (by decide)
  have hasset : Block.address ⟨terms.tuple⟩ 3 = .ok terms.backingAsset := Block.address_of_word (word_tuple (by decide))
  have hinitial : Block.word ⟨terms.tuple⟩ 4 = .ok terms.initialBacking := word_tuple (by decide)
  have honlySB : Block.flag ⟨terms.tuple⟩ 17 = .ok terms.plan.onlySB := by
    apply Block.flag_of_word
    rw [word_tuple (by decide)]
    simp [head]
  have howner : Block.address ⟨terms.tuple⟩ 18 = .ok terms.plan.owner := by
    apply Block.address_of_word
    rw [word_tuple (by decide)]
    simp [head]
  have henableLGE : Block.flag ⟨terms.tuple⟩ 19 = .ok terms.plan.enableLGE := by
    apply Block.flag_of_word
    rw [word_tuple (by decide)]
    simp [head]
  have hrates : (Vector.ofFn fun i : Fin 12 => terms.plan.rates.toList.getD i 0) = terms.plan.rates := by
    ext i hi
    simp
  simp only [ofArguments, block_write_pieces, tail_write_pieces, hneed, rates_tuple, name_tuple hshort,
    symbol_tuple hshort, hsupply, hasset, hinitial, honlySB, howner, henableLGE, bind, Except.bind, hrates]
  rfl

theorem length_texts_le {args : Bytes} (h : ofArguments args = .ok terms) :
    (Bytes.ofText terms.name).length ≤ args.length ∧ (Bytes.ofText terms.symbol).length ≤ args.length := by
  obtain ⟨block, hblock, h⟩ := Payload.bind_eq_ok.mp h
  obtain ⟨tuple, htuple, h⟩ := Payload.bind_eq_ok.mp h
  obtain ⟨_, _, h⟩ := Payload.bind_eq_ok.mp h
  obtain ⟨_, _, h⟩ := Payload.bind_eq_ok.mp h
  obtain ⟨name, hname, h⟩ := Payload.bind_eq_ok.mp h
  obtain ⟨symbol, hsymbol, h⟩ := Payload.bind_eq_ok.mp h
  -- the supply, the asset, the backing and the three settings follow
  iterate 6 obtain ⟨_, _, h⟩ := Payload.bind_eq_ok.mp h
  cases h
  have hsize : tuple.size ≤ args.length := Block.bytes_of_ofArguments hblock ▸ Block.size_tail_le htuple
  exact ⟨Nat.le_trans (Block.length_text_le hname) hsize, Nat.le_trans (Block.length_text_le hsymbol) hsize⟩

theorem ofArguments_again {args : Bytes} (hargs : args.length < UInt64.size) (h : ofArguments args = .ok terms) :
    ofArguments (Payload.write terms.pieces) = .ok terms := by
  apply ofArguments_write_pieces
  obtain ⟨hname, hsymbol⟩ := length_texts_le h
  have hname' := Payload.dynamicSize_le (Bytes.ofText terms.name).length
  have hsymbol' := Payload.dynamicSize_le (Bytes.ofText terms.symbol).length
  rw [length_write_pieces, headWords]
  rw [UInt64.size] at hargs
  rw [Word.size] at *
  omega

end Terms

namespace Call

open Payload (dynamicSize)

theorem length_payload_create (terms : Terms) :
    (create terms).payload.length = Payload.selectorSize + (Payload.write terms.pieces).length := by
  rw [payload, List.length_append, Method.length_selector]
  rfl

theorem split_create (terms : Terms) :
    Payload.split (create terms).payload = .ok (Method.create.selector, Payload.write terms.pieces) :=
  Method.split_selector _ _

theorem creation_faithful :
    (∀ terms : Terms, (create terms).payload.length < UInt64.size → ∃ args,
      Payload.split (create terms).payload = .ok (Method.create.selector, args) ∧
      args.length = 21 * Word.size + dynamicSize (Bytes.ofText terms.name).length +
        dynamicSize (Bytes.ofText terms.symbol).length ∧
      Terms.ofArguments args = .ok terms) ∧
    (∀ terms other : Terms, (create terms).payload.length < UInt64.size →
      (create other).payload = (create terms).payload → other = terms) ∧
    ∀ (args : Bytes) (terms : Terms), args.length < UInt64.size → Terms.ofArguments args = .ok terms → ∃ again,
      Payload.split (create terms).payload = .ok (Method.create.selector, again) ∧
      Terms.ofArguments again = .ok terms := by
  have hread : ∀ terms : Terms, (create terms).payload.length < UInt64.size →
      Terms.ofArguments (Payload.write terms.pieces) = .ok terms := by
    intro terms h
    rw [length_payload_create] at h
    exact Terms.ofArguments_write_pieces (by rw [UInt64.size] at h; omega)
  refine ⟨?_, ?_, ?_⟩
  · intro terms h
    exact ⟨_, split_create terms, terms.length_write_pieces, hread terms h⟩
  · intro terms other h hsame
    have hother := hread other (hsame.symm ▸ h)
    have hargs : Payload.write other.pieces = Payload.write terms.pieces := List.append_cancel_left hsame
    rw [hargs, hread terms h] at hother
    exact (Except.ok.inj hother).symm
  · intro args terms hargs h
    exact ⟨_, split_create terms, Terms.ofArguments_again hargs h⟩

theorem creation_faithful_sample :
    let terms : Terms := { name := "", symbol := "ΩΩΩΩΩΩΩΩΩΩΩΩΩΩΩΩ", supply := 100 }
    (create terms).payload.length < UInt64.size ∧ ∃ args,
      Payload.split (create terms).payload = .ok (Method.create.selector, args) ∧ args.length = 24 * Word.size ∧
      Terms.ofArguments args = .ok terms := by
  intro terms
  have hfits : (create terms).payload.length < UInt64.size := by
    rw [length_payload_create, Terms.length_write_pieces]
    decide
  obtain ⟨args, hsplit, hlength, hread⟩ := creation_faithful.1 terms hfits
  have hpadded : 21 * Word.size + dynamicSize (Bytes.ofText terms.name).length +
      dynamicSize (Bytes.ofText terms.symbol).length = 24 * Word.size := by decide
  exact ⟨hfits, args, hsplit, hlength.trans hpadded, hread⟩

end Call

end BackedToken
