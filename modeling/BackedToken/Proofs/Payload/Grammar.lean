import BackedToken.Proofs.Payload.Creation
import Mathlib.Data.List.GetD

/-! Which argument blocks are read as terms, told with unbounded positions and lengths. -/

namespace BackedToken

namespace Bytes

def numberAt (bytes : Bytes) (start : Nat) : Nat := value ((bytes.drop start).take Word.size)

theorem value_append (front rest : Bytes) : value (front ++ rest) = value front * 256 ^ rest.length + value rest := by
  obtain ⟨back, rfl⟩ : ∃ back : Bytes, rest = back.reverse := ⟨rest.reverse, by simp⟩
  induction back with
  | nil => simp [value]
  | cons b back ih =>
    rw [List.reverse_cons, ← List.append_assoc, value_concat, value_concat, ih, List.length_append, List.length_singleton,
      Nat.pow_succ, Nat.mul_add, Nat.add_assoc, Nat.mul_left_comm, Nat.mul_comm 256 (256 ^ _)]

theorem value_eq_zero_iff {bytes : Bytes} : value bytes = 0 ↔ bytes = List.replicate bytes.length 0 := by
  have hzeros : ∀ width, bigEndian width 0 = List.replicate width 0 := by
    intro width
    induction width with
    | zero => rfl
    | succ width ih =>
      rw [bigEndian, Nat.zero_div, ih, List.replicate_succ']
      rfl
  constructor
  · intro h
    rw [← hzeros, ← h, bigEndian_value]
  · intro h
    rw [h, ← hzeros, value_bigEndian, Nat.zero_mod]

theorem numberAt_lt (bytes : Bytes) (start : Nat) : bytes.numberAt start < 2 ^ 256 := by
  have hlength : ((bytes.drop start).take Word.size).length ≤ 32 := List.length_take_le ..
  exact Nat.lt_of_lt_of_le (value_lt _) (Nat.pow_le_pow_right (by decide) hlength)

theorem numberAt_lt_iff {bytes : Bytes} {start : Nat} (h : start + Word.size ≤ bytes.length) :
    bytes.numberAt start < 2 ^ 160 ↔ (bytes.drop start).take 12 = List.replicate 12 0 := by
  have hsplit : (bytes.drop start).take Word.size = (bytes.drop start).take 12 ++ (bytes.drop (start + 12)).take 20 := by
    rw [← List.drop_drop, ← List.take_add]
    rfl
  have hfront : ((bytes.drop start).take 12).length = 12 := by
    rw [List.length_take, List.length_drop, Word.size] at *
    omega
  have hback : ((bytes.drop (start + 12)).take 20).length = 20 := by
    rw [List.length_take, List.length_drop, Word.size] at *
    omega
  have hlow := value_lt ((bytes.drop (start + 12)).take 20)
  have hhigh := @value_eq_zero_iff ((bytes.drop start).take 12)
  rw [hback] at hlow
  rw [hfront] at hhigh
  rw [← hhigh, numberAt, hsplit, value_append, hback]
  omega

def content (bytes : Bytes) (index : Nat) : Bytes :=
  let start := bytes.numberAt (Word.size * index)
  (bytes.drop (start + Word.size)).take (bytes.numberAt start)

structure HoldsText (bytes : Bytes) (index : Nat) : Prop where
  length_inside : bytes.numberAt (Word.size * index) + Word.size ≤ bytes.length
  content_inside : bytes.numberAt (bytes.numberAt (Word.size * index)) ≤
    bytes.length - bytes.numberAt (Word.size * index) - Word.size
  utf8 : (bytes.content index).toByteArray.IsValidUTF8

theorem text?_eq_some_iff {bytes : Bytes} {text : String} : text? bytes = some text ↔ ofText text = bytes :=
  ⟨ofText_of_text?, fun h => h ▸ text?_ofText text⟩

theorem isValidUTF8_iff {bytes : Bytes} : bytes.toByteArray.IsValidUTF8 ↔ ∃ text, ofText text = bytes := by
  constructor
  · intro h
    exact ⟨⟨_, h⟩, ofText_of_text? (dif_pos h)⟩
  · rintro ⟨text, rfl⟩
    have htext := text?_ofText text
    rw [text?, String.fromUTF8?] at htext
    split at htext
    · assumption
    · cases htext

end Bytes

namespace Word

theorem toNat_ofBytes_take (bytes : Bytes) (start : Nat) :
    (ofBytes ((bytes.drop start).take size)).toNat = bytes.numberAt start := by
  rw [ofBytes, BitVec.toNat_ofNat, Nat.mod_eq_of_lt]
  · rfl
  · exact bytes.numberAt_lt start

theorem toNat_ofBool (b : Bool) : (ofBool b).toNat = b.toNat := by
  cases b <;> rfl

end Word

theorem Address.toNat_word (a : Address) : a.word.toNat = a.toNat := by
  rw [word, BitVec.toNat_setWidth, Nat.mod_eq_of_lt (Nat.lt_trans a.isLt (by decide))]

namespace Payload

theorem mapM_eq_ok {ε α β : Type} {f : α → Except ε β} {as : List α} {bs : List β} :
    as.mapM f = .ok bs ↔ List.Forall₂ (fun a b => f a = .ok b) as bs := by
  induction as generalizing bs with
  | nil =>
    rw [List.mapM_nil, List.forall₂_nil_left_iff]
    exact ⟨fun h => (Except.ok.inj h).symm, fun h => congrArg Except.ok h.symm⟩
  | cons a as ih =>
    rw [List.mapM_cons, List.forall₂_cons_left_iff]
    constructor
    · intro h
      obtain ⟨b, hb, h⟩ := bind_eq_ok.mp h
      obtain ⟨rest, hrest, h⟩ := bind_eq_ok.mp h
      cases h
      exact ⟨b, rest, hb, ih.mp hrest, rfl⟩
    · rintro ⟨b, rest, hb, hrest, rfl⟩
      exact bind_eq_ok.mpr ⟨b, hb, bind_eq_ok.mpr ⟨rest, ih.mpr hrest, rfl⟩⟩

namespace Block

variable {b t : Block} {index offset n : Nat} {w : Word}

theorem need_eq_ok : b.need n = .ok () ↔ n ≤ b.size := by
  rw [need]
  split
  · next h => simp [Nat.not_le.mpr h]
  · next h => simp [Nat.not_lt.mp h]

theorem ofArguments_eq_ok {args : Bytes} : ofArguments args n = .ok b ↔
    args.length % Word.size = 0 ∧ n * Word.size ≤ args.length ∧ b = ⟨args⟩ := by
  rw [ofArguments]
  split
  · next h => simp [h]
  · next h =>
    rw [and_iff_right (not_not.mp h)]
    constructor
    · intro hb
      obtain ⟨_, hneed, hb⟩ := bind_eq_ok.mp hb
      cases hb
      exact ⟨need_eq_ok.mp hneed, rfl⟩
    · rintro ⟨hneed, rfl⟩
      exact bind_eq_ok.mpr ⟨(), need_eq_ok.mpr hneed, rfl⟩

theorem wordAt_eq_ok : b.wordAt offset = .ok w ↔ offset + Word.size ≤ b.size ∧ w.toNat = b.bytes.numberAt offset := by
  rw [← Word.toNat_ofBytes_take, BitVec.toNat_inj]
  constructor
  · intro h
    obtain ⟨_, hneed, h⟩ := bind_eq_ok.mp h
    cases h
    exact ⟨need_eq_ok.mp hneed, rfl⟩
  · rintro ⟨hneed, rfl⟩
    exact bind_eq_ok.mpr ⟨(), need_eq_ok.mpr hneed, rfl⟩

theorem word_eq_ok : b.word index = .ok w ↔
    Word.size * (index + 1) ≤ b.size ∧ w.toNat = b.bytes.numberAt (Word.size * index) := by
  rw [word]
  split
  · next h => simp [Nat.not_le.mpr h.1]
  · rw [wordAt_eq_ok, Nat.mul_succ]

theorem address_eq_ok {a : Address} : b.address index = .ok a ↔
    Word.size * (index + 1) ≤ b.size ∧ a.toNat = b.bytes.numberAt (Word.size * index) := by
  rw [← Address.toNat_word, ← word_eq_ok]
  constructor
  · intro h
    obtain ⟨w, hw, h⟩ := bind_eq_ok.mp h
    split at h
    · next hpadded =>
      cases h
      rw [hpadded]
      exact hw
    · cases h
  · exact address_of_word

theorem flag_eq_ok {v : Bool} : b.flag index = .ok v ↔
    Word.size * (index + 1) ≤ b.size ∧ v.toNat = b.bytes.numberAt (Word.size * index) := by
  rw [← Word.toNat_ofBool, ← word_eq_ok]
  constructor
  · intro h
    obtain ⟨w, hw, h⟩ := bind_eq_ok.mp h
    split at h
    · next hzero =>
      cases h
      rw [hw, hzero]
      rfl
    · split at h
      · next hone =>
        cases h
        rw [hw, hone]
        rfl
      · cases h
  · exact flag_of_word

theorem bounded_eq_ok {bound : Nat} : bounded w bound = .ok n ↔ w.toNat ≤ bound ∧ n = w.toNat := by
  rw [bounded]
  split
  · next h => simp [Nat.not_le.mpr h]
  · next h =>
    rw [and_iff_right (Nat.not_lt.mp h)]
    exact ⟨fun hn => (Except.ok.inj hn).symm, fun hn => congrArg Except.ok hn.symm⟩

theorem offset_eq_ok : b.offset index = .ok n ↔ Word.size * (index + 1) ≤ b.size ∧
    b.bytes.numberAt (Word.size * index) ≤ b.size ∧ n = b.bytes.numberAt (Word.size * index) := by
  constructor
  · intro h
    obtain ⟨w, hw, h⟩ := bind_eq_ok.mp h
    obtain ⟨hhead, hnumber⟩ := word_eq_ok.mp hw
    obtain ⟨hbound, rfl⟩ := bounded_eq_ok.mp h
    rw [← hnumber]
    exact ⟨hhead, hbound, rfl⟩
  · rintro ⟨hhead, hbound, rfl⟩
    have hw := BitVec.toNat_ofNatLT _ (b.bytes.numberAt_lt (Word.size * index))
    refine bind_eq_ok.mpr ⟨_, word_eq_ok.mpr ⟨hhead, hw⟩, ?_⟩
    exact bounded_eq_ok.mpr ⟨Nat.le_trans (Nat.le_of_eq hw) hbound, hw.symm⟩

theorem tail_eq_ok : b.tail index = .ok t ↔ Word.size * (index + 1) ≤ b.size ∧
    b.bytes.numberAt (Word.size * index) ≤ b.size ∧ t = ⟨b.bytes.drop (b.bytes.numberAt (Word.size * index))⟩ := by
  constructor
  · intro h
    obtain ⟨start, hstart, h⟩ := bind_eq_ok.mp h
    obtain ⟨hhead, hbound, rfl⟩ := offset_eq_ok.mp hstart
    cases h
    exact ⟨hhead, hbound, rfl⟩
  · rintro ⟨hhead, hbound, rfl⟩
    exact bind_eq_ok.mpr ⟨_, offset_eq_ok.mpr ⟨hhead, hbound, rfl⟩, rfl⟩

theorem dynamic_eq_ok {content : Bytes} : b.dynamic index = .ok content ↔ Word.size * (index + 1) ≤ b.size ∧
    b.bytes.numberAt (Word.size * index) + Word.size ≤ b.size ∧
    b.bytes.numberAt (b.bytes.numberAt (Word.size * index)) ≤
      b.size - b.bytes.numberAt (Word.size * index) - Word.size ∧
    content = b.bytes.content index := by
  constructor
  · intro h
    obtain ⟨start, hstart, h⟩ := bind_eq_ok.mp h
    obtain ⟨hhead, hbound, rfl⟩ := offset_eq_ok.mp hstart
    obtain ⟨w, hw, h⟩ := bind_eq_ok.mp h
    obtain ⟨hinside, hnumber⟩ := wordAt_eq_ok.mp hw
    obtain ⟨length, hlength, h⟩ := bind_eq_ok.mp h
    obtain ⟨hfits, rfl⟩ := bounded_eq_ok.mp hlength
    cases h
    rw [hnumber, ← Nat.sub_sub] at hfits
    rw [hnumber]
    exact ⟨hhead, hinside, hfits, rfl⟩
  · rintro ⟨hhead, hinside, hfits, rfl⟩
    have hw := BitVec.toNat_ofNatLT _ (b.bytes.numberAt_lt (b.bytes.numberAt (Word.size * index)))
    rw [Nat.sub_sub, ← hw] at hfits
    refine bind_eq_ok.mpr ⟨_, offset_eq_ok.mpr ⟨hhead, Nat.le_of_add_right_le hinside, rfl⟩, ?_⟩
    refine bind_eq_ok.mpr ⟨_, wordAt_eq_ok.mpr ⟨hinside, hw⟩, ?_⟩
    refine bind_eq_ok.mpr ⟨_, bounded_eq_ok.mpr ⟨hfits, rfl⟩, ?_⟩
    rw [hw]
    rfl

theorem text_eq_ok {text : String} : b.text index = .ok text ↔ Word.size * (index + 1) ≤ b.size ∧
    b.bytes.HoldsText index ∧ Bytes.ofText text = b.bytes.content index := by
  constructor
  · intro h
    obtain ⟨content, hcontent, h⟩ := bind_eq_ok.mp h
    obtain ⟨hhead, hinside, hfits, rfl⟩ := dynamic_eq_ok.mp hcontent
    split at h
    · next found hfound =>
      cases h
      have htext := Bytes.text?_eq_some_iff.mp hfound
      exact ⟨hhead, ⟨hinside, hfits, Bytes.isValidUTF8_iff.mpr ⟨_, htext⟩⟩, htext⟩
    · cases h
  · rintro ⟨hhead, hholds, htext⟩
    apply text_of_dynamic
    exact dynamic_eq_ok.mpr ⟨hhead, hholds.length_inside, hholds.content_inside, htext⟩

end Block

end Payload

namespace Terms

open Payload (Block bind_eq_ok)
open Payload.Block (ofArguments_eq_ok need_eq_ok tail_eq_ok word_eq_ok address_eq_ok flag_eq_ok text_eq_ok)

def tupleOf (args : Bytes) : Bytes := args.drop (args.numberAt 0)

structure Legible (args : Bytes) : Prop where
  aligned : args.length % Word.size = 0
  nonempty : 0 < args.length
  offset : args.numberAt 0 ≤ args.length
  head : headWords * Word.size ≤ (tupleOf args).length
  backingAsset : ((tupleOf args).drop (Word.size * 3)).take 12 = List.replicate 12 0
  owner : ((tupleOf args).drop (Word.size * 18)).take 12 = List.replicate 12 0
  onlySB : (tupleOf args).numberAt (Word.size * 17) ≤ 1
  enableLGE : (tupleOf args).numberAt (Word.size * 19) ≤ 1
  name : (tupleOf args).HoldsText 0
  symbol : (tupleOf args).HoldsText 1

structure Spelled (tuple : Bytes) (terms : Terms) : Prop where
  name : Bytes.ofText terms.name = tuple.content 0
  symbol : Bytes.ofText terms.symbol = tuple.content 1
  supply : terms.supply.toNat = tuple.numberAt (Word.size * 2)
  backingAsset : terms.backingAsset.toNat = tuple.numberAt (Word.size * 3)
  initialBacking : terms.initialBacking.toNat = tuple.numberAt (Word.size * 4)
  rates : ∀ i, (hi : i < 12) → terms.plan.rates[i].toNat = tuple.numberAt (Word.size * (ratesIndex + i))
  onlySB : terms.plan.onlySB.toNat = tuple.numberAt (Word.size * 17)
  owner : terms.plan.owner.toNat = tuple.numberAt (Word.size * 18)
  enableLGE : terms.plan.enableLGE.toNat = tuple.numberAt (Word.size * 19)

variable {args tuple : Bytes} {terms : Terms}

section Head

variable (hhead : headWords * Word.size ≤ tuple.length)
include hhead

theorem head_inside {i : Nat} (hi : i < headWords) : Word.size * (i + 1) ≤ tuple.length := by
  rw [headWords, Word.size] at *
  omega

theorem rates_eq_ok {rates : List Word} :
    (List.range 12).mapM (fun i => Block.word ⟨tuple⟩ (ratesIndex + i)) = .ok rates ↔
      rates.length = 12 ∧ ∀ i, i < 12 → (rates.getD i 0).toNat = tuple.numberAt (Word.size * (ratesIndex + i)) := by
  have hinside : ∀ i, i < 12 → Word.size * (ratesIndex + i + 1) ≤ tuple.length := by
    intro i hi
    exact head_inside hhead (by rw [ratesIndex, headWords]; omega)
  rw [Payload.mapM_eq_ok, List.forall₂_iff_get]
  simp only [List.length_range, List.get_eq_getElem, List.getElem_range, word_eq_ok]
  constructor
  · rintro ⟨hlength, hrates⟩
    refine ⟨hlength.symm, fun i hi => ?_⟩
    rw [List.getD_eq_getElem _ _ (hlength ▸ hi)]
    exact (hrates i hi (hlength ▸ hi)).2
  · rintro ⟨hlength, hrates⟩
    refine ⟨hlength.symm, fun i hi hi' => ⟨hinside i hi, ?_⟩⟩
    rw [← List.getD_eq_getElem _ 0 hi']
    exact hrates i hi

theorem padded_iff {i : Nat} (hi : i < headWords) :
    (tuple.drop (Word.size * i)).take 12 = List.replicate 12 0 ↔ tuple.numberAt (Word.size * i) < 2 ^ 160 :=
  (Bytes.numberAt_lt_iff (head_inside hhead hi)).symm

end Head

theorem legible_of_ofArguments (h : ofArguments args = .ok terms) : Legible args ∧ Spelled (tupleOf args) terms := by
  obtain ⟨block, hblock, h⟩ := bind_eq_ok.mp h
  obtain ⟨haligned, hlong, rfl⟩ := ofArguments_eq_ok.mp hblock
  obtain ⟨tuple, htuple, h⟩ := bind_eq_ok.mp h
  obtain ⟨_, hoffset, rfl⟩ := tail_eq_ok.mp htuple
  obtain ⟨_, hneed, h⟩ := bind_eq_ok.mp h
  have hhead : headWords * Word.size ≤ (tupleOf args).length := need_eq_ok.mp hneed
  obtain ⟨rates, hrates, h⟩ := bind_eq_ok.mp h
  obtain ⟨name, hname, h⟩ := bind_eq_ok.mp h
  obtain ⟨symbol, hsymbol, h⟩ := bind_eq_ok.mp h
  obtain ⟨supply, hsupply, h⟩ := bind_eq_ok.mp h
  obtain ⟨backingAsset, hasset, h⟩ := bind_eq_ok.mp h
  obtain ⟨initialBacking, hinitial, h⟩ := bind_eq_ok.mp h
  obtain ⟨onlySB, honlySB, h⟩ := bind_eq_ok.mp h
  obtain ⟨owner, howner, h⟩ := bind_eq_ok.mp h
  obtain ⟨enableLGE, henableLGE, h⟩ := bind_eq_ok.mp h
  cases h
  obtain ⟨_, hrates⟩ := (rates_eq_ok hhead).mp hrates
  obtain ⟨_, hholdsName, hname⟩ := text_eq_ok.mp hname
  obtain ⟨_, hholdsSymbol, hsymbol⟩ := text_eq_ok.mp hsymbol
  obtain ⟨_, hasset⟩ := address_eq_ok.mp hasset
  obtain ⟨_, howner⟩ := address_eq_ok.mp howner
  obtain ⟨_, honlySB⟩ := flag_eq_ok.mp honlySB
  obtain ⟨_, henableLGE⟩ := flag_eq_ok.mp henableLGE
  refine ⟨⟨haligned, Nat.lt_of_lt_of_le (by decide) hlong, hoffset, hhead, ?_, ?_, ?_, ?_, hholdsName, hholdsSymbol⟩,
    ⟨hname, hsymbol, (word_eq_ok.mp hsupply).2, hasset, (word_eq_ok.mp hinitial).2, fun i hi => ?_, honlySB, howner,
      henableLGE⟩⟩
  · exact (padded_iff hhead (by decide)).mpr (hasset ▸ backingAsset.isLt)
  · exact (padded_iff hhead (by decide)).mpr (howner ▸ owner.isLt)
  · exact honlySB ▸ onlySB.toNat_le
  · exact henableLGE ▸ enableLGE.toNat_le
  · rw [Vector.getElem_ofFn]
    exact hrates i hi

theorem ofArguments_of_legible (hl : Legible args) (hs : Spelled (tupleOf args) terms) : ofArguments args = .ok terms := by
  have hword : ∀ {i : Nat} {w : Word}, i < headWords → w.toNat = (tupleOf args).numberAt (Word.size * i) →
      Block.word ⟨tupleOf args⟩ i = .ok w := fun hi hw => word_eq_ok.mpr ⟨head_inside hl.head hi, hw⟩
  have hfirst : Word.size * (0 + 1) ≤ args.length := by
    have := hl.aligned
    have := hl.nonempty
    rw [Word.size] at *
    omega
  have hrates : (List.range 12).mapM (fun i => Block.word ⟨tupleOf args⟩ (ratesIndex + i)) =
      .ok terms.plan.rates.toList := by
    refine (rates_eq_ok hl.head).mpr ⟨Vector.length_toList, fun i hi => ?_⟩
    rw [List.getD_eq_getElem _ _ (by simpa using hi)]
    exact hs.rates i hi
  refine bind_eq_ok.mpr ⟨_, ofArguments_eq_ok.mpr ⟨hl.aligned, hfirst, rfl⟩, ?_⟩
  refine bind_eq_ok.mpr ⟨_, tail_eq_ok.mpr ⟨hfirst, hl.offset, rfl⟩, ?_⟩
  refine bind_eq_ok.mpr ⟨_, need_eq_ok.mpr hl.head, ?_⟩
  refine bind_eq_ok.mpr ⟨_, hrates, ?_⟩
  refine bind_eq_ok.mpr ⟨_, text_eq_ok.mpr ⟨head_inside hl.head (by decide), hl.name, hs.name⟩, ?_⟩
  refine bind_eq_ok.mpr ⟨_, text_eq_ok.mpr ⟨head_inside hl.head (by decide), hl.symbol, hs.symbol⟩, ?_⟩
  refine bind_eq_ok.mpr ⟨_, hword (by decide) hs.supply, ?_⟩
  refine bind_eq_ok.mpr ⟨_, address_eq_ok.mpr ⟨head_inside hl.head (by decide), hs.backingAsset⟩, ?_⟩
  refine bind_eq_ok.mpr ⟨_, hword (by decide) hs.initialBacking, ?_⟩
  refine bind_eq_ok.mpr ⟨_, flag_eq_ok.mpr ⟨head_inside hl.head (by decide), hs.onlySB⟩, ?_⟩
  refine bind_eq_ok.mpr ⟨_, address_eq_ok.mpr ⟨head_inside hl.head (by decide), hs.owner⟩, ?_⟩
  refine bind_eq_ok.mpr ⟨_, flag_eq_ok.mpr ⟨head_inside hl.head (by decide), hs.enableLGE⟩, ?_⟩
  have hvector : (Vector.ofFn fun i : Fin 12 => terms.plan.rates.toList.getD i 0) = terms.plan.rates := by
    ext i hi
    simp
  rw [hvector]
  rfl

theorem exists_spelled (hl : Legible args) : ∃ terms, Spelled (tupleOf args) terms := by
  obtain ⟨name, hname⟩ := Bytes.isValidUTF8_iff.mp hl.name.utf8
  obtain ⟨symbol, hsymbol⟩ := Bytes.isValidUTF8_iff.mp hl.symbol.utf8
  have hword : ∀ i, (BitVec.ofNatLT _ ((tupleOf args).numberAt_lt (Word.size * i))).toNat =
      (tupleOf args).numberAt (Word.size * i) := fun i => BitVec.toNat_ofNatLT _ _
  have haddress : ∀ {i : Nat}, (tupleOf args).numberAt (Word.size * i) < 2 ^ 160 →
      ∃ a : Address, a.toNat = (tupleOf args).numberAt (Word.size * i) := fun h => ⟨_, BitVec.toNat_ofNatLT _ h⟩
  have hflag : ∀ {n : Nat}, n ≤ 1 → ∃ b : Bool, b.toNat = n := by
    intro n hn
    rcases Nat.le_one_iff_eq_zero_or_eq_one.mp hn with rfl | rfl
    · exact ⟨false, rfl⟩
    · exact ⟨true, rfl⟩
  obtain ⟨backingAsset, hasset⟩ := haddress ((padded_iff hl.head (by decide)).mp hl.backingAsset)
  obtain ⟨owner, howner⟩ := haddress ((padded_iff hl.head (by decide)).mp hl.owner)
  obtain ⟨onlySB, honlySB⟩ := hflag hl.onlySB
  obtain ⟨enableLGE, henableLGE⟩ := hflag hl.enableLGE
  refine ⟨⟨name, symbol, _, backingAsset, _, ⟨Vector.ofFn fun i => BitVec.ofNatLT _
    ((tupleOf args).numberAt_lt (Word.size * (ratesIndex + i))), onlySB, owner, enableLGE⟩⟩,
    ⟨hname, hsymbol, hword 2, hasset, hword 4, fun i hi => ?_, honlySB, howner, henableLGE⟩⟩
  rw [Vector.getElem_ofFn]
  exact hword _

theorem ofArguments_exact (args : Bytes) :
    ((∃ terms, ofArguments args = .ok terms) ↔ Legible args) ∧
    ∀ terms, ofArguments args = .ok terms ↔ Legible args ∧ Spelled (tupleOf args) terms := by
  have hiff : ∀ terms, ofArguments args = .ok terms ↔ Legible args ∧ Spelled (tupleOf args) terms := fun terms =>
    ⟨legible_of_ofArguments, fun h => ofArguments_of_legible h.1 h.2⟩
  refine ⟨⟨?_, ?_⟩, hiff⟩
  · rintro ⟨terms, hterms⟩
    exact ((hiff terms).mp hterms).1
  · intro hl
    obtain ⟨terms, hs⟩ := exists_spelled hl
    exact ⟨terms, (hiff terms).mpr ⟨hl, hs⟩⟩

end Terms

end BackedToken
