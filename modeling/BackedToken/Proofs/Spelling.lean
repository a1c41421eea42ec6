import BackedToken.Json.Fields
import BackedToken.Proofs.Numbers

namespace BackedToken

theorem mapError_eq_error {ε δ α : Type} {f : ε → δ} {r : Except ε α} {d : δ} :
    r.mapError f = .error d ↔ ∃ e, r = .error e ∧ f e = d := by
  cases r with
  | ok a => exact iff_of_false (fun h => nomatch h) (fun ⟨_, h, _⟩ => nomatch h)
  | error e =>
    constructor
    · intro h
      exact ⟨e, rfl, Except.error.inj h⟩
    · rintro ⟨_, ⟨⟩, rfl⟩
      rfl

namespace Hex

def IsDigit (c : Char) : Prop := ('0' ≤ c ∧ c ≤ '9') ∨ ('a' ≤ c ∧ c ≤ 'f') ∨ ('A' ≤ c ∧ c ≤ 'F')

instance : DecidablePred IsDigit := fun _ => inferInstanceAs (Decidable (_ ∨ _ ∨ _))

def Paired (text : List Char) : Prop := text.length % 2 = 0 ∧ ∀ c ∈ text, IsDigit c

variable {text : List Char} {bytes : Bytes}

theorem exists_value?_iff {c : Char} : (∃ n, value? c = some n) ↔ IsDigit c := by
  -- the order of characters is that of their codes
  change _ ↔ (48 ≤ c.toNat ∧ c.toNat ≤ 57) ∨ (97 ≤ c.toNat ∧ c.toNat ≤ 102) ∨ (65 ≤ c.toNat ∧ c.toNat ≤ 70)
  rw [value?]
  split
  · simp [*]
  · split
    · simp [*]
    · split <;> simp [*]

theorem digit_of_value? {c : Char} {n : Nat} (h : value? c = some n) : n < 16 ∧ digit n = c.toLower := by
  have all : ∀ i : Fin 128, ∀ n ∈ value? (Char.ofNat i), n < 16 ∧ digit n = (Char.ofNat i).toLower := by decide
  have hcode : c.toNat < 128 := by
    obtain h | h | h : (48 ≤ c.toNat ∧ c.toNat ≤ 57) ∨ (97 ≤ c.toNat ∧ c.toNat ≤ 102) ∨ (65 ≤ c.toNat ∧ c.toNat ≤ 70) :=
      exists_value?_iff.mp ⟨n, h⟩
    all_goals omega
  have hchar := all ⟨c.toNat, hcode⟩ n
  rw [Char.ofNat_toNat] at hchar
  exact hchar h

theorem decode_pair_eq_some {high low : Char} {rest : List Char} : decode (high :: low :: rest) = some bytes ↔
    ∃ m n front, value? high = some m ∧ value? low = some n ∧ decode rest = some front ∧
      bytes = UInt8.ofNat (16 * m + n) :: front := by
  simp only [decode, Option.bind_eq_bind, Option.bind_eq_some_iff, Option.pure_def, Option.some.injEq]
  grind

theorem exists_decode_iff : (∃ bytes, decode text = some bytes) ↔ Paired text := by
  induction text using decode.induct with
  | case1 => simp [decode, Paired]
  | case2 c => simp [decode, Paired]
  | case3 high low rest ih =>
    have hlength : (high :: low :: rest).length = rest.length + 2 := rfl
    constructor
    · rintro ⟨bytes, h⟩
      obtain ⟨m, n, front, hhigh, hlow, hrest, _⟩ := decode_pair_eq_some.mp h
      obtain ⟨heven, hdigits⟩ := ih.mp ⟨front, hrest⟩
      refine ⟨by omega, ?_⟩
      simp only [List.forall_mem_cons]
      exact ⟨exists_value?_iff.mp ⟨m, hhigh⟩, exists_value?_iff.mp ⟨n, hlow⟩, hdigits⟩
    · rintro ⟨heven, hdigits⟩
      simp only [List.forall_mem_cons] at hdigits
      obtain ⟨m, hhigh⟩ := exists_value?_iff.mpr hdigits.1
      obtain ⟨n, hlow⟩ := exists_value?_iff.mpr hdigits.2.1
      obtain ⟨front, hrest⟩ := ih.mpr ⟨by omega, hdigits.2.2⟩
      exact ⟨_, decode_pair_eq_some.mpr ⟨m, n, front, hhigh, hlow, hrest, rfl⟩⟩

theorem length_of_decode (h : decode text = some bytes) : text.length = 2 * bytes.length := by
  induction text using decode.induct generalizing bytes with
  | case1 =>
    cases h
    rfl
  | case2 c => cases h
  | case3 high low rest ih =>
    obtain ⟨m, n, front, _, _, hrest, rfl⟩ := decode_pair_eq_some.mp h
    simp only [List.length_cons, ih hrest]
    omega

theorem encode_of_decode (h : decode text = some bytes) : encode bytes = text.map Char.toLower := by
  induction text using decode.induct generalizing bytes with
  | case1 =>
    cases h
    rfl
  | case2 c => cases h
  | case3 high low rest ih =>
    obtain ⟨m, n, front, hhigh, hlow, hrest, rfl⟩ := decode_pair_eq_some.mp h
    obtain ⟨hm, hdigit⟩ := digit_of_value? hhigh
    obtain ⟨hn, hdigit'⟩ := digit_of_value? hlow
    have hbyte : (UInt8.ofNat (16 * m + n)).toNat = 16 * m + n := UInt8.toNat_ofNat_of_lt' (by rw [UInt8.size]; omega)
    have hquotient : (16 * m + n) / 16 = m := by omega
    have hremainder : (16 * m + n) % 16 = n := by omega
    rw [encode_cons, hbyte, hquotient, hremainder, hdigit, hdigit', ih hrest]
    rfl

theorem decode_eq_none_iff : decode text = none ↔ ¬Paired text := by
  rw [← exists_decode_iff, not_exists, Option.eq_none_iff_forall_ne_some]

theorem exists_decode_length_iff {size : Nat} : (∃ bytes, decode text = some bytes ∧ bytes.length = size) ↔
    text.length = 2 * size ∧ ∀ c ∈ text, IsDigit c := by
  constructor
  · rintro ⟨bytes, hdecode, rfl⟩
    exact ⟨length_of_decode hdecode, (exists_decode_iff.mp ⟨bytes, hdecode⟩).2⟩
  · rintro ⟨hlength, hdigits⟩
    obtain ⟨bytes, hdecode⟩ := exists_decode_iff.mpr ⟨by omega, hdigits⟩
    have hbytes := length_of_decode hdecode
    exact ⟨bytes, hdecode, by omega⟩

theorem exists_decode_length_ne_iff {size : Nat} : (∃ bytes, decode text = some bytes ∧ bytes.length ≠ size) ↔
    Paired text ∧ text.length ≠ 2 * size := by
  constructor
  · rintro ⟨bytes, hdecode, hother⟩
    have hlength := length_of_decode hdecode
    exact ⟨exists_decode_iff.mp ⟨bytes, hdecode⟩, by omega⟩
  · rintro ⟨hpaired, hother⟩
    obtain ⟨bytes, hdecode⟩ := exists_decode_iff.mpr hpaired
    have hlength := length_of_decode hdecode
    exact ⟨bytes, hdecode, by omega⟩

theorem unmarked_eq (text : List Char) : unmarked text = if ['0', 'x'] <+: text then text.drop 2 else text := by
  rw [unmarked.eq_def]
  split
  · simp
  · next hmark =>
    rw [if_neg]
    rintro ⟨rest, rfl⟩
    exact hmark rest rfl

theorem unmarked_of_digits (h : ∀ c ∈ text, IsDigit c) : unmarked text = text := by
  rw [unmarked_eq, if_neg]
  rintro ⟨rest, rfl⟩
  exact absurd (h 'x' (by simp)) (by decide)

theorem unmarked_encode (bytes : Bytes) : unmarked (encode bytes) = encode bytes :=
  unmarked_of_digits (exists_decode_iff.mp ⟨bytes, decode_encode bytes⟩).2

structure ReadsExactly {α : Type} (size : Nat) (misfit : String) (parse : String → Except Misspelling α)
    (digits : α → List Char) : Prop where
  accepts : ∀ text, (∃ a, parse text = .ok a) ↔
    (unmarked text.toList).length = 2 * size ∧ ∀ c ∈ unmarked text.toList, IsDigit c
  lowers : ∀ text a, parse text = .ok a → digits a = (unmarked text.toList).map Char.toLower
  misfits : ∀ text, (parse text).mapError Misspelling.message = .error misfit ↔
    Paired (unmarked text.toList) ∧ (unmarked text.toList).length ≠ 2 * size
  others : ∀ text, (parse text).mapError Misspelling.message = .error "Invalid hex string" ↔
    ¬Paired (unmarked text.toList)
  plain : ∀ a, parse (String.ofList (digits a)) = .ok a
  marked : ∀ a, parse (String.ofList ('0' :: 'x' :: digits a)) = .ok a

section

variable {α : Type} {size : Nat} {fault : Misspelling} {ofBytes : Bytes → α} {bytesOf : α → Bytes}

def fitted (size : Nat) (fault : Misspelling) (ofBytes : Bytes → α) : Option Bytes → Except Misspelling α
  | none => .error .digits
  | some bytes => if bytes.length = size then .ok (ofBytes bytes) else .error fault

theorem fitted_eq_ok {r : Option Bytes} {a : α} : fitted size fault ofBytes r = .ok a ↔
    ∃ bytes, r = some bytes ∧ bytes.length = size ∧ ofBytes bytes = a := by
  cases r with
  | none => simp [fitted]
  | some bytes => by_cases hfits : bytes.length = size <;> simp [fitted, hfits]

theorem fitted_eq_error {r : Option Bytes} {m : Misspelling} : fitted size fault ofBytes r = .error m ↔
    (r = none ∧ m = .digits) ∨ ∃ bytes, r = some bytes ∧ bytes.length ≠ size ∧ m = fault := by
  cases r with
  | none => simp [fitted, eq_comm (a := m)]
  | some bytes => by_cases hfits : bytes.length = size <;> simp [fitted, hfits, eq_comm (a := m)]

theorem ReadsExactly.of_fitted {parse : String → Except Misspelling α}
    (hparse : ∀ text, parse text = fitted size fault ofBytes (decode (unmarked text.toList)))
    (hfault : fault.message ≠ "Invalid hex string") (hsize : ∀ a, (bytesOf a).length = size)
    (hread : ∀ a, ofBytes (bytesOf a) = a) (hwrite : ∀ bytes, bytes.length = size → bytesOf (ofBytes bytes) = bytes) :
    ReadsExactly size fault.message parse fun a => encode (bytesOf a) := by
  have hwritten : ∀ a, fitted size fault ofBytes (decode (encode (bytesOf a))) = .ok a :=
    fun a => fitted_eq_ok.mpr ⟨bytesOf a, decode_encode _, hsize a, hread a⟩
  constructor
  case accepts =>
    intro text
    simp only [hparse, fitted_eq_ok]
    rw [exists_comm, ← exists_decode_length_iff]
    simp only [exists_and_left, exists_eq', and_true]
  case lowers =>
    intro text a h
    rw [hparse] at h
    obtain ⟨bytes, hdecode, hfits, rfl⟩ := fitted_eq_ok.mp h
    rw [hwrite bytes hfits, encode_of_decode hdecode]
  case misfits =>
    intro text
    simp only [hparse, mapError_eq_error, fitted_eq_error]
    constructor
    · rintro ⟨_, ⟨_, rfl⟩ | ⟨bytes, hdecode, hother, rfl⟩, hmessage⟩
      · exact absurd hmessage.symm hfault
      · exact exists_decode_length_ne_iff.mp ⟨bytes, hdecode, hother⟩
    · intro h
      obtain ⟨bytes, hdecode, hother⟩ := exists_decode_length_ne_iff.mpr h
      exact ⟨fault, .inr ⟨bytes, hdecode, hother, rfl⟩, rfl⟩
  case others =>
    intro text
    simp only [hparse, mapError_eq_error, fitted_eq_error]
    constructor
    · rintro ⟨_, ⟨hnone, rfl⟩ | ⟨_, _, _, rfl⟩, hmessage⟩
      · exact decode_eq_none_iff.mp hnone
      · exact absurd hmessage hfault
    · intro h
      exact ⟨.digits, .inl ⟨decode_eq_none_iff.mpr h, rfl⟩, rfl⟩
  case plain =>
    intro a
    rw [hparse, String.toList_ofList, unmarked_encode, hwritten]
  case marked =>
    intro a
    rw [hparse, String.toList_ofList, unmarked, hwritten]

end

end Hex

namespace Json

open Hex (decode IsDigit)

variable {text : String}

theorem word?_text_eq {w : Word} : word? (.text text) = some w ↔
    ∃ bytes, decode text.toList = some bytes ∧ bytes.length = Word.size ∧ Word.ofBytes bytes = w := by
  change ((decode text.toList).bind fun bytes =>
    if bytes.length = Word.size then some (Word.ofBytes bytes) else none) = some w ↔ _
  simp [Option.bind_eq_some_iff]

theorem address?_text_eq {a : Address} : address? (.text text) = some a ↔ Address.parse text = .ok a := by
  change (Address.parse text).toOption = some a ↔ _
  cases Address.parse text <;> simp [Except.toOption]

theorem exists_word?_iff : (∃ w, word? (.text text) = some w) ↔
    text.toList.length = 64 ∧ ∀ c ∈ text.toList, IsDigit c := by
  have hsized : (∃ bytes, decode text.toList = some bytes ∧ bytes.length = Word.size) ↔
      text.toList.length = 64 ∧ ∀ c ∈ text.toList, IsDigit c := Hex.exists_decode_length_iff
  simp only [word?_text_eq]
  rw [exists_comm, ← hsized]
  simp only [exists_and_left, exists_eq', and_true]

theorem parse_of_word? {w : Word} (h : word? (.text text) = some w) : Word.parse text = .ok w := by
  have hdigits := (exists_word?_iff.mp ⟨w, h⟩).2
  obtain ⟨bytes, hdecode, hsize, rfl⟩ := word?_text_eq.mp h
  rw [Word.parse, Hex.unmarked_of_digits hdigits, hdecode]
  exact if_pos hsize

end Json

open Json (word? address?)

theorem texts_exact :
    Hex.ReadsExactly 32 "Invalid hash" Word.parse Word.digits ∧
    Hex.ReadsExactly 20 "Invalid address" Address.parse Address.digits ∧
    (∀ w : Word, w.text = String.ofList w.digits) ∧ (∀ a : Address, a.text = String.ofList ('0' :: 'x' :: a.digits)) ∧
    (∀ text, Hex.unmarked text = if ['0', 'x'] <+: text then text.drop 2 else text) ∧
    (∀ text, (∃ w, word? (.text text) = some w) ↔ text.toList.length = 64 ∧ ∀ c ∈ text.toList, Hex.IsDigit c) ∧
    (∀ text w, word? (.text text) = some w → Word.parse text = .ok w) ∧
    (∀ digits, word? (.text (String.ofList ('0' :: 'x' :: digits))) = none) ∧
    ∀ text a, address? (.text text) = some a ↔ Address.parse text = .ok a := by
  have hword : ∀ text, Word.parse text = Hex.fitted 32 .wordSize Word.ofBytes (Hex.decode (Hex.unmarked text.toList)) :=
    fun _ => rfl
  have haddress : ∀ text,
      Address.parse text = Hex.fitted 20 .addressSize Address.ofBytes (Hex.decode (Hex.unmarked text.toList)) :=
    fun _ => rfl
  refine ⟨?_, ?_, fun _ => rfl, fun _ => rfl, Hex.unmarked_eq, fun _ => Json.exists_word?_iff,
    fun _ _ => Json.parse_of_word?, fun digits => ?_, fun _ _ => Json.address?_text_eq⟩
  · exact .of_fitted hword (by decide) Word.length_bytes Word.ofBytes_bytes fun _ => Word.bytes_ofBytes
  · exact .of_fitted haddress (by decide) Address.length_bytes Address.ofBytes_bytes fun _ => Address.bytes_ofBytes
  apply Option.eq_none_iff_forall_ne_some.mpr
  intro w h
  have hdigits := (Json.exists_word?_iff.mp ⟨w, h⟩).2
  exact absurd (hdigits 'x' (by simp)) (by decide)

end BackedToken
