import BackedToken.Json.Fields
import BackedToken.Proofs.Json.Reading
import BackedToken.Proofs.Numbers
import Mathlib.Data.List.Nodup

namespace BackedToken

theorem digits_induction {b : Nat} (hb : 1 < b) {P : Nat → List Char → Prop}
    (single : ∀ d < b, P d [d.digitChar])
    (concat : ∀ n d, 0 < n → d < b → P n (Nat.toDigits b n) → P (b * n + d) (Nat.toDigits b n ++ [d.digitChar])) (n : Nat) :
    P n (Nat.toDigits b n) := by
  induction n using Nat.strongRecOn with
  | ind n ih =>
    obtain hsmall | hlarge := Nat.lt_or_ge n b
    · rw [Nat.toDigits_of_lt_base hsmall]
      exact single n hsmall
    · rw [Nat.toDigits_of_base_le hb hlarge]
      have hfront := concat (n / b) (n % b) (Nat.div_pos hlarge (by omega)) (Nat.mod_lt n (by omega))
        (ih _ (Nat.div_lt_self (by omega) hb))
      rwa [Nat.div_add_mod] at hfront

namespace Hex

theorem value?_digitChar {d : Nat} (h : d < 16) : value? d.digitChar = some d := by
  have all : ∀ i : Fin 16, value? (Nat.digitChar i) = some i.val := by decide
  exact all ⟨d, h⟩

theorem nat?_ofNat (n : Nat) : nat? (ofNat n) = some n := by
  refine digits_induction (P := fun n digits => nat? digits = some n) (by decide) (fun d hd => ?_) (fun n d _ hd ih => ?_) n
  · simp [nat?, value?_digitChar hd]
  · rw [nat?] at ih
    simp [nat?, ih, value?_digitChar hd]

theorem not_isBlank_ofNat (n : Nat) : ∀ c ∈ ofNat n, Json.isBlank c = false := by
  have all : ∀ i : Fin 16, Json.isBlank (Nat.digitChar i) = false := by decide
  refine digits_induction (P := fun _ digits => ∀ c ∈ digits, Json.isBlank c = false) (by decide) (fun d hd => ?_)
    (fun n d _ hd ih => ?_) n
  · simpa using all ⟨d, hd⟩
  · simpa [or_imp, forall_and] using ⟨ih, all ⟨d, hd⟩⟩

end Hex

namespace Json

variable {α : Type}

section Strings

@[simp]
theorem quantity?_ofQuantity (w : Word) : quantity? (ofQuantity w) = some w := by
  have hlong : (Hex.ofNat w.toNat).length ≤ 64 := (Nat.length_toDigits_le_iff (by decide) (by decide)).mpr w.isLt
  have hsome : Hex.ofNat w.toNat ≠ [] := Nat.toDigits_ne_nil
  have hread : spacedNat? (Hex.ofNat w.toNat) = some w.toNat :=
    (spacedNat?_of_no_blank (Hex.not_isBlank_ofNat _)).trans (Hex.nat?_ofNat _)
  simp [quantity?, ofQuantity, text, text?, Hex.unmarked, hsome, hlong, hread]

@[simp]
theorem word?_ofWord (w : Word) : word? (ofWord w) = some w := by
  simp [word?, ofWord, text, text?, Word.text, Word.digits, Hex.decode_encode, Word.length_bytes, Word.size, Word.ofBytes_bytes]

@[simp]
theorem address?_ofAddress (a : Address) : address? (ofAddress a) = some a := by
  simp [address?, ofAddress, text, text?, Address.text, Address.parse, Hex.unmarked, Address.digits, Hex.decode_encode,
    Address.length_bytes, Address.size, Address.ofBytes_bytes, Except.toOption]

@[simp]
theorem text?_text (s : String) : text? (text s) = some s := rfl

@[simp]
theorem valid_text (s : String) : Valid (text s) := .str s

@[simp]
theorem valid_ofQuantity (w : Word) : Valid (ofQuantity w) := .str _

@[simp]
theorem valid_ofWord (w : Word) : Valid (ofWord w) := .str _

@[simp]
theorem valid_ofAddress (a : Address) : Valid (ofAddress a) := .str _

end Strings

section Names

@[simp]
theorem flag?_bool (b : Bool) : flag? (bool b) = some b := rfl

@[simp]
theorem valid_bool (b : Bool) : Valid (bool b) := .bool b

end Names

section Counts

theorem toDigits_leading {n : Nat} (hn : n ≠ 0) : ∃ c rest, Nat.toDigits 10 n = c :: rest ∧ c ≠ '0' := by
  have all : ∀ d : Fin 10, d ≠ 0 → Nat.digitChar d ≠ '0' := by decide
  refine digits_induction (P := fun n digits => n ≠ 0 → ∃ c rest, digits = c :: rest ∧ c ≠ '0') (by decide)
    (fun d hd hne => ?_) (fun n d hpos _ ih _ => ?_) n hn
  · exact ⟨_, [], rfl, all ⟨d, hd⟩ (Fin.ne_of_val_ne hne)⟩
  · obtain ⟨c, rest, hdigits, hc⟩ := ih (Nat.ne_of_gt hpos)
    exact ⟨c, rest ++ [d.digitChar], by rw [hdigits]; rfl, hc⟩

theorem foldlM_whole {digits : List Char} (h : ∀ c ∈ digits, c.isDigit = true) :
    digits.foldlM Numeral.next? .whole = some .whole := by
  induction digits with
  | nil => rfl
  | cons c digits ih =>
    rw [List.forall_mem_cons] at h
    simp [Numeral.next?, h.1, ih h.2]

theorem isNumeral_toDigits (n : Nat) : IsNumeral (Nat.toDigits 10 n) := by
  by_cases hn : n = 0
  · subst hn
    exact ⟨.zero, .zero, rfl, rfl, rfl⟩
  · obtain ⟨c, rest, hdigits, hc⟩ := toDigits_leading hn
    have hall : ∀ d ∈ c :: rest, d.isDigit = true := fun d hd =>
      Nat.isDigit_of_mem_toDigits (by decide) (by decide) (hdigits ▸ hd)
    rw [List.forall_mem_cons] at hall
    have hminus : c ≠ '-' := by
      rintro rfl
      exact absurd hall.1 (by decide)
    rw [hdigits]
    exact ⟨.whole, .whole, by simp [Numeral.start?, hminus, hc, hall.1], foldlM_whole hall.2, rfl⟩

@[simp]
theorem count?_ofCount (n : UInt64) : count? (ofCount n) = some n := by
  have hdigits : (Nat.toDigits 10 n.toNat).all Char.isDigit = true :=
    List.all_eq_true.mpr fun c hc => Nat.isDigit_of_mem_toDigits (by decide) (by decide) hc
  have hvalue : (Nat.toDigits 10 n.toNat).foldl (fun n c => 10 * n + (c.toNat - 48)) 0 = n.toNat :=
    Nat.ofDigitChars_ten_toDigits
  have hsize : n.toNat < UInt64.size := n.toNat_lt
  simp only [count?, ofCount, ofNat, hdigits, if_true, hvalue, hsize, UInt64.ofNat_toNat]

@[simp]
theorem valid_ofCount (n : UInt64) : Valid (ofCount n) := .num (isNumeral_toDigits _)

end Counts

section Lists

variable {read : Json → Option α} {write : α → Json}

@[simp]
theorem items?_map (h : ∀ a, read (write a) = some a) (as : List α) : items? read (arr (as.map write)) = some as := by
  rw [items?]
  induction as with
  | nil => rfl
  | cons a as ih => simp [h a, ih]

@[simp]
theorem valid_map (h : ∀ a, Valid (write a)) (as : List α) : Valid (arr (as.map write)) := by
  refine .arr fun item hitem => ?_
  obtain ⟨a, _, rfl⟩ := List.mem_map.mp hitem
  exact h a

end Lists

section Objects

variable {members : List (String × Json)}

theorem fields?_object_eq (names : List String) (members : List (String × Json)) :
    fields? names (object members) =
      if ∀ name ∈ names, (members.map Prod.fst).count name ≤ 1 then
        some fun name => (members.find? (·.1 == name)).map Prod.snd
      else none := by
  simp [fields?, object, List.count, List.countP_map, List.find?_map, Function.comp_def]

theorem fields?_object (names : List String) (h : (members.map Prod.fst).Nodup) :
    fields? names (object members) = some fun name => (members.find? (·.1 == name)).map Prod.snd := by
  rw [fields?_object_eq, if_pos fun name _ => List.nodup_iff_count_le_one.mp h name]

theorem valid_object (h : ∀ m ∈ members, Valid m.2) : Valid (object members) := by
  refine .obj fun m hm => ?_
  obtain ⟨member, hmember, rfl⟩ := List.mem_map.mp hm
  exact h member hmember

end Objects

end Json

end BackedToken
