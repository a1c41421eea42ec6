import BackedToken.Proofs.Digest
import BackedToken.Proofs.History.Lifetime
import BackedToken.Proofs.Outcome.Creation
import Mathlib.Data.Nat.Digits.Lemmas

/-! The digested texts follow each other without a mark, so terms that run together share an address. -/

namespace BackedToken

open Check Contract World
open Custody (samplePrice sampleStart sampleTerms sampleToken)

namespace Bytes

def minimal (n : Nat) : Bytes := ((Nat.digits 256 n).map UInt8.ofNat).reverse

theorem minimal_of_pos {n : Nat} (h : 0 < n) : minimal n = minimal (n / 256) ++ [UInt8.ofNat n] := by
  rw [minimal, Nat.digits_def' (by decide) h, List.map_cons, List.reverse_cons, ← minimal]
  congr 2
  exact UInt8.toNat_inj.mp (by simp)

theorem value_minimal (n : Nat) : value (minimal n) = n := by
  induction n using Nat.strongRecOn with
  | ind n ih =>
    obtain rfl | hpos := Nat.eq_zero_or_pos n
    · rfl
    · rw [minimal_of_pos hpos, value_concat, ih _ (Nat.div_lt_self hpos (by decide)), UInt8.toNat_ofNat']
      omega

theorem minimal_injective : Function.Injective minimal := Function.LeftInverse.injective value_minimal

theorem minimal_eq_nil_iff {n : Nat} : minimal n = [] ↔ n = 0 := by
  refine ⟨fun h => ?_, fun h => h ▸ rfl⟩
  rw [← value_minimal n, h]
  rfl

theorem minimal_concat {n : Nat} {b : UInt8} (h : n ≠ 0 ∨ b ≠ 0) : minimal (256 * n + b.toNat) = minimal n ++ [b] := by
  have hpos : 0 < 256 * n + b.toNat := by
    rw [ne_eq, ne_eq, ← UInt8.toNat_inj, UInt8.toNat_zero] at h
    omega
  rw [minimal_of_pos hpos, div_concat, ofNat_concat]

theorem dropWhile_zero (bytes : Bytes) : bytes.dropWhile (· == 0) = minimal (value bytes) := by
  -- from the end, as numbers grow; the front is dropped whole just if it spells nothing
  induction bytes using List.reverseRecOn with
  | nil => rfl
  | append_singleton front b ih =>
    rw [List.dropWhile_append, ih, value_concat]
    by_cases hfront : value front = 0
    · rw [hfront]
      by_cases hb : b = 0
      · rw [hb]
        rfl
      · rw [minimal_concat (.inr hb)]
        simp [minimal, hb]
    · have hsome : (minimal (value front)).isEmpty = false := by
        rw [List.isEmpty_eq_false_iff]
        exact mt minimal_eq_nil_iff.mp hfront
      rw [minimal_concat (.inl hfront), hsome]
      rfl

end Bytes

namespace Terms

variable {terms other : Terms} {creator creator' : Address} {nonce nonce' : UInt64}

def spelling (terms : Terms) : Bytes :=
  Bytes.ofText terms.name ++ Bytes.ofText terms.symbol ++ Bytes.minimal terms.supply.toNat

theorem preimage_eq (terms : Terms) (creator : Address) (nonce : UInt64) :
    terms.preimage creator nonce = creator.bytes ++ (Bytes.bigEndian 32 nonce.toNat ++ terms.spelling) := by
  rw [preimage, Bytes.dropWhile_zero, Word.value_bytes, spelling]
  simp only [List.append_assoc, Word.size]

theorem preimage_eq_iff : terms.preimage creator nonce = other.preimage creator' nonce' ↔
    creator = creator' ∧ nonce = nonce' ∧ terms.spelling = other.spelling := by
  have hfits : ∀ nonce : UInt64, nonce.toNat < 256 ^ 32 := fun nonce =>
    Nat.lt_of_lt_of_le nonce.toNat_lt (by decide)
  rw [preimage_eq, preimage_eq]
  constructor
  · intro h
    obtain ⟨hcreator, hrest⟩ := List.append_inj h (by rw [creator.length_bytes, creator'.length_bytes])
    obtain ⟨hnonce, hspelling⟩ := List.append_inj hrest (by rw [Bytes.length_bigEndian, Bytes.length_bigEndian])
    have hnonce' : nonce.toNat = nonce'.toNat := (Bytes.bigEndian_inj (hfits _) (hfits _)).mp hnonce
    exact ⟨Address.bytes_inj.mp hcreator, UInt64.toNat_inj.mp hnonce', hspelling⟩
  · rintro ⟨rfl, rfl, hspelling⟩
    rw [hspelling]

theorem spelling_eq_iff (hname : terms.name = other.name) (hsymbol : terms.symbol = other.symbol) :
    terms.spelling = other.spelling ↔ terms.supply = other.supply := by
  rw [spelling, spelling, hname, hsymbol, List.append_cancel_left_eq, Bytes.minimal_injective.eq_iff, BitVec.toNat_inj]

theorem bytes_tokenAddress (terms : Terms) (creator : Address) (nonce : UInt64) :
    (terms.tokenAddress creator nonce).bytes = (Keccak.digest (terms.preimage creator nonce)).drop 12 := by
  rw [tokenAddress, Word.bytes_address, Word.bytes_digest]

theorem tokenAddress_congr (h : terms.spelling = other.spelling) (creator : Address) (nonce : UInt64) :
    terms.tokenAddress creator nonce = other.tokenAddress creator nonce := by
  rw [tokenAddress, tokenAddress, preimage_eq_iff.mpr ⟨rfl, rfl, h⟩]

def Proposed (terms : Terms) (payload : Bytes) : Prop :=
  ∃ args, Payload.split payload = .ok (Method.create.selector, args) ∧ Terms.ofArguments args = .ok terms

structure Barred (terms : Terms) (creator token : Address) (w : World) : Prop where
  rejected : ∀ (settings : Settings) (context : Context) (payload : Bytes) (limit : Gas), context.caller = creator →
    terms.Proposed payload → ∃ rejection, execute settings context payload limit w = .error rejection w
  told : ∀ (settings : Settings) (context : Context) (payload args : Bytes) (limit : Gas), context.caller = creator →
    Admitted settings context payload limit .create args → Terms.ofArguments args = .ok terms → terms.validate = .ok () →
    terms.initialBacking ≤ w.balance creator → execute settings context payload limit w = .error (.tokenExists token) w

theorem barred_of_taken {creator : Address} {w : World} (hcreator : creator ≠ 0)
    (htaken : (w.pool (terms.tokenAddress creator (w.nonce creator))).isOpen = true) :
    terms.Barred creator (terms.tokenAddress creator (w.nonce creator)) w where
  rejected := by
    rintro settings context payload limit rfl ⟨args, hsplit, hargs⟩
    cases hexecute : execute settings context payload limit w with
    | ok receipt w' =>
      obtain ⟨decoded, hdecoded, hc, _⟩ := created_of_execute hexecute hsplit
      obtain rfl : decoded = terms := Except.ok.inj (hdecoded.symm.trans hargs)
      cases hc.free.symm.trans htaken
    | error rejection w' => exact ⟨rejection, by rw [undone_execute _ _ _ _ _ _ _ hexecute]⟩
  told := by
    rintro settings context payload args limit rfl hcall hargs hvalid hcovered
    have hrefuses : Refuses (creationChecks settings context args w) (.tokenExists (newToken context terms w)) := by
      rw [creationChecks, hargs, orElse, hvalid, orElse]
      refine .there hcreator (.there hcovered (.here fun hfree => ?_))
      cases htaken.symm.trans (not_isOpen_iff.mpr hfree.2)
    have hdecides : Decides _ (execute settings context payload limit w) :=
      decides_execute hcall.split (decides_create.atomically (matches_create settings context args w))
    exact (execute_eq_error (hdecides.drop hcall.meets)).mpr ⟨hrefuses, rfl⟩

/-- The digested bytes tell the creator, the nonce and the texts run together, so of the terms that share an address
only one is created. -/
theorem address_commitment (terms other : Terms) :
    (∀ creator creator' nonce nonce', terms.preimage creator nonce = other.preimage creator' nonce' ↔
      creator = creator' ∧ nonce = nonce' ∧ terms.spelling = other.spelling) ∧
    (terms.name = other.name → terms.symbol = other.symbol →
      (terms.spelling = other.spelling ↔ terms.supply = other.supply)) ∧
    (∀ creator nonce, (terms.tokenAddress creator nonce).bytes =
      (Keccak.digest (terms.preimage creator nonce)).drop 12) ∧
    (terms.spelling = other.spelling →
      (∀ creator nonce, terms.tokenAddress creator nonce = other.tokenAddress creator nonce) ∧
      ∀ (settings : Settings) (context : Context) (payload : Bytes) (limit : Gas) (receipt : Receipt) (token : Address)
        (w w' v : World), terms.Proposed payload → execute settings context payload limit w = .ok receipt w' →
        receipt.output = token.word.bytes → v.nonce context.caller = w.nonce context.caller →
        (v.pool token).isOpen = true → other.Barred context.caller token v) := by
  refine ⟨fun _ _ _ _ => preimage_eq_iff, spelling_eq_iff, terms.bytes_tokenAddress, fun hspelling => ?_⟩
  refine ⟨tokenAddress_congr hspelling, ?_⟩
  rintro settings context payload limit receipt token w w' v ⟨args, hsplit, hargs⟩ hcreate houtput hnonce hopen
  obtain ⟨htoken, hc, _⟩ := issued_of_execute hcreate hsplit hargs houtput
  have hsame : other.tokenAddress context.caller (v.nonce context.caller) = token := by
    rw [hnonce, ← tokenAddress_congr hspelling]
    exact htoken
  rw [← hsame] at hopen
  exact hsame ▸ barred_of_taken hc.caller hopen

theorem address_commitment_sample :
    let other : Terms := { name := "CoinC", supply := 20068, plan := { owner := 7 } }
    let price := Tariff.cost {} (Call.create other).payload.length .create
    ∃ w, execute {} { caller := 1 } (Call.create sampleTerms).payload samplePrice sampleStart =
        .ok ⟨samplePrice, sampleToken.word.bytes⟩ w ∧
      other.tokenAddress 1 0 = sampleToken ∧
      execute {} { caller := 1 } (Call.create other).payload price w = .error (.tokenExists sampleToken) w := by
  intro other price
  obtain ⟨w, hcreate, _⟩ := Custody.sample_created
  have hsplit := Call.split_create sampleTerms
  have hnonce : w.nonce 1 = sampleStart.nonce 1 := (exchanged_of_effect (effect_of_execute hcreate)).nonce 1
  obtain ⟨_, hopen, _⟩ := created hcreate hsplit Custody.sample_decoded rfl Custody.sample_apart
  have hargs : Terms.ofArguments (Payload.write other.pieces) = .ok other := by
    apply ofArguments_write_pieces
    rw [length_write_pieces]
    decide
  have hcall : Admitted {} { caller := 1 } (Call.create other).payload price .create (Payload.write other.pieces) :=
    ⟨Call.split_create other, UInt64.le_refl _, rfl, fun _ => rfl⟩
  obtain ⟨hpreimage, _, _, hcollide⟩ := address_commitment sampleTerms other
  -- equal preimages are found by evaluation, and only then is the spelling known to be equal
  have hspelling : sampleTerms.spelling = other.spelling := ((hpreimage 0 0 0 0).mp (by decide +kernel)).2.2
  obtain ⟨haddress, hbarred⟩ := hcollide hspelling
  have hbar : other.Barred 1 sampleToken w :=
    hbarred {} _ _ _ _ sampleToken sampleStart w w ⟨_, hsplit, Custody.sample_decoded⟩ hcreate rfl hnonce hopen
  refine ⟨w, hcreate, (haddress 1 0).symm, ?_⟩
  exact hbar.told {} _ _ _ price rfl hcall hargs (by decide) (BitVec.le_def.mpr (Nat.zero_le _))

end Terms

end BackedToken
