import BackedToken.Host.Basic

/-! Records that fill consecutive slots of a token's account. -/

namespace BackedToken

namespace Slot

def modulus : Nat := 10000000000

def base (token : Address) (tag : Bytes) : Nat := (Word.digest (token.bytes ++ tag)).toNat % modulus

def key (base offset : Nat) : Word := BitVec.ofNat 256 (base + offset)

def keys (base count : Nat) : List Word := (List.range count).map (key base)

variable {σ : Type} [Host σ]

def load (token : Address) (base count : Nat) : Host.Action σ (List Word) := (keys base count).mapM (Host.read token)

def store (token : Address) (base : Nat) (words : List Word) : Host.Action σ Unit :=
  Host.writeAll token ((keys base words.length).zip words)

end Slot

namespace Pool

def tag : Bytes := Bytes.ofText "SmartDeFi-BackingPool"

def slots : Nat := 4

def slotBase (token : Address) : Nat := Slot.base token tag

def words (pool : Pool) : List Word := [pool.backing, pool.supply, pool.burned, pool.asset.word]

def ofWords (token : Address) (words : List Word) : Pool :=
  { native token (words.getD 0 0) (words.getD 1 0) (words.getD 2 0) with asset := (words.getD 3 0).address }

theorem ofWords_words (token : Address) (backing supply burned : Word) :
    ofWords token (native token backing supply burned).words = native token backing supply burned := by
  simp [ofWords, words, native, Address.address_word]

variable {σ : Type} [Host σ]

def load (token : Address) : Host.Action σ Pool := do
  let words ← Slot.load token (slotBase token) slots
  let pool := ofWords token words
  Host.log (.poolRead pool (slotBase token))
  pure pool

def find? (token : Address) : Host.Action σ (Option Pool) := do
  let pool ← load token
  pure (if pool.isOpen then some pool else none)

def store (pool : Pool) : Host.Action σ Unit := do
  Host.log (.poolWritten pool (slotBase pool.token))
  Slot.store pool.token (slotBase pool.token) pool.words

end Pool

namespace FeePlan

def tag : Bytes := Bytes.ofText "SmartDeFi-Fees"

def slots : Nat := 15

def slotBase (token : Address) : Nat := Slot.base token tag

def words (plan : FeePlan) : List Word :=
  plan.rates.toList ++ [Word.ofBool plan.onlySB, plan.owner.word, Word.ofBool plan.enableLGE]

def ofWords (words : List Word) : FeePlan where
  rates := Vector.ofFn fun i => words.getD i 0
  onlySB := words.getD 12 0 ≠ 0
  owner := (words.getD 13 0).address
  enableLGE := words.getD 14 0 ≠ 0

theorem length_words (plan : FeePlan) : plan.words.length = slots := by
  simp [words, slots]

theorem ofBool_eq_zero (b : Bool) : decide (Word.ofBool b = 0#256) = !b := by
  cases b <;> decide

theorem ofWords_words (plan : FeePlan) : ofWords plan.words = plan := by
  obtain ⟨rates, onlySB, owner, enableLGE⟩ := plan
  have hr : (Vector.ofFn fun i : Fin 12 => (words ⟨rates, onlySB, owner, enableLGE⟩).getD i 0) = rates := by
    ext i hi
    have : rates.toList[i]? = some rates[i] := by simp [hi]
    simp [words, List.getD_eq_getElem?_getD, List.getElem?_append]
  simp only [ofWords, hr]
  simp [words, List.getD_eq_getElem?_getD, ofBool_eq_zero, Address.address_word]

variable {σ : Type} [Host σ]

def load (token : Address) : Host.Action σ FeePlan := do
  let words ← Slot.load token (slotBase token) slots
  pure (ofWords words)

def store (plan : FeePlan) (token : Address) : Host.Action σ Unit := do
  Host.log (.planWritten token plan.words.length (slotBase token))
  Slot.store token (slotBase token) plan.words

end FeePlan

end BackedToken
