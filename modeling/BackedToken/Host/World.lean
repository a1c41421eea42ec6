import BackedToken.Host.Basic
import BackedToken.Table

/-! A host in memory. Only words other than zero are kept, so the entries of an account are its live slots. -/

namespace BackedToken

structure World where
  words : Table (Address × Word) Word := .empty
  balances : Table Address Word := .empty
  nonces : Table Address UInt64 := .empty
  codeSizes : Table Address UInt64 := .empty
  live : ∀ e ∈ words.entries, e.2 ≠ 0 := by simp [Table.empty]

namespace World

def word (w : World) (account : Address) (key : Word) : Word := (w.words.get? (account, key)).getD 0

def balance (w : World) (account : Address) : Word := (w.balances.get? account).getD 0

def nonce (w : World) (account : Address) : UInt64 := (w.nonces.get? account).getD 0

def codeSize (w : World) (account : Address) : UInt64 := (w.codeSizes.get? account).getD 0

def storageSize (w : World) (account : Address) : Nat := (w.words.entries.filter fun e => e.1.1 = account).length

theorem live_put {entries : List ((Address × Word) × Word)} (h : ∀ e ∈ entries, e.2 ≠ 0) (slot : Address × Word)
    {value : Word} (hv : value ≠ 0) : ∀ e ∈ Table.put slot value entries, e.2 ≠ 0 := by
  induction entries with
  | nil => simpa [Table.put] using hv
  | cons e rest ih =>
    rw [List.forall_mem_cons] at h
    obtain ⟨k, v⟩ := e
    by_cases hk : k = slot
    · simp only [Table.put, hk, if_true, List.forall_mem_cons]
      exact ⟨hv, h.2⟩
    · simp only [Table.put, hk, if_false, List.forall_mem_cons]
      exact ⟨h.1, ih h.2⟩

def setWord (w : World) (account : Address) (key value : Word) : World :=
  if hv : value = 0 then
    { w with
      words := w.words.erase (account, key)
      live := fun e he => w.live e (List.mem_filter.mp he).1 }
  else
    { w with
      words := w.words.insert (account, key) value
      live := live_put w.live (account, key) hv }

def setBalance (w : World) (account : Address) (amount : Word) : World :=
  { w with balances := w.balances.insert account amount }

def setNonce (w : World) (account : Address) (nonce : UInt64) : World :=
  { w with nonces := w.nonces.insert account nonce }

def setCodeSize (w : World) (account : Address) (size : UInt64) : World :=
  { w with codeSizes := w.codeSizes.insert account size }

def setWords (w : World) (account : Address) (writes : List (Word × Word)) : World :=
  writes.foldl (fun w e => w.setWord account e.1 e.2) w

def accounts (w : World) : List Address :=
  (w.words.entries.map (·.1.1) ++ w.balances.entries.map (·.1) ++ w.nonces.entries.map (·.1) ++
    w.codeSizes.entries.map (·.1)).eraseDups

def perform : (request : Host.Request) → Host.Action World request.Reply
  | .read account key => fun w => .ok (w.word account key) w
  | .write account key value => fun w => .ok () (w.setWord account key value)
  | .writeAll account writes => fun w => .ok () (w.setWords account writes)
  | .balance account => fun w => .ok (w.balance account) w
  | .deposit account amount => fun w =>
    match Word.ofNat? ((w.balance account).toNat + amount.toNat) with
    | some total => .ok () (w.setBalance account total)
    | none => .error (.balanceOverflow account) w
  | .withdraw account amount => fun w =>
    if w.balance account < amount then .error (.balanceInsufficient account amount (w.balance account)) w
    else .ok () (w.setBalance account (w.balance account - amount))
  | .nonce account => fun w => .ok (w.nonce account) w
  | .codeSize account => fun w => .ok (w.codeSize account) w

theorem word_setWord (w : World) (account other : Address) (key k value : Word) :
    (w.setWord account key value).word other k = if account = other ∧ key = k then value else w.word other k := by
  rw [setWord]
  split
  · next h =>
    simp only [word, Table.get?_erase, Prod.mk.injEq, h]
    split <;> rfl
  · simp only [word, Table.get?_insert, Prod.mk.injEq]
    split <;> rfl

theorem balances_setWord (w : World) (account : Address) (key value : Word) :
    (w.setWord account key value).balances = w.balances := by
  rw [setWord]
  split <;> rfl

theorem nonces_setWord (w : World) (account : Address) (key value : Word) :
    (w.setWord account key value).nonces = w.nonces := by
  rw [setWord]
  split <;> rfl

theorem codeSizes_setWord (w : World) (account : Address) (key value : Word) :
    (w.setWord account key value).codeSizes = w.codeSizes := by
  rw [setWord]
  split <;> rfl

theorem balance_setBalance (w : World) (account other : Address) (amount : Word) :
    (w.setBalance account amount).balance other = if account = other then amount else w.balance other := by
  simp only [balance, setBalance, Table.get?_insert]
  split <;> rfl

instance : Host World where
  perform := perform
  record _ w := w

end World

end BackedToken
