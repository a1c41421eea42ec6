import BackedToken.Proofs.Host.Observation
import BackedToken.Proofs.Host.Steps
import BackedToken.Storage.Records

namespace BackedToken

namespace Slot

theorem base_lt (token : Address) (tag : Bytes) : base token tag < modulus := Nat.mod_lt _ (by decide)

theorem key_eq_key_iff {base start i j : Nat} (hi : base + i < 2 ^ 256) (hj : start + j < 2 ^ 256) :
    key base i = key start j ↔ base + i = start + j := by
  rw [← BitVec.toNat_inj, key, key, BitVec.toNat_ofNat, BitVec.toNat_ofNat, Nat.mod_eq_of_lt hi, Nat.mod_eq_of_lt hj]

theorem length_keys (base count : Nat) : (keys base count).length = count := by
  rw [keys, List.length_map, List.length_range]

theorem mem_keys {base count : Nat} {k : Word} : k ∈ keys base count ↔ ∃ i < count, key base i = k := by
  simp only [keys, List.mem_map, List.mem_range]

theorem nodup_keys {base count : Nat} (h : base + count ≤ 2 ^ 256) : (keys base count).Nodup := by
  apply List.nodup_range.map_on
  intro i hi j hj he
  rw [List.mem_range] at hi hj
  exact Nat.add_left_cancel ((key_eq_key_iff (by omega) (by omega)).mp he)

end Slot

namespace World

def stored (w : World) (account : Address) (base count : Nat) : List Word :=
  (Slot.keys base count).map (w.word account)

def setRecord (w : World) (account : Address) (base : Nat) (words : List Word) : World :=
  w.setWords account ((Slot.keys base words.length).zip words)

theorem sameAccounts_setRecord (w : World) (account : Address) (base : Nat) (words : List Word) :
    (w.setRecord account base words).SameAccounts w := w.sameAccounts_setWords account _

section Record

variable {base : Nat} {words : List Word} (w : World) (account : Address) (h : base + words.length ≤ 2 ^ 256)
include h

theorem nodup_writes : (((Slot.keys base words.length).zip words).map Prod.fst).Nodup := by
  rw [List.map_fst_zip (by rw [Slot.length_keys])]
  exact Slot.nodup_keys h

theorem word_setRecord (other : Address) (key : Word) : (w.setRecord account base words).word other key =
    if account = other then (Table.find key ((Slot.keys base words.length).zip words)).getD (w.word other key)
      else w.word other key :=
  word_setWords w (nodup_writes h) account other key

theorem word_setRecord_of_ne {other : Address} (ha : account ≠ other) (key : Word) :
    (w.setRecord account base words).word other key = w.word other key := by
  rw [word_setRecord w account h, if_neg ha]

theorem word_setRecord_of_notMem {key : Word} (hk : key ∉ Slot.keys base words.length) :
    (w.setRecord account base words).word account key = w.word account key := by
  have hnone : Table.find key ((Slot.keys base words.length).zip words) = none := by
    rw [Table.find_eq_none_iff, List.map_fst_zip (by rw [Slot.length_keys])]
    exact hk
  rw [word_setRecord w account h, if_pos rfl, hnone]
  rfl

theorem word_setRecord_outside {other : Address} {key : Word}
    (hk : account = other → key ∉ Slot.keys base words.length) :
    (w.setRecord account base words).word other key = w.word other key := by
  by_cases ha : account = other
  · subst ha
    exact word_setRecord_of_notMem w account h (hk rfl)
  · exact word_setRecord_of_ne w account h ha key

theorem word_setRecord_key {i : Nat} (hi : i < words.length) :
    (w.setRecord account base words).word account (Slot.key base i) = words[i] := by
  have hsome : Table.find (Slot.key base i) ((Slot.keys base words.length).zip words) = some words[i] := by
    rw [Table.find_eq_some_iff (nodup_writes h), List.mem_iff_getElem]
    refine ⟨i, by simpa [Slot.length_keys] using hi, ?_⟩
    simp [Slot.keys]
  rw [word_setRecord w account h, if_pos rfl, hsome]
  rfl

theorem stored_setRecord : (w.setRecord account base words).stored account base words.length = words := by
  apply List.ext_getElem
  · rw [stored, List.length_map, Slot.length_keys]
  · intro i _ hi
    simp only [stored, Slot.keys, List.getElem_map, List.getElem_range]
    exact word_setRecord_key w account h hi

theorem stored_setRecord_of_ne {other : Address} (ha : account ≠ other) (start count : Nat) :
    (w.setRecord account base words).stored other start count = w.stored other start count :=
  List.map_congr_left fun key _ => word_setRecord_of_ne w account h ha key

theorem stored_setRecord_of_apart {start count : Nat} (hs : start + count ≤ 2 ^ 256)
    (hapart : base + words.length ≤ start ∨ start + count ≤ base) :
    (w.setRecord account base words).stored account start count = w.stored account start count := by
  refine List.map_congr_left fun key hkey => word_setRecord_of_notMem w account h ?_
  intro hown
  obtain ⟨i, hi, rfl⟩ := Slot.mem_keys.mp hkey
  obtain ⟨j, hj, he⟩ := Slot.mem_keys.mp hown
  have hmeet := (Slot.key_eq_key_iff (by omega) (by omega)).mp he
  omega

end Record

def pool (w : World) (token : Address) : Pool :=
  Pool.ofWords token (w.stored token (Pool.slotBase token) Pool.slots)

def plan (w : World) (token : Address) : FeePlan :=
  FeePlan.ofWords (w.stored token (FeePlan.slotBase token) FeePlan.slots)

def setPool (w : World) (pool : Pool) : World := w.setRecord pool.token (Pool.slotBase pool.token) pool.words

def setPlan (w : World) (token : Address) (plan : FeePlan) : World :=
  w.setRecord token (FeePlan.slotBase token) plan.words

end World

def Pool.slotKeys (token : Address) : List Word := Slot.keys (slotBase token) slots

def FeePlan.slotKeys (token : Address) : List Word := Slot.keys (slotBase token) slots

def Pool.slotKey (token : Address) (i : Nat) : Word := Slot.key (slotBase token) i

def FeePlan.slotKey (token : Address) (i : Nat) : Word := Slot.key (slotBase token) i

def Pool.Apart (token : Address) : Prop :=
  Pool.slotBase token + Pool.slots ≤ FeePlan.slotBase token ∨ FeePlan.slotBase token + FeePlan.slots ≤ Pool.slotBase token

instance (token : Address) : Decidable (Pool.Apart token) := inferInstanceAs (Decidable (_ ∨ _))

theorem Pool.length_words (pool : Pool) : pool.words.length = Pool.slots := rfl

theorem Pool.slots_fit (token : Address) : Pool.slotBase token + Pool.slots ≤ 2 ^ 256 := by
  have h := Slot.base_lt token Pool.tag
  simp only [Slot.modulus] at h
  simp only [Pool.slotBase, Pool.slots]
  omega

theorem FeePlan.slots_fit (token : Address) : FeePlan.slotBase token + FeePlan.slots ≤ 2 ^ 256 := by
  have h := Slot.base_lt token FeePlan.tag
  simp only [Slot.modulus] at h
  simp only [FeePlan.slotBase, FeePlan.slots]
  omega

namespace World

variable (w : World)

theorem stored_of_no_words {w : World} (h : w.words = .empty) (account : Address) (base count : Nat) :
    w.stored account base count = List.replicate count 0 := by
  rw [stored, List.eq_replicate_iff]
  refine ⟨by rw [List.length_map, Slot.length_keys], ?_⟩
  rintro value hv
  obtain ⟨key, _, rfl⟩ := List.mem_map.mp hv
  rw [word, h]
  rfl

theorem plan_of_no_words {w : World} (h : w.words = .empty) (token : Address) : w.plan token = {} := by
  rw [World.plan, stored_of_no_words h]
  decide

theorem word_setPool_outside {pool : Pool} {account : Address} {key : Word}
    (h : pool.token = account → key ∉ Pool.slotKeys account) : (w.setPool pool).word account key = w.word account key := by
  refine word_setRecord_outside w pool.token (Pool.slots_fit pool.token) fun ht => ?_
  exact ht ▸ h ht

theorem word_setPlan_outside {token account : Address} {key : Word}
    (h : token = account → key ∉ FeePlan.slotKeys account) (plan : FeePlan) :
    (w.setPlan token plan).word account key = w.word account key := by
  refine word_setRecord_outside w token ?_ fun ht => ?_
  · rw [FeePlan.length_words]
    exact FeePlan.slots_fit token
  · rw [FeePlan.length_words]
    exact ht ▸ h ht

theorem word_setRecord_getD {account : Address} {base : Nat} {words : List Word} (h : base + words.length ≤ 2 ^ 256)
    {i : Nat} (hi : i < words.length) :
    (w.setRecord account base words).word account (Slot.key base i) = words.getD i 0 := by
  simp [word_setRecord_key w account h hi, List.getD_eq_getElem?_getD, hi]

theorem word_setPool_key (pool : Pool) {i : Nat} (hi : i < Pool.slots) :
    (w.setPool pool).word pool.token (Pool.slotKey pool.token i) = pool.words.getD i 0 :=
  w.word_setRecord_getD (Pool.slots_fit pool.token) hi

theorem word_setPlan_key (token : Address) (plan : FeePlan) {i : Nat} (hi : i < FeePlan.slots) :
    (w.setPlan token plan).word token (FeePlan.slotKey token i) = plan.words.getD i 0 := by
  have hfits := FeePlan.slots_fit token
  rw [← plan.length_words] at hi hfits
  exact w.word_setRecord_getD hfits hi

theorem word_setPool (pool : Pool) (account : Address) (key : Word) : (w.setPool pool).word account key =
    if pool.token = account then (Table.find key ((Pool.slotKeys pool.token).zip pool.words)).getD (w.word account key)
      else w.word account key :=
  word_setRecord w pool.token (Pool.slots_fit pool.token) account key

theorem stored_pool (token : Address) : w.stored token (Pool.slotBase token) Pool.slots =
    [w.word token (Pool.slotKey token 0), w.word token (Pool.slotKey token 1), w.word token (Pool.slotKey token 2),
      w.word token (Pool.slotKey token 3)] := rfl

theorem backing_pool (token : Address) : (w.pool token).backing = w.word token (Pool.slotKey token 0) := by
  simp [World.pool, Pool.ofWords, Pool.native, stored_pool]

theorem supply_pool (token : Address) : (w.pool token).supply = w.word token (Pool.slotKey token 1) := by
  simp [World.pool, Pool.ofWords, Pool.native, stored_pool]

theorem burned_pool (token : Address) : (w.pool token).burned = w.word token (Pool.slotKey token 2) := by
  simp [World.pool, Pool.ofWords, Pool.native, stored_pool]

theorem not_isOpen_iff {w : World} {token : Address} :
    (w.pool token).isOpen = false ↔ w.word token (Pool.slotKey token 1) = 0 := by
  simp [Pool.isOpen, supply_pool]

theorem pool_setPool_self (pool : Pool) : (w.setPool pool).pool pool.token = Pool.ofWords pool.token pool.words := by
  rw [World.pool, setPool, ← pool.length_words, stored_setRecord]
  exact Pool.slots_fit pool.token

theorem pool_setPool_of_ne {pool : Pool} {token : Address} (h : pool.token ≠ token) :
    (w.setPool pool).pool token = w.pool token := by
  rw [World.pool, setPool, stored_setRecord_of_ne w pool.token (Pool.slots_fit pool.token) h]
  rfl

theorem pool_setPool_native_self (token : Address) (backing supply burned : Word) :
    (w.setPool (.native token backing supply burned)).pool token = .native token backing supply burned :=
  (w.pool_setPool_self _).trans (Pool.ofWords_words ..)

theorem pool_setPool_native (token : Address) (backing supply burned : Word) (other : Address) :
    (w.setPool (.native token backing supply burned)).pool other =
      if token = other then .native token backing supply burned else w.pool other := by
  split
  · next h =>
    rw [← h]
    exact w.pool_setPool_native_self token backing supply burned
  · next h => exact w.pool_setPool_of_ne h

theorem pool_setPlan_of_ne {token other : Address} (h : token ≠ other) (plan : FeePlan) :
    (w.setPlan token plan).pool other = w.pool other := by
  rw [World.pool, setPlan, stored_setRecord_of_ne w token _ h]
  · rfl
  · rw [FeePlan.length_words]
    exact FeePlan.slots_fit token

theorem pool_setPlan {token : Address} (h : Pool.Apart token) (plan : FeePlan) :
    (w.setPlan token plan).pool token = w.pool token := by
  rw [World.pool, setPlan, stored_setRecord_of_apart w token]
  · rfl
  · rw [FeePlan.length_words]
    exact FeePlan.slots_fit token
  · exact Pool.slots_fit token
  · rw [FeePlan.length_words]
    exact h.symm

theorem plan_setPlan_self (token : Address) (plan : FeePlan) : (w.setPlan token plan).plan token = plan := by
  rw [World.plan, setPlan, ← plan.length_words, stored_setRecord, FeePlan.ofWords_words]
  rw [FeePlan.length_words]
  exact FeePlan.slots_fit token

theorem plan_setPlan_of_ne {token other : Address} (h : token ≠ other) (plan : FeePlan) :
    (w.setPlan token plan).plan other = w.plan other := by
  rw [World.plan, setPlan, stored_setRecord_of_ne w token _ h]
  · rfl
  · rw [FeePlan.length_words]
    exact FeePlan.slots_fit token

theorem plan_setPool_of_ne {pool : Pool} {token : Address} (h : pool.token ≠ token) :
    (w.setPool pool).plan token = w.plan token := by
  rw [World.plan, setPool, stored_setRecord_of_ne w pool.token (Pool.slots_fit pool.token) h]
  rfl

theorem plan_setPool {token : Address} (h : Pool.Apart token) (pool : Pool) :
    (w.setPool pool).plan token = w.plan token := by
  by_cases ht : pool.token = token
  · subst ht
    rw [World.plan, setPool, stored_setRecord_of_apart w pool.token]
    · rfl
    · exact Pool.slots_fit pool.token
    · exact FeePlan.slots_fit pool.token
    · exact h
  · exact w.plan_setPool_of_ne ht

theorem plan_congr {w v : World} (h : ∀ account key, w.word account key = v.word account key) (token : Address) :
    w.plan token = v.plan token := by
  have hstored : w.stored token (FeePlan.slotBase token) FeePlan.slots =
      v.stored token (FeePlan.slotBase token) FeePlan.slots :=
    List.map_congr_left fun key _ => h token key
  rw [World.plan, World.plan, hstored]

theorem pool_congr {w v : World} (h : ∀ account key, w.word account key = v.word account key) (token : Address) :
    w.pool token = v.pool token := by
  have hstored : w.stored token (Pool.slotBase token) Pool.slots = v.stored token (Pool.slotBase token) Pool.slots :=
    List.map_congr_left fun key _ => h token key
  rw [World.pool, World.pool, hstored]

theorem Agrees.pool {w v : World} (h : w.Agrees v) (token : Address) : w.pool token = v.pool token :=
  pool_congr h.word token

theorem Agrees.plan {w v : World} (h : w.Agrees v) (token : Address) : w.plan token = v.plan token :=
  plan_congr h.word token

end World

end BackedToken
