import BackedToken.Proofs.Contract.Operations
import BackedToken.Proofs.Digest

/-! The two records of one token when their slots may meet. -/

namespace BackedToken

namespace Pool

def Meets (token : Address) (i j : Nat) : Prop := slotBase token + i = FeePlan.slotBase token + j

instance (token : Address) (i j : Nat) : Decidable (Meets token i j) := inferInstanceAs (Decidable (_ = _))

variable {token : Address} {i j : Nat}

theorem slotKey_eq_iff (hi : i < slots) (hj : j < FeePlan.slots) :
    slotKey token i = FeePlan.slotKey token j ↔ Meets token i j := by
  have hpool := slots_fit token
  have hplan := FeePlan.slots_fit token
  exact Slot.key_eq_key_iff (by omega) (by omega)

theorem notMem_slotKeys (hj : j < FeePlan.slots) (h : ∀ i < slots, ¬Meets token i j) :
    FeePlan.slotKey token j ∉ slotKeys token := by
  intro hmem
  obtain ⟨i, hi, hkey⟩ := Slot.mem_keys.mp hmem
  exact h i hi ((slotKey_eq_iff hi hj).mp hkey)

theorem notMem_planKeys (hi : i < slots) (h : ∀ j < FeePlan.slots, ¬Meets token i j) :
    slotKey token i ∉ FeePlan.slotKeys token := by
  intro hmem
  obtain ⟨j, hj, hkey⟩ := Slot.mem_keys.mp hmem
  exact h j hj ((slotKey_eq_iff hi hj).mp hkey.symm)

def canonical (pool : Pool) : Pool := { pool with assets := [nativeCoin], amounts := [pool.backing] }

theorem ofWords_words_eq (pool : Pool) : ofWords pool.token pool.words = pool.canonical := by
  simp [ofWords, words, native, canonical, Address.address_word]

def Reads (pool : Pool) : Nat → Word → Prop
  | 0, word => pool.backing = word
  | 1, word => pool.supply = word
  | 2, word => pool.burned = word
  | _, word => pool.asset = word.address

theorem reads_ofWords (token : Address) (words : List Word) (hi : i < slots) :
    (ofWords token words).Reads i (words.getD i 0) := by
  match i, hi with
  | 0, _ | 1, _ | 2, _ | 3, _ => rfl

structure Overlaid (plan : FeePlan) (pool read : Pool) : Prop where
  token : read.token = pool.token
  covered : ∀ i < slots, ∀ j < FeePlan.slots, Meets pool.token i j → read.Reads i (plan.words.getD j 0)
  own : ∀ i < slots, (∀ j < FeePlan.slots, ¬Meets pool.token i j) → read.Reads i (pool.words.getD i 0)
  assets : read.assets = [nativeCoin]
  amounts : read.amounts = [read.backing]

end Pool

namespace FeePlan

def Reads (plan : FeePlan) : Nat → Word → Prop
  | 12, word => plan.onlySB = decide (word ≠ 0)
  | 13, word => plan.owner = word.address
  | 14, word => plan.enableLGE = decide (word ≠ 0)
  | j, word => ∀ hj : j < 12, plan.rates[j] = word

theorem reads_ofWords {j : Nat} (words : List Word) : (ofWords words).Reads j (words.getD j 0) := by
  unfold Reads
  split
  · rfl
  · rfl
  · rfl
  · intro hj
    simp [ofWords]

structure Overlaid (pool : Pool) (plan read : FeePlan) : Prop where
  covered : ∀ i < Pool.slots, ∀ j < slots, Pool.Meets pool.token i j → read.Reads j (pool.words.getD i 0)
  own : ∀ j < slots, (∀ i < Pool.slots, ¬Pool.Meets pool.token i j) → read.Reads j (plan.words.getD j 0)

end FeePlan

namespace World

structure AgreesBeside (w v : World) (account : Address) (keys : List Word) : Prop extends SameAccounts w v where
  word : ∀ other key, (other = account → key ∉ keys) → w.word other key = v.word other key

theorem AgreesBeside.trans {u v w : World} {account : Address} {keys rest : List Word}
    (h : u.AgreesBeside v account keys) (h' : v.AgreesBeside w account rest) :
    u.AgreesBeside w account (rest ++ keys) where
  toSameAccounts := h.toSameAccounts.trans h'.toSameAccounts
  word other key hkey := by
    simp only [List.mem_append, not_or] at hkey
    exact (h.word other key fun hother => (hkey hother).2).trans (h'.word other key fun hother => (hkey hother).1)

variable (w : World)

theorem getD_stored (account : Address) (base : Nat) {count i : Nat} (hi : i < count) :
    (w.stored account base count).getD i 0 = w.word account (Slot.key base i) := by
  simp [stored, Slot.keys, hi]

theorem reads_pool (token : Address) {i : Nat} (hi : i < Pool.slots) :
    (w.pool token).Reads i (w.word token (Pool.slotKey token i)) := by
  rw [Pool.slotKey, ← w.getD_stored token _ hi]
  exact Pool.reads_ofWords token _ hi

theorem reads_plan (token : Address) {j : Nat} (hj : j < FeePlan.slots) :
    (w.plan token).Reads j (w.word token (FeePlan.slotKey token j)) := by
  rw [FeePlan.slotKey, ← w.getD_stored token _ hj]
  exact FeePlan.reads_ofWords _

variable (pool : Pool) (plan : FeePlan)

theorem pool_setPlan_setPool : pool.Overlaid plan (((w.setPool pool).setPlan pool.token plan).pool pool.token) where
  token := rfl
  covered i hi j hj hmeet := by
    have hread := ((w.setPool pool).setPlan pool.token plan).reads_pool pool.token hi
    rwa [(Pool.slotKey_eq_iff hi hj).mpr hmeet, word_setPlan_key _ _ _ hj] at hread
  own i hi hfree := by
    have hread := ((w.setPool pool).setPlan pool.token plan).reads_pool pool.token hi
    rwa [word_setPlan_outside _ (fun _ => Pool.notMem_planKeys hi hfree), word_setPool_key _ _ hi] at hread
  assets := rfl
  amounts := rfl

theorem plan_setPool_setPlan : plan.Overlaid pool (((w.setPlan pool.token plan).setPool pool).plan pool.token) where
  covered i hi j hj hmeet := by
    have hread := ((w.setPlan pool.token plan).setPool pool).reads_plan pool.token hj
    rwa [← (Pool.slotKey_eq_iff hi hj).mpr hmeet, word_setPool_key _ _ hi] at hread
  own j hj hfree := by
    have hread := ((w.setPlan pool.token plan).setPool pool).reads_plan pool.token hj
    rwa [word_setPool_outside _ (fun _ => Pool.notMem_slotKeys hj hfree), word_setPlan_key _ _ _ hj] at hread

theorem agreesBeside_setPool : (w.setPool pool).AgreesBeside w pool.token (Pool.slotKeys pool.token) where
  toSameAccounts := w.sameAccounts_setRecord ..
  word _ _ hkey := w.word_setPool_outside fun htoken => htoken ▸ hkey htoken.symm

theorem agreesBeside_setPlan (token : Address) :
    (w.setPlan token plan).AgreesBeside w token (FeePlan.slotKeys token) where
  toSameAccounts := w.sameAccounts_setRecord ..
  word _ _ hkey := w.word_setPlan_outside (fun htoken => htoken ▸ hkey htoken.symm) plan

theorem pool_then_plan : ∃ w₁ w₂ read, pool.store w = .ok () w₁ ∧ plan.store pool.token w₁ = .ok () w₂ ∧
    FeePlan.load pool.token w₂ = .ok plan w₂ ∧ Pool.load pool.token w₂ = .ok read w₂ ∧ pool.Overlaid plan read ∧
    (Pool.Apart pool.token → read = pool.canonical) ∧
    w₂.AgreesBeside w pool.token (Pool.slotKeys pool.token ++ FeePlan.slotKeys pool.token) := by
  have hshown := Host.displays_world ((w.setPool pool).setPlan pool.token plan)
  refine ⟨_, _, _, Contract.store_pool pool w, Contract.store_plan plan pool.token _, ?_, hshown.load _,
    w.pool_setPlan_setPool pool plan, fun hapart => ?_, ?_⟩
  · rw [hshown.plan, plan_setPlan_self]
  · rw [pool_setPlan _ hapart, pool_setPool_self, Pool.ofWords_words_eq]
  · exact (agreesBeside_setPlan _ plan pool.token).trans (w.agreesBeside_setPool pool)

theorem plan_then_pool : ∃ w₁ w₂ read, plan.store pool.token w = .ok () w₁ ∧ pool.store w₁ = .ok () w₂ ∧
    Pool.load pool.token w₂ = .ok pool.canonical w₂ ∧ FeePlan.load pool.token w₂ = .ok read w₂ ∧
    plan.Overlaid pool read ∧ (Pool.Apart pool.token → read = plan) ∧
    w₂.AgreesBeside w₁ pool.token (Pool.slotKeys pool.token) ∧
    w₂.AgreesBeside w pool.token (FeePlan.slotKeys pool.token ++ Pool.slotKeys pool.token) := by
  have hshown := Host.displays_world ((w.setPlan pool.token plan).setPool pool)
  have hlater := (w.setPlan pool.token plan).agreesBeside_setPool pool
  refine ⟨_, _, _, Contract.store_plan plan pool.token w, Contract.store_pool pool _, ?_, hshown.plan _,
    w.plan_setPool_setPlan pool plan, fun hapart => ?_, hlater, hlater.trans (w.agreesBeside_setPlan plan pool.token)⟩
  · rw [hshown.load, pool_setPool_self, Pool.ofWords_words_eq]
  · rw [plan_setPool _ hapart, plan_setPlan_self]

theorem meets_owner : Pool.Meets 3084764469 0 13 := by
  rw [Pool.Meets, Pool.slotBase, FeePlan.slotBase, Slot.base, Slot.base, Word.digest_eq, Word.digest_eq]
  decide +kernel

theorem meets_rate : Pool.Meets 3493702263 0 10 := by
  rw [Pool.Meets, Pool.slotBase, FeePlan.slotBase, Slot.base, Slot.base, Word.digest_eq, Word.digest_eq]
  decide +kernel

/-- The later record is read back, and so is every field of the earlier one whose slot is not taken. There are tokens
whose slots meet. -/
theorem overlapping_records (w : World) (plan : FeePlan) :
    (∀ pool : Pool, ∃ w₁ w₂ read, pool.store w = .ok () w₁ ∧ plan.store pool.token w₁ = .ok () w₂ ∧
      FeePlan.load pool.token w₂ = .ok plan w₂ ∧ Pool.load pool.token w₂ = .ok read w₂ ∧ pool.Overlaid plan read ∧
      (Pool.Apart pool.token → read = pool.canonical) ∧
      w₂.AgreesBeside w pool.token (Pool.slotKeys pool.token ++ FeePlan.slotKeys pool.token)) ∧
    (∀ pool : Pool, ∃ w₁ w₂ read, plan.store pool.token w = .ok () w₁ ∧ pool.store w₁ = .ok () w₂ ∧
      Pool.load pool.token w₂ = .ok pool.canonical w₂ ∧ FeePlan.load pool.token w₂ = .ok read w₂ ∧
      plan.Overlaid pool read ∧ (Pool.Apart pool.token → read = plan) ∧
      w₂.AgreesBeside w₁ pool.token (Pool.slotKeys pool.token) ∧
      w₂.AgreesBeside w pool.token (FeePlan.slotKeys pool.token ++ Pool.slotKeys pool.token)) ∧
    (∃ token, ∀ pool : Pool, pool.token = token → ∃ w₁ w₂ read, pool.store w = .ok () w₁ ∧
      plan.store pool.token w₁ = .ok () w₂ ∧ Pool.load pool.token w₂ = .ok read w₂ ∧ read.backing = plan.owner.word) ∧
    ∃ token, ∃ i : Fin 12, ∀ pool : Pool, pool.token = token → ∃ w₁ w₂ read, pool.store w = .ok () w₁ ∧
      plan.store pool.token w₁ = .ok () w₂ ∧ Pool.load pool.token w₂ = .ok read w₂ ∧ read.backing = plan.rates[i] := by
  refine ⟨fun pool => w.pool_then_plan pool plan, fun pool => w.plan_then_pool pool plan,
    ⟨3084764469, fun pool htoken => ?_⟩, ⟨3493702263, 10, fun pool htoken => ?_⟩⟩
  · obtain ⟨w₁, w₂, read, hpool, hplan, _, hread, hover, _⟩ := w.pool_then_plan pool plan
    have hbacking : read.backing = plan.words.getD 13 0 :=
      hover.covered 0 (by decide) 13 (by decide) (htoken ▸ meets_owner)
    exact ⟨w₁, w₂, read, hpool, hplan, hread, by simpa [FeePlan.words] using hbacking⟩
  · obtain ⟨w₁, w₂, read, hpool, hplan, _, hread, hover, _⟩ := w.pool_then_plan pool plan
    have hbacking : read.backing = plan.words.getD 10 0 :=
      hover.covered 0 (by decide) 10 (by decide) (htoken ▸ meets_rate)
    exact ⟨w₁, w₂, read, hpool, hplan, hread, by simpa [FeePlan.words] using hbacking⟩

end World

end BackedToken
