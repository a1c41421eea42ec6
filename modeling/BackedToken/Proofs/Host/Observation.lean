import BackedToken.Host.World
import Mathlib.Data.Set.Card

namespace BackedToken.World

structure Agrees (w v : World) : Prop where
  word : ∀ account key, w.word account key = v.word account key
  balance : ∀ account, w.balance account = v.balance account
  nonce : ∀ account, w.nonce account = v.nonce account
  codeSize : ∀ account, w.codeSize account = v.codeSize account

theorem Agrees.refl (w : World) : w.Agrees w := ⟨fun _ _ => rfl, fun _ => rfl, fun _ => rfl, fun _ => rfl⟩

theorem Agrees.symm {w v : World} (h : w.Agrees v) : v.Agrees w :=
  ⟨fun account key => (h.word account key).symm, fun account => (h.balance account).symm,
    fun account => (h.nonce account).symm, fun account => (h.codeSize account).symm⟩

theorem Agrees.trans {u v w : World} (h : u.Agrees v) (h' : v.Agrees w) : u.Agrees w :=
  ⟨fun account key => (h.word account key).trans (h'.word account key),
    fun account => (h.balance account).trans (h'.balance account),
    fun account => (h.nonce account).trans (h'.nonce account),
    fun account => (h.codeSize account).trans (h'.codeSize account)⟩

theorem word_ne_zero_iff (w : World) (account : Address) (key : Word) :
    w.word account key ≠ 0 ↔ ∃ value, ((account, key), value) ∈ w.words.entries := by
  constructor
  · intro h
    cases hg : w.words.get? (account, key) with
    | none => simp [word, hg] at h
    | some value => exact ⟨value, (w.words.get?_eq_some_iff _ _).mp hg⟩
  · rintro ⟨value, hm⟩
    have hv : value ≠ 0 := w.live _ hm
    rw [word, (w.words.get?_eq_some_iff _ _).mpr hm]
    exact hv

theorem storageSize_eq_ncard (w : World) (account : Address) :
    w.storageSize account = {key | w.word account key ≠ 0}.ncard := by
  let own := w.words.entries.filter fun e => e.1.1 = account
  have hkeys : ∀ key, key ∈ own.map (fun e => e.1.2) ↔ w.word account key ≠ 0 := by
    intro key
    rw [word_ne_zero_iff, List.mem_map]
    constructor
    · rintro ⟨⟨⟨a, k⟩, value⟩, hown, rfl⟩
      obtain ⟨hm, ha⟩ := List.mem_filter.mp hown
      obtain rfl : a = account := of_decide_eq_true ha
      exact ⟨value, hm⟩
    · rintro ⟨value, hm⟩
      exact ⟨_, List.mem_filter.mpr ⟨hm, decide_eq_true rfl⟩, rfl⟩
  have hnodup : (own.map fun e => e.1.2).Nodup := by
    have hslots : (own.map Prod.fst).Nodup := w.words.nodup.sublist (List.filter_sublist.map _)
    have hfst : ∀ slot ∈ own.map Prod.fst, slot.1 = account := by
      intro slot hs
      obtain ⟨e, he, rfl⟩ := List.mem_map.mp hs
      exact of_decide_eq_true (List.mem_filter.mp he).2
    have hinj : ∀ x ∈ own.map Prod.fst, ∀ y ∈ own.map Prod.fst, x.2 = y.2 → x = y :=
      fun x hx y hy h => Prod.ext ((hfst x hx).trans (hfst y hy).symm) h
    simpa only [List.map_map, Function.comp_def] using hslots.map_on hinj
  have hset : {key | w.word account key ≠ 0} = ((own.map fun e => e.1.2).toFinset : Set Word) := by
    ext key
    rw [List.coe_toFinset]
    exact (hkeys key).symm
  rw [hset, Set.ncard_coe_finset, List.toFinset_card_of_nodup hnodup, List.length_map]
  rfl

theorem Agrees.storageSize {w v : World} (h : w.Agrees v) (account : Address) :
    w.storageSize account = v.storageSize account := by
  simp only [storageSize_eq_ncard, h.word]

def setSlots (w : World) (entries : List ((Address × Word) × Word)) : World :=
  entries.foldl (fun w e => w.setWord e.1.1 e.1.2 e.2) w

theorem setSlots_cons (w : World) (e : (Address × Word) × Word) (rest : List ((Address × Word) × Word)) :
    w.setSlots (e :: rest) = (w.setWord e.1.1 e.1.2 e.2).setSlots rest := rfl

theorem setSlots_append (w : World) (first rest : List ((Address × Word) × Word)) :
    w.setSlots (first ++ rest) = (w.setSlots first).setSlots rest := List.foldl_append

theorem setWords_eq_setSlots (w : World) (account : Address) (writes : List (Word × Word)) :
    w.setWords account writes = w.setSlots (writes.map fun e => ((account, e.1), e.2)) := by
  simp only [setWords, setSlots, List.foldl_map]

theorem word_setSlots (w : World) {entries : List ((Address × Word) × Word)} (h : (entries.map Prod.fst).Nodup)
    (account : Address) (key : Word) :
    (w.setSlots entries).word account key = (Table.find (account, key) entries).getD (w.word account key) := by
  induction entries generalizing w with
  | nil => rfl
  | cons e rest ih =>
    obtain ⟨⟨a, k⟩, value⟩ := e
    rw [List.map_cons, List.nodup_cons] at h
    rw [setSlots_cons, ih _ h.2, word_setWord, Table.find]
    by_cases hk : (a, k) = (account, key)
    · have hnone : Table.find (account, key) rest = none := (Table.find_eq_none_iff _ _).mpr (hk ▸ h.1)
      rw [if_pos hk, if_pos (Prod.mk.injEq _ _ _ _ ▸ hk), hnone]
      rfl
    · rw [if_neg hk, if_neg (Prod.mk.injEq _ _ _ _ ▸ hk)]

theorem balance_setWord (w : World) (account other : Address) (key value : Word) :
    (w.setWord account key value).balance other = w.balance other := by
  rw [balance, balances_setWord, balance]

theorem nonce_setWord (w : World) (account other : Address) (key value : Word) :
    (w.setWord account key value).nonce other = w.nonce other := by
  rw [nonce, nonces_setWord, nonce]

theorem codeSize_setWord (w : World) (account other : Address) (key value : Word) :
    (w.setWord account key value).codeSize other = w.codeSize other := by
  rw [codeSize, codeSizes_setWord, codeSize]

structure SameAccounts (w v : World) : Prop where
  balance : ∀ account, w.balance account = v.balance account
  nonce : ∀ account, w.nonce account = v.nonce account
  codeSize : ∀ account, w.codeSize account = v.codeSize account

theorem SameAccounts.trans {u v w : World} (h : u.SameAccounts v) (h' : v.SameAccounts w) : u.SameAccounts w :=
  ⟨fun account => (h.balance account).trans (h'.balance account),
    fun account => (h.nonce account).trans (h'.nonce account),
    fun account => (h.codeSize account).trans (h'.codeSize account)⟩

theorem sameAccounts_setSlots (w : World) (entries : List ((Address × Word) × Word)) :
    (w.setSlots entries).SameAccounts w := by
  induction entries generalizing w with
  | nil => exact ⟨fun _ => rfl, fun _ => rfl, fun _ => rfl⟩
  | cons e rest ih =>
    rw [setSlots_cons]
    refine (ih _).trans ⟨fun a => balance_setWord .., fun a => nonce_setWord .., fun a => codeSize_setWord ..⟩

theorem sameAccounts_setWords (w : World) (account : Address) (writes : List (Word × Word)) :
    (w.setWords account writes).SameAccounts w :=
  w.setWords_eq_setSlots account writes ▸ w.sameAccounts_setSlots _

theorem find_own (account other : Address) (key : Word) (writes : List (Word × Word)) :
    Table.find (other, key) (writes.map fun e => ((account, e.1), e.2)) =
      if account = other then Table.find key writes else none := by
  induction writes with
  | nil => simp [Table.find]
  | cons e rest ih =>
    rw [List.map_cons, Table.find, ih]
    by_cases ha : account = other
    · simp only [ha, if_true, Prod.mk.injEq, true_and, Table.find]
    · simp only [ha, if_false, Prod.mk.injEq, false_and]

theorem word_setWords (w : World) {writes : List (Word × Word)} (h : (writes.map Prod.fst).Nodup)
    (account other : Address) (key : Word) :
    (w.setWords account writes).word other key =
      if account = other then (Table.find key writes).getD (w.word other key) else w.word other key := by
  have hslots : ((writes.map fun e => ((account, e.1), e.2)).map Prod.fst).Nodup := by
    have hinj : Function.Injective (Prod.mk account : Word → Address × Word) := Prod.mk_right_injective account
    simpa only [List.map_map, Function.comp_def] using h.map hinj
  rw [setWords_eq_setSlots, word_setSlots _ hslots, find_own]
  split <;> rfl

end BackedToken.World
