import BackedToken.Host.Layers
import BackedToken.Proofs.Contract.Coins
import Mathlib.Data.List.Induction
import Mathlib.Data.Prod.Basic

/-! What a journal buffers: each slot once, in the order of first writes, with the word written last. -/

namespace BackedToken

namespace Table

variable {κ ι ν : Type} [DecidableEq κ] [DecidableEq ι]

theorem put_map {f : κ → ι} (hf : Function.Injective f) (key : κ) (value : ν) (entries : List (κ × ν)) :
    put (f key) value (entries.map fun e => (f e.1, e.2)) = (put key value entries).map fun e => (f e.1, e.2) := by
  induction entries with
  | nil => rfl
  | cons e rest ih =>
    by_cases h : e.1 = key
    · simp only [List.map_cons, put, h, if_true]
    · simp only [List.map_cons, put, hf.eq_iff, h, if_false, ih]

theorem put_of_notMem {key : κ} {entries : List (κ × ν)} (value : ν) (h : key ∉ entries.map Prod.fst) :
    put key value entries = entries ++ [(key, value)] := by
  induction entries with
  | nil => rfl
  | cons e rest ih =>
    rw [List.map_cons, List.mem_cons, not_or] at h
    rw [put, if_neg fun hk => h.1 hk.symm, ih h.2, List.cons_append]

theorem eq_map_find {entries : List (κ × ν)} (h : (entries.map Prod.fst).Nodup) (value : ν) :
    entries = (entries.map Prod.fst).map fun key => (key, (find key entries).getD value) := by
  refine List.ext_getElem (by simp) fun i hi _ => ?_
  have hfind := (find_eq_some_iff h entries[i].1 entries[i].2).mpr (List.getElem_mem hi)
  simp [hfind]

end Table

namespace Journal

variable {σ : Type}

def settled (writes : List (Word × Word)) : List (Word × Word) :=
  (writes.map Prod.fst).eraseDups.map fun key => (key, (Table.find key writes.reverse).getD 0)

def overwritten (writes : List (Word × Word)) : List (Word × Word) :=
  writes.foldl (fun entries e => Table.put e.1 e.2 entries) []

theorem overwritten_concat (writes : List (Word × Word)) (e : Word × Word) :
    overwritten (writes ++ [e]) = Table.put e.1 e.2 (overwritten writes) := by
  rw [overwritten, List.foldl_append]
  rfl

theorem eraseDups_concat (keys : List Word) (key : Word) :
    (keys ++ [key]).eraseDups = if key ∈ keys then keys.eraseDups else keys.eraseDups ++ [key] := by
  rw [List.eraseDups_append]
  by_cases h : key ∈ keys
  · simp [List.cons_removeAll, h]
  · simp [List.cons_removeAll, h, List.eraseDups_cons]

theorem map_fst_overwritten (writes : List (Word × Word)) :
    (overwritten writes).map Prod.fst = (writes.map Prod.fst).eraseDups := by
  induction writes using List.reverseRecOn with
  | nil => rfl
  | append_singleton writes e ih =>
    rw [overwritten_concat, Table.map_fst_put, ih, List.map_append, List.map_singleton, eraseDups_concat]
    simp only [List.mem_eraseDups]

theorem nodup_overwritten (writes : List (Word × Word)) : ((overwritten writes).map Prod.fst).Nodup := by
  induction writes using List.reverseRecOn with
  | nil => exact List.nodup_nil
  | append_singleton writes e ih =>
    rw [overwritten_concat]
    exact Table.nodup_put ih

theorem find_overwritten (key : Word) (writes : List (Word × Word)) :
    Table.find key (overwritten writes) = Table.find key writes.reverse := by
  induction writes using List.reverseRecOn with
  | nil => rfl
  | append_singleton writes e ih =>
    rw [overwritten_concat, Table.find_put, ih, List.reverse_append]
    rfl

theorem overwritten_eq (writes : List (Word × Word)) : overwritten writes = settled writes := by
  rw [Table.eq_map_find (nodup_overwritten writes) 0, map_fst_overwritten]
  simp only [find_overwritten, settled]

theorem settled_ne_nil {writes : List (Word × Word)} (h : writes ≠ []) : settled writes ≠ [] := by
  cases writes with
  | nil => exact absurd rfl h
  | cons e rest => simp [settled, List.eraseDups_cons]

theorem settled_of_nodup {writes : List (Word × Word)} (h : (writes.map Prod.fst).Nodup) : settled writes = writes := by
  rw [← overwritten_eq]
  induction writes using List.reverseRecOn with
  | nil => rfl
  | append_singleton writes e ih =>
    rw [List.map_append, List.nodup_append] at h
    obtain ⟨hwrites, _, hapart⟩ := h
    have hnew : e.1 ∉ writes.map Prod.fst := fun hm => hapart e.1 hm e.1 (by simp) rfl
    rw [overwritten_concat, ih hwrites, Table.put_of_notMem e.2 hnew]

def ofAccount (account : Address) (writes : List (Word × Word)) : List ((Address × Word) × Word) :=
  writes.map fun e => ((account, e.1), e.2)

def setWords (account : Address) (writes : List (Word × Word)) (j : Journal σ) : Journal σ :=
  writes.foldl (fun j e => j.setWord account e.1 e.2) j

structure Buffers (host : σ) (account : Address) (writes : List (Word × Word)) (balances : List (Address × Word))
    (j : Journal σ) : Prop where
  host : j.host = host
  words : j.words.entries = ofAccount account (settled writes)
  balances : j.balances.entries = balances

namespace Buffers

variable {host : σ} {account : Address} {writes : List (Word × Word)} {balances : List (Address × Word)} {j : Journal σ}

theorem fresh (host : σ) (account : Address) : Buffers host account [] [] { host := host } := ⟨rfl, rfl, rfl⟩

theorem setWord (h : Buffers host account writes balances j) (key value : Word) :
    Buffers host account (writes ++ [(key, value)]) balances (j.setWord account key value) where
  host := h.host
  words := by
    have hput := Table.put_map (Prod.mk_right_injective account) key value (settled writes)
    rw [← overwritten_eq, overwritten_concat, overwritten_eq]
    exact (congrArg (Table.put (account, key) value) h.words).trans hput
  balances := h.balances

theorem setWords (h : Buffers host account writes balances j) (more : List (Word × Word)) :
    Buffers host account (writes ++ more) balances (j.setWords account more) := by
  induction more generalizing writes j with
  | nil => rwa [List.append_nil]
  | cons e rest ih =>
    rw [List.append_cons]
    exact ih (h.setWord e.1 e.2)

theorem setBalance (h : Buffers host account writes balances j) (holder : Address) (amount : Word) :
    Buffers host account writes (Table.put holder amount balances) (j.setBalance holder amount) :=
  ⟨h.host, h.words, congrArg (Table.put holder amount) h.balances⟩

end Buffers

section Coins

def dues (w : World) (source target : Address) (amount : Word) : List (Address × Word) :=
  if amount = 0 then []
  else if source = target then [(source, w.balance source)]
  else [(source, w.balance source - amount), (target, w.balance target + amount)]

theorem dues_congr {w v : World} (h : v.SameAccounts w) (source target : Address) (amount : Word) :
    dues v source target amount = dues w source target amount := by
  simp only [dues, h.balance]

variable {w : World} {account source target : Address} {writes : List (Word × Word)}
  {balances : List (Address × Word)} {amount current : Word} {j : Journal World}

namespace Buffers

theorem balance (h : Buffers w account writes balances j) (holder : Address)
    (hcurrent : (Table.find holder balances).getD (w.balance holder) = current) :
    Journal.balance holder j = .ok current j := by
  simp only [Journal.balance, Table.get?, h.balances]
  cases hfind : Table.find holder balances with
  | some amount => rw [← hcurrent, hfind, Option.getD_some]
  | none =>
    rw [← hcurrent, hfind, Option.getD_none, ← h.host]
    rfl

theorem withdraw (h : Buffers w account writes balances j) (holder : Address)
    (hcurrent : (Table.find holder balances).getD (w.balance holder) = current) (hcover : amount ≤ current) :
    Host.withdraw holder amount j = .ok () (j.setBalance holder (current - amount)) := by
  apply (Host.bind_of_ok (h.balance holder hcurrent)).trans
  rw [if_neg (BitVec.not_lt.mpr hcover)]
  rfl

theorem deposit (h : Buffers w account writes balances j) (holder : Address)
    (hcurrent : (Table.find holder balances).getD (w.balance holder) = current)
    (hroom : current.toNat + amount.toNat < 2 ^ 256) :
    Host.deposit holder amount j = .ok () (j.setBalance holder (current + amount)) := by
  apply (Host.bind_of_ok (h.balance holder hcurrent)).trans
  rw [Word.ofNat?_add_eq_some_iff.mpr ⟨hroom, rfl⟩]
  rfl

theorem move (h : Buffers w account writes [] j) (hmove : w.CanMove source target amount) :
    ∃ j', Contract.move source target amount j = .ok () j' ∧
      Buffers w account writes (dues w source target amount) j' := by
  rw [Contract.move, dues]
  by_cases hamount : amount = 0
  · rw [if_pos hamount, if_pos hamount]
    exact ⟨j, rfl, h⟩
  · obtain ⟨hcover, hroom⟩ := hmove.resolve_left hamount
    have hpay := h.withdraw source rfl hcover
    have hpaid := h.setBalance source (w.balance source - amount)
    rw [if_neg hamount, if_neg hamount]
    by_cases hst : source = target
    · subst hst
      have hback : w.balance source - amount + amount = w.balance source := BitVec.sub_add_cancel ..
      have hfits : (w.balance source - amount).toNat + amount.toNat < 2 ^ 256 := by bv_omega
      have hget := hpaid.deposit source (by simp [Table.put, Table.find]) hfits
      rw [hback] at hget
      refine ⟨_, (Host.bind_of_ok hpay).trans hget, ?_⟩
      have hend := hpaid.setBalance source (w.balance source)
      simpa [Table.put] using hend
    · have hget := hpaid.deposit target (by simp [Table.put, Table.find, hst]) (hroom.resolve_left hst)
      refine ⟨_, (Host.bind_of_ok hpay).trans hget, ?_⟩
      have hend := hpaid.setBalance target (w.balance target + amount)
      simpa [Table.put, hst] using hend

end Buffers

end Coins

theorem batches_ofAccount (account : Address) {writes : List (Word × Word)} (h : writes ≠ []) :
    (batches (ofAccount account writes)).entries = [(account, writes)] := by
  -- after the first word there is one batch, and every further word joins it
  have hfold : ∀ (writes before : List (Word × Word)) (t : Table Address (List (Word × Word))),
      t.entries = [(account, before)] →
      ((ofAccount account writes).foldl (fun t e => t.insert e.1.1 ((t.get? e.1.1).getD [] ++ [(e.1.2, e.2)]))
        t).entries = [(account, before ++ writes)] := by
    intro writes
    induction writes with
    | nil =>
      intro before t ht
      rwa [List.append_nil]
    | cons e rest ih =>
      intro before t ht
      rw [List.append_cons]
      refine ih (before ++ [e]) _ ?_
      simp [Table.insert, Table.get?, ht, Table.put, Table.find]
  cases writes with
  | nil => exact absurd rfl h
  | cons e rest => exact hfold rest [e] _ rfl

end Journal

end BackedToken
