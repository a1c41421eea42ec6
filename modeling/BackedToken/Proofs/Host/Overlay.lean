import BackedToken.Host.Layers
import BackedToken.Proofs.Host.Matching
import BackedToken.Proofs.Host.Observation
import BackedToken.Proofs.Numbers

/-! A journal over a world answers as the world would have, and its commit brings the world there. -/

namespace BackedToken

namespace Host

variable {σ : Type}

abbrev Exchange := (request : Request) × Except Fault request.Reply

def converse [Host σ] : List Request → σ → List Exchange × σ
  | [], s => ([], s)
  | request :: rest, s =>
    match perform request s with
    | .ok reply s => (⟨request, .ok reply⟩ :: (converse rest s).1, (converse rest s).2)
    | .error fault s => (⟨request, .error fault⟩ :: (converse rest s).1, (converse rest s).2)

theorem converse_alike {τ : Type} [Host σ] [Host τ] {R : σ → τ → Prop} (h : AnswerAlike R) (requests : List Request)
    {s : σ} {t : τ} (hst : R s t) :
    (converse requests s).1 = (converse requests t).1 ∧ R (converse requests s).2 (converse requests t).2 := by
  induction requests generalizing s t with
  | nil => exact ⟨rfl, hst⟩
  | cons request rest ih =>
    cases ht : perform request t with
    | ok reply t' =>
      obtain ⟨s', hs, hst'⟩ := (h.perform request).of_ok hst ht
      obtain ⟨hreplies, hend⟩ := ih hst'
      simp only [converse, hs, ht, hreplies]
      exact ⟨trivial, hend⟩
    | error fault t' =>
      obtain ⟨s', hs, hst'⟩ := (h.perform request).of_error hst ht
      obtain ⟨hreplies, hend⟩ := ih hst'
      simp only [converse, hs, ht, hreplies]
      exact ⟨trivial, hend⟩

end Host

namespace Journal

open Host (Action Request AnswerAlike Matches SameOutcome)

structure Shows (w : World) (j : Journal World) (v : World) : Prop where
  host : j.host = w
  word : ∀ account key, (j.words.get? (account, key)).getD (w.word account key) = v.word account key
  balance : ∀ account, (j.balances.get? account).getD (w.balance account) = v.balance account
  nonce : ∀ account, w.nonce account = v.nonce account
  codeSize : ∀ account, w.codeSize account = v.codeSize account

namespace Shows

variable {w v : World} {j : Journal World}

theorem fresh (w : World) : Shows w { host := w } w :=
  ⟨rfl, fun _ _ => rfl, fun _ => rfl, fun _ => rfl, fun _ => rfl⟩

theorem setWord (h : Shows w j v) (account : Address) (key value : Word) :
    Shows w (j.setWord account key value) (v.setWord account key value) where
  host := h.host
  word a k := by
    rw [World.word_setWord, Journal.setWord, Table.get?_insert, ← h.word a k]
    by_cases he : (account, key) = (a, k)
    · rw [if_pos he, if_pos (Prod.mk.injEq .. ▸ he)]
      rfl
    · rw [if_neg he, if_neg (Prod.mk.injEq .. ▸ he)]
  balance a := (h.balance a).trans (World.balance_setWord ..).symm
  nonce a := (h.nonce a).trans (World.nonce_setWord ..).symm
  codeSize a := (h.codeSize a).trans (World.codeSize_setWord ..).symm

theorem setWords (h : Shows w j v) (account : Address) (writes : List (Word × Word)) :
    Shows w (writes.foldl (fun j e => j.setWord account e.1 e.2) j) (v.setWords account writes) := by
  induction writes generalizing j v with
  | nil => exact h
  | cons e rest ih => exact ih (h.setWord account e.1 e.2)

theorem setBalance (h : Shows w j v) (account : Address) (amount : Word) :
    Shows w (j.setBalance account amount) (v.setBalance account amount) where
  host := h.host
  word := h.word
  balance a := by
    rw [World.balance_setBalance, Journal.setBalance, Table.get?_insert, ← h.balance a]
    split <;> rfl
  nonce := h.nonce
  codeSize := h.codeSize

theorem reads_word (h : Shows w j v) (account : Address) (key : Word) :
    Journal.perform (.read account key) j = .ok (v.word account key) j := by
  have hw := h.word account key
  cases hg : j.words.get? (account, key) with
  | some value =>
    rw [hg] at hw
    simp only [Journal.perform, hg, ← hw, Option.getD_some]
  | none =>
    rw [hg] at hw
    simp only [Journal.perform, hg, ← hw, Option.getD_none, below, Host.within, h.host]
    rw [← h.host]
    rfl

theorem reads_balance (h : Shows w j v) (account : Address) :
    Journal.balance account j = .ok (v.balance account) j := by
  have hb := h.balance account
  cases hg : j.balances.get? account with
  | some amount =>
    rw [hg] at hb
    simp only [Journal.balance, hg, ← hb, Option.getD_some]
  | none =>
    rw [hg] at hb
    simp only [Journal.balance, hg, ← hb, Option.getD_none, below, Host.within, h.host]
    rw [← h.host]
    rfl

end Shows

theorem answers (w : World) : (request : Request) → Matches (Shows w) (Host.perform request) (Host.perform request)
  | .read account key => by
    intro j v h
    simp only [Host.perform, h.reads_word account key, World.perform]
    exact ⟨rfl, h⟩
  | .write account key value => fun _ _ h => ⟨rfl, h.setWord account key value⟩
  | .writeAll account writes => fun _ _ h => ⟨rfl, h.setWords account writes⟩
  | .balance account => by
    intro j v h
    simp only [Host.perform, perform, World.perform, h.reads_balance account]
    exact ⟨rfl, h⟩
  | .deposit account amount => by
    intro j v h
    simp only [Host.perform, perform, World.perform]
    rw [Host.bind_of_ok (h.reads_balance account)]
    cases Word.ofNat? ((v.balance account).toNat + amount.toNat) with
    | some total => exact ⟨rfl, h.setBalance account total⟩
    | none => exact ⟨rfl, h⟩
  | .withdraw account amount => by
    intro j v h
    simp only [Host.perform, perform, World.perform]
    rw [Host.bind_of_ok (h.reads_balance account)]
    split
    · exact ⟨rfl, h⟩
    · exact ⟨rfl, h.setBalance account _⟩
  | .nonce account => by
    intro j v h
    refine ⟨?_, h⟩
    rw [h.host]
    exact h.nonce account
  | .codeSize account => by
    intro j v h
    refine ⟨?_, h⟩
    rw [h.host]
    exact h.codeSize account

theorem answerAlike (w : World) : AnswerAlike (Shows w) where
  read account key := answers w (.read account key)
  record _ _ _ h := ⟨h.host, h.word, h.balance, h.nonce, h.codeSize⟩
  perform := answers w

def spread (batches : List (Address × List (Word × Word))) : List ((Address × Word) × Word) :=
  batches.flatMap fun b => b.2.map fun e => ((b.1, e.1), e.2)

theorem spread_put (account : Address) (write : Word × Word) (batches : List (Address × List (Word × Word))) :
    (spread (Table.put account ((Table.find account batches).getD [] ++ [write]) batches)).Perm
      (spread batches ++ [((account, write.1), write.2)]) := by
  induction batches with
  | nil => exact .refl _
  | cons b rest ih =>
    obtain ⟨a, writes⟩ := b
    by_cases ha : a = account
    · subst ha
      simp only [Table.find, Table.put, if_true, Option.getD_some, spread, List.flatMap_cons, List.map_append,
        List.append_assoc]
      exact .append_left _ List.perm_append_comm
    · simp only [Table.find, Table.put, ha, if_false]
      simp only [spread, List.flatMap_cons, List.append_assoc] at ih ⊢
      exact .append_left _ ih

theorem spread_batches (words : List ((Address × Word) × Word)) : (spread (batches words).entries).Perm words := by
  have hfold : ∀ (words : List ((Address × Word) × Word)) (t : Table Address (List (Word × Word))),
      (spread (words.foldl (fun t e => t.insert e.1.1 ((t.get? e.1.1).getD [] ++ [(e.1.2, e.2)])) t).entries).Perm
        (spread t.entries ++ words) := by
    intro words
    induction words with
    | nil =>
      intro t
      rw [List.append_nil]
      exact .refl _
    | cons e rest ih =>
      intro t
      have hput := spread_put e.1.1 (e.1.2, e.2) t.entries
      apply (ih _).trans
      rw [List.append_cons]
      exact hput.append_right rest
  exact hfold words .empty

theorem spread_cons (b : Address × List (Word × Word)) (rest : List (Address × List (Word × Word))) :
    spread (b :: rest) = (b.2.map fun e => ((b.1, e.1), e.2)) ++ spread rest := rfl

theorem flushes_words (batches : List (Address × List (Word × Word))) (w : World) :
    batches.forM flushWords w = .ok () (w.setSlots (spread batches)) := by
  induction batches generalizing w with
  | nil => rfl
  | cons b rest ih =>
    have hb : flushWords b w = .ok () (w.setWords b.1 b.2) := rfl
    change (flushWords b >>= fun _ => rest.forM flushWords) w = _
    rw [Host.bind_of_ok hb, ih, World.setWords_eq_setSlots, spread_cons, World.setSlots_append]

theorem flushes_balance (w : World) (account : Address) (amount : Word) :
    ∃ w', flushBalance (account, amount) w = .ok () w' ∧ w'.Agrees (w.setBalance account amount) := by
  have hread : Host.balance account w = .ok (w.balance account) w := rfl
  rw [flushBalance, Host.bind_of_ok hread]
  rcases BitVec.lt_trichotomy (w.balance account) amount with hlt | heq | hgt
  · have hsum : (w.balance account).toNat + (amount - w.balance account).toNat = amount.toNat := by
      have := BitVec.lt_def.mp hlt
      rw [BitVec.toNat_sub_of_le (BitVec.le_of_lt hlt)]
      omega
    have hdeposit : Host.deposit account (amount - w.balance account) w = .ok () (w.setBalance account amount) := by
      simp only [Host.deposit, Host.perform, World.perform, hsum, Word.ofNat?_eq_some_iff.mpr rfl]
    rw [if_pos hlt]
    exact ⟨_, hdeposit, .refl _⟩
  · have hself : w.Agrees (w.setBalance account amount) := by
      refine ⟨fun _ _ => rfl, fun a => ?_, fun _ => rfl, fun _ => rfl⟩
      rw [World.balance_setBalance]
      split
      · next ha => rw [← ha, heq]
      · rfl
    simp only [heq, BitVec.lt_irrefl, if_false]
    exact ⟨w, rfl, hself⟩
  · have hrest : w.balance account - (w.balance account - amount) = amount := by bv_omega
    have hle : ¬w.balance account < w.balance account - amount := by
      rw [BitVec.lt_def, BitVec.toNat_sub_of_le (BitVec.le_of_lt hgt)]
      omega
    have hwithdraw : Host.withdraw account (w.balance account - amount) w = .ok () (w.setBalance account amount) := by
      simp only [Host.withdraw, Host.perform, World.perform, hle, if_false, hrest]
    rw [if_neg (BitVec.lt_asymm hgt), if_pos hgt]
    exact ⟨_, hwithdraw, .refl _⟩

theorem flushes_balances {balances : List (Address × Word)} (h : (balances.map Prod.fst).Nodup) (w : World) :
    ∃ w', balances.forM flushBalance w = .ok () w' ∧ (∀ account key, w'.word account key = w.word account key) ∧
      (∀ account, w'.balance account = (Table.find account balances).getD (w.balance account)) ∧
      (∀ account, w'.nonce account = w.nonce account) ∧ ∀ account, w'.codeSize account = w.codeSize account := by
  induction balances generalizing w with
  | nil => exact ⟨w, rfl, fun _ _ => rfl, fun _ => rfl, fun _ => rfl, fun _ => rfl⟩
  | cons e rest ih =>
    obtain ⟨account, amount⟩ := e
    rw [List.map_cons, List.nodup_cons] at h
    obtain ⟨w₁, hflush, hfirst⟩ := flushes_balance w account amount
    obtain ⟨w₂, hrest, hword, hbalance, hnonce, hcode⟩ := ih h.2 w₁
    refine ⟨w₂, (Host.bind_of_ok hflush).trans hrest, fun a k => (hword a k).trans (hfirst.word a k), fun a => ?_,
      fun a => (hnonce a).trans (hfirst.nonce a), fun a => (hcode a).trans (hfirst.codeSize a)⟩
    rw [hbalance, hfirst.balance, World.balance_setBalance, Table.find]
    by_cases ha : account = a
    · have hnone : Table.find a rest = none := (Table.find_eq_none_iff _ _).mpr (ha ▸ h.1)
      rw [if_pos ha, if_pos ha, hnone]
      rfl
    · rw [if_neg ha, if_neg ha]

theorem Shows.commits {w v : World} {j : Journal World} (h : Shows w j v) :
    ∃ w', j.commit = .ok () w' ∧ w'.Agrees v := by
  -- the batches hold the buffered words in another order, which does not matter as no slot occurs twice
  have hperm := spread_batches j.words.entries
  have hnodup : ((spread (batches j.words.entries).entries).map Prod.fst).Nodup :=
    (hperm.map Prod.fst).nodup_iff.mpr j.words.nodup
  have hsame := w.sameAccounts_setSlots (spread (batches j.words.entries).entries)
  obtain ⟨w', hflush, hword, hbalance, hnonce, hcode⟩ :=
    flushes_balances j.balances.nodup (w.setSlots (spread (batches j.words.entries).entries))
  refine ⟨w', ?_, ⟨fun a k => ?_, fun a => ?_, fun a => ?_, fun a => ?_⟩⟩
  · rw [commit, flush, h.host, Host.bind_of_ok (flushes_words _ w)]
    exact hflush
  · rw [hword, World.word_setSlots _ hnodup, Table.find_of_perm hnodup hperm]
    exact h.word a k
  · rw [hbalance, hsame.balance]
    exact h.balance a
  · rw [hnonce, hsame.nonce]
    exact h.nonce a
  · rw [hcode, hsame.codeSize]
    exact h.codeSize a

theorem converse_journal (w : World) (requests : List Request) :
    (Host.converse requests ({ host := w } : Journal World)).1 = (Host.converse requests w).1 ∧
    (Host.converse requests ({ host := w } : Journal World)).2.host = w ∧
    ∃ w', (Host.converse requests ({ host := w } : Journal World)).2.commit = .ok () w' ∧
      w'.Agrees (Host.converse requests w).2 ∧
      ∀ account, w'.storageSize account = (Host.converse requests w).2.storageSize account ∧
        w'.storageSize account = {key | w'.word account key ≠ 0}.ncard := by
  obtain ⟨hreplies, hshows⟩ := Host.converse_alike (answerAlike w) requests (Shows.fresh w)
  obtain ⟨w', hcommit, hagrees⟩ := hshows.commits
  exact ⟨hreplies, hshows.host, w', hcommit, hagrees, fun account =>
    ⟨hagrees.storageSize account, w'.storageSize_eq_ncard account⟩⟩

end Journal

end BackedToken
