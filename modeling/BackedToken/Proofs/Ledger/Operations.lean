import BackedToken.Proofs.Custody.Solvency
import BackedToken.Proofs.Ledger.Answers

namespace BackedToken.Ledger

open Contract Host World Attempt

variable {l : Ledger} {w : World}

theorem lookup_eq_ok {token : Address} {record : Record} :
    l.lookup token = .ok record ↔ l.record? token = some record := by
  rw [lookup]
  cases l.record? token with
  | none => exact iff_of_false nofun nofun
  | some found => rw [Except.ok.injEq, Option.some.injEq]

def Reached {α : Type} (apart : α → Prop) (a : α) (w' : World) (expected : α × Ledger) : Prop :=
  a = expected.1 ∧ (apart a → expected.2.Mirrors w')

def NamesApart (output : Bytes) : Prop := ∀ token : Address, output = token.word.bytes → Pool.Apart token

namespace Mirrors

variable (h : l.Mirrors w)
include h

theorem find (token : Address) :
    (if (w.pool token).isOpen then some (w.pool token) else none) = (l.record? token).map (Record.pool · token) := by
  have hentry := h.record token
  generalize l.record? token = entry at hentry
  cases hentry with
  | absent isOpen plan =>
    rw [isOpen]
    rfl
  | present pool supply plan apart =>
    rw [pool]
    exact if_pos (decide_eq_true supply)

theorem isOpen (token : Address) : (w.pool token).isOpen = (l.record? token).isSome := by
  have hfind := congrArg Option.isSome (h.find token)
  rw [Option.isSome_map] at hfind
  rw [← hfind]
  cases (w.pool token).isOpen <;> rfl

theorem plan (token : Address) : w.plan token = l.plan token := by
  have hentry := h.record token
  rw [Ledger.plan]
  generalize l.record? token = entry at hentry
  cases hentry with
  | absent isOpen plan => exact plan
  | present pool supply plan apart => exact plan

theorem taken_iff (token : Address) : (decide (0 < w.codeSize token) || (w.pool token).isOpen) = true ↔
    0 < l.codeSize token ∨ (l.record? token).isSome = true := by
  rw [Bool.or_eq_true, decide_eq_true_iff, h.isOpen, h.codeSize]

theorem existing {σ : Type} [Host σ] {s : σ} (hs : Displays s w) (token : Address) :
    Answers (Read s (Record.pool · token)) (existingPool token s) (l.lookup token) := by
  rw [existingPool, bind_of_ok (ask_eq_ok.mpr (hs.find token)), h.find, lookup]
  cases l.record? token with
  | none => exact .error
  | some record => exact .ok ⟨rfl, rfl⟩

theorem backing {σ : Type} [Host σ] {s : σ} (hs : Displays s w) (args : Bytes) :
    Answers (Read s id) (Contract.backing args s) (l.backing args) := by
  apply (answers_ofPayload _ s).read
  rintro ⟨token, amount⟩ _
  apply (h.existing hs token).read
  intro record _
  rw [record.backingFor_pool]
  apply (answers_result _ s).read
  intro worth _
  exact .ok ⟨rfl, rfl⟩

theorem floorPrice {σ : Type} [Host σ] {s : σ} (hs : Displays s w) (args : Bytes) :
    Answers (Read s id) (Contract.floorPrice args s) (l.floorPrice args) := by
  apply (answers_ofPayload _ s).read
  intro token _
  apply (h.existing hs token).read
  intro record _
  rw [record.floorPrice_pool]
  apply (answers_result _ s).read
  intro price _
  exact .ok ⟨rfl, rfl⟩

theorem balance_setPool (pool : Pool) : (w.setPool pool).balance = l.balance :=
  (funext (World.balance_setPool w pool)).trans h.balance

theorem credit (token : Address) (amount : Word) :
    Answers (Reached fun _ => True) (Contract.credit token amount w) (l.credit token amount) := by
  apply (h.existing (displays_world w) token).read
  intro record hrecord
  rw [record.addBacking_pool]
  apply (answers_ofResult _ _ w).read
  intro credited hcredited
  obtain ⟨hsupply, hplan⟩ := record.keeps_of_credit hcredited
  exact .ok ⟨rfl, fun _ => h.setPool (lookup_eq_ok.mp hrecord) hsupply hplan⟩

theorem burn (apart : Bytes → Prop) (settings : Settings) (context : Context) (args : Bytes) :
    Answers (Reached apart) (Contract.burn settings context args w) (l.burn settings context args) := by
  apply (answers_ofPayload _ w).read
  rintro ⟨token, amount⟩ _
  apply (h.existing (displays_world w) token).read
  intro record hrecord
  rw [record.redeem_pool]
  apply (answers_ofResult _ _ w).read
  rintro ⟨rest, recovered⟩ hredeem
  obtain ⟨hsupply, hplan⟩ := record.keeps_of_redeem hredeem
  have hstored := h.setPool (lookup_eq_ok.mp hrecord) hsupply hplan
  apply Answers.after (ask_eq_ok.mpr (store_pool (rest.pool token) w))
  apply (answers_move (h.balance_setPool _) settings.custodian context.caller recovered).bind
  rintro _ _ paid ⟨rfl, rfl⟩ _
  exact .ok ⟨rfl, fun _ => hstored.transfer ..⟩

theorem cover (caller : Address) (amount : Word) : Answers (Read w id) (requireCover caller amount w)
    (refuseIf (l.balance caller < amount) (.insufficientBalance amount (l.balance caller))) := by
  rw [requireCover]
  split
  · next hzero =>
    rw [hzero, refuseIf, if_neg (BitVec.not_lt.mpr (BitVec.le_def.mpr (Nat.zero_le _)))]
    exact .ok ⟨rfl, rfl⟩
  · rw [← h.balance]
    exact answers_rejectIf Iff.rfl _ w

theorem create {apart : Bytes → Prop} (hnames : ∀ output, apart output → NamesApart output) (settings : Settings)
    (context : Context) (args : Bytes) :
    Answers (Reached apart) (Contract.create settings context args w) (l.create settings context args) := by
  apply (answers_rejectIf Iff.rfl _ w).read
  intro _ _
  apply (answers_ofPayload _ w).read
  intro terms _
  apply (answers_result _ w).read
  intro _ hvalid
  apply (h.cover context.caller terms.initialBacking).read
  intro _ _
  rw [← h.nonce]
  apply Answers.after rfl
  apply Answers.after (ask_eq_ok.mpr (isTaken_eq (newToken context terms w) w))
  apply (answers_rejectIf (h.taken_iff _) _ w).read
  intro _ _
  apply Answers.after (ask_eq_ok.mpr (store_pool (newPool context terms w) w))
  apply (answers_move (h.balance_setPool _) context.caller settings.custodian terms.initialBacking).bind
  rintro _ _ paid ⟨rfl, rfl⟩ _
  exact .ok ⟨rfl, fun hapart => h.issue (Terms.supply_ne_zero hvalid) (hnames _ hapart _ rfl)⟩

end Mirrors

end BackedToken.Ledger
