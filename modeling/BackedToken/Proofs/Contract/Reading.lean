import BackedToken.Contract.Operation
import BackedToken.Host.Layers
import BackedToken.Proofs.Pool.Redemption
import BackedToken.Proofs.Storage.Records

namespace BackedToken

def World.quote (w : World) (token : Address) (amount : Word) : Except Rejection Word :=
  if (w.pool token).isOpen then (w.pool token).backingFor amount else .error (.poolNotFound token)

namespace Host

variable {σ : Type} [Host σ]

structure Displays (s : σ) (w : World) : Prop where
  read : ∀ account key, Host.read account key s = .ok (w.word account key) s
  record : ∀ notice, Host.record notice s = s

structure Sees (s : σ) (w : World) : Prop extends Displays s w where
  balance : ∀ account, Host.balance account s = .ok (w.balance account) s
  nonce : ∀ account, Host.nonce account s = .ok (w.nonce account) s
  codeSize : ∀ account, Host.codeSize account s = .ok (w.codeSize account) s

theorem displays_world (w : World) : Displays w w := ⟨fun _ _ => rfl, fun _ => rfl⟩

theorem sees_world (w : World) : Sees w w := ⟨displays_world w, fun _ => rfl, fun _ => rfl, fun _ => rfl⟩

theorem displays_frozen (v : Frozen World) : Displays v v.host := ⟨fun _ _ => rfl, fun _ => rfl⟩

namespace Displays

variable {s : σ} {w : World} (h : Displays s w) (token : Address)
include h

theorem log {ε : Type} (notice : Notice) : (Host.log notice : EStateM ε σ Unit) s = .ok () s := by
  rw [Host.log, h.record]

theorem reads (keys : List Word) : keys.mapM (Host.read token) s = .ok (keys.map (w.word token)) s := by
  induction keys with
  | nil => rfl
  | cons key keys ih =>
    rw [List.mapM_cons, bind_of_ok (h.read token key), bind_of_ok ih]
    rfl

theorem slots (base count : Nat) : Slot.load token base count s = .ok (w.stored token base count) s := h.reads token _

theorem load : Pool.load token s = .ok (w.pool token) s := by
  rw [Pool.load, bind_of_ok (h.slots token _ _)]
  exact bind_of_ok (h.log _)

theorem plan : FeePlan.load token s = .ok (w.plan token) s := by
  rw [FeePlan.load, bind_of_ok (h.slots token _ _)]
  rfl

theorem find : Pool.find? token s = .ok (if (w.pool token).isOpen then some (w.pool token) else none) s := by
  rw [Pool.find?, bind_of_ok (h.load token)]
  rfl

theorem existing_of_open (ho : (w.pool token).isOpen = true) :
    Contract.existingPool token s = .ok (w.pool token) s := by
  have hf := h.find token
  rw [if_pos ho] at hf
  rw [Contract.existingPool, bind_of_ok (Attempt.ask_eq_ok.mpr hf)]
  rfl

theorem existing_of_not_open (ho : (w.pool token).isOpen = false) :
    Contract.existingPool token s = .error (.poolNotFound token) s := by
  have hf := h.find token
  rw [ho, if_neg Bool.false_ne_true] at hf
  rw [Contract.existingPool, bind_of_ok (Attempt.ask_eq_ok.mpr hf)]
  rfl

theorem existing_eq_ok {pool : Pool} {s' : σ} : Contract.existingPool token s = .ok pool s' ↔
    (w.pool token).isOpen = true ∧ w.pool token = pool ∧ s = s' := by
  cases ho : (w.pool token).isOpen with
  | true =>
    rw [h.existing_of_open token ho]
    simp
  | false =>
    rw [h.existing_of_not_open token ho]
    simp

theorem priced {α : Type} (f : Pool → Except Rejection α) :
    (Contract.existingPool token >>= fun pool => Attempt.ofResult (f pool)) s =
      Attempt.ofResult (if (w.pool token).isOpen then f (w.pool token) else .error (.poolNotFound token)) s := by
  cases ho : (w.pool token).isOpen with
  | true => exact bind_of_ok (h.existing_of_open token ho)
  | false => exact bind_of_error (h.existing_of_not_open token ho)

theorem backing_eq {args : Bytes} {amount : Word} (hargs : Call.tokenAmount args = .ok (token, amount)) :
    Contract.backing args s = Attempt.ofResult ((w.quote token amount).map Word.bytes) s := by
  apply (bind_of_ok (Attempt.ofPayload_eq_ok.mpr ⟨hargs, rfl⟩)).trans
  simp only [← Attempt.ofResult_map]
  rw [h.priced token fun pool => (pool.backingFor amount).map Word.bytes, World.quote]
  split <;> rfl

theorem floorPrice_eq {args : Bytes} (hargs : Call.oneAddress args = .ok token) :
    Contract.floorPrice args s = Attempt.ofResult ((w.quote token coinValue).map Word.bytes) s := by
  apply (bind_of_ok (Attempt.ofPayload_eq_ok.mpr ⟨hargs, rfl⟩)).trans
  simp only [← Attempt.ofResult_map, Pool.floorPrice_eq_backingFor]
  rw [h.priced token fun pool => (pool.backingFor coinValue).map Word.bytes, World.quote]
  split <;> rfl

theorem summary_eq : Contract.summary token s = Attempt.ofResult ((w.quote token coinValue).map fun price =>
    ⟨(w.pool token).asset, (w.pool token).backing, (w.pool token).supply, (w.pool token).burned, price, price⟩) s := by
  apply (h.priced token Pool.summary).trans
  rw [Pool.summary_eq, World.quote]
  split <;> rfl

end Displays

variable {view : σ → World} (h : ∀ s, Displays s (view s))
include h

theorem quiet_existing (token : Address) : Quiet (Contract.existingPool token : Attempt σ Pool) := by
  intro s
  cases ho : ((view s).pool token).isOpen with
  | true => exact .inl ⟨_, (h s).existing_of_open token ho⟩
  | false => exact .inr ⟨_, (h s).existing_of_not_open token ho⟩

theorem quiet_backing (args : Bytes) : Quiet (Contract.backing args : Attempt σ Bytes) :=
  (Attempt.quiet_ofPayload _).bind fun (token, _) => (quiet_existing h token).bind fun _ =>
    (Attempt.quiet_ofResult _).bind fun _ => .pure _

theorem quiet_floorPrice (args : Bytes) : Quiet (Contract.floorPrice args : Attempt σ Bytes) :=
  (Attempt.quiet_ofPayload _).bind fun token => (quiet_existing h token).bind fun _ =>
    (Attempt.quiet_ofResult _).bind fun _ => .pure _

end Host

namespace World

variable {w : World} {token : Address}

theorem find_eq_some_iff {pool : Pool} :
    Pool.find? token w = .ok (some pool) w ↔ (w.pool token).isOpen = true ∧ w.pool token = pool := by
  rw [(Host.displays_world w).find]
  split
  · next hopen => simp [hopen]
  · next hopen => simp [hopen]

theorem find_of_isOpen (h : (w.pool token).isOpen = true) : Pool.find? token w = .ok (some (w.pool token)) w :=
  find_eq_some_iff.mpr ⟨h, rfl⟩

end World

end BackedToken
