import BackedToken.Proofs.Outcome.Burn

namespace BackedToken

open Host

namespace Attempt

variable {σ α β : Type}

def Reverts (x : Attempt σ α) : Prop := ∀ s rejection s', x s = .error rejection s' → rejection.failure = .reverted

namespace Reverts

theorem pure (a : α) : Reverts (pure a : Attempt σ α) := nofun

theorem throw {rejection : Rejection} (h : rejection.failure = .reverted) : Reverts (throw rejection : Attempt σ α) := by
  intro s e s' hx
  cases hx
  exact h

theorem log (notice : Notice) [Host σ] : Reverts (Host.log notice : Attempt σ Unit) := nofun

theorem bind {x : Attempt σ α} {f : α → Attempt σ β} (hx : Reverts x) (hf : ∀ a, Reverts (f a)) : Reverts (x >>= f) := by
  intro s rejection s' h
  obtain h | ⟨a, s₁, _, h⟩ := bind_eq_error.mp h
  · exact hx s rejection s' h
  · exact hf a s₁ rejection s' h

theorem rejectIf {condition : Prop} [Decidable condition] {rejection : Rejection} (h : rejection.failure = .reverted) :
    Reverts (rejectIf condition rejection : Attempt σ Unit) := by
  rw [Attempt.rejectIf]
  split
  · exact throw h
  · exact pure ()

theorem ask (x : Host.Action σ α) : Reverts (ask x) := by
  intro s rejection s' h
  obtain ⟨fault, _, rfl⟩ := adapt_eq_error.mp h
  rfl

theorem ofPayload (x : Except Payload.Fault α) : Reverts (ofPayload x : Attempt σ α) := by
  cases x with
  | ok a => exact pure a
  | error fault => exact throw rfl

theorem ofResult {x : Except Rejection α} (h : ∀ rejection, x = .error rejection → rejection.failure = .reverted) :
    Reverts (ofResult x : Attempt σ α) := by
  cases x with
  | ok a => exact pure a
  | error rejection => exact throw (h rejection rfl)

theorem atomically [Host σ] {x : Attempt (Journal σ) α} (hx : Reverts x) : Reverts (Journal.atomically x) := by
  intro s rejection s' h
  rw [Journal.atomically] at h
  split at h
  · next hr =>
    cases h
    exact hx _ _ _ hr
  · split at h
    · cases h
    · cases h
      rfl

theorem view {x : Attempt (Frozen σ) α} (hx : Reverts x) : Reverts (Frozen.view x) := by
  intro s rejection s' h
  rw [Frozen.view, Host.within] at h
  split at h
  · cases h
  · next hr =>
    cases h
    exact hx _ _ _ hr

end Reverts

end Attempt

open Attempt (Reverts)

namespace Rejection

theorem failure_of_validate {terms : Terms} {rejection : Rejection} (h : terms.validate = .error rejection) :
    rejection.failure = .reverted := by
  rw [Terms.validate] at h
  repeat' split at h
  all_goals cases h
  all_goals rfl

theorem failure_of_backingFor {pool : Pool} {amount : Word} {rejection : Rejection}
    (h : pool.backingFor amount = .error rejection) : rejection.failure = .reverted := by
  rw [(Pool.backingFor_eq_error.mp h).1]
  rfl

theorem failure_of_redeem {pool : Pool} {amount : Word} {rejection : Rejection}
    (h : pool.redeem amount = .error rejection) : rejection.failure = .reverted := by
  rcases Pool.redeem_eq_error.mp h with hshare | ⟨_, _, rfl⟩
  · exact failure_of_backingFor hshare
  · rfl

theorem failure_of_floorPrice {pool : Pool} {rejection : Rejection} (h : pool.floorPrice = .error rejection) :
    rejection.failure = .reverted := by
  rw [Pool.floorPrice_eq_error h]
  rfl

end Rejection

namespace Contract

variable {σ : Type} [Host σ] {settings : Settings} {context : Context} {payload args : Bytes} {limit : Gas} {m : Method}
  {receipt : Receipt} {s s' : σ}

theorem reverts_existing (token : Address) : Reverts (existingPool token : Attempt σ Pool) := by
  refine (Reverts.ask _).bind fun pool => ?_
  cases pool with
  | some pool => exact .pure pool
  | none => exact .throw rfl

theorem reverts_cover (caller : Address) (amount : Word) : Reverts (requireCover caller amount : Attempt σ Unit) := by
  rw [requireCover]
  split
  · exact .pure ()
  · exact (Reverts.ask _).bind fun _ => .rejectIf rfl

theorem reverts_create (settings : Settings) (context : Context) (args : Bytes) :
    Reverts (create settings context args : Attempt σ Bytes) := by
  refine (Reverts.rejectIf rfl).bind fun _ => (Reverts.ofPayload _).bind fun terms => ?_
  refine (Reverts.ofResult fun _ => Rejection.failure_of_validate).bind fun _ => (reverts_cover _ _).bind fun _ => ?_
  refine (Reverts.ask _).bind fun nonce => (Reverts.ask _).bind fun taken => (Reverts.rejectIf rfl).bind fun _ => ?_
  refine (Reverts.ask _).bind fun _ => (Reverts.ask _).bind fun _ => (Reverts.ask _).bind fun _ => ?_
  exact (Reverts.log _).bind fun _ => .pure _

theorem reverts_burn (settings : Settings) (context : Context) (args : Bytes) :
    Reverts (burn settings context args : Attempt σ Bytes) := by
  refine (Reverts.ofPayload _).bind fun (token, amount) => (reverts_existing token).bind fun pool => ?_
  refine (Reverts.ofResult fun _ => Rejection.failure_of_redeem).bind fun (pool, recovered) => ?_
  refine (Reverts.ask _).bind fun _ => (Reverts.ask _).bind fun _ => ?_
  exact (Reverts.log _).bind fun _ => .pure _

theorem reverts_backing (args : Bytes) : Reverts (backing args : Attempt σ Bytes) := by
  refine (Reverts.ofPayload _).bind fun (token, amount) => (reverts_existing token).bind fun pool => ?_
  exact (Reverts.ofResult fun _ => Rejection.failure_of_backingFor).bind fun _ => .pure _

theorem reverts_floorPrice (args : Bytes) : Reverts (floorPrice args : Attempt σ Bytes) := by
  refine (Reverts.ofPayload _).bind fun token => (reverts_existing token).bind fun pool => ?_
  exact (Reverts.ofResult fun _ => Rejection.failure_of_floorPrice).bind fun _ => .pure _

theorem reverts_perform (settings : Settings) (context : Context) (args : Bytes) (m : Method) :
    Reverts (perform settings context args m : Attempt σ Bytes) := by
  cases m with
  | create => exact (reverts_create settings context args).atomically
  | backing => exact (reverts_backing args).view
  | burn => exact (reverts_burn settings context args).atomically
  | floorPrice => exact (reverts_floorPrice args).view

omit [Host σ] in
theorem reverts_methodOf (selector : Bytes) : Reverts (methodOf selector : Attempt σ Method) := by
  rw [methodOf]
  split
  · exact .pure _
  · exact .throw rfl

def unmetered (settings : Settings) (context : Context) (payload : Bytes) : Attempt σ Receipt := do
  let (selector, args) ← Attempt.ofPayload (Payload.split payload)
  let m ← methodOf selector
  Attempt.rejectIf (context.value ≠ 0) (.nonPayable context.value)
  Attempt.rejectIf (m.mutates = true ∧ context.isStatic = true) .readOnly
  let output ← perform settings context args m
  pure ⟨settings.tariff.cost payload.length m, output⟩

theorem reverts_unmetered (settings : Settings) (context : Context) (payload : Bytes) :
    Reverts (unmetered settings context payload : Attempt σ Receipt) := by
  refine (Reverts.ofPayload _).bind fun (selector, args) => (reverts_methodOf selector).bind fun m => ?_
  refine (Reverts.rejectIf rfl).bind fun _ => (Reverts.rejectIf rfl).bind fun _ => ?_
  exact (reverts_perform settings context args m).bind fun _ => .pure _

theorem handle_eq (settings : Settings) (context : Context) (payload : Bytes) (limit : Gas) :
    (handle settings context payload limit : Attempt σ Receipt) =
      Attempt.rejectIf (limit < settings.tariff.required payload) (.outOfGas (settings.tariff.required payload) limit) >>=
        fun _ => unmetered settings context payload := by
  funext s
  cases hsplit : Payload.split payload with
  | error fault =>
    have hfree : settings.tariff.required payload = 0 := by simp only [Tariff.required, hsplit]
    have hmalformed : Attempt.ofPayload (Payload.split payload) s = .error (.malformedPayload fault) s := hsplit ▸ rfl
    rw [hfree, bind_of_ok (Attempt.rejectIf_of_not UInt64.not_lt_zero _ s)]
    exact (bind_of_error hmalformed).trans (bind_of_error hmalformed).symm
  | ok parts =>
    have hparts : Attempt.ofPayload (Payload.split payload) s = .ok parts s := Attempt.ofPayload_eq_ok.mpr ⟨hsplit, rfl⟩
    cases hm : Method.ofSelector? parts.1 with
    | none =>
      have hfree : settings.tariff.required payload = 0 := by simp only [Tariff.required, hsplit, hm]
      have hunknown : methodOf parts.1 s = .error (.unknownSelector parts.1) s := by rw [methodOf, hm]; rfl
      rw [hfree, bind_of_ok (Attempt.rejectIf_of_not UInt64.not_lt_zero _ s)]
      apply ((bind_of_ok hparts).trans (bind_of_error hunknown)).trans
      exact ((bind_of_ok hparts).trans (bind_of_error hunknown)).symm
    | some m =>
      have hcost : settings.tariff.required payload = settings.tariff.cost payload.length m := by
        simp only [Tariff.required, hsplit, hm]
      have hmethod : methodOf parts.1 s = .ok m s := by rw [methodOf, hm]; rfl
      rw [hcost]
      apply ((bind_of_ok hparts).trans (bind_of_ok hmethod)).trans
      by_cases hshort : limit < settings.tariff.cost payload.length m
      · have hrefused := Attempt.rejectIf_of hshort (.outOfGas (settings.tariff.cost payload.length m) limit) s
        exact (bind_of_error hrefused).trans (bind_of_error hrefused).symm
      · have hpaid := Attempt.rejectIf_of_not hshort (.outOfGas (settings.tariff.cost payload.length m) limit) s
        apply (bind_of_ok hpaid).trans
        exact ((bind_of_ok hpaid).trans ((bind_of_ok hparts).trans (bind_of_ok hmethod))).symm

theorem gasUsed_of_unmetered (h : unmetered settings context payload s = .ok receipt s') :
    receipt.gasUsed = settings.tariff.required payload := by
  obtain ⟨⟨selector, args⟩, _, h₁, h⟩ := bind_eq_ok.mp h
  obtain ⟨hsplit, rfl⟩ := Attempt.ofPayload_eq_ok.mp h₁
  obtain ⟨m, _, h₂, h⟩ := bind_eq_ok.mp h
  obtain ⟨rfl, rfl⟩ := methodOf_eq_ok.mp h₂
  obtain ⟨_, _, _, h⟩ := bind_eq_ok.mp h
  obtain ⟨_, _, _, h⟩ := bind_eq_ok.mp h
  obtain ⟨_, _, _, h⟩ := bind_eq_ok.mp h
  obtain ⟨rfl, _⟩ := pure_eq_ok.mp h
  exact (required_of_split hsplit).symm

theorem handle_of_short (h : limit < settings.tariff.required payload) (s : σ) :
    handle settings context payload limit s = .error (.outOfGas (settings.tariff.required payload) limit) s := by
  rw [handle_eq]
  exact bind_of_error (Attempt.rejectIf_of h _ s)

theorem handle_of_paid (h : settings.tariff.required payload ≤ limit) (s : σ) :
    handle settings context payload limit s = unmetered settings context payload s := by
  rw [handle_eq]
  exact bind_of_ok (Attempt.rejectIf_of_not (UInt64.not_lt.mpr h) _ s)

theorem execute_of_short (h : limit < settings.tariff.required payload) (s : σ) :
    execute settings context payload limit s = .error (.outOfGas (settings.tariff.required payload) limit)
      (Host.record (.rejected context.caller (.outOfGas (settings.tariff.required payload) limit)) s) := by
  simp only [execute, handle_of_short h]

theorem execute_of_paid {other : Gas} (h : settings.tariff.required payload ≤ limit)
    (h' : settings.tariff.required payload ≤ other) (s : σ) :
    execute settings context payload limit s = execute settings context payload other s := by
  simp only [execute, handle_of_paid h, handle_of_paid h']

theorem failure_of_paid {rejection : Rejection} (h : settings.tariff.required payload ≤ limit)
    (hrejected : execute settings context payload limit s = .error rejection s') : rejection.failure = .reverted := by
  simp only [execute, handle_of_paid h] at hrejected
  split at hrejected
  · cases hrejected
  · next hr =>
    cases hrejected
    exact reverts_unmetered settings context payload _ _ _ hr

theorem paid_of_execute (h : execute settings context payload limit s = .ok receipt s') :
    receipt.gasUsed = settings.tariff.required payload ∧ settings.tariff.required payload ≤ limit := by
  by_cases hpaid : settings.tariff.required payload ≤ limit
  · simp only [execute, handle_of_paid hpaid] at h
    split at h
    · next hr =>
      cases h
      exact ⟨gasUsed_of_unmetered hr, hpaid⟩
    · cases h
  · rw [execute_of_short (UInt64.not_le.mp hpaid)] at h
    cases h

theorem run_eq_error {failure : Failure} : run settings context payload limit s = .error failure s' ↔
    ∃ rejection, execute settings context payload limit s = .error rejection s' ∧ rejection.failure = failure := adapt_eq_error

theorem short_of_failure {rejection : Rejection} (h : execute settings context payload limit s = .error rejection s')
    (hfailure : rejection.failure = .outOfGas) : limit < settings.tariff.required payload := by
  refine UInt64.not_le.mp fun hpaid => ?_
  cases hfailure.symm.trans (failure_of_paid hpaid h)

theorem execute_outOfGas_iff {needed allowed : Gas} :
    (∃ s', execute settings context payload limit s = .error (.outOfGas needed allowed) s') ↔
      limit < settings.tariff.required payload ∧ needed = settings.tariff.required payload ∧ allowed = limit := by
  constructor
  · rintro ⟨s', h⟩
    have hshort := short_of_failure h rfl
    rw [execute_of_short hshort] at h
    cases h
    exact ⟨hshort, rfl, rfl⟩
  · rintro ⟨hshort, rfl, rfl⟩
    exact ⟨_, execute_of_short hshort s⟩

theorem run_outOfGas_iff : (∃ s', run settings context payload limit s = .error .outOfGas s') ↔
    limit < settings.tariff.required payload := by
  constructor
  · rintro ⟨s', h⟩
    obtain ⟨rejection, h, hfailure⟩ := run_eq_error.mp h
    exact short_of_failure h hfailure
  · intro hshort
    exact ⟨_, run_eq_error.mpr ⟨_, execute_of_short hshort s, rfl⟩⟩

theorem run_reverted_iff : (∃ s', run settings context payload limit s = .error .reverted s') ↔
    settings.tariff.required payload ≤ limit ∧
      ∃ rejection s', execute settings context payload limit s = .error rejection s' := by
  constructor
  · rintro ⟨s', h⟩
    obtain ⟨rejection, h, hfailure⟩ := run_eq_error.mp h
    refine ⟨UInt64.not_lt.mp fun hshort => ?_, rejection, s', h⟩
    rw [execute_of_short hshort] at h
    cases h
    cases hfailure
  · rintro ⟨hpaid, rejection, s', h⟩
    exact ⟨s', run_eq_error.mpr ⟨rejection, h, failure_of_paid hpaid h⟩⟩

theorem toNat_cost_create (tariff : Tariff) (length : Nat) : (tariff.cost length .create).toNat =
    min (2 ^ 64 - 1) (tariff.create.toNat + (length - Payload.selectorSize) * tariff.perByte.toNat) := by
  simp only [Tariff.cost, Gas.toNat_clamp, UInt64.size]
  omega

theorem cost_create_mono (tariff : Tariff) {length longer : Nat} (h : length ≤ longer) :
    tariff.cost length .create ≤ tariff.cost longer .create := by
  have hbytes := Nat.mul_le_mul_right tariff.perByte.toNat (Nat.sub_le_sub_right h Payload.selectorSize)
  rw [UInt64.le_iff_toNat_le, toNat_cost_create, toNat_cost_create]
  omega

/-- Only gas makes a call run out of gas, every other failure is a revert, and beyond what is required the limit makes
no difference. -/
theorem gas_decides (settings : Settings) (context : Context) (payload : Bytes) (s : σ) :
    let required := settings.tariff.required payload
    (∀ limit needed allowed,
      (∃ s', execute settings context payload limit s = .error (.outOfGas needed allowed) s') ↔
        limit < required ∧ needed = required ∧ allowed = limit) ∧
    (∀ limit, (∃ s', run settings context payload limit s = .error .outOfGas s') ↔ limit < required) ∧
    (∀ limit, (∃ s', run settings context payload limit s = .error .reverted s') ↔
      required ≤ limit ∧ ∃ rejection s', execute settings context payload limit s = .error rejection s') ∧
    (∀ limit receipt s', execute settings context payload limit s = .ok receipt s' →
      receipt.gasUsed = required ∧ required ≤ limit) ∧
    (∀ limit other, required ≤ limit → required ≤ other →
      execute settings context payload limit s = execute settings context payload other s) ∧
    ∀ args, Payload.split payload = .ok (Method.create.selector, args) →
      required.toNat = min (2 ^ 64 - 1)
        (settings.tariff.create.toNat + (payload.length - 4) * settings.tariff.perByte.toNat) ∧
      ∀ longer more, Payload.split longer = .ok (Method.create.selector, more) → payload.length ≤ longer.length →
        required ≤ settings.tariff.required longer := by
  intro required
  refine ⟨fun _ _ _ => execute_outOfGas_iff, fun _ => run_outOfGas_iff, fun _ => run_reverted_iff,
    fun _ _ _ => paid_of_execute, fun _ _ h h' => execute_of_paid h h' s, fun args hsplit => ?_⟩
  have hrequired : required = settings.tariff.cost payload.length .create := required_of_split hsplit
  refine ⟨?_, fun longer more hlonger hlength => ?_⟩
  · rw [hrequired]
    exact toNat_cost_create ..
  · rw [hrequired, required_of_split hlonger]
    exact cost_create_mono _ hlength

theorem gas_decides_sample :
    let most : Gas := .ofNat (2 ^ 64 - 1)
    let settings : Settings := { tariff := { perByte := most } }
    let payload := Method.create.selector ++ [0, 0]
    settings.tariff.required payload = most ∧
      (∃ w, execute settings { caller := 1 } payload (most - 1) ({} : World) = .error (.outOfGas most (most - 1)) w) ∧
      ∃ w, run settings { caller := 1 } payload (most - 1) ({} : World) = .error .outOfGas w := by
  intro most settings payload
  have hmost : most.toNat = 2 ^ 64 - 1 := UInt64.toNat_ofNat_of_lt' (by decide)
  obtain ⟨hexecute, hrun, _, _, _, hcreate⟩ := gas_decides settings { caller := 1 } payload ({} : World)
  have hlength : payload.length = 6 := by
    rw [List.length_append, Method.length_selector]
    rfl
  have hrequired : settings.tariff.required payload = most := by
    apply UInt64.toNat_inj.mp
    rw [(hcreate _ (Method.split_selector _ _)).1, hlength]
    change min (2 ^ 64 - 1) (settings.tariff.create.toNat + 2 * most.toNat) = most.toNat
    omega
  have hshort : most - 1 < settings.tariff.required payload := by
    rw [hrequired]
    decide
  exact ⟨hrequired, (hexecute ..).mpr ⟨hshort, hrequired.symm, rfl⟩, (hrun _).mpr hshort⟩

end Contract

end BackedToken
