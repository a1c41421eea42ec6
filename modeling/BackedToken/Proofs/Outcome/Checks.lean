import BackedToken.Proofs.Contract.Atomicity

/-! Ordered checks: a call succeeds if all of them are met, and is otherwise rejected for the first that is not. -/

namespace BackedToken

structure Check where
  met : Prop
  rejection : Rejection

namespace Check

open Attempt (ofPayload ofResult rejectIf)
open Host (bind_of_error bind_of_ok)

inductive Refuses : List Check → Rejection → Prop
  | here {check : Check} {later : List Check} (unmet : ¬check.met) : Refuses (check :: later) check.rejection
  | there {check : Check} {later : List Check} {rejection : Rejection} (met : check.met)
      (refuses : Refuses later rejection) : Refuses (check :: later) rejection

variable {σ ε α β : Type} {check : Check} {checks later : List Check} {rejection : Rejection} {s s' : σ}

theorem met_or_refuses (checks : List Check) :
    (∀ check ∈ checks, check.met) ∨ ∃ rejection, Refuses checks rejection := by
  induction checks with
  | nil => exact .inl (by simp)
  | cons check later ih =>
    by_cases hmet : check.met
    · obtain hall | ⟨rejection, hrefuses⟩ := ih
      · exact .inl (List.forall_mem_cons.mpr ⟨hmet, hall⟩)
      · exact .inr ⟨rejection, .there hmet hrefuses⟩
    · exact .inr ⟨check.rejection, .here hmet⟩

structure Decides (checks : List Check) (outcome : EStateM.Result Rejection σ α) : Prop where
  accepts : (∀ check ∈ checks, check.met) → ∃ a s, outcome = .ok a s
  rejects : ∀ rejection, Refuses checks rejection → ∃ s, outcome = .error rejection s

namespace Decides

variable {outcome : EStateM.Result Rejection σ α} {x : Attempt σ α} {f : α → Attempt σ β} {a : α}

theorem ok_iff (h : Decides checks outcome) : (∃ a s, outcome = .ok a s) ↔ ∀ check ∈ checks, check.met := by
  refine ⟨?_, h.accepts⟩
  rintro ⟨a, s, hok⟩
  obtain hall | ⟨rejection, hrefuses⟩ := met_or_refuses checks
  · exact hall
  · obtain ⟨_, herror⟩ := h.rejects rejection hrefuses
    cases hok.symm.trans herror

theorem error_iff (h : Decides checks outcome) : (∃ s, outcome = .error rejection s) ↔ Refuses checks rejection := by
  refine ⟨?_, h.rejects rejection⟩
  rintro ⟨s, herror⟩
  obtain hall | ⟨first, hrefuses⟩ := met_or_refuses checks
  · obtain ⟨_, _, hok⟩ := h.accepts hall
    cases hok.symm.trans herror
  · obtain ⟨_, hfirst⟩ := h.rejects first hrefuses
    cases hfirst.symm.trans herror
    exact hrefuses

theorem nil (a : α) (s : σ) : Decides [] (.ok a s : EStateM.Result Rejection σ α) where
  accepts _ := ⟨a, s, rfl⟩
  rejects _ h := by cases h

theorem cons (hunmet : ¬check.met → ∃ s, outcome = .error check.rejection s) (hmet : check.met → Decides later outcome) :
    Decides (check :: later) outcome where
  accepts h := (hmet (List.forall_mem_cons.mp h).1).accepts (List.forall_mem_cons.mp h).2
  rejects rejection h := by
    cases h with
    | here unmet => exact hunmet unmet
    | there met refuses => exact (hmet met).rejects rejection refuses

theorem tail (h : Decides (check :: later) outcome) (hmet : check.met) : Decides later outcome where
  accepts hall := h.accepts (List.forall_mem_cons.mpr ⟨hmet, hall⟩)
  rejects rejection hrefuses := h.rejects rejection (.there hmet hrefuses)

theorem drop {front : List Check} (h : Decides (front ++ checks) outcome) (hmet : ∀ check ∈ front, check.met) :
    Decides checks outcome := by
  induction front with
  | nil => exact h
  | cons check front ih =>
    obtain ⟨hfirst, hfront⟩ := List.forall_mem_cons.mp hmet
    exact ih (h.tail hfirst) hfront

theorem after (hx : x s = .ok a s') (h : Decides checks (f a s')) : Decides checks ((x >>= f) s) := by
  rwa [bind_of_ok hx]

theorem step (hunmet : ¬check.met → ∃ s', x s = .error check.rejection s') (hmet : check.met → x s = .ok a s')
    (h : check.met → Decides later (f a s')) : Decides (check :: later) ((x >>= f) s) := by
  refine cons (fun hc => ?_) fun hc => after (hmet hc) (h hc)
  obtain ⟨s'', herror⟩ := hunmet hc
  exact ⟨s'', bind_of_error herror⟩

theorem rejectIf {condition : Prop} [Decidable condition] {f : Unit → Attempt σ β} (hmet : check.met ↔ ¬condition)
    (h : check.met → Decides later (f () s)) : Decides (check :: later) ((rejectIf condition check.rejection >>= f) s) :=
  step (fun hc => ⟨s, Attempt.rejectIf_of (not_not.mp (mt hmet.mpr hc)) _ s⟩)
    (fun hc => Attempt.rejectIf_of_not (hmet.mp hc) _ s) h

theorem bindPure (h : Decides checks (x s)) (f : α → β) : Decides checks ((x >>= fun a => pure (f a)) s) where
  accepts hall := by
    obtain ⟨a, s', hok⟩ := h.accepts hall
    exact ⟨f a, s', bind_of_ok hok⟩
  rejects rejection hrefuses := by
    obtain ⟨s', herror⟩ := h.rejects rejection hrefuses
    exact ⟨s', bind_of_error herror⟩

end Decides

def orElse (x : Except ε α) (rejection : ε → Rejection) (later : α → List Check) : List Check :=
  match x with
  | .ok a => later a
  | .error e => [⟨False, rejection e⟩]

namespace Decides

variable {f : α → Attempt σ β} {later : α → List Check}

theorem ofPayload {x : Except Payload.Fault α} (h : ∀ a, x = .ok a → Decides (later a) (f a s)) :
    Decides (orElse x .malformedPayload later) ((ofPayload x >>= f) s) := by
  cases x with
  | ok a => exact h a rfl
  | error fault => exact cons (fun _ => ⟨s, rfl⟩) False.elim

theorem ofResult {x : Except Rejection α} (h : ∀ a, x = .ok a → Decides (later a) (f a s)) :
    Decides (orElse x id later) ((ofResult x >>= f) s) := by
  cases x with
  | ok a => exact h a rfl
  | error rejection => exact cons (fun _ => ⟨s, rfl⟩) False.elim

theorem ite {x : Except Rejection α} {checks : List Check} {condition : Prop} [Decidable condition]
    (hmet : check.met ↔ ¬condition) (h : check.met → Decides checks (Attempt.ofResult x s)) :
    Decides (check :: checks) (Attempt.ofResult (if condition then .error check.rejection else x) s) := by
  refine cons (fun hunmet => ⟨s, ?_⟩) fun hc => ?_
  · rw [if_pos (not_not.mp (mt hmet.mpr hunmet))]
    rfl
  · rw [if_neg (hmet.mp hc)]
    exact h hc

theorem result_eq_ok {x : Except Rejection α} (h : Decides checks (Attempt.ofResult x s)) :
    (∃ a, x = .ok a) ↔ ∀ check ∈ checks, check.met := by
  rw [← h.ok_iff]
  simp only [Attempt.ofResult_eq_ok, exists_and_left, exists_eq', and_true]

theorem result_eq_error {x : Except Rejection α} (h : Decides checks (Attempt.ofResult x s)) :
    x = .error rejection ↔ Refuses checks rejection := by
  rw [← h.error_iff]
  cases x with
  | ok a => exact iff_of_false nofun nofun
  | error refused => exact ⟨fun hx => ⟨s, Attempt.ofResult_of_error hx s⟩, fun ⟨_, hx⟩ => by cases hx; rfl⟩

theorem atomically {x : Attempt (Journal World) α} {y : Attempt World α} {w : World}
    (h : Host.Matches (Journal.Shows w) x y) (hy : Decides checks (y w)) : Decides checks (Journal.atomically x w) where
  accepts hall := by
    obtain ⟨a, v, hok⟩ := hy.accepts hall
    obtain ⟨w', hw', _⟩ := Journal.atomically_of_ok h hok
    exact ⟨a, w', hw'⟩
  rejects rejection hrefuses := by
    obtain ⟨v, herror⟩ := hy.rejects rejection hrefuses
    exact ⟨w, (Journal.atomically_of_error h herror).2⟩

end Decides

end Check

namespace Contract

open Check

def admissionChecks (settings : Settings) (context : Context) (payload : Bytes) (limit : Gas) (m : Method) : List Check :=
  [⟨settings.tariff.required payload ≤ limit, .outOfGas (settings.tariff.required payload) limit⟩,
    ⟨context.value = 0, .nonPayable context.value⟩,
    ⟨m.mutates = true → context.isStatic = false, .readOnly⟩]

def moveChecks (source target : Address) (amount : Word) (w : World) : List Check :=
  [⟨amount = 0 ∨ amount ≤ w.balance source, .host (.balanceInsufficient source amount (w.balance source))⟩,
    ⟨amount = 0 ∨ source = target ∨ (w.balance target).toNat + amount.toNat < 2 ^ 256, .host (.balanceOverflow target)⟩]

variable {settings : Settings} {context : Context} {payload args : Bytes} {limit : Gas} {m : Method}
  {checks : List Check} {w : World}

theorem moveChecks_setPool (source target : Address) (amount : Word) (pool : Pool) :
    moveChecks source target amount (w.setPool pool) = moveChecks source target amount w := by
  simp only [moveChecks, World.balance_setPool]

theorem decides_move {α : Type} {f : Unit → Attempt World α} {source target : Address} {amount : Word}
    (h : Decides [] (f () (w.transfer source target amount))) :
    Decides (moveChecks source target amount w) ((Attempt.ask (move source target amount) >>= f) w) := by
  refine .cons (fun hlow => ?_) fun hheld => .cons (fun hfull => ?_) fun hroom => .after ?_ h
  · obtain ⟨hamount, hlow⟩ := not_or.mp hlow
    have hnot : ¬w.CanMove source target amount := fun hmove => hlow (hmove.resolve_left hamount).1
    obtain ⟨v, hfault, _⟩ := World.move_of_not_canMove hnot
    rw [World.moveFault, if_pos (BitVec.not_le.mp hlow)] at hfault
    exact ⟨v, Host.bind_of_error (Host.adapt_of_error hfault)⟩
  · obtain ⟨hamount, hfull⟩ := not_or.mp hfull
    have hnot : ¬w.CanMove source target amount := fun hmove => hfull (hmove.resolve_left hamount).2
    obtain ⟨v, hfault, _⟩ := World.move_of_not_canMove hnot
    rw [World.moveFault, if_neg (BitVec.not_lt.mpr (hheld.resolve_left hamount))] at hfault
    exact ⟨v, Host.bind_of_error (Host.adapt_of_error hfault)⟩
  · exact Attempt.ask_eq_ok.mpr (World.move_eq_ok.mpr ⟨or_and_left.mpr ⟨hheld, hroom⟩, rfl⟩)

theorem Admitted.meets (h : Admitted settings context payload limit m args) :
    ∀ check ∈ admissionChecks settings context payload limit m, check.met := by
  simp only [admissionChecks, List.forall_mem_cons, required_of_split h.split]
  exact ⟨h.paid, h.valueless, h.mutable, by simp⟩

theorem decides_handle (hsplit : Payload.split payload = .ok (m.selector, args))
    (h : Decides checks (perform settings context args m w)) :
    Decides (admissionChecks settings context payload limit m ++ checks) (handle settings context payload limit w) := by
  rw [admissionChecks, required_of_split hsplit]
  refine .after (Attempt.ofPayload_eq_ok.mpr ⟨hsplit, rfl⟩) (.after (methodOf_eq_ok.mpr ⟨rfl, rfl⟩) ?_)
  refine .rejectIf UInt64.not_lt.symm fun _ => .rejectIf not_not.symm fun _ => .rejectIf ?_ fun _ => h.bindPure _
  simp

theorem decides_execute (hsplit : Payload.split payload = .ok (m.selector, args))
    (h : Decides checks (perform settings context args m w)) :
    Decides (admissionChecks settings context payload limit m ++ checks) (execute settings context payload limit w) where
  accepts hall := by
    obtain ⟨receipt, w', hok⟩ := (decides_handle hsplit h).accepts hall
    exact ⟨receipt, w', by simp only [execute, hok]⟩
  rejects rejection hrefuses := by
    obtain ⟨w', herror⟩ := (decides_handle hsplit h).rejects rejection hrefuses
    exact ⟨w', by simp only [execute, herror]; rfl⟩

theorem execute_eq_error (h : Decides checks (execute settings context payload limit w)) {rejection : Rejection}
    {w' : World} : execute settings context payload limit w = .error rejection w' ↔ Refuses checks rejection ∧ w' = w := by
  constructor
  · intro herror
    exact ⟨h.error_iff.mp ⟨w', herror⟩, undone_execute settings context payload limit w _ _ herror⟩
  · rintro ⟨hrefuses, rfl⟩
    obtain ⟨v, herror⟩ := h.rejects rejection hrefuses
    obtain rfl := undone_execute settings context payload limit w' _ _ herror
    exact herror

end Contract

end BackedToken
