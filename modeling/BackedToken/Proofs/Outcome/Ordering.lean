import BackedToken.Proofs.Contract.Effects
import BackedToken.Proofs.Host.Requests

namespace BackedToken

open Host (Matches OnlyLooks)

def Pool.writes (pool : Pool) : List (Word × Word) := (Pool.slotKeys pool.token).zip pool.words

def FeePlan.writes (plan : FeePlan) (token : Address) : List (Word × Word) := (FeePlan.slotKeys token).zip plan.words

theorem Pool.writes_ne_nil (pool : Pool) : pool.writes ≠ [] := List.cons_ne_nil _ _

theorem Pool.map_fst_writes (pool : Pool) : pool.writes.map Prod.fst = Pool.slotKeys pool.token :=
  List.map_fst_zip (by rw [pool.length_words, slotKeys, Slot.length_keys])

namespace Journal

theorem sees_fresh (w : World) : Host.Sees ({ host := w } : Journal World) w where
  read _ _ := rfl
  record _ := rfl
  balance _ := rfl
  nonce _ := rfl
  codeSize _ := rfl

theorem store_pool (pool : Pool) (j : Journal World) : pool.store j = .ok () (j.setWords pool.token pool.writes) := rfl

theorem store_plan (plan : FeePlan) (token : Address) (j : Journal World) :
    plan.store token j = .ok () (j.setWords token (plan.writes token)) := by
  rw [FeePlan.writes, FeePlan.slotKeys, ← plan.length_words]
  rfl

end Journal

namespace Contract

open Journal (Buffers dues)
open Monitor (Leaves Orderly watching)

variable {settings : Settings} {context : Context} {payload args out : Bytes} {limit : Gas} {w : World}
  {takesBatches : Bool}

def creationWrites (context : Context) (terms : Terms) (w : World) : List (Word × Word) :=
  (newPool context terms w).writes ++ terms.plan.writes (newToken context terms w)

theorem buffers_create {terms : Terms} (hargs : Terms.ofArguments args = .ok terms) (hc : Creatable context terms w)
    (hmove : w.CanMove context.caller settings.custodian terms.initialBacking) :
    ∃ j, create settings context args { host := w } = .ok (newToken context terms w).word.bytes j ∧
      Buffers w (newToken context terms w) (creationWrites context terms w)
        (dues w context.caller settings.custodian terms.initialBacking) j := by
  have hpool := (Buffers.fresh w (newToken context terms w)).setWords (newPool context terms w).writes
  obtain ⟨j, hcoins, hmoved⟩ := hpool.move hmove
  refine ⟨_, ?_, hmoved.setWords (terms.plan.writes (newToken context terms w))⟩
  apply (create_of_sees (Journal.sees_fresh w) hargs hc).trans
  apply (Host.bind_of_ok (Attempt.ask_eq_ok.mpr (Journal.store_pool _ _))).trans
  apply (Host.bind_of_ok (Attempt.ask_eq_ok.mpr hcoins)).trans
  exact Host.bind_of_ok (Attempt.ask_eq_ok.mpr (Journal.store_plan _ _ _))

theorem buffers_burn {token : Address} {amount recovered : Word} {pool : Pool}
    (hargs : Call.tokenAmount args = .ok (token, amount)) (hopen : (w.pool token).isOpen = true)
    (hredeem : (w.pool token).redeem amount = .ok (pool, recovered))
    (hmove : w.CanMove settings.custodian context.caller recovered) :
    ∃ j, burn settings context args { host := w } = .ok recovered.bytes j ∧
      Buffers w token pool.writes (dues w settings.custodian context.caller recovered) j := by
  have htoken : pool.token = token := by
    obtain ⟨_, _, rfl⟩ := Pool.redeem_eq_ok.mp hredeem
    rfl
  obtain ⟨j, hcoins, hmoved⟩ := ((Buffers.fresh w token).setWords pool.writes).move hmove
  refine ⟨j, ?_, hmoved⟩
  apply (burn_of_displays (Journal.sees_fresh w).toDisplays hargs hopen hredeem).trans
  apply (Host.bind_of_ok (Attempt.ask_eq_ok.mpr (Journal.store_pool _ _))).trans
  rw [htoken]
  exact Host.bind_of_ok (Attempt.ask_eq_ok.mpr hcoins)

theorem creation_orderly {terms : Terms} (hargs : Terms.ofArguments args = .ok terms) (hc : Creatable context terms w)
    (hmove : w.CanMove context.caller settings.custodian terms.initialBacking) (takesBatches : Bool) :
    ∃ m, perform settings context args .create (watching w takesBatches) = .ok (newToken context terms w).word.bytes m ∧
      Orderly takesBatches (newToken context terms w) (creationWrites context terms w) context.caller settings.custodian
        terms.initialBacking m.requests := by
  obtain ⟨j, hcreate, hj⟩ := buffers_create hargs hc hmove
  have hmatch := (Journal.answerAlike_over (Monitor.lookAlike takesBatches)).create settings context args
  exact Monitor.orderly_of_ok hmatch hcreate hj (List.append_ne_nil_of_left_ne_nil (Pool.writes_ne_nil _) _) hmove

theorem burn_orderly {token : Address} {amount recovered : Word} {pool : Pool}
    (hargs : Call.tokenAmount args = .ok (token, amount)) (hopen : (w.pool token).isOpen = true)
    (hredeem : (w.pool token).redeem amount = .ok (pool, recovered))
    (hmove : w.CanMove settings.custodian context.caller recovered) (takesBatches : Bool) :
    ∃ m, perform settings context args .burn (watching w takesBatches) = .ok recovered.bytes m ∧
      Orderly takesBatches token pool.writes settings.custodian context.caller recovered m.requests := by
  obtain ⟨j, hburn, hj⟩ := buffers_burn hargs hopen hredeem hmove
  have hmatch := (Journal.answerAlike_over (Monitor.lookAlike takesBatches)).burn settings context args
  exact Monitor.orderly_of_ok hmatch hburn hj pool.writes_ne_nil hmove

def Ordered (settings : Settings) (context : Context) (args : Bytes) (w : World) (takesBatches : Bool) :
    Method → Bytes → List Host.Request → Prop
  | .create, out, requests => ∃ terms, Terms.ofArguments args = .ok terms ∧
      out = (newToken context terms w).word.bytes ∧
      Orderly takesBatches (newToken context terms w) (creationWrites context terms w) context.caller settings.custodian
        terms.initialBacking requests
  | .burn, out, requests => ∃ token amount pool recovered, Call.tokenAmount args = .ok (token, amount) ∧
      (w.pool token).redeem amount = .ok (pool, recovered) ∧ out = recovered.bytes ∧
      Orderly takesBatches token pool.writes settings.custodian context.caller recovered requests
  | .backing, _, requests => OnlyLooks requests
  | .floorPrice, _, requests => OnlyLooks requests

theorem Ordered.onlyLooks {query : Method} {requests : List Host.Request}
    (h : Ordered settings context args w takesBatches query out requests) (hquery : query.mutates = false) :
    OnlyLooks requests := by
  cases query with
  | backing => exact h
  | floorPrice => exact h
  | create => cases hquery
  | burn => cases hquery

section Performing

variable (settings : Settings) (context : Context) (args : Bytes) (w : World) (takesBatches : Bool)

theorem leaves_create : Leaves (Ordered settings context args w takesBatches .create)
    (perform settings context args .create (watching w takesBatches)) := by
  have hmatch := (Journal.answerAlike_over (Monitor.lookAlike takesBatches)).create settings context args
  apply Monitor.leaves_atomically hmatch
  intro out j hjournal
  obtain ⟨v, hdirect, _⟩ := (matches_create settings context args w).to_ok (.fresh w) hjournal
  obtain ⟨terms, hargs, hc, hmove, hout, _⟩ := create_eq_ok.mp hdirect
  obtain ⟨m, hperform, horderly⟩ := creation_orderly hargs hc hmove takesBatches
  rw [← hout] at hperform
  exact ⟨m, hperform, terms, hargs, hout, horderly⟩

theorem leaves_burn : Leaves (Ordered settings context args w takesBatches .burn)
    (perform settings context args .burn (watching w takesBatches)) := by
  have hmatch := (Journal.answerAlike_over (Monitor.lookAlike takesBatches)).burn settings context args
  apply Monitor.leaves_atomically hmatch
  intro out j hjournal
  obtain ⟨v, hdirect, _⟩ := (matches_burn settings context args w).to_ok (.fresh w) hjournal
  obtain ⟨token, amount, pool, recovered, hargs, hopen, hredeem, hmove, hout, _⟩ := burn_eq_ok.mp hdirect
  obtain ⟨m, hperform, horderly⟩ := burn_orderly hargs hopen hredeem hmove takesBatches
  rw [← hout] at hperform
  exact ⟨m, hperform, token, amount, pool, recovered, hargs, hredeem, hout, horderly⟩

theorem leaves_perform (method : Method) : Leaves (Ordered settings context args w takesBatches method)
    (perform settings context args method (watching w takesBatches)) := by
  have hreads := Frozen.readAlike (Monitor.lookAlike takesBatches)
  cases method with
  | create => exact leaves_create settings context args w takesBatches
  | backing => exact Monitor.onlyLooks_of_matches (Frozen.matches_view (hreads.backing args)) w
  | burn => exact leaves_burn settings context args w takesBatches
  | floorPrice => exact Monitor.onlyLooks_of_matches (Frozen.matches_view (hreads.floorPrice args)) w

end Performing

variable {method : Method} {m : Monitor World}

theorem ordered_of_perform (h : perform settings context args method (watching w takesBatches) = .ok out m) :
    Ordered settings context args w takesBatches method out m.requests := by
  have hleaves := leaves_perform settings context args w takesBatches method
  rwa [h] at hleaves

theorem onlyLooks_of_perform {rejection : Rejection}
    (h : perform settings context args method (watching w takesBatches) = .error rejection m) : OnlyLooks m.requests := by
  have hleaves := leaves_perform settings context args w takesBatches method
  rwa [h] at hleaves

theorem refused_early_or_late {σ : Type} [Host σ] {s s' : σ} {rejection : Rejection}
    (h : handle settings context payload limit s = .error rejection s') :
    s' = s ∨ ∃ method args, perform settings context args method s = .error rejection s' := by
  obtain h | ⟨⟨selector, args⟩, h⟩ := (Attempt.quiet_ofPayload _).bind_eq_error h
  · exact .inl h
  obtain h | ⟨method, h⟩ := (quiet_methodOf selector).bind_eq_error h
  · exact .inl h
  obtain h | ⟨_, h⟩ := (Attempt.quiet_rejectIf _ _).bind_eq_error h
  · exact .inl h
  obtain h | ⟨_, h⟩ := (Attempt.quiet_rejectIf _ _).bind_eq_error h
  · exact .inl h
  obtain h | ⟨_, h⟩ := (Attempt.quiet_rejectIf _ _).bind_eq_error h
  · exact .inl h
  obtain hperform | ⟨_, _, _, h⟩ := Host.bind_eq_error.mp h
  · exact .inr ⟨method, args, hperform⟩
  · cases h

/-- A call that changes something makes all its looks first, then writes the words of one account, and moves coins
last. -/
theorem writes_last (settings : Settings) (context : Context) (payload : Bytes) (limit : Gas) (w : World)
    (takesBatches : Bool) :
    (∀ rejection m, execute settings context payload limit (watching w takesBatches) = .error rejection m →
      OnlyLooks m.requests) ∧
    ∀ receipt m args, execute settings context payload limit (watching w takesBatches) = .ok receipt m →
      (∀ query : Method, Payload.split payload = .ok (query.selector, args) → query.mutates = false →
        OnlyLooks m.requests) ∧
      (Payload.split payload = .ok (Method.create.selector, args) → ∃ terms, Terms.ofArguments args = .ok terms ∧
        receipt.output = (newToken context terms w).word.bytes ∧
        Orderly takesBatches (newToken context terms w)
          ((newPool context terms w).writes ++ terms.plan.writes (newToken context terms w))
          context.caller settings.custodian terms.initialBacking m.requests) ∧
      (Payload.split payload = .ok (Method.burn.selector, args) → ∃ token amount pool recovered,
        Call.tokenAmount args = .ok (token, amount) ∧ (w.pool token).redeem amount = .ok (pool, recovered) ∧
        receipt.output = recovered.bytes ∧
        Orderly takesBatches token pool.writes settings.custodian context.caller recovered m.requests) := by
  refine ⟨fun rejection m h => ?_, fun receipt m args h => ⟨fun query hsplit hquery => ?_, fun hsplit => ?_,
    fun hsplit => ?_⟩⟩
  · rw [execute] at h
    split at h
    · cases h
    · next hhandle =>
      cases h
      obtain rfl | ⟨method, args, hperform⟩ := refused_early_or_late hhandle
      · exact (Monitor.looked_watching w takesBatches).onlyLooks
      · have hlooks := onlyLooks_of_perform hperform
        exact hlooks
  · exact (ordered_of_perform (perform_of_execute h hsplit).2).onlyLooks hquery
  · exact ordered_of_perform (perform_of_execute h hsplit).2
  · exact ordered_of_perform (perform_of_execute h hsplit).2

theorem writes_last_sample :
    let w := (World.setPool {} (.native 2 1000 100 0)).setBalance contractAddress 1000
    ∃ m looks, execute {} { caller := 1 } (Call.burn 2 10).payload 30000 (watching w false) = .ok ⟨30000, Word.bytes 100⟩ m ∧
      OnlyLooks looks ∧
      m.requests = looks ++
        [.write 2 (Pool.slotKey 2 0) 900, .write 2 (Pool.slotKey 2 1) 100, .write 2 (Pool.slotKey 2 2) 10,
          .write 2 (Pool.slotKey 2 3) 0, .balance contractAddress, .withdraw contractAddress 100, .balance 1,
          .deposit 1 100] := by
  intro w
  have hpool : w.pool 2 = .native 2 1000 100 0 := World.pool_setPool_native_self ..
  have hcall : Admitted {} { caller := 1 } (Call.burn 2 10).payload 30000 .burn
      (Payload.write (Call.burn 2 10).pieces) := ⟨Method.split_selector _ _, by decide, rfl, fun _ => rfl⟩
  have hopen : (w.pool 2).isOpen = true := by
    rw [hpool]
    decide
  have hredeem : (w.pool 2).redeem 10 = .ok (.native 2 900 100 10, 100) := by
    rw [hpool]
    exact Pool.redeem_eq_ok.mpr ⟨by decide, by decide, by decide⟩
  have hheld : w.balance contractAddress = 1000 := World.balance_setBalance ..
  have hother : w.balance 1 = 0 := (World.balance_setBalance ..).trans (World.balance_setPool ..)
  have hmove : w.CanMove ({} : Settings).custodian ({ caller := 1 } : Context).caller 100 := by
    rw [World.CanMove, hheld, hother]
    decide
  have hread : Call.tokenAmount (Payload.write (Call.burn 2 10).pieces) = .ok (2, 10) := Call.tokenAmount_write 2 10
  obtain ⟨m, hperform, _⟩ := burn_orderly hread hopen hredeem hmove false
  have hexecute : execute {} { caller := 1 } (Call.burn 2 10).payload 30000 (watching w false) =
      .ok ⟨30000, Word.bytes 100⟩ m := execute_eq_ok.mpr ⟨.burn, _, hcall, hperform, rfl⟩
  obtain ⟨_, hsuccess⟩ := writes_last {} { caller := 1 } (Call.burn 2 10).payload 30000 w false
  obtain ⟨token, amount, pool, recovered, hargs, hredeemed, _, looks, hlooks, hrequests⟩ :=
    (hsuccess _ m _ hexecute).2.2 hcall.split
  cases hargs.symm.trans hread
  cases hredeemed.symm.trans hredeem
  have hnodup : ((Pool.native 2 900 100 10).writes.map Prod.fst).Nodup := by
    rw [Pool.map_fst_writes]
    exact Slot.nodup_keys (Pool.slots_fit _)
  rw [Journal.settled_of_nodup hnodup, List.append_assoc] at hrequests
  exact ⟨m, looks, hexecute, hlooks, hrequests⟩

end Contract

end BackedToken
