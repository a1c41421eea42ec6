import BackedToken.Proofs.Contract.Atomicity

/-! What holds after a creation and after a burn holds after every accepted call. -/

namespace BackedToken

namespace Contract

open Host (Matches Quiet)
open Journal (Shows)

inductive Effect (settings : Settings) (context : Context) (payload : Bytes) (w : World) : Bytes → World → Prop
  | create {args : Bytes} {terms : Terms} {w' : World} (split : Payload.split payload = .ok (Method.create.selector, args))
      (decoded : Terms.ofArguments args = .ok terms) (creatable : Creatable context terms w)
      (movable : w.CanMove context.caller settings.custodian terms.initialBacking)
      (agrees : w'.Agrees (issue settings context terms w)) :
      Effect settings context payload w (newToken context terms w).word.bytes w'
  | burn {args : Bytes} {token : Address} {amount recovered : Word} {pool : Pool} {w' : World}
      (split : Payload.split payload = .ok (Method.burn.selector, args))
      (decoded : Call.tokenAmount args = .ok (token, amount)) (isOpen : (w.pool token).isOpen = true)
      (redeemed : (w.pool token).redeem amount = .ok (pool, recovered))
      (movable : w.CanMove settings.custodian context.caller recovered)
      (agrees : w'.Agrees (payOut settings context pool recovered w)) :
      Effect settings context payload w recovered.bytes w'
  | query {m : Method} {args out : Bytes} (split : Payload.split payload = .ok (m.selector, args))
      (readOnly : m.mutates = false) : Effect settings context payload w out w

variable {settings : Settings} {context : Context} {payload args out : Bytes} {limit : Gas} {receipt : Receipt}
  {w w' : World}

theorem perform_create_eq_ok (h : perform settings context args .create w = .ok out w') :
    ∃ terms, Terms.ofArguments args = .ok terms ∧ Creatable context terms w ∧
      w.CanMove context.caller settings.custodian terms.initialBacking ∧
      out = (newToken context terms w).word.bytes ∧ w'.Agrees (issue settings context terms w) := by
  obtain ⟨v, hdirect, hagrees⟩ := Journal.atomically_eq_ok (matches_create settings context args w) h
  obtain ⟨terms, hargs, hc, hmove, hout, rfl⟩ := create_eq_ok.mp hdirect
  exact ⟨terms, hargs, hc, hmove, hout, hagrees⟩

theorem created_of_execute (h : execute settings context payload limit w = .ok receipt w')
    (hsplit : Payload.split payload = .ok (Method.create.selector, args)) :
    ∃ terms, Terms.ofArguments args = .ok terms ∧ Creatable context terms w ∧
      w.CanMove context.caller settings.custodian terms.initialBacking ∧
      receipt.output = (newToken context terms w).word.bytes ∧ w'.Agrees (issue settings context terms w) :=
  perform_create_eq_ok (perform_of_execute h hsplit).2

theorem issued_of_execute {terms : Terms} {token : Address}
    (h : execute settings context payload limit w = .ok receipt w')
    (hsplit : Payload.split payload = .ok (Method.create.selector, args)) (hterms : Terms.ofArguments args = .ok terms)
    (houtput : receipt.output = token.word.bytes) : newToken context terms w = token ∧ Creatable context terms w ∧
      w.CanMove context.caller settings.custodian terms.initialBacking ∧ w'.Agrees (issue settings context terms w) := by
  obtain ⟨decoded, hdecoded, hc, hmove, hout, hagrees⟩ := created_of_execute h hsplit
  obtain rfl : decoded = terms := Except.ok.inj (hdecoded.symm.trans hterms)
  exact ⟨Address.eq_of_word_bytes (hout.symm.trans houtput), hc, hmove, hagrees⟩

theorem execute_create_of {terms : Terms} (hcall : Admitted settings context payload limit .create args)
    (hargs : Terms.ofArguments args = .ok terms) (hc : Creatable context terms w)
    (hmove : w.CanMove context.caller settings.custodian terms.initialBacking) :
    ∃ w', execute settings context payload limit w =
        .ok ⟨settings.tariff.cost payload.length .create, (newToken context terms w).word.bytes⟩ w' ∧
      w'.Agrees (issue settings context terms w) := by
  have hdirect := create_eq_ok.mpr ⟨terms, hargs, hc, hmove, rfl, rfl⟩
  obtain ⟨w', hperform, hagrees⟩ := Journal.atomically_of_ok (matches_create settings context args w) hdirect
  exact ⟨w', execute_eq_ok.mpr ⟨.create, args, hcall, hperform, rfl⟩, hagrees⟩

theorem perform_burn_eq_ok (h : perform settings context args .burn w = .ok out w') :
    ∃ token amount pool recovered, Call.tokenAmount args = .ok (token, amount) ∧ (w.pool token).isOpen = true ∧
      (w.pool token).redeem amount = .ok (pool, recovered) ∧ w.CanMove settings.custodian context.caller recovered ∧
      out = recovered.bytes ∧ w'.Agrees (payOut settings context pool recovered w) := by
  obtain ⟨v, hdirect, hagrees⟩ := Journal.atomically_eq_ok (matches_burn settings context args w) h
  obtain ⟨token, amount, pool, recovered, hargs, hopen, hredeem, hmove, hout, rfl⟩ := burn_eq_ok.mp hdirect
  exact ⟨token, amount, pool, recovered, hargs, hopen, hredeem, hmove, hout, hagrees⟩

theorem burned_of_execute {token : Address} {amount : Word}
    (h : execute settings context payload limit w = .ok receipt w')
    (hsplit : Payload.split payload = .ok (Method.burn.selector, args))
    (hargs : Call.tokenAmount args = .ok (token, amount)) :
    ∃ pool recovered, (w.pool token).isOpen = true ∧ (w.pool token).redeem amount = .ok (pool, recovered) ∧
      w.CanMove settings.custodian context.caller recovered ∧ receipt.output = recovered.bytes ∧
      w'.Agrees (payOut settings context pool recovered w) := by
  obtain ⟨_, _, pool, recovered, hdecoded, hopen, hredeem, hmove, houtput, hagrees⟩ :=
    perform_burn_eq_ok (perform_of_execute h hsplit).2
  obtain ⟨rfl, rfl⟩ : token = _ ∧ amount = _ := by simpa using Except.ok.inj (hargs.symm.trans hdecoded)
  exact ⟨pool, recovered, hopen, hredeem, hmove, houtput, hagrees⟩

theorem execute_burn_of {token : Address} {amount recovered : Word} {pool : Pool}
    (hcall : Admitted settings context payload limit .burn args)
    (hargs : Call.tokenAmount args = .ok (token, amount)) (hopen : (w.pool token).isOpen = true)
    (hredeem : (w.pool token).redeem amount = .ok (pool, recovered))
    (hmove : w.CanMove settings.custodian context.caller recovered) :
    ∃ w', execute settings context payload limit w =
        .ok ⟨settings.tariff.cost payload.length .burn, recovered.bytes⟩ w' ∧
      w'.Agrees (payOut settings context pool recovered w) := by
  have hdirect := burn_eq_ok.mpr ⟨token, amount, pool, recovered, hargs, hopen, hredeem, hmove, rfl, rfl⟩
  obtain ⟨w', hperform, hagrees⟩ := Journal.atomically_of_ok (matches_burn settings context args w) hdirect
  exact ⟨w', execute_eq_ok.mpr ⟨.burn, args, hcall, hperform, rfl⟩, hagrees⟩

theorem execute_burn_of_error {token : Address} {amount : Word} {rejection : Rejection}
    (hcall : Admitted settings context payload limit .burn args) (hargs : Call.tokenAmount args = .ok (token, amount))
    (hopen : (w.pool token).isOpen = true) (hredeem : (w.pool token).redeem amount = .error rejection) :
    execute settings context payload limit w = .error rejection w := by
  have hdirect : burn settings context args w = .error rejection w := burn_of_redeem_error hargs hopen hredeem
  exact execute_of_admitted_error hcall (Journal.atomically_of_error (matches_burn settings context args w) hdirect).2

theorem view_ofResult {α : Type} {x : Attempt (Frozen World) α} {result : Except Rejection α}
    (h : x ⟨w⟩ = Attempt.ofResult result ⟨w⟩) : Frozen.view x w = Attempt.ofResult result w := by
  rw [Frozen.view, Host.within, h]
  cases result <;> rfl

theorem execute_ofResult {m : Method} {result : Except Rejection Bytes}
    (hcall : Admitted settings context payload limit m args)
    (h : perform settings context args m w = Attempt.ofResult result w) :
    execute settings context payload limit w =
      Attempt.ofResult (result.map fun out => ⟨settings.tariff.cost payload.length m, out⟩) w := by
  cases result with
  | ok out => exact execute_eq_ok.mpr ⟨m, args, hcall, h, rfl⟩
  | error rejection => exact execute_of_admitted_error hcall h

theorem execute_backing_eq {token : Address} {amount : Word}
    (hcall : Admitted settings context payload limit .backing args)
    (hargs : Call.tokenAmount args = .ok (token, amount)) : execute settings context payload limit w =
      Attempt.ofResult ((w.quote token amount).map fun worth => ⟨settings.tariff.required payload, worth.bytes⟩) w := by
  have hview := view_ofResult ((Host.displays_frozen ⟨w⟩).backing_eq token hargs)
  rw [execute_ofResult hcall hview, required_of_split hcall.split]
  cases w.quote token amount <;> rfl

theorem execute_floorPrice_eq {token : Address} (hcall : Admitted settings context payload limit .floorPrice args)
    (hargs : Call.oneAddress args = .ok token) : execute settings context payload limit w =
      Attempt.ofResult ((w.quote token coinValue).map fun price => ⟨settings.tariff.required payload, price.bytes⟩) w := by
  have hview := view_ofResult ((Host.displays_frozen ⟨w⟩).floorPrice_eq token hargs)
  rw [execute_ofResult hcall hview, required_of_split hcall.split]
  cases w.quote token coinValue <;> rfl

theorem execute_backing_of {token : Address} {amount worth : Word}
    (hcall : Admitted settings context payload limit .backing args) (hargs : Call.tokenAmount args = .ok (token, amount))
    (hopen : (w.pool token).isOpen = true) (hworth : (w.pool token).backingFor amount = .ok worth) :
    execute settings context payload limit w =
      .ok ⟨settings.tariff.cost payload.length .backing, worth.bytes⟩ w := by
  rw [execute_backing_eq hcall hargs, World.quote, if_pos hopen, hworth, required_of_split hcall.split]
  rfl

theorem execute_floorPrice_of {token : Address} {price : Word}
    (hcall : Admitted settings context payload limit .floorPrice args) (hargs : Call.oneAddress args = .ok token)
    (hopen : (w.pool token).isOpen = true) (hprice : (w.pool token).floorPrice = .ok price) :
    execute settings context payload limit w =
      .ok ⟨settings.tariff.cost payload.length .floorPrice, price.bytes⟩ w := by
  rw [execute_floorPrice_eq hcall hargs, World.quote, if_pos hopen, ← Pool.floorPrice_eq_backingFor, hprice,
    required_of_split hcall.split]
  rfl

theorem effect_of_execute (h : execute settings context payload limit w = .ok receipt w') :
    Effect settings context payload w receipt.output w' := by
  obtain ⟨m, args, hcall, hperform, _⟩ := execute_eq_ok.mp h
  cases m with
  | create =>
    obtain ⟨terms, hargs, hc, hmove, hout, hagrees⟩ := perform_create_eq_ok hperform
    exact hout ▸ .create hcall.split hargs hc hmove hagrees
  | backing =>
    have hquiet : Quiet (Frozen.view (backing args) : Attempt World Bytes) :=
      quiet_view (Host.quiet_backing Host.displays_frozen args)
    exact hquiet.ok_state hperform ▸ .query hcall.split rfl
  | burn =>
    obtain ⟨token, amount, pool, recovered, hargs, hopen, hredeem, hmove, hout, hagrees⟩ := perform_burn_eq_ok hperform
    exact hout ▸ .burn hcall.split hargs hopen hredeem hmove hagrees
  | floorPrice =>
    have hquiet : Quiet (Frozen.view (floorPrice args) : Attempt World Bytes) :=
      quiet_view (Host.quiet_floorPrice Host.displays_frozen args)
    exact hquiet.ok_state hperform ▸ .query hcall.split rfl

end Contract

end BackedToken
