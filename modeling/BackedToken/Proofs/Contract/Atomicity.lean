import BackedToken.Proofs.Contract.Admission
import BackedToken.Proofs.Contract.Operations
import BackedToken.Proofs.Host.Overlay
import BackedToken.Proofs.Payload.Blocks

/-! What an operation wrote before it failed is in the journal only, and a commit over a world does not fail. -/

namespace BackedToken

open Host (Matches Quiet Undone Displays)

namespace Journal

variable {α : Type} {w v w' : World} {x : Attempt (Journal World) α} {y : Attempt World α} {a : α}
  {rejection : Rejection}

theorem Shows.displays {j : Journal World} (h : Shows w j v) : Displays j v where
  read := h.reads_word
  record _ := rfl

theorem atomically_of_ok (h : Matches (Shows w) x y) (hy : y w = .ok a v) :
    ∃ w', atomically x w = .ok a w' ∧ w'.Agrees v := by
  obtain ⟨j, hx, hshows⟩ := h.of_ok (.fresh w) hy
  obtain ⟨w', hcommit, hagrees⟩ := hshows.commits
  exact ⟨w', by simp only [atomically, hx, hcommit], hagrees⟩

theorem atomically_of_error (h : Matches (Shows w) x y) (hy : y w = .error rejection v) :
    (∃ j, x { host := w } = .error rejection j ∧ Shows w j v) ∧ atomically x w = .error rejection w := by
  obtain ⟨j, hx, hshows⟩ := h.of_error (.fresh w) hy
  exact ⟨⟨j, hx, hshows⟩, by simp only [atomically, hx, hshows.host]⟩

theorem atomically_eq_ok (h : Matches (Shows w) x y) (hx : atomically x w = .ok a w') :
    ∃ v, y w = .ok a v ∧ w'.Agrees v := by
  cases hy : y w with
  | ok b v =>
    obtain ⟨w₁, hok, hagrees⟩ := atomically_of_ok h hy
    rw [hok] at hx
    cases hx
    exact ⟨v, rfl, hagrees⟩
  | error e v =>
    rw [(atomically_of_error h hy).2] at hx
    cases hx

theorem commits_after (h : Matches (Shows w) x y) {j : Journal World} (hx : x { host := w } = .ok a j) :
    ∃ w', j.commit = .ok () w' := by
  obtain ⟨v, _, hshows⟩ := h.to_ok (.fresh w) hx
  obtain ⟨w', hcommit, _⟩ := hshows.commits
  exact ⟨w', hcommit⟩

theorem undone_atomically (h : ∀ w, Matches (Shows w) x y) : Undone (atomically x) := by
  intro w e w' hx
  cases hy : y w with
  | ok b v =>
    obtain ⟨_, hok, _⟩ := atomically_of_ok (h w) hy
    rw [hok] at hx
    cases hx
  | error e' v =>
    rw [(atomically_of_error (h w) hy).2] at hx
    cases hx
    rfl

end Journal

namespace Contract

open Journal (Shows answerAlike)

variable (settings : Settings) (context : Context) (args : Bytes)

theorem matches_create (w : World) :
    Matches (Shows w) (create settings context args) (create settings context args) :=
  (answerAlike w).create settings context args

theorem matches_burn (w : World) : Matches (Shows w) (burn settings context args) (burn settings context args) :=
  (answerAlike w).burn settings context args

theorem quiet_view {α : Type} {x : Attempt (Frozen World) α} (h : Quiet x) : Quiet (Frozen.view x) :=
  h.within fun _ => rfl

theorem undone_perform (m : Method) : Undone (perform settings context args m : Attempt World Bytes) := by
  cases m with
  | create => exact Journal.undone_atomically (matches_create settings context args)
  | backing => exact (quiet_view (Host.quiet_backing Host.displays_frozen args)).undone
  | burn => exact Journal.undone_atomically (matches_burn settings context args)
  | floorPrice => exact (quiet_view (Host.quiet_floorPrice Host.displays_frozen args)).undone

theorem quiet_methodOf {σ : Type} (selector : Bytes) : Quiet (methodOf selector : Attempt σ Method) := by
  rw [methodOf]
  cases Method.ofSelector? selector with
  | some m => exact .pure m
  | none => exact .throw _

theorem undone_handle (payload : Bytes) (limit : Gas) :
    Undone (handle settings context payload limit : Attempt World Receipt) := by
  refine (Attempt.quiet_ofPayload _).undone_bind fun (selector, args) => ?_
  refine (quiet_methodOf selector).undone_bind fun m => ?_
  refine (Attempt.quiet_rejectIf _ _).undone_bind fun _ => (Attempt.quiet_rejectIf _ _).undone_bind fun _ => ?_
  exact (Attempt.quiet_rejectIf _ _).undone_bind fun _ => (undone_perform settings context args m).bind_pure _

theorem undone_execute (payload : Bytes) (limit : Gas) :
    Undone (execute settings context payload limit : Attempt World Receipt) := by
  intro w e w' h
  rw [execute] at h
  split at h
  · cases h
  · next hh =>
    cases h
    exact undone_handle settings context payload limit w _ _ hh

theorem undone_credit (token : Address) (amount : Word) : Undone (credit token amount : Attempt World Pool) := by
  refine (Host.quiet_existing Host.displays_world token).undone_bind fun _ => ?_
  refine (Attempt.quiet_ofResult _).undone_bind fun _ w e w' h => ?_
  cases h

variable {settings context args} {w : World}

theorem create_fails_late {terms : Terms} (hargs : Terms.ofArguments args = .ok terms)
    (hc : Creatable context terms w)
    (hmove : ¬w.CanMove context.caller settings.custodian terms.initialBacking) :
    (∃ j, create settings context args ({ host := w } : Journal World) =
        .error (.host (.balanceOverflow settings.custodian)) j ∧
      Pool.load (newToken context terms w) j = .ok (newPool context terms w) j) ∧
    perform settings context args .create w = .error (.host (.balanceOverflow settings.custodian)) w := by
  obtain ⟨v, hfail, hword⟩ := World.move_of_not_canMove (mt (World.canMove_setPool _).mp hmove)
  -- the caller was found to be covered, so only the custodian's account can be what is full
  have hfault : (w.setPool (newPool context terms w)).moveFault context.caller settings.custodian terms.initialBacking =
      .balanceOverflow settings.custodian := by
    rw [World.moveFault, World.balance_setPool, if_neg (BitVec.not_lt.mpr hc.covered)]
  have hdirect : create settings context args w = .error (.host (.balanceOverflow settings.custodian)) v := by
    rw [create_of_creatable hargs hc, ← hfault]
    exact Host.bind_of_error (Host.adapt_of_error hfail)
  obtain ⟨⟨j, hj, hshows⟩, hperform⟩ := Journal.atomically_of_error (matches_create settings context args w) hdirect
  refine ⟨⟨j, hj, ?_⟩, hperform⟩
  rw [hshows.displays.load, World.pool_congr hword, newPool, World.pool_setPool_native_self]

theorem burn_fails_late {token : Address} {amount recovered : Word} {pool : Pool}
    (hargs : Call.tokenAmount args = .ok (token, amount)) (hopen : (w.pool token).isOpen = true)
    (hredeem : (w.pool token).redeem amount = .ok (pool, recovered))
    (hmove : ¬w.CanMove settings.custodian context.caller recovered) :
    (∃ j, burn settings context args ({ host := w } : Journal World) =
        .error (.host (w.moveFault settings.custodian context.caller recovered)) j ∧
      Pool.load token j = .ok pool j) ∧
    perform settings context args .burn w =
      .error (.host (w.moveFault settings.custodian context.caller recovered)) w := by
  obtain ⟨v, hfail, hword⟩ := World.move_of_not_canMove (mt (World.canMove_setPool pool).mp hmove)
  have hdirect : burn settings context args w =
      .error (.host (w.moveFault settings.custodian context.caller recovered)) v := by
    rw [burn_of_redeem hargs hopen hredeem]
    rw [World.moveFault, World.balance_setPool] at hfail
    exact Host.bind_of_error (Host.adapt_of_error hfail)
  obtain ⟨⟨j, hj, hshows⟩, hperform⟩ := Journal.atomically_of_error (matches_burn settings context args w) hdirect
  refine ⟨⟨j, hj, ?_⟩, hperform⟩
  obtain ⟨_, _, rfl⟩ := Pool.redeem_eq_ok.mp hredeem
  rw [hshows.displays.load, World.pool_congr hword]
  exact congrArg (EStateM.Result.ok · j) (World.pool_setPool_native_self ..)

/-- A rejected call leaves the world, also when coins cannot be moved after the journal holds the new pool. -/
theorem rejected_call_undone (settings : Settings) (context : Context) (payload : Bytes) (limit : Gas) (w : World) :
    (∀ rejection w', execute settings context payload limit w = .error rejection w' → w' = w) ∧
    (∀ failure w', run settings context payload limit w = .error failure w' → w' = w) ∧
    (∀ args terms, Admitted settings context payload limit .create args → Terms.ofArguments args = .ok terms →
      Creatable context terms w → ¬w.CanMove context.caller settings.custodian terms.initialBacking →
      (∃ j, create settings context args ({ host := w } : Journal World) =
          .error (.host (.balanceOverflow settings.custodian)) j ∧
        Pool.load (newToken context terms w) j = .ok (newPool context terms w) j) ∧
      execute settings context payload limit w = .error (.host (.balanceOverflow settings.custodian)) w) ∧
    (∀ args token amount pool recovered, Admitted settings context payload limit .burn args →
      Call.tokenAmount args = .ok (token, amount) → (w.pool token).isOpen = true →
      (w.pool token).redeem amount = .ok (pool, recovered) →
      ¬w.CanMove settings.custodian context.caller recovered →
      (∃ j, burn settings context args ({ host := w } : Journal World) =
          .error (.host (w.moveFault settings.custodian context.caller recovered)) j ∧
        Pool.load token j = .ok pool j) ∧
      execute settings context payload limit w =
        .error (.host (w.moveFault settings.custodian context.caller recovered)) w) ∧
    ∀ args out j, (create settings context args ({ host := w } : Journal World) = .ok out j ∨
      burn settings context args ({ host := w } : Journal World) = .ok out j) → ∃ w', j.commit = .ok () w' := by
  have hundone : Undone (execute settings context payload limit : Attempt World Receipt) :=
    undone_execute settings context payload limit
  refine ⟨hundone w, hundone.adapt _ w, ?_, ?_, ?_⟩
  · intro args terms hcall hargs hc hmove
    obtain ⟨hjournal, hperform⟩ := create_fails_late hargs hc hmove
    exact ⟨hjournal, execute_of_admitted_error hcall hperform⟩
  · intro args token amount pool recovered hcall hargs hopen hredeem hmove
    obtain ⟨hjournal, hperform⟩ := burn_fails_late hargs hopen hredeem hmove
    exact ⟨hjournal, execute_of_admitted_error hcall hperform⟩
  · rintro args out j (h | h)
    · exact Journal.commits_after (matches_create settings context args w) h
    · exact Journal.commits_after (matches_burn settings context args w) h

theorem uncovered_burn_undone :
    let w := World.setPool {} (.native 2 1000 100 0)
    execute {} { caller := 1 } (Call.burn 2 10).payload 30000 w =
      .error (.host (.balanceInsufficient contractAddress 100 0)) w := by
  intro w
  have hpool : w.pool 2 = .native 2 1000 100 0 := World.pool_setPool_native_self ..
  have hbalance : ∀ account, w.balance account = 0 := fun _ => World.balance_setPool ..
  have hcall : Admitted {} { caller := 1 } (Call.burn 2 10).payload 30000 .burn
      (Payload.write (Call.burn 2 10).pieces) := ⟨Method.split_selector _ _, by decide, rfl, fun _ => rfl⟩
  have hredeem : (w.pool 2).redeem 10 = .ok (.native 2 900 100 10, 100) := by
    rw [hpool]
    exact Pool.redeem_eq_ok.mpr ⟨by decide, by decide, by decide⟩
  have hmove : ¬w.CanMove contractAddress 1 100 := by
    rw [World.CanMove, hbalance]
    decide
  have hopen : (w.pool 2).isOpen = true := by
    rw [hpool]
    decide
  obtain ⟨_, _, _, hburn, _⟩ := rejected_call_undone {} { caller := 1 } (Call.burn 2 10).payload 30000 w
  have hfail := (hburn _ 2 10 _ 100 hcall (Call.tokenAmount_write 2 10) hopen hredeem hmove).2
  rw [World.moveFault, hbalance] at hfail
  exact hfail

end Contract

end BackedToken
