import BackedToken.Proofs.Custody.Solvency

/-! A custodian who creates a token pays itself, and the new pool claims coins that were there before. -/

namespace BackedToken.Custody

open Contract World

variable {settings : Settings} {context : Context} {payload args : Bytes} {limit : Gas} {receipt : Receipt}
  {terms : Terms} {token : Address} {w w' : World}

section Issued

variable (hagrees : w'.Agrees (issue settings context terms w))
include hagrees

theorem balance_of_issued (hmove : w.CanMove context.caller settings.custodian terms.initialBacking) :
    (w'.balance settings.custodian).toNat = (w.balance settings.custodian).toNat +
      if context.caller = settings.custodian then 0 else terms.initialBacking.toNat := by
  rw [hagrees.balance, balance_issue]
  split
  · next hself =>
    rw [balance_transfer, if_pos hself]
    rfl
  · next hother => exact toNat_balance_target hmove hother

variable (hapart : Pool.Apart (newToken context terms w))
include hapart

theorem backing_of_issued : (w'.pool (newToken context terms w)).backing = terms.initialBacking := by
  rw [hagrees.pool, pool_issue hapart, if_pos rfl]
  rfl

theorem locked_of_issued (hc : Creatable context terms w) : w'.locked = w.locked + terms.initialBacking.toNat :=
  (locked_congr hagrees.pool).trans (locked_issue hc hapart)

end Issued

/-- A creation locks its initial backing exactly if the caller is not the custodian, or there is nothing to lock. -/
theorem locked_at_creation (hcreate : execute settings context payload limit w = .ok receipt w')
    (hsplit : Payload.split payload = .ok (Method.create.selector, args)) (hterms : Terms.ofArguments args = .ok terms)
    (houtput : receipt.output = token.word.bytes) :
    ((w'.balance settings.custodian).toNat = (w.balance settings.custodian).toNat + terms.initialBacking.toNat ↔
      context.caller ≠ settings.custodian ∨ terms.initialBacking = 0) ∧
    (context.caller = settings.custodian → w'.balance settings.custodian = w.balance settings.custodian) ∧
    (Pool.Apart token → (w'.pool token).backing = terms.initialBacking ∧
      w'.locked = w.locked + terms.initialBacking.toNat ∧
      (w.surplus settings.custodian ≤ w'.surplus settings.custodian ↔
        context.caller ≠ settings.custodian ∨ terms.initialBacking = 0)) := by
  obtain ⟨rfl, hc, hmove, hagrees⟩ := issued_of_execute hcreate hsplit hterms houtput
  have hbalance := balance_of_issued hagrees hmove
  have hmost : (w'.balance settings.custodian).toNat ≤
      (w.balance settings.custodian).toNat + terms.initialBacking.toNat := by
    rw [hbalance]
    split <;> omega
  have hlocks : (w'.balance settings.custodian).toNat =
      (w.balance settings.custodian).toNat + terms.initialBacking.toNat ↔
        context.caller ≠ settings.custodian ∨ terms.initialBacking = 0 := by
    have hnone : terms.initialBacking = 0 ↔ terms.initialBacking.toNat = 0 := BitVec.toNat_eq
    rw [hbalance, hnone]
    split
    · next hself =>
      rw [or_iff_right (not_not.mpr hself)]
      omega
    · next hother => exact iff_of_true rfl (.inl hother)
  refine ⟨hlocks, ?_, ?_⟩
  · intro hself
    rw [if_pos hself] at hbalance
    exact BitVec.eq_of_toNat_eq hbalance
  · intro hapart
    have hlocked := locked_of_issued hagrees hapart hc
    refine ⟨backing_of_issued hagrees hapart, hlocked, ?_⟩
    rw [← hlocks, World.surplus, World.surplus, hlocked]
    omega

theorem locked_at_creation_sample : ∃ w,
    execute {} { caller := 1 } (Call.create sampleTerms).payload samplePrice sampleStart =
      .ok ⟨samplePrice, sampleToken.word.bytes⟩ w ∧
    (w.balance contractAddress).toNat = 600 ∧ (w.pool sampleToken).backing = 600 ∧
    sampleStart.surplus contractAddress ≤ w.surplus contractAddress := by
  obtain ⟨w, hcreate, _⟩ := sample_created
  obtain ⟨hlocks, _, hpool⟩ := locked_at_creation hcreate (Method.split_selector _ _) sample_decoded rfl
  obtain ⟨hbacking, _, hsurplus⟩ := hpool sample_apart
  have hother : ({ caller := 1 } : Context).caller ≠ ({} : Settings).custodian ∨ sampleTerms.initialBacking = 0 :=
    .inl (by decide)
  exact ⟨w, hcreate, hlocks.mpr hother, hbacking, hsurplus.mpr hother⟩

theorem creation_unlocked : ∃ w,
    execute { custodian := 1 } { caller := 1 } (Call.create sampleTerms).payload samplePrice sampleStart =
      .ok ⟨samplePrice, sampleToken.word.bytes⟩ w ∧
    (w.pool sampleToken).backing = 600 ∧
    (w.balance 1).toNat ≠ (sampleStart.balance 1).toNat + sampleTerms.initialBacking.toNat ∧
    ¬sampleStart.surplus 1 ≤ w.surplus 1 := by
  obtain ⟨w, hcreate, hagrees⟩ := sample_created_for 1
  have hapart : Pool.Apart (newToken { caller := 1 } sampleTerms sampleStart) := sample_token ▸ sample_apart
  have hbacking := backing_of_issued hagrees hapart
  rw [sample_token] at hbacking
  have hlocked := locked_of_issued hagrees hapart sample_creatable
  have hbalance := balance_of_issued hagrees (.inr ⟨by decide, .inl rfl⟩)
  have hsame : (w.balance 1).toNat = (sampleStart.balance 1).toNat := hbalance
  have hclaim : sampleTerms.initialBacking.toNat = 600 := rfl
  refine ⟨w, hcreate, hbacking, ?_, ?_⟩
  · rw [hsame, hclaim]
    omega
  · rw [World.surplus, World.surplus, hsame, hlocked, hclaim]
    omega

end BackedToken.Custody
