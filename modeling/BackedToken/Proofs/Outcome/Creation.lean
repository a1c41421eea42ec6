import BackedToken.Proofs.Custody.Solvency
import BackedToken.Proofs.History.Conservation
import BackedToken.Proofs.Outcome.Checks

namespace BackedToken

open Check Host World

namespace Contract

variable {settings : Settings} {context : Context} {payload args : Bytes} {limit : Gas} {terms : Terms} {w w' : World}

def issueChecks (settings : Settings) (context : Context) (terms : Terms) (w : World) : List Check :=
  let token := newToken context terms w
  let held := w.balance context.caller
  [⟨terms.initialBacking ≤ held, .insufficientBalance terms.initialBacking held⟩,
    ⟨w.codeSize token = 0 ∧ w.word token (Pool.slotKey token 1) = 0, .tokenExists token⟩,
    ⟨terms.initialBacking = 0 ∨ context.caller = settings.custodian ∨
      (w.balance settings.custodian).toNat + terms.initialBacking.toNat < 2 ^ 256,
      .host (.balanceOverflow settings.custodian)⟩]

def creationChecks (settings : Settings) (context : Context) (args : Bytes) (w : World) : List Check :=
  ⟨context.caller ≠ 0, .zeroCaller⟩ ::
    orElse (Terms.ofArguments args) .malformedPayload fun terms =>
      orElse terms.validate id fun _ => issueChecks settings context terms w

theorem requireCover_of_lt {caller : Address} {amount : Word} (h : w.balance caller < amount) :
    requireCover caller amount w = .error (.insufficientBalance amount (w.balance caller)) w := by
  have hread : Attempt.ask (Host.balance caller) w = .ok (w.balance caller) w := rfl
  have hamount : amount ≠ 0 := by
    rintro rfl
    exact BitVec.not_lt_zero h
  rw [requireCover, if_neg hamount, bind_of_ok hread, Attempt.rejectIf_of h]

theorem decides_create : Decides (creationChecks settings context args w) (create settings context args w) := by
  refine .rejectIf Iff.rfl fun _ => .ofPayload fun terms _ => .ofResult fun _ _ => ?_
  refine .step (fun hlow => ⟨w, requireCover_of_lt (BitVec.not_le.mp hlow)⟩)
    (fun hheld => requireCover_eq_ok.mpr ⟨hheld, rfl⟩) fun hheld => .after rfl ?_
  refine .after (Attempt.ask_eq_ok.mpr (isTaken_eq _ w)) (.rejectIf ?_ fun _ => ?_)
  · rw [Bool.not_eq_true, isTaken_eq_false_iff, not_isOpen_iff]
    rfl
  -- the caller is covered, so of the two checks on the move only the custodian's room is left
  refine .after (Attempt.ask_eq_ok.mpr (store_pool _ w)) (.tail (?_ : Decides (moveChecks _ _ _ w) _) (.inr hheld))
  rw [← moveChecks_setPool]
  exact decides_move (.after (Attempt.ask_eq_ok.mpr (store_plan ..)) (.after rfl (.nil _ _)))

structure Creation (settings : Settings) (context : Context) (terms : Terms) (token : Address) (w w' : World) : Prop where
  plan : ∀ i < FeePlan.slots, w'.word token (FeePlan.slotKey token i) = terms.plan.words.getD i 0
  pool : ∀ i < Pool.slots, Pool.slotKey token i ∉ FeePlan.slotKeys token →
    w'.word token (Pool.slotKey token i) = [terms.initialBacking, terms.supply, 0, 0].getD i 0
  elsewhere : ∀ account key, (token = account → key ∉ Pool.slotKeys account ++ FeePlan.slotKeys account) →
    w'.word account key = w.word account key
  balance : ∀ account,
    (w'.balance account).toNat + (if account = context.caller then terms.initialBacking.toNat else 0) =
      (w.balance account).toNat + if account = settings.custodian then terms.initialBacking.toNat else 0
  nonce : ∀ account, w'.nonce account = w.nonce account
  codeSize : ∀ account, w'.codeSize account = w.codeSize account

theorem Creation.of_agrees (hmove : w.CanMove context.caller settings.custodian terms.initialBacking)
    (hagrees : w'.Agrees (issue settings context terms w)) :
    Creation settings context terms (newToken context terms w) w w' where
  plan i hi := (hagrees.word ..).trans (word_setPlan_key _ _ _ hi)
  pool i hi hfree := by
    rw [hagrees.word, issue, word_setPlan_outside _ fun _ => hfree, word_transfer]
    exact word_setPool_key w (newPool context terms w) hi
  elsewhere account key hkey := (hagrees.word ..).trans (word_issue hkey)
  balance account := by
    rw [hagrees.balance, balance_issue]
    exact toNat_balance_transfer hmove account
  nonce account := (hagrees.nonce account).trans ((exchanged_issue hmove).nonce account)
  codeSize account := (hagrees.codeSize account).trans ((exchanged_issue hmove).codeSize account)

theorem creation_outcome (settings : Settings) (context : Context) (limit : Gas) (w : World) {payload args : Bytes}
    (hsplit : Payload.split payload = .ok (Method.create.selector, args)) :
    let checks := admissionChecks settings context payload limit .create ++ creationChecks settings context args w
    ((∃ receipt w', execute settings context payload limit w = .ok receipt w') ↔ ∀ check ∈ checks, check.met) ∧
    (∀ rejection w', execute settings context payload limit w = .error rejection w' ↔
      Refuses checks rejection ∧ w' = w) ∧
    ∀ receipt w', execute settings context payload limit w = .ok receipt w' →
      ∃ terms, Terms.ofArguments args = .ok terms ∧
        receipt = ⟨settings.tariff.required payload, (newToken context terms w).word.bytes⟩ ∧
        Creation settings context terms (newToken context terms w) w w' := by
  intro checks
  have hdecides : Decides checks (execute settings context payload limit w) :=
    decides_execute hsplit (decides_create.atomically (matches_create settings context args w))
  refine ⟨hdecides.ok_iff, fun rejection w' => execute_eq_error hdecides, fun receipt w' hexecute => ?_⟩
  obtain ⟨terms, hargs, hc, hmove, houtput, hagrees⟩ := created_of_execute hexecute hsplit
  refine ⟨terms, hargs, ?_, .of_agrees hmove hagrees⟩
  rw [← houtput, ← gasUsed_of_execute hexecute hsplit]

theorem creation_outcome_sample :
    let w := Custody.sampleStart.setBalance contractAddress (BitVec.allOnes 256)
    execute {} { caller := 1 } (Call.create Custody.sampleTerms).payload Custody.samplePrice w =
      .error (.host (.balanceOverflow contractAddress)) w := by
  intro w
  have hsplit : Payload.split (Call.create Custody.sampleTerms).payload =
      .ok (Method.create.selector, Payload.write Custody.sampleTerms.pieces) := Method.split_selector _ _
  have hprice : (Settings.tariff {}).required (Call.create Custody.sampleTerms).payload = Custody.samplePrice :=
    required_of_split hsplit
  have hvalid : Custody.sampleTerms.validate = .ok () := by decide
  have hfull : Refuses (issueChecks {} { caller := 1 } Custody.sampleTerms w) (.host (.balanceOverflow contractAddress)) :=
    .there (by decide) (.there ⟨rfl, rfl⟩ (.here (by decide)))
  refine ((creation_outcome {} { caller := 1 } Custody.samplePrice w hsplit).2.1 _ w).mpr ⟨?_, rfl⟩
  rw [creationChecks, Custody.sample_decoded, orElse, hvalid, orElse]
  exact .there (UInt64.le_of_eq hprice) (.there rfl (.there (fun _ => rfl) (.there (by decide) hfull)))

end Contract

end BackedToken
