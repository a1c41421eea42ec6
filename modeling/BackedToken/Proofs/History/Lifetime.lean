import BackedToken.Proofs.History.Events

namespace BackedToken.World

open Contract
open Custody (samplePrice sampleStart sampleTerms sampleToken)

variable {settings : Settings} {context : Context} {payload args : Bytes} {limit : Gas} {receipt : Receipt}
  {terms : Terms} {token : Address} {w w' : World}

theorem created (hcreate : execute settings context payload limit w = .ok receipt w')
    (hsplit : Payload.split payload = .ok (Method.create.selector, args)) (hterms : Terms.ofArguments args = .ok terms)
    (houtput : receipt.output = token.word.bytes) (hapart : Pool.Apart token) :
    w'.pool token = .native token terms.initialBacking terms.supply 0 ∧ (w'.pool token).isOpen = true ∧
      w'.plan token = terms.plan := by
  obtain ⟨rfl, hc, _, hagrees⟩ := issued_of_execute hcreate hsplit hterms houtput
  have hpool : w'.pool (newToken context terms w) = newPool context terms w := by
    rw [hagrees.pool, pool_issue hapart, if_pos rfl]
  refine ⟨hpool, ?_, ?_⟩
  · rw [hpool]
    exact decide_eq_true (Terms.supply_ne_zero hc.valid)
  · rw [hagrees.plan, plan_issue, if_pos rfl]

theorem token_life {w₀ w₁ : World} (hcreate : execute settings context payload limit w₀ = .ok receipt w₁)
    (hsplit : Payload.split payload = .ok (Method.create.selector, args)) (hterms : Terms.ofArguments args = .ok terms)
    (houtput : receipt.output = token.word.bytes) (hapart : Pool.Apart token) (events : List Event) :
    let w := w₁.after settings events
    ∃ pool, Pool.find? token w = .ok (some pool) w ∧ pool.supply = terms.supply ∧ pool.asset = nativeCoin ∧
      pool.burned ≤ pool.supply ∧ FeePlan.load token w = .ok terms.plan w ∧
      ∀ event, ¬event.Creates (w.step settings event).1 token ∧
        ∃ next, Pool.find? token (w.step settings event).2 = .ok (some next) (w.step settings event).2 ∧
          pool.burned ≤ next.burned := by
  intro w
  obtain ⟨hpool, hopen, hplan⟩ := created hcreate hsplit hterms houtput hapart
  have hissued : (w.pool token).Issued terms.supply := by
    have hchanges : Relation.ReflTransGen Pool.Change (w₁.pool token) (w.pool token) := changes_after hopen events
    rw [hpool] at hchanges
    exact (Pool.issued_native ..).changes hchanges
  have hopen' : (w.pool token).isOpen = true := isOpen_after hopen events
  refine ⟨_, find_of_isOpen hopen', hissued.supply, hissued.asset, hissued.supply ▸ hissued.burned, ?_, ?_⟩
  · rw [(Host.displays_world w).plan, plan_after hopen hapart, hplan]
  · intro event
    have hstepped := w.stepped settings event
    have hchange := hstepped.change hopen'
    exact ⟨hstepped.not_creates hopen', _, find_of_isOpen (hchange.isOpen.trans hopen'), hchange.burned_le⟩

theorem token_life_sample :
    let replay : Event := .call { caller := 1 } (Call.create sampleTerms).payload samplePrice
    ∃ w₁, execute {} { caller := 1 } (Call.create sampleTerms).payload samplePrice sampleStart =
        .ok ⟨samplePrice, sampleToken.word.bytes⟩ w₁ ∧
      let w := w₁.after {} [.credit sampleToken 50, .setNonce 1 0]
      ∃ pool, Pool.find? sampleToken w = .ok (some pool) w ∧ pool.supply = 100 ∧
        ¬replay.Creates (w.step {} replay).1 sampleToken := by
  intro replay
  obtain ⟨w₁, hcreate, _⟩ := Custody.sample_created
  obtain ⟨pool, hfind, hsupply, _, _, _, hnext⟩ := token_life hcreate (Method.split_selector _ _)
    Custody.sample_decoded rfl Custody.sample_apart [.credit sampleToken 50, .setNonce 1 0]
  exact ⟨w₁, hcreate, pool, hfind, hsupply, (hnext replay).1⟩

end BackedToken.World
