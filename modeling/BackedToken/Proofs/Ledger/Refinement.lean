import BackedToken.Proofs.History.Lifetime
import BackedToken.Proofs.Ledger.Operations

/-! Every event is answered as on a ledger, and what a world tells afterwards is what is on record. -/

namespace BackedToken.Ledger

open Contract Host World Attempt
open Custody (samplePrice sampleStart sampleTerms sampleToken)
open Journal (Shows)

variable {l : Ledger} {w : World} {α β : Type}

theorem answers_view {x : Attempt (Frozen World) α} {m : Except Rejection α} (h : Answers (Read ⟨w⟩ id) (x ⟨w⟩) m) :
    Answers (Read w id) (Frozen.view x w) m := by
  rw [Frozen.view, Host.within]
  generalize x ⟨w⟩ = outcome at h
  cases h with
  | ok related =>
    obtain ⟨rfl, rfl⟩ := related
    exact .ok ⟨rfl, rfl⟩
  | error => exact .error

theorem answers_atomically {apart : α → Prop} {x : Attempt (Journal World) α} {y : Attempt World α}
    {m : Except Rejection (α × Ledger)} (hxy : Matches (Shows w) x y) (h : Answers (Reached apart) (y w) m) :
    Answers (Reached apart) (Journal.atomically x w) m := by
  generalize hy : y w = outcome at h
  cases h with
  | ok related =>
    obtain ⟨w', hok, hagrees⟩ := Journal.atomically_of_ok hxy hy
    rw [hok]
    exact .ok ⟨related.1, fun hapart => (related.2 hapart).agrees hagrees⟩
  | error =>
    rw [(Journal.atomically_of_error hxy hy).2]
    exact .error

theorem reached_or_refused {apart : α → Prop} {x : Attempt World α} {m : Except Rejection (α × Ledger)} (hx : Undone x)
    (h : Answers (Reached apart) (x w) m) :
    (∃ a w' l', x w = .ok a w' ∧ m = .ok (a, l') ∧ (apart a → l'.Mirrors w')) ∨
      ∃ rejection, x w = .error rejection w ∧ m = .error rejection := by
  generalize hw : x w = outcome at h
  cases h with
  | @ok a w' expected related =>
    obtain ⟨_, l'⟩ := expected
    obtain ⟨rfl, hmirrors⟩ := related
    exact .inl ⟨a, w', l', rfl, rfl, hmirrors⟩
  | @error rejection =>
    obtain rfl := hx _ _ _ hw
    exact .inr ⟨rejection, rfl, rfl⟩

structure Told (l : Ledger) (w : World) : Prop where
  pool : ∀ token, Pool.find? token w = .ok ((l.record? token).map (Record.pool · token)) w
  plan : ∀ token, FeePlan.load token w = .ok (l.plan token) w
  balance : ∀ account, Host.balance account w = .ok (l.balance account) w
  nonce : ∀ account, Host.nonce account w = .ok (l.nonce account) w
  codeSize : ∀ account, Host.codeSize account w = .ok (l.codeSize account) w

theorem answers_methodOf {σ : Type} (selector : Bytes) (s : σ) :
    Answers (Read s id) (methodOf selector s) (named selector) := by
  rw [methodOf, named]
  cases Method.ofSelector? selector with
  | some m => exact .ok ⟨rfl, rfl⟩
  | none => exact .error

theorem named_eq_ok {selector : Bytes} {m : Method} : named selector = .ok m ↔ selector = m.selector := by
  rw [named, ← Method.ofSelector?_eq_some_iff]
  cases Method.ofSelector? selector with
  | some found => rw [Except.ok.injEq, Option.some.injEq]
  | none => exact iff_of_false nofun nofun

theorem decoded_eq_ok {result : Except Payload.Fault α} {a : α} : decoded result = .ok a ↔ result = .ok a := by
  cases result with
  | ok b => rw [decoded, Except.mapError, Except.ok.injEq, Except.ok.injEq]
  | error fault => exact iff_of_false nofun nofun

namespace Mirrors

variable (h : l.Mirrors w) (settings : Settings) (context : Context)
include h

theorem perform (args : Bytes) (m : Method) :
    Answers (Reached fun output => m = .create → NamesApart output) (Contract.perform settings context args m w)
      (l.perform settings context args m) := by
  cases m with
  | create =>
    exact answers_atomically (matches_create settings context args w) (h.create (fun _ hapart => hapart rfl) ..)
  | backing =>
    apply (answers_view (h.backing (displays_frozen ⟨w⟩) args)).map
    rintro _ _ output ⟨rfl, rfl⟩
    exact ⟨rfl, fun _ => h⟩
  | burn => exact answers_atomically (matches_burn settings context args w) (h.burn ..)
  | floorPrice =>
    apply (answers_view (h.floorPrice (displays_frozen ⟨w⟩) args)).map
    rintro _ _ output ⟨rfl, rfl⟩
    exact ⟨rfl, fun _ => h⟩

theorem handle (payload : Bytes) (limit : Gas) :
    Answers (Reached fun receipt => ∀ token, Custody.Creates payload receipt token → Pool.Apart token)
      (Contract.handle settings context payload limit w) (l.execute settings context payload limit) := by
  apply (answers_ofPayload _ w).read
  rintro ⟨selector, args⟩ hsplit
  apply (answers_methodOf selector w).read
  intro m hm
  apply (answers_rejectIf Iff.rfl _ w).read
  intro _ _
  apply (answers_rejectIf Iff.rfl _ w).read
  intro _ _
  apply (answers_rejectIf Iff.rfl _ w).read
  intro _ _
  apply (h.perform settings context args m).bind
  rintro output w' ⟨_, l'⟩ ⟨rfl, hmirrors⟩ _
  refine .ok ⟨rfl, fun hapart => hmirrors ?_⟩
  rintro rfl token houtput
  exact hapart token ⟨args, named_eq_ok.mp hm ▸ decoded_eq_ok.mp hsplit, houtput⟩

theorem execute (payload : Bytes) (limit : Gas) :
    Answers (Reached fun receipt => ∀ token, Custody.Creates payload receipt token → Pool.Apart token)
      (Contract.execute settings context payload limit w) (l.execute settings context payload limit) := by
  have hhandle := h.handle settings context payload limit
  rw [Contract.execute]
  generalize Contract.handle settings context payload limit w = outcome at hhandle
  generalize l.execute settings context payload limit = expected at hhandle
  cases hhandle with
  | ok related => exact .ok related
  | error => exact .error

theorem step (event : Event) : (w.step settings event).1 = (Ledger.step settings l event).1 ∧
    ((∀ token, event.Creates (w.step settings event).1 token → Pool.Apart token) →
      (Ledger.step settings l event).2.Mirrors (w.step settings event).2) := by
  cases event with
  | call context payload limit =>
    rw [World.step, Ledger.step]
    obtain ⟨receipt, w', l', hw, hl, hmirrors⟩ | ⟨rejection, hw, hl⟩ :=
      reached_or_refused (undone_execute settings context payload limit) (h.execute settings context payload limit)
    · rw [hw, hl]
      exact ⟨rfl, hmirrors⟩
    · rw [hw, hl]
      exact ⟨rfl, fun _ => h⟩
  | credit token amount =>
    rw [World.step, Ledger.step]
    obtain ⟨pool, w', l', hw, hl, hmirrors⟩ | ⟨rejection, hw, hl⟩ :=
      reached_or_refused (undone_credit token amount) (h.credit token amount)
    · rw [hw, hl]
      exact ⟨rfl, fun _ => hmirrors trivial⟩
    · rw [hw, hl]
      exact ⟨rfl, fun _ => h⟩
  | setBalance account amount => exact ⟨rfl, fun _ => h.setBalance account amount⟩
  | setNonce account nonce => exact ⟨rfl, fun _ => h.setNonce account nonce⟩
  | setCodeSize account size => exact ⟨rfl, fun _ => h.setCodeSize account size⟩

theorem told : l.Told w where
  pool token := by rw [(displays_world w).find, h.find]
  plan token := by rw [(displays_world w).plan, h.plan]
  balance account := by
    rw [← h.balance]
    rfl
  nonce account := by
    rw [← h.nonce]
    rfl
  codeSize account := by
    rw [← h.codeSize]
    rfl

theorem outcomes (events : List Event)
    (hapart : List.Forall₂ (fun event (outcome : Response × World) => ∀ token, event.Creates outcome.1 token →
      Pool.Apart token) events (outcomes (World.step settings) w events)) :
    List.Forall₂ (fun outcome expected => outcome.1 = expected.1 ∧ expected.2.Told outcome.2)
      (Ledger.outcomes (World.step settings) w events) (Ledger.outcomes (Ledger.step settings) l events) := by
  induction events generalizing w l with
  | nil => exact .nil
  | cons event rest ih =>
    obtain ⟨hnew, hrest⟩ := List.forall₂_cons.mp hapart
    obtain ⟨hresponse, hmirrors⟩ := h.step settings event
    have hnext := hmirrors hnew
    exact .cons ⟨hresponse, hnext.told⟩ (ih hnext hrest)

end Mirrors

theorem keeps_ledger (settings : Settings) {w : World} (hempty : w.words = .empty) (events : List Event)
    (hapart : List.Forall₂ (fun event (outcome : Response × World) => ∀ token, event.Creates outcome.1 token →
      Pool.Apart token) events (outcomes (World.step settings) w events)) :
    List.Forall₂ (fun outcome expected => outcome.1 = expected.1 ∧ expected.2.Told outcome.2)
      (outcomes (World.step settings) w events) (outcomes (Ledger.step settings) (opening w) events) :=
  (mirrors_opening hempty).outcomes settings events hapart

theorem keeps_ledger_sample :
    let events : List Event := [.call { caller := 1 } (Call.create sampleTerms).payload samplePrice,
      .credit sampleToken 50]
    (outcomes (Ledger.step {}) (opening sampleStart) events).map Prod.fst =
      [.called (.ok ⟨samplePrice, sampleToken.word.bytes⟩),
        .credited (.ok (.native sampleToken 650 100 0))] := by
  intro events
  obtain ⟨w, hcreate, _⟩ := Custody.sample_created
  obtain ⟨hpool, _, _⟩ := World.created hcreate (Method.split_selector _ _) Custody.sample_decoded rfl Custody.sample_apart
  have houtcomes : outcomes (World.step {}) sampleStart events =
      [(.called (.ok ⟨samplePrice, sampleToken.word.bytes⟩), w),
        (.credited (.ok (.native sampleToken 650 100 0)), w.setPool (.native sampleToken 650 100 0))] := by
    simp only [events, outcomes, World.step_call_of_ok hcreate, World.step_credit_of_ok (Custody.sample_credited hpool)]
  have hkeeps := keeps_ledger {} rfl events (w := sampleStart) <| by
    rw [houtcomes]
    refine .cons ?_ (.cons nofun .nil)
    rintro token ⟨_, _, hout⟩
    exact Address.eq_of_word_bytes hout ▸ Custody.sample_apart
  have hresponses : List.Forall₂ Eq ((outcomes (World.step {}) sampleStart events).map Prod.fst)
      ((outcomes (Ledger.step {}) (opening sampleStart) events).map Prod.fst) := by
    rw [List.forall₂_map_left_iff, List.forall₂_map_right_iff]
    exact hkeeps.imp fun _ _ h => h.1
  rw [List.forall₂_eq_eq_eq] at hresponses
  rw [← hresponses, houtcomes]
  rfl

end BackedToken.Ledger
