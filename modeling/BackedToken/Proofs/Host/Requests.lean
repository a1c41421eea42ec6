import BackedToken.Host.Monitor
import BackedToken.Proofs.Contract.Coins
import BackedToken.Proofs.Host.Buffer
import BackedToken.Proofs.Host.Layers

/-! Filling a journal only looks. Its commit sends the words first and the changes of balances after them. -/

namespace BackedToken

def Host.OnlyLooks (requests : List Host.Request) : Prop := ∀ request ∈ requests, request.mutates = false

open Host (LookAlike Matches OnlyLooks Request)

namespace World

theorem look {request : Request} (h : request.mutates = false) (w : World) :
    ∃ reply, Host.perform request w = .ok reply w := by
  cases request with
  | read account key => exact ⟨_, rfl⟩
  | balance account => exact ⟨_, rfl⟩
  | nonce account => exact ⟨_, rfl⟩
  | codeSize account => exact ⟨_, rfl⟩
  | write | writeAll | deposit | withdraw => cases h

end World

namespace Monitor

def watching (w : World) (takesBatches : Bool) : Monitor World := { host := w, takesBatches := takesBatches }

def written (takesBatches : Bool) (account : Address) (writes : List (Word × Word)) : List Request :=
  if takesBatches then [.writeAll account writes] else writes.map fun e => .write account e.1 e.2

def settlement (source target : Address) (amount : Word) : List Request :=
  if amount = 0 then []
  else if source = target then [.balance source]
  else [.balance source, .withdraw source amount, .balance target, .deposit target amount]

structure At (takesBatches : Bool) (w : World) (requests : List Request) (m : Monitor World) : Prop where
  host : m.host = w
  takesBatches : m.takesBatches = takesBatches
  trap : m.trap = none
  requests : m.requests = requests

def Looked (takesBatches : Bool) (m : Monitor World) (w : World) : Prop :=
  ∃ requests, At takesBatches w requests m ∧ OnlyLooks requests

variable {takesBatches : Bool} {w w' : World} {requests : List Request} {m : Monitor World}

theorem looked_watching (w : World) (takesBatches : Bool) : Looked takesBatches (watching w takesBatches) w :=
  ⟨[], ⟨rfl, rfl, rfl, rfl⟩, nofun⟩

theorem Looked.onlyLooks (h : Looked takesBatches m w) : OnlyLooks m.requests := by
  obtain ⟨requests, hat, hlooks⟩ := h
  rwa [hat.requests]

namespace At

theorem record (h : At takesBatches w requests m) (notice : Notice) :
    At takesBatches w requests (Host.record notice m) := ⟨h.host, h.takesBatches, h.trap, h.requests⟩

variable (h : At takesBatches w requests m)
include h

theorem pass (request : Request) {reply : request.Reply} (hw : Host.perform request w = .ok reply w') :
    ∃ m', pass request m = .ok reply m' ∧ At takesBatches w' (requests ++ [request]) m' := by
  have harrive : arrive request m = .ok () { m with requests := m.requests ++ [request] } := rfl
  have hcheck : checkTrap request { m with requests := m.requests ++ [request] } =
      .ok () { m with requests := m.requests ++ [request] } := by
    simp only [checkTrap, h.trap]
  have hbelow : below (Host.perform request) { m with requests := m.requests ++ [request] } =
      .ok reply { m with requests := m.requests ++ [request], host := w' } := by
    simp only [below, Host.within, h.host, hw]
  refine ⟨_, (Host.bind_of_ok harrive).trans ((Host.bind_of_ok hcheck).trans hbelow), ?_⟩
  exact ⟨rfl, h.takesBatches, h.trap, congrArg (· ++ [request]) h.requests⟩

theorem writeEach (account : Address) (writes : List (Word × Word)) :
    ∃ m', (writes.forM fun e => Monitor.pass (.write account e.1 e.2)) m = .ok () m' ∧
      At takesBatches (w.setWords account writes) (requests ++ writes.map fun e => .write account e.1 e.2) m' := by
  induction writes generalizing w requests m with
  | nil => exact ⟨m, rfl, by rwa [List.map_nil, List.append_nil]⟩
  | cons e rest ih =>
    obtain ⟨m₁, hpass, h₁⟩ := h.pass (.write account e.1 e.2) rfl
    obtain ⟨m₂, hrest, h₂⟩ := ih h₁
    refine ⟨m₂, (Host.bind_of_ok hpass).trans hrest, ?_⟩
    rwa [List.map_cons, List.append_cons]

theorem writeAll (account : Address) (writes : List (Word × Word)) :
    ∃ m', Host.writeAll account writes m = .ok () m' ∧
      At takesBatches (w.setWords account writes) (requests ++ written takesBatches account writes) m' := by
  cases takesBatches with
  | true =>
    obtain ⟨m', hpass, h'⟩ := h.pass (.writeAll account writes) rfl
    exact ⟨m', (if_pos h.takesBatches).trans hpass, h'⟩
  | false =>
    obtain ⟨m', hpass, h'⟩ := h.writeEach account writes
    exact ⟨m', (if_neg (Bool.eq_false_iff.mp h.takesBatches)).trans hpass, h'⟩

theorem flushWords (batch : Address × List (Word × Word)) :
    ∃ m', Journal.flushWords batch m = .ok () m' ∧
      At takesBatches (w.setWords batch.1 batch.2) (requests ++ written takesBatches batch.1 batch.2) m' :=
  (h.record (.committing batch.1 batch.2.length)).writeAll batch.1 batch.2

theorem balance (account : Address) :
    ∃ m', Host.balance account m = .ok (w.balance account) m' ∧ At takesBatches w (requests ++ [.balance account]) m' :=
  h.pass (.balance account) rfl

theorem flushes_withdrawal {account : Address} {amount : Word} (hamount : amount ≠ 0)
    (hcover : amount ≤ w.balance account) :
    ∃ m', Journal.flushBalance (account, w.balance account - amount) m = .ok () m' ∧
      At takesBatches (w.setBalance account (w.balance account - amount))
        (requests ++ [.balance account, .withdraw account amount]) m' := by
  obtain ⟨m₁, hread, h₁⟩ := h.balance account
  obtain ⟨m₂, hpass, h₂⟩ := h₁.pass (.withdraw account amount) (World.withdraw_eq_ok.mpr ⟨hcover, rfl⟩)
  refine ⟨m₂, ?_, by rwa [List.append_assoc] at h₂⟩
  have hless : w.balance account - amount < w.balance account := by bv_omega
  have hrest : w.balance account - (w.balance account - amount) = amount := by bv_omega
  rw [Journal.flushBalance, Host.bind_of_ok hread, if_neg (BitVec.lt_asymm hless), if_pos hless, hrest]
  exact hpass

theorem flushes_deposit {account : Address} {amount : Word} (hamount : amount ≠ 0)
    (hroom : (w.balance account).toNat + amount.toNat < 2 ^ 256) :
    ∃ m', Journal.flushBalance (account, w.balance account + amount) m = .ok () m' ∧
      At takesBatches (w.setBalance account (w.balance account + amount))
        (requests ++ [.balance account, .deposit account amount]) m' := by
  obtain ⟨m₁, hread, h₁⟩ := h.balance account
  obtain ⟨m₂, hpass, h₂⟩ := h₁.pass (.deposit account amount) (World.deposit_eq_ok.mpr ⟨hroom, rfl⟩)
  refine ⟨m₂, ?_, by rwa [List.append_assoc] at h₂⟩
  have hless : w.balance account < w.balance account + amount := by bv_omega
  have hrest : w.balance account + amount - w.balance account = amount := by bv_omega
  rw [Journal.flushBalance, Host.bind_of_ok hread, if_pos hless, hrest]
  exact hpass

theorem flushes_nothing (account : Address) :
    ∃ m', Journal.flushBalance (account, w.balance account) m = .ok () m' ∧
      At takesBatches w (requests ++ [.balance account]) m' := by
  obtain ⟨m₁, hread, h₁⟩ := h.balance account
  refine ⟨m₁, ?_, h₁⟩
  simp only [Journal.flushBalance, Host.bind_of_ok hread, BitVec.lt_irrefl, if_false]
  rfl

theorem settles {source target : Address} {amount : Word} (hmove : w.CanMove source target amount) :
    ∃ m' w', (Journal.dues w source target amount).forM Journal.flushBalance m = .ok () m' ∧
      At takesBatches w' (requests ++ settlement source target amount) m' := by
  rw [Journal.dues, settlement]
  by_cases hamount : amount = 0
  · rw [if_pos hamount, if_pos hamount, List.append_nil]
    exact ⟨m, w, rfl, h⟩
  · obtain ⟨hcover, hroom⟩ := hmove.resolve_left hamount
    rw [if_neg hamount, if_neg hamount]
    by_cases hst : source = target
    · rw [if_pos hst, if_pos hst]
      obtain ⟨m₁, hflush, h₁⟩ := h.flushes_nothing source
      exact ⟨m₁, w, Host.bind_of_ok hflush, h₁⟩
    · rw [if_neg hst, if_neg hst]
      obtain ⟨m₁, hpay, h₁⟩ := h.flushes_withdrawal hamount hcover
      have hheld : (w.setBalance source (w.balance source - amount)).balance target = w.balance target := by
        rw [World.balance_setBalance, if_neg hst]
      obtain ⟨m₂, hget, h₂⟩ := h₁.flushes_deposit hamount (hheld ▸ hroom.resolve_left hst)
      rw [hheld] at hget
      rw [List.append_assoc] at h₂
      exact ⟨m₂, _, (Host.bind_of_ok hpay).trans (Host.bind_of_ok hget), h₂⟩

end At

theorem lookAlike (takesBatches : Bool) : LookAlike (Looked takesBatches) where
  look request hlook := by
    rintro m w ⟨requests, h, hquiet⟩
    obtain ⟨reply, hw⟩ := World.look hlook w
    obtain ⟨m', hpass, h'⟩ := h.pass request hw
    have hm : Host.perform request m = .ok reply m' := by
      cases request with
      | writeAll => cases hlook
      | _ => exact hpass
    rw [hm, hw]
    refine ⟨rfl, requests ++ [request], h', fun r hr => ?_⟩
    rcases List.mem_append.mp hr with hr | hr
    · exact hquiet r hr
    · rwa [List.mem_singleton.mp hr]
  record notice m w := fun ⟨requests, h, hquiet⟩ => ⟨requests, h.record notice, hquiet⟩

def Orderly (takesBatches : Bool) (account : Address) (writes : List (Word × Word)) (source target : Address)
    (amount : Word) (requests : List Request) : Prop :=
  ∃ looks, OnlyLooks looks ∧
    requests = looks ++ written takesBatches account (Journal.settled writes) ++ settlement source target amount

def Leaves {ε α : Type} (accepted : α → List Request → Prop) : EStateM.Result ε (Monitor World) α → Prop
  | .ok a m => accepted a m.requests
  | .error _ m => OnlyLooks m.requests

section Running

variable {ε α : Type} {account source target : Address} {writes : List (Word × Word)} {amount : Word}

theorem onlyLooks_of_matches {x : EStateM ε (Monitor World) α} {y : EStateM ε World α}
    (h : Matches (Looked takesBatches) x y) (w : World) :
    Leaves (fun _ => OnlyLooks) (x (watching w takesBatches)) := by
  cases hy : y w with
  | ok a v =>
    obtain ⟨m, hx, hlooked⟩ := h.of_ok (looked_watching w takesBatches) hy
    rw [hx]
    exact hlooked.onlyLooks
  | error e v =>
    obtain ⟨m, hx, hlooked⟩ := h.of_error (looked_watching w takesBatches) hy
    rw [hx]
    exact hlooked.onlyLooks

theorem commits {j : Journal (Monitor World)} {i : Journal World} (hji : Journal.Over (Looked takesBatches) j i)
    (hi : Journal.Buffers w account writes (Journal.dues w source target amount) i) (hwrites : writes ≠ [])
    (hmove : w.CanMove source target amount) :
    ∃ m, j.commit = .ok () m ∧ Orderly takesBatches account writes source target amount m.requests := by
  obtain ⟨looks, hlooked, hlooks⟩ := hi.host ▸ hji.host
  have hsame := w.sameAccounts_setWords account (Journal.settled writes)
  obtain ⟨m₁, hwords, h₁⟩ := hlooked.flushWords (account, Journal.settled writes)
  have hmove₁ : (w.setWords account (Journal.settled writes)).CanMove source target amount := by
    simpa only [World.CanMove, hsame.balance] using hmove
  obtain ⟨m₂, w', hcoins, h₂⟩ := h₁.settles hmove₁
  rw [Journal.dues_congr hsame] at hcoins
  -- all words are of one account, so the loop over the batches runs once
  have hbatches := Journal.batches_ofAccount account (Journal.settled_ne_nil hwrites)
  rw [← hi.words] at hbatches
  refine ⟨m₂, ?_, looks, hlooks, h₂.requests⟩
  rw [Journal.commit, Journal.flush, hji.words, hji.balances, hbatches, hi.balances]
  exact (Host.bind_of_ok (Host.bind_of_ok hwords)).trans hcoins

variable {x : Attempt (Journal (Monitor World)) α} {y : Attempt (Journal World) α}
  (h : Matches (Journal.Over (Looked takesBatches)) x y)
include h

theorem orderly_of_ok {a : α} {i : Journal World} (hy : y { host := w } = .ok a i)
    (hi : Journal.Buffers w account writes (Journal.dues w source target amount) i) (hwrites : writes ≠ [])
    (hmove : w.CanMove source target amount) :
    ∃ m, Journal.atomically x (watching w takesBatches) = .ok a m ∧
      Orderly takesBatches account writes source target amount m.requests := by
  obtain ⟨j, hx, hji⟩ := h.of_ok (.fresh (looked_watching w takesBatches)) hy
  obtain ⟨m, hcommit, horderly⟩ := commits hji hi hwrites hmove
  exact ⟨m, by simp only [Journal.atomically, hx, hcommit], horderly⟩

theorem leaves_atomically {accepted : α → List Request → Prop}
    (haccepted : ∀ a i, y { host := w } = .ok a i →
      ∃ m, Journal.atomically x (watching w takesBatches) = .ok a m ∧ accepted a m.requests) :
    Leaves accepted (Journal.atomically x (watching w takesBatches)) := by
  cases hy : y { host := w } with
  | ok a i =>
    obtain ⟨m, hx, hlist⟩ := haccepted a i hy
    rw [hx]
    exact hlist
  | error rejection i =>
    obtain ⟨j, hx, hji⟩ := h.of_error (.fresh (looked_watching w takesBatches)) hy
    simp only [Journal.atomically, hx]
    exact hji.host.onlyLooks

end Running

end Monitor

end BackedToken
