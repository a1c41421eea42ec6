import BackedToken.Proofs.Contract.Effects
import BackedToken.Proofs.Custody.Solvency
import BackedToken.Proofs.Pool.Changes

/-! Calls by anyone, credits by the host and changes that the host makes elsewhere, each of them one event. -/

namespace BackedToken

open Contract Host

inductive Event
  | call (context : Context) (payload : Bytes) (limit : Gas)
  | credit (token : Address) (amount : Word)
  | setBalance (account : Address) (amount : Word)
  | setNonce (account : Address) (nonce : UInt64)
  | setCodeSize (account : Address) (size : UInt64)

inductive Response
  | called (result : Except Rejection Receipt)
  | credited (result : Except Rejection Pool)
  | changed

def Event.Creates : Event → Response → Address → Prop
  | .call _ payload _, .called (.ok receipt), token => Custody.Creates payload receipt token
  | _, _, _ => False

def Call.burn? (payload : Bytes) : Option (Address × Word) :=
  match Payload.split payload with
  | .ok (selector, args) => if selector = Method.burn.selector then (Call.tokenAmount args).toOption else none
  | .error _ => none

def Event.flow (token : Address) : Event → Response → Pool.Flow
  | .call _ payload _, .called (.ok receipt) =>
    match Call.burn? payload with
    | some (burned, amount) =>
      if burned = token then { units := amount.toNat, recovered := (Word.ofBytes receipt.output).toNat } else {}
    | none => {}
  | .credit credited amount, .credited (.ok _) => if credited = token then { credited := amount.toNat } else {}
  | _, _ => {}

theorem Call.burn?_of_split {payload args : Bytes} {m : Method} (h : Payload.split payload = .ok (m.selector, args)) :
    burn? payload = if m = .burn then (tokenAmount args).toOption else none := by
  simp only [burn?, h, Method.selector_injective.eq_iff]

namespace World

variable {settings : Settings} {w w' : World} {event : Event} {token : Address}

def step (settings : Settings) (w : World) : Event → Response × World
  | .call context payload limit =>
    match execute settings context payload limit w with
    | .ok receipt w' => (.called (.ok receipt), w')
    | .error rejection w' => (.called (.error rejection), w')
  | .credit token amount =>
    match Contract.credit token amount w with
    | .ok pool w' => (.credited (.ok pool), w')
    | .error rejection w' => (.credited (.error rejection), w')
  | .setBalance account amount => (.changed, w.setBalance account amount)
  | .setNonce account nonce => (.changed, w.setNonce account nonce)
  | .setCodeSize account size => (.changed, w.setCodeSize account size)

theorem step_call_of_ok {context : Context} {payload : Bytes} {limit : Gas} {receipt : Receipt}
    (h : execute settings context payload limit w = .ok receipt w') :
    w.step settings (.call context payload limit) = (.called (.ok receipt), w') := by
  rw [step, h]

theorem step_call_of_error {context : Context} {payload : Bytes} {limit : Gas} {rejection : Rejection}
    (h : execute settings context payload limit w = .error rejection w') :
    w.step settings (.call context payload limit) = (.called (.error rejection), w) := by
  obtain rfl := undone_execute settings context payload limit w _ _ h
  rw [step, h]

theorem step_credit_of_ok {amount : Word} {pool : Pool} (h : Contract.credit token amount w = .ok pool w') :
    w.step settings (.credit token amount) = (.credited (.ok pool), w') := by
  rw [step, h]

def after (settings : Settings) (w : World) (events : List Event) : World :=
  events.foldl (fun w event => (w.step settings event).2) w

theorem after_call_of_ok {context : Context} {payload : Bytes} {limit : Gas} {receipt : Receipt}
    (h : execute settings context payload limit w = .ok receipt w') :
    w.after settings [.call context payload limit] = w' :=
  congrArg Prod.snd (step_call_of_ok h)

theorem after_cons (settings : Settings) (w : World) (event : Event) (rest : List Event) :
    w.after settings (event :: rest) = (w.step settings event).2.after settings rest := rfl

inductive Stepped (settings : Settings) (w : World) : Event → Response → World → Prop
  | accepted {context : Context} {payload : Bytes} {limit : Gas} {receipt : Receipt} {w' : World}
      (executed : execute settings context payload limit w = .ok receipt w') :
      Stepped settings w (.call context payload limit) (.called (.ok receipt)) w'
  | rejected {context : Context} {payload : Bytes} {limit : Gas} {rejection : Rejection} :
      Stepped settings w (.call context payload limit) (.called (.error rejection)) w
  | credited {token : Address} {amount : Word} {pool : Pool} (isOpen : (w.pool token).isOpen = true)
      (added : (w.pool token).addBacking amount = .ok pool) :
      Stepped settings w (.credit token amount) (.credited (.ok pool)) (w.setPool pool)
  | uncredited {token : Address} {amount : Word} {rejection : Rejection} :
      Stepped settings w (.credit token amount) (.credited (.error rejection)) w
  | changed {event : Event} {w' : World} (word : ∀ account key, w'.word account key = w.word account key) :
      Stepped settings w event .changed w'

theorem stepped (settings : Settings) (w : World) (event : Event) :
    Stepped settings w event (w.step settings event).1 (w.step settings event).2 := by
  cases event with
  | call context payload limit =>
    rw [step]
    cases hexecute : execute settings context payload limit w with
    | ok receipt w' => exact .accepted hexecute
    | error rejection w' =>
      obtain rfl := undone_execute settings context payload limit w _ _ hexecute
      exact .rejected
  | credit token amount =>
    rw [step]
    cases hcredit : Contract.credit token amount w with
    | ok pool w' =>
      obtain ⟨hopen, hadd, rfl⟩ := credit_eq_ok.mp hcredit
      exact .credited hopen hadd
    | error rejection w' =>
      obtain rfl := undone_credit token amount w _ _ hcredit
      exact .uncredited
  | setBalance account amount => exact .changed fun _ _ => rfl
  | setNonce account nonce => exact .changed fun _ _ => rfl
  | setCodeSize account size => exact .changed fun _ _ => rfl

section OpenPool

variable (hopen : (w.pool token).isOpen = true)
include hopen

theorem moves_of_effect {context : Context} {payload : Bytes} {limit : Gas} {receipt : Receipt}
    (h : Effect settings context payload w receipt.output w') :
    (w.pool token).Moves ((Event.call context payload limit).flow token (.called (.ok receipt))) (w'.pool token) := by
  generalize hout : receipt.output = out at h
  cases h with
  | create split decoded creatable movable agrees =>
    rw [agrees.pool, pool_issue_of_ne (creatable.newToken_ne hopen), Event.flow, Call.burn?_of_split split]
    exact .still
  | @burn _ other amount _ _ _ split decoded isOpen redeemed movable agrees =>
    rw [agrees.pool, pool_payOut redeemed, Event.flow, Call.burn?_of_split split, if_pos rfl, decoded, hout,
      Word.ofBytes_bytes]
    by_cases hother : other = token
    · subst hother
      simp only [Except.toOption, if_true]
      exact .redeemed redeemed
    · simp only [Except.toOption, if_neg hother]
      exact .still
  | query split readOnly =>
    rw [Event.flow, Call.burn?_of_split split, if_neg (by rintro rfl; cases readOnly)]
    exact .still

theorem Stepped.moves {response : Response} (h : Stepped settings w event response w') :
    (w.pool token).Moves (event.flow token response) (w'.pool token) := by
  cases h with
  | accepted executed => exact moves_of_effect hopen (effect_of_execute executed)
  | rejected => exact .still
  | @credited other amount _ isOpen added =>
    rw [pool_setPool_addBacking added, Event.flow]
    by_cases hother : other = token
    · subst hother
      rw [if_pos rfl, if_pos rfl]
      exact .credited added
    · rw [if_neg hother, if_neg hother]
      exact .still
  | uncredited => exact .still
  | changed word =>
    have hnone : event.flow token .changed = {} := by cases event <;> rfl
    rw [pool_congr word, hnone]
    exact .still

theorem Stepped.change {response : Response} (h : Stepped settings w event response w') :
    (w.pool token).Change (w'.pool token) := (h.moves hopen).change

theorem Stepped.not_creates {response : Response} (h : Stepped settings w event response w') :
    ¬event.Creates response token := by
  cases h with
  | accepted executed =>
    rintro ⟨args, hsplit, houtput⟩
    obtain ⟨terms, _, hc, _, hout, _⟩ := created_of_execute executed hsplit
    exact hc.newToken_ne hopen (Address.eq_of_word_bytes (hout.symm.trans houtput))
  | rejected => exact id
  | credited isOpen added => exact id
  | uncredited => exact id
  | changed word => cases event <;> exact id

theorem changes_after (events : List Event) :
    Relation.ReflTransGen Pool.Change (w.pool token) ((w.after settings events).pool token) := by
  induction events generalizing w with
  | nil => exact .refl
  | cons event rest ih =>
    have hchange := (w.stepped settings event).change hopen
    exact .head hchange (ih (hchange.isOpen.trans hopen))

theorem isOpen_after (events : List Event) : ((w.after settings events).pool token).isOpen = true := by
  induction events generalizing w with
  | nil => exact hopen
  | cons event rest ih => exact ih (((w.stepped settings event).change hopen).isOpen.trans hopen)

variable (hapart : Pool.Apart token)
include hapart

theorem plan_of_effect {context : Context} {payload out : Bytes} (h : Effect settings context payload w out w') :
    w'.plan token = w.plan token := by
  cases h with
  | create split decoded creatable movable agrees =>
    rw [agrees.plan, plan_issue, if_neg (creatable.newToken_ne hopen)]
  | burn split decoded isOpen redeemed movable agrees => rw [agrees.plan, plan_payOut hapart]
  | query => rfl

theorem Stepped.plan {response : Response} (h : Stepped settings w event response w') :
    w'.plan token = w.plan token := by
  cases h with
  | accepted executed => exact plan_of_effect hopen hapart (effect_of_execute executed)
  | rejected => rfl
  | credited isOpen added => exact w.plan_setPool hapart _
  | uncredited => rfl
  | changed word => exact plan_congr word token

theorem plan_after (events : List Event) : (w.after settings events).plan token = w.plan token := by
  induction events generalizing w with
  | nil => rfl
  | cons event rest ih =>
    have hstep := w.stepped settings event
    rw [after_cons, ih ((hstep.change hopen).isOpen.trans hopen), hstep.plan hopen hapart]

end OpenPool

end World

end BackedToken
