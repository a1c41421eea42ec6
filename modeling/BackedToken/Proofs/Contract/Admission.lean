import BackedToken.Contract.Execute
import BackedToken.Proofs.Contract.Selectors
import BackedToken.Proofs.Host.Steps

namespace BackedToken

namespace Contract

open Attempt (ofPayload_eq_ok rejectIf_eq_ok rejectIf_of_not)
open Host

structure Admitted (settings : Settings) (context : Context) (payload : Bytes) (limit : Gas) (m : Method)
    (args : Bytes) : Prop where
  split : Payload.split payload = .ok (m.selector, args)
  paid : settings.tariff.cost payload.length m ≤ limit
  valueless : context.value = 0
  mutable : m.mutates = true → context.isStatic = false

variable {σ : Type} {settings : Settings} {context : Context} {payload : Bytes} {limit : Gas} {m : Method}
  {args : Bytes} {receipt : Receipt} {rejection : Rejection} {s s' : σ}

theorem methodOf_eq_ok {selector : Bytes} : methodOf selector s = .ok m s' ↔ selector = m.selector ∧ s = s' := by
  rw [methodOf, ← Method.ofSelector?_eq_some_iff]
  cases Method.ofSelector? selector with
  | some m' => rw [pure_eq_ok, Option.some.injEq]
  | none => exact iff_of_false nofun nofun

theorem required_of_split {tariff : Tariff} (h : Payload.split payload = .ok (m.selector, args)) :
    tariff.required payload = tariff.cost payload.length m := by
  simp only [Tariff.required, h, Method.ofSelector?_eq_some_iff.mpr rfl]

variable [Host σ]

theorem handle_of_admitted (h : Admitted settings context payload limit m args) (s : σ) :
    handle settings context payload limit s =
      (perform settings context args m >>= fun output => pure ⟨settings.tariff.cost payload.length m, output⟩) s := by
  have hstatic : ¬(m.mutates = true ∧ context.isStatic = true) := by
    rintro ⟨hm, hc⟩
    exact Bool.false_ne_true ((h.mutable hm).symm.trans hc)
  apply (bind_of_ok (ofPayload_eq_ok.mpr ⟨h.split, rfl⟩)).trans
  apply (bind_of_ok (methodOf_eq_ok.mpr ⟨rfl, rfl⟩)).trans
  apply (bind_of_ok (rejectIf_of_not (UInt64.not_lt.mpr h.paid) _ s)).trans
  apply (bind_of_ok (rejectIf_of_not (not_not.mpr h.valueless) _ s)).trans
  exact bind_of_ok (rejectIf_of_not hstatic _ s)

theorem handle_eq_ok : handle settings context payload limit s = .ok receipt s' ↔
    ∃ m args, Admitted settings context payload limit m args ∧
      perform settings context args m s = .ok receipt.output s' ∧
      receipt.gasUsed = settings.tariff.cost payload.length m := by
  constructor
  · intro h
    obtain ⟨⟨selector, args⟩, _, h₁, h⟩ := bind_eq_ok.mp h
    obtain ⟨hsplit, rfl⟩ := ofPayload_eq_ok.mp h₁
    obtain ⟨m, _, h₂, h⟩ := bind_eq_ok.mp h
    obtain ⟨rfl, rfl⟩ := methodOf_eq_ok.mp h₂
    obtain ⟨_, _, h₃, h⟩ := bind_eq_ok.mp h
    obtain ⟨hpaid, rfl⟩ := rejectIf_eq_ok.mp h₃
    obtain ⟨_, _, h₄, h⟩ := bind_eq_ok.mp h
    obtain ⟨hvalue, rfl⟩ := rejectIf_eq_ok.mp h₄
    obtain ⟨_, _, h₅, h⟩ := bind_eq_ok.mp h
    obtain ⟨hstatic, rfl⟩ := rejectIf_eq_ok.mp h₅
    obtain ⟨output, _, hperform, h⟩ := bind_eq_ok.mp h
    obtain ⟨rfl, rfl⟩ := pure_eq_ok.mp h
    have hmutable : m.mutates = true → context.isStatic = false := fun hm =>
      Bool.eq_false_iff.mpr fun hc => hstatic ⟨hm, hc⟩
    exact ⟨m, args, ⟨hsplit, UInt64.not_lt.mp hpaid, not_not.mp hvalue, hmutable⟩, hperform, rfl⟩
  · rintro ⟨m, args, hcall, hperform, hgas⟩
    rw [handle_of_admitted hcall, bind_of_ok hperform, ← hgas]
    rfl

theorem execute_eq_ok : execute settings context payload limit s = .ok receipt s' ↔
    ∃ m args, Admitted settings context payload limit m args ∧
      perform settings context args m s = .ok receipt.output s' ∧
      receipt.gasUsed = settings.tariff.cost payload.length m := by
  rw [← handle_eq_ok, execute]
  cases handle settings context payload limit s with
  | ok receipt s' => rfl
  | error rejection s' => simp

theorem perform_of_execute (h : execute settings context payload limit s = .ok receipt s')
    (hsplit : Payload.split payload = .ok (m.selector, args)) :
    Admitted settings context payload limit m args ∧ perform settings context args m s = .ok receipt.output s' := by
  obtain ⟨m', args', hcall, hperform, _⟩ := execute_eq_ok.mp h
  obtain ⟨rfl, rfl⟩ := Method.eq_of_split hcall.split hsplit
  exact ⟨hcall, hperform⟩

theorem gasUsed_of_execute (h : execute settings context payload limit s = .ok receipt s')
    (hsplit : Payload.split payload = .ok (m.selector, args)) : receipt.gasUsed = settings.tariff.required payload := by
  obtain ⟨m', args', hcall, _, hgas⟩ := execute_eq_ok.mp h
  obtain ⟨rfl, rfl⟩ := Method.eq_of_split hcall.split hsplit
  rw [hgas, required_of_split hsplit]

theorem execute_of_admitted_error (h : Admitted settings context payload limit m args)
    (hp : perform settings context args m s = .error rejection s') :
    execute settings context payload limit s =
      .error rejection (Host.record (.rejected context.caller rejection) s') := by
  simp only [execute, handle_of_admitted h, bind_of_error hp]

end Contract

end BackedToken
