import BackedToken.Host.Basic

namespace BackedToken

namespace Host

variable {σ ε δ α β : Type} {s s' : σ}

theorem bind_of_ok {x : EStateM ε σ α} {f : α → EStateM ε σ β} {a : α} (h : x s = .ok a s') :
    (x >>= f) s = f a s' := by
  simp only [bind, EStateM.bind, h]

theorem bind_of_error {x : EStateM ε σ α} {f : α → EStateM ε σ β} {e : ε} (h : x s = .error e s') :
    (x >>= f) s = .error e s' := by
  simp only [bind, EStateM.bind, h]

theorem bind_eq_ok {x : EStateM ε σ α} {f : α → EStateM ε σ β} {b : β} :
    (x >>= f) s = .ok b s' ↔ ∃ a s₁, x s = .ok a s₁ ∧ f a s₁ = .ok b s' := by
  constructor
  · intro hb
    cases h : x s with
    | ok a s₁ => exact ⟨a, s₁, rfl, (bind_of_ok h).symm.trans hb⟩
    | error e s₁ =>
      rw [bind_of_error h] at hb
      cases hb
  · rintro ⟨a, s₁, h, hf⟩
    exact (bind_of_ok h).trans hf

theorem bind_eq_error {x : EStateM ε σ α} {f : α → EStateM ε σ β} {e : ε} :
    (x >>= f) s = .error e s' ↔ x s = .error e s' ∨ ∃ a s₁, x s = .ok a s₁ ∧ f a s₁ = .error e s' := by
  cases h : x s with
  | ok a s₁ =>
    rw [bind_of_ok h]
    constructor
    · exact fun hf => .inr ⟨a, s₁, rfl, hf⟩
    · rintro (hx | ⟨_, _, ⟨⟩, hf⟩)
      · cases hx
      · exact hf
  | error e₁ s₁ => simp [bind_of_error h]

theorem pure_eq_ok {a b : α} : (pure a : EStateM ε σ α) s = .ok b s' ↔ a = b ∧ s = s' := by
  simp only [pure, EStateM.pure, EStateM.Result.ok.injEq]

def Quiet (x : EStateM ε σ α) : Prop := ∀ s, (∃ a, x s = .ok a s) ∨ ∃ e, x s = .error e s

def Undone (x : EStateM ε σ α) : Prop := ∀ s e s', x s = .error e s' → s' = s

theorem Quiet.pure (a : α) : Quiet (pure a : EStateM ε σ α) := fun _ => .inl ⟨a, rfl⟩

theorem Quiet.throw (e : ε) : Quiet (throw e : EStateM ε σ α) := fun _ => .inr ⟨e, rfl⟩

theorem Quiet.bind {x : EStateM ε σ α} {f : α → EStateM ε σ β} (hx : Quiet x) (hf : ∀ a, Quiet (f a)) :
    Quiet (x >>= f) := by
  intro s
  rcases hx s with ⟨a, h⟩ | ⟨e, h⟩
  · rw [bind_of_ok h]
    exact hf a s
  · exact .inr ⟨e, bind_of_error h⟩

theorem Quiet.undone {x : EStateM ε σ α} (hx : Quiet x) : Undone x := by
  intro s e s' h
  rcases hx s with ⟨a, ha⟩ | ⟨e', he⟩
  · rw [ha] at h
    cases h
  · rw [he] at h
    cases h
    rfl

theorem Quiet.ok_state {x : EStateM ε σ α} (hx : Quiet x) {a : α} (h : x s = .ok a s') : s' = s := by
  rcases hx s with ⟨b, hb⟩ | ⟨e, he⟩
  · rw [hb] at h
    cases h
    rfl
  · rw [he] at h
    cases h

theorem Quiet.bind_eq_error {x : EStateM ε σ α} {f : α → EStateM ε σ β} (hx : Quiet x) {e : ε}
    (h : (x >>= f) s = .error e s') : s' = s ∨ ∃ a, f a s = .error e s' := by
  obtain hfirst | ⟨a, s₁, ha, hf⟩ := Host.bind_eq_error.mp h
  · exact .inl (hx.undone _ _ _ hfirst)
  · obtain rfl := hx.ok_state ha
    exact .inr ⟨a, hf⟩

theorem Quiet.undone_bind {x : EStateM ε σ α} {f : α → EStateM ε σ β} (hx : Quiet x) (hf : ∀ a, Undone (f a)) :
    Undone (x >>= f) := by
  intro s e s' h
  obtain rfl | ⟨a, hfail⟩ := hx.bind_eq_error h
  · rfl
  · exact hf a s e s' hfail

theorem Undone.bind_pure {x : EStateM ε σ α} (hx : Undone x) (f : α → β) :
    Undone (x >>= fun a => Pure.pure (f a)) := by
  intro s e s' h
  obtain h | ⟨a, s₁, _, h⟩ := bind_eq_error.mp h
  · exact hx s e s' h
  · cases h

theorem Quiet.within {τ : Type} {get : τ → σ} {set : σ → τ → τ} {x : EStateM ε σ α} (hx : Quiet x)
    (hset : ∀ t, set (get t) t = t) : Quiet (Host.within get set x) := by
  intro t
  rcases hx (get t) with ⟨a, h⟩ | ⟨e, h⟩
  · exact .inl ⟨a, by simp only [Host.within, h, hset]⟩
  · exact .inr ⟨e, by simp only [Host.within, h, hset]⟩

theorem adapt_eq_ok {x : EStateM ε σ α} {f : ε → δ} {a : α} :
    EStateM.adaptExcept f x s = .ok a s' ↔ x s = .ok a s' := by
  cases h : x s <;> simp [EStateM.adaptExcept, h]

theorem adapt_of_error {x : EStateM ε σ α} {f : ε → δ} {e : ε} (h : x s = .error e s') :
    EStateM.adaptExcept f x s = .error (f e) s' := by
  simp only [EStateM.adaptExcept, h]

theorem adapt_eq_error {x : EStateM ε σ α} {f : ε → δ} {d : δ} :
    EStateM.adaptExcept f x s = .error d s' ↔ ∃ e, x s = .error e s' ∧ f e = d := by
  cases h : x s with
  | ok a s₁ => simp [EStateM.adaptExcept, h]
  | error e s₁ => simp [adapt_of_error h, and_comm, and_assoc]

theorem Quiet.adapt {x : EStateM ε σ α} (hx : Quiet x) (f : ε → δ) : Quiet (EStateM.adaptExcept f x) := by
  intro s
  rcases hx s with ⟨a, h⟩ | ⟨e, h⟩
  · exact .inl ⟨a, adapt_eq_ok.mpr h⟩
  · exact .inr ⟨f e, adapt_of_error h⟩

theorem Undone.adapt {x : EStateM ε σ α} (hx : Undone x) (f : ε → δ) : Undone (EStateM.adaptExcept f x) := by
  intro s d s' h
  obtain ⟨e, h, _⟩ := adapt_eq_error.mp h
  exact hx s e s' h

end Host

namespace Attempt

open Host

variable {σ α : Type} {s s' : σ}

theorem rejectIf_of_not {condition : Prop} [Decidable condition] (h : ¬condition) (rejection : Rejection) (s : σ) :
    rejectIf condition rejection s = .ok () s := by
  rw [rejectIf, if_neg h]
  rfl

theorem rejectIf_of {condition : Prop} [Decidable condition] (h : condition) (rejection : Rejection) (s : σ) :
    rejectIf condition rejection s = .error rejection s := by
  rw [rejectIf, if_pos h]
  rfl

theorem rejectIf_eq_ok {condition : Prop} [Decidable condition] {rejection : Rejection} {u : Unit} :
    rejectIf condition rejection s = .ok u s' ↔ ¬condition ∧ s = s' := by
  by_cases h : condition
  · rw [rejectIf_of h]
    simp [h]
  · rw [rejectIf_of_not h]
    simp [h]

theorem ofResult_eq_ok {x : Except Rejection α} {a : α} : ofResult x s = .ok a s' ↔ x = .ok a ∧ s = s' := by
  cases x with
  | ok b => rw [ofResult, pure_eq_ok, Except.ok.injEq]
  | error rejection => exact iff_of_false nofun nofun

theorem ofResult_of_error {x : Except Rejection α} {rejection : Rejection} (h : x = .error rejection) (s : σ) :
    ofResult x s = .error rejection s := by
  rw [h]
  rfl

theorem ofResult_map {β : Type} (x : Except Rejection α) (f : α → β) :
    (ofResult (x.map f) : Attempt σ β) = ofResult x >>= fun a => pure (f a) := by
  cases x <;> rfl

theorem ofPayload_eq_ok {x : Except Payload.Fault α} {a : α} : ofPayload x s = .ok a s' ↔ x = .ok a ∧ s = s' := by
  cases x with
  | ok b => rw [ofPayload, pure_eq_ok, Except.ok.injEq]
  | error fault => exact iff_of_false nofun nofun

theorem ask_eq_ok {x : Host.Action σ α} {a : α} : ask x s = .ok a s' ↔ x s = .ok a s' := adapt_eq_ok

theorem ask_bind {β : Type} (x : Host.Action σ α) (f : α → Host.Action σ β) : ask (x >>= f) = ask x >>= fun a => ask (f a) := by
  funext s
  cases hr : x s with
  | ok a s' => simp only [ask, bind, EStateM.bind, EStateM.adaptExcept, hr]
  | error fault s' => simp only [ask, bind, EStateM.bind, EStateM.adaptExcept, hr]

theorem quiet_rejectIf (condition : Prop) [Decidable condition] (rejection : Rejection) :
    Quiet (rejectIf condition rejection : Attempt σ Unit) := by
  rw [rejectIf]
  split
  · exact .throw rejection
  · exact .pure ()

theorem quiet_ofResult (x : Except Rejection α) : Quiet (ofResult x : Attempt σ α) := by
  cases x with
  | ok a => exact .pure a
  | error rejection => exact .throw rejection

theorem quiet_ofPayload (x : Except Payload.Fault α) : Quiet (ofPayload x : Attempt σ α) := by
  cases x with
  | ok a => exact .pure a
  | error fault => exact .throw _

end Attempt

end BackedToken
