import BackedToken.Proofs.History.Conservation
import BackedToken.Proofs.Host.Layers
import BackedToken.Proofs.Payload.Grammar

namespace BackedToken

open Host

namespace World

theorem pool_of_words {w v : World} {token : Address}
    (h : ∀ i < Pool.slots, w.word token (Pool.slotKey token i) = v.word token (Pool.slotKey token i)) :
    w.pool token = v.pool token := by
  rw [World.pool, World.pool, stored_pool, stored_pool, h 0 (by decide), h 1 (by decide), h 2 (by decide), h 3 (by decide)]

end World

namespace Call

open Payload (Block bind_eq_ok)

variable {args : Bytes} {token : Address}

theorem first_of_tokenAmount {amount : Word} (h : tokenAmount args = .ok (token, amount)) :
    Block.address ⟨args⟩ 0 = .ok token := by
  obtain ⟨block, hblock, h⟩ := bind_eq_ok.mp h
  obtain ⟨_, _, rfl⟩ := Block.ofArguments_eq_ok.mp hblock
  obtain ⟨first, hfirst, h⟩ := bind_eq_ok.mp h
  obtain ⟨second, _, h⟩ := bind_eq_ok.mp h
  cases h
  exact hfirst

theorem first_of_oneAddress (h : oneAddress args = .ok token) : Block.address ⟨args⟩ 0 = .ok token := by
  obtain ⟨block, hblock, h⟩ := bind_eq_ok.mp h
  obtain ⟨_, _, rfl⟩ := Block.ofArguments_eq_ok.mp hblock
  exact h

end Call

namespace Contract

variable {settings : Settings} {context : Context} {payload args : Bytes} {limit : Gas} {token : Address} {m : Method}
  {α β : Type}

theorem quiet_of_static (h : context.isStatic = true) :
    Quiet (execute settings context payload limit : Attempt World Receipt) := by
  intro w
  cases hr : execute settings context payload limit w with
  | ok receipt w' =>
    obtain ⟨m, args, hcall, _, _⟩ := execute_eq_ok.mp hr
    have hquery : m.mutates = false := Bool.eq_false_iff.mpr fun hm =>
      Bool.false_ne_true ((hcall.mutable hm).symm.trans h)
    obtain rfl := World.unchanged_of_effect (effect_of_execute hr) hcall.split hquery
    exact .inl ⟨receipt, rfl⟩
  | error rejection w' =>
    obtain rfl := undone_execute settings context payload limit w _ _ hr
    exact .inr ⟨rejection, rfl⟩

def SamePool (args : Bytes) (w v : World) : Prop :=
  ∀ token, Payload.Block.address ⟨args⟩ 0 = .ok token → w.pool token = v.pool token

theorem matches_existing (h : Payload.Block.address ⟨args⟩ 0 = .ok token) :
    Matches (Frozen.Over (SamePool args)) (existingPool token) (existingPool token) := by
  intro s t hst
  have hpool := hst token h
  cases hopen : (t.host.pool token).isOpen with
  | true =>
    rw [(displays_frozen s).existing_of_open token (hpool ▸ hopen), (displays_frozen t).existing_of_open token hopen]
    exact ⟨hpool, hst⟩
  | false =>
    rw [(displays_frozen s).existing_of_not_open token (hpool ▸ hopen),
      (displays_frozen t).existing_of_not_open token hopen]
    exact ⟨rfl, hst⟩

theorem matches_backing (args : Bytes) : Matches (Frozen.Over (SamePool args)) (backing args) (backing args) := by
  refine .ofPayload_bind fun (token, amount) hargs => ?_
  refine .bind (matches_existing (Call.first_of_tokenAmount hargs)) fun pool => ?_
  exact .bind (.ofResult _) fun _ => .pure _

theorem matches_floorPrice (args : Bytes) :
    Matches (Frozen.Over (SamePool args)) (floorPrice args) (floorPrice args) := by
  refine .ofPayload_bind fun token hargs => .bind (matches_existing (Call.first_of_oneAddress hargs)) fun pool => ?_
  exact .bind (.ofResult _) fun _ => .pure _

theorem matches_query {other : Context} (hquery : m.mutates = false) :
    Matches (SamePool args) (perform settings context args m) (perform settings other args m) := by
  cases m with
  | backing => exact Frozen.matches_view (matches_backing args)
  | floorPrice => exact Frozen.matches_view (matches_floorPrice args)
  | create => cases hquery
  | burn => cases hquery

theorem handle_of_query {σ : Type} [Host σ] (hsplit : Payload.split payload = .ok (m.selector, args))
    (hquery : m.mutates = false) (s : σ) :
    handle settings context payload limit s =
      (do
        Attempt.rejectIf (limit < settings.tariff.cost payload.length m)
          (.outOfGas (settings.tariff.cost payload.length m) limit)
        Attempt.rejectIf (context.value ≠ 0) (.nonPayable context.value)
        let output ← perform settings context args m
        pure ⟨settings.tariff.cost payload.length m, output⟩ : Attempt σ Receipt) s := by
  have hstatic : (Attempt.rejectIf (m.mutates = true ∧ context.isStatic = true) .readOnly : Attempt σ Unit) = pure () := by
    rw [Attempt.rejectIf, if_neg (by simp [hquery])]
  apply (bind_of_ok (Attempt.ofPayload_eq_ok.mpr ⟨hsplit, rfl⟩)).trans
  apply (bind_of_ok (methodOf_eq_ok.mpr ⟨rfl, rfl⟩)).trans
  rw [hstatic]
  rfl

theorem matches_execute {other : Context} (hsplit : Payload.split payload = .ok (m.selector, args))
    (hquery : m.mutates = false) (hvalue : context.value = other.value) :
    Matches (SamePool args) (execute settings context payload limit) (execute settings other payload limit) := by
  have hhandle : Matches (SamePool args) (handle settings context payload limit)
      (handle settings other payload limit) := by
    intro w v hwv
    rw [handle_of_query hsplit hquery, handle_of_query hsplit hquery, hvalue]
    refine Matches.bind (.rejectIf _ _) (fun _ => .bind (.rejectIf _ _) fun _ => ?_) w v hwv
    exact .bind (matches_query hquery) fun _ => .pure _
  intro w v hwv
  cases hv : handle settings other payload limit v with
  | ok receipt v' =>
    obtain ⟨w', hw, hwv'⟩ := hhandle.of_ok hwv hv
    simp only [execute, hw, hv]
    exact ⟨rfl, hwv'⟩
  | error rejection v' =>
    obtain ⟨w', hw, hwv'⟩ := hhandle.of_error hwv hv
    simp only [execute, hw, hv]
    exact ⟨rfl, hwv'⟩

/-- The answer to a query tells nothing but the pool of the token that its payload names. -/
theorem query_secluded (settings : Settings) (payload : Bytes) (limit : Gas) :
    (∀ context : Context, context.isStatic = true →
      Quiet (execute settings context payload limit : Attempt World Receipt) ∧
      Quiet (run settings context payload limit : EStateM Failure World Receipt)) ∧
    ∀ (m : Method) (args : Bytes), Payload.split payload = .ok (m.selector, args) → m.mutates = false →
      ∀ (context other : Context) (w v : World), context.value = other.value →
        (∀ token, Payload.Block.address ⟨args⟩ 0 = .ok token → ∀ i < Pool.slots,
          w.word token (Pool.slotKey token i) = v.word token (Pool.slotKey token i)) →
        (w.step settings (.call context payload limit)).1 = (v.step settings (.call other payload limit)).1 := by
  refine ⟨fun context hstatic => ?_, fun m args hsplit hquery context other w v hvalue hwords => ?_⟩
  · exact ⟨quiet_of_static hstatic, (quiet_of_static hstatic).adapt _⟩
  · have hsame : SamePool args w v := fun token htoken => World.pool_of_words (hwords token htoken)
    have hexecute : Matches (SamePool args) (execute settings context payload limit)
        (execute settings other payload limit) := matches_execute hsplit hquery hvalue
    cases hv : execute settings other payload limit v with
    | ok receipt v' =>
      obtain ⟨w', hw, _⟩ := hexecute.of_ok hsame hv
      rw [World.step_call_of_ok hw, World.step_call_of_ok hv]
    | error rejection v' =>
      obtain ⟨w', hw, _⟩ := hexecute.of_error hsame hv
      rw [World.step_call_of_error hw, World.step_call_of_error hv]

theorem query_secluded_sample :
    let w := World.setPool {} (.native 2 1000 100 0)
    let v := (w.setPool (.native 3 7 7 7)).setBalance 5 77
    let payload := (Call.backing 2 10).payload
    (v.step {} (.call { caller := 5, isStatic := true } payload 5000)).1 = .called (.ok ⟨5000, Word.bytes 100⟩) ∧
      Quiet (execute {} { caller := 5, isStatic := true } payload 5000 : Attempt World Receipt) := by
  intro w v payload
  have hpool : w.pool 2 = .native 2 1000 100 0 := World.pool_setPool_native_self ..
  have hcall : Admitted {} { caller := 1 } payload 5000 .backing (Payload.write (Call.backing 2 10).pieces) :=
    ⟨Method.split_selector _ _, by decide, rfl, nofun⟩
  have hread := Call.tokenAmount_write 2 10
  have hopen : (w.pool 2).isOpen = true := by
    rw [hpool]
    decide
  have hworth : (w.pool 2).backingFor 10 = .ok 100 := by
    rw [hpool]
    exact Pool.backingFor_eq_ok.mpr (by decide)
  have hwords : ∀ token, Payload.Block.address ⟨Payload.write (Call.backing 2 10).pieces⟩ 0 = .ok token →
      ∀ i < Pool.slots, w.word token (Pool.slotKey token i) = v.word token (Pool.slotKey token i) := by
    intro token htoken i _
    obtain rfl : token = 2 := Except.ok.inj (htoken.symm.trans (Call.first_of_tokenAmount hread))
    have hother : (Pool.native 3 7 7 7).token = 2 → Pool.slotKey 2 i ∉ Pool.slotKeys 2 := fun h => absurd h (by decide)
    exact (World.word_setPool_outside w hother).symm
  obtain ⟨hstatic, hanswer⟩ := query_secluded {} payload 5000
  have hsame := hanswer .backing _ hcall.split rfl { caller := 1 } { caller := 5, isStatic := true } w v rfl hwords
  refine ⟨?_, (hstatic _ rfl).1⟩
  rw [← hsame, World.step_call_of_ok (execute_backing_of hcall hread hopen hworth)]
  rfl

end Contract

end BackedToken
