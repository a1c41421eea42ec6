import BackedToken.Contract.Method
import BackedToken.Proofs.Digest
import Mathlib.Data.List.Nodup

namespace BackedToken

namespace Method

theorem selectors : all.map selector =
    [[0x80, 0x43, 0x01, 0xa0], [0xe9, 0xbf, 0xd1, 0xad], [0x5f, 0xd5, 0xe2, 0xa5], [0xc3, 0xe2, 0x14, 0xfc]] := by
  simp only [all, List.map_cons, List.map_nil, selector_eq, BackedToken.selector, Word.digest_eq]
  decide +kernel

theorem mem_all (m : Method) : m ∈ all := by
  cases m <;> decide

theorem selector_injective : Function.Injective selector := by
  have hnodup : (all.map selector).Nodup := by
    rw [selectors]
    decide
  intro m m' h
  exact List.inj_on_of_nodup_map hnodup (mem_all m) (mem_all m') h

theorem ofSelector?_eq_some_iff {bytes : Bytes} {m : Method} : ofSelector? bytes = some m ↔ bytes = m.selector := by
  have hfound : ∀ {m'}, ofSelector? bytes = some m' → m'.selector = bytes := by
    intro m' h
    rw [ofSelector?] at h
    exact eq_of_beq (List.find?_some (p := fun m : Method => m.selector == bytes) h)
  constructor
  · intro h
    exact (hfound h).symm
  · intro h
    cases hm : ofSelector? bytes with
    | none => exact (List.find?_eq_none.mp hm m (mem_all m) (beq_iff_eq.mpr h.symm)).elim
    | some m' => rw [selector_injective ((hfound hm).trans h)]

theorem length_selector (m : Method) : m.selector.length = Payload.selectorSize := by
  rw [selector_eq, BackedToken.selector, List.length_take, Word.length_bytes]
  rfl

theorem split_selector (m : Method) (args : Bytes) : Payload.split (m.selector ++ args) = .ok (m.selector, args) := by
  have hlong : ¬(m.selector ++ args).length < Payload.selectorSize := by
    rw [List.length_append, length_selector]
    omega
  rw [Payload.split, if_neg hlong, ← m.length_selector, List.take_left, List.drop_left]

theorem eq_of_split {payload args args' : Bytes} {m m' : Method} (h : Payload.split payload = .ok (m.selector, args))
    (h' : Payload.split payload = .ok (m'.selector, args')) : m = m' ∧ args = args' := by
  obtain ⟨hselector, hargs⟩ := Prod.mk.inj (Except.ok.inj (h.symm.trans h'))
  exact ⟨selector_injective hselector, hargs⟩

end Method

end BackedToken
