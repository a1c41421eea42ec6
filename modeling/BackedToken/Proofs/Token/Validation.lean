import BackedToken.Proofs.Outcome.Checks
import BackedToken.Token.Terms
import Mathlib.Algebra.BigOperators.Group.List.Basic

namespace BackedToken

namespace Word

theorem toNat_saturatingAdd (a b : Word) : (saturatingAdd a b).toNat = min (a.toNat + b.toNat) (2 ^ 256 - 1) := by
  rw [saturatingAdd]
  cases hsum : ofNat? (a.toNat + b.toNat) with
  | some total =>
    obtain ⟨hlt, rfl⟩ := ofNat?_add_eq_some_iff.mp hsum
    rw [Option.getD_some, ofNat?_eq_some_iff.mp hsum]
    omega
  | none =>
    have hlarge := ofNat?_eq_none_iff.mp hsum
    rw [Option.getD_none, BitVec.toNat_allOnes]
    omega

theorem toNat_foldl_saturatingAdd (words : List Word) (start : Word) :
    (words.foldl saturatingAdd start).toNat = min (start.toNat + (words.map BitVec.toNat).sum) (2 ^ 256 - 1) := by
  induction words generalizing start with
  | nil => exact (Nat.min_eq_left (Nat.le_pred_of_lt start.isLt)).symm
  | cons w rest ih =>
    -- a sum that has reached the greatest word stays there
    rw [List.foldl_cons, ih, toNat_saturatingAdd, List.map_cons, List.sum_cons]
    omega

end Word

namespace Terms

open Check

variable {rates rates' : List Word}

def exactTotal (rates : List Word) : Nat := (rates.map BitVec.toNat).sum

theorem toNat_sideTotal (rates : List Word) : (sideTotal rates).toNat = min (exactTotal rates) (2 ^ 256 - 1) := by
  rw [sideTotal, Word.toNat_foldl_saturatingAdd, exactTotal]
  exact congrArg (min · _) (Nat.zero_add _)

theorem sideTotal_eq (rates : List Word) : sideTotal rates = BitVec.ofNat 256 (min (exactTotal rates) (2 ^ 256 - 1)) := by
  rw [← toNat_sideTotal, BitVec.ofNat_toNat, BitVec.setWidth_eq]

theorem feeCap_lt_sideTotal : feeCap < (sideTotal rates).toNat ↔ feeCap < exactTotal rates := by
  rw [toNat_sideTotal, feeCap]
  omega

theorem sideTotal_perm (h : rates.Perm rates') : sideTotal rates = sideTotal rates' := by
  rw [sideTotal_eq, sideTotal_eq, exactTotal, exactTotal, (h.map _).sum_eq]

def rules (terms : Terms) : List Check :=
  let buy := exactTotal (terms.plan.rates.toList.take 6)
  let sell := exactTotal (terms.plan.rates.toList.drop 6)
  [⟨0 < terms.supply.toNat, .zeroSupply⟩,
    ⟨buy ≤ 500, .buyFeesTooHigh (BitVec.ofNat 256 (min buy (2 ^ 256 - 1))) 500⟩,
    ⟨sell ≤ 500, .sellFeesTooHigh (BitVec.ofNat 256 (min sell (2 ^ 256 - 1))) 500⟩,
    ⟨terms.backingAsset = 0, .unsupportedBackingAsset terms.backingAsset⟩]

theorem decides_validate (terms : Terms) : Decides terms.rules (Attempt.ofResult terms.validate ()) := by
  have hsupply : 0 < terms.supply.toNat ↔ ¬terms.supply = 0 := by
    rw [Nat.pos_iff_ne_zero, ne_eq, BitVec.toNat_eq]
    rfl
  simp only [validate, feeCap_lt_sideTotal]
  simp only [sideTotal_eq]
  refine .ite hsupply fun _ => .ite Nat.not_lt.symm fun _ => .ite Nat.not_lt.symm fun _ => ?_
  exact .ite not_not.symm fun _ => .nil _ _

theorem validation_exact (terms : Terms) :
    let buy := exactTotal (terms.plan.rates.toList.take 6)
    let sell := exactTotal (terms.plan.rates.toList.drop 6)
    (terms.validate = .ok () ↔ 0 < terms.supply.toNat ∧ buy ≤ 500 ∧ sell ≤ 500 ∧ terms.backingAsset = 0) ∧
    (∀ rejection, terms.validate = .error rejection ↔ Refuses terms.rules rejection) ∧
    ∀ other : Terms, other.supply = terms.supply → other.backingAsset = terms.backingAsset →
      (other.plan.rates.toList.take 6).Perm (terms.plan.rates.toList.take 6) →
      (other.plan.rates.toList.drop 6).Perm (terms.plan.rates.toList.drop 6) → other.validate = terms.validate := by
  intro buy sell
  have hdecides := decides_validate terms
  refine ⟨?_, fun rejection => hdecides.result_eq_error, fun other hsupply hasset hbuy hsell => ?_⟩
  · have hvalid : (∃ a, terms.validate = .ok a) ↔ terms.validate = .ok () := ⟨fun ⟨_, h⟩ => h, fun h => ⟨_, h⟩⟩
    rw [← hvalid, hdecides.result_eq_ok]
    simp [rules, buy, sell]
  · have hbuy' : sideTotal other.plan.buyRates = sideTotal terms.plan.buyRates := sideTotal_perm hbuy
    have hsell' : sideTotal other.plan.sellRates = sideTotal terms.plan.sellRates := sideTotal_perm hsell
    rw [validate, validate, hsupply, hasset, hbuy', hsell']

theorem validation_exact_sample :
    let terms : Terms := { supply := 1, plan := { rates := #v[BitVec.allOnes 256, 2, 0, 0, 0, 0, 7, 0, 0, 0, 0, 0] } }
    let other : Terms := { supply := 1, plan := { rates := #v[0, 2, 0, BitVec.allOnes 256, 0, 0, 0, 0, 7, 0, 0, 0] } }
    terms.validate = .error (.buyFeesTooHigh (BitVec.allOnes 256) 500) ∧ other.validate = terms.validate := by
  intro terms other
  obtain ⟨_, hrefuses, hreordered⟩ := validation_exact terms
  refine ⟨(hrefuses _).mpr (.there (by decide) (.here (by decide))), hreordered other rfl rfl ?_ ?_⟩
  · decide
  · decide

end Terms

end BackedToken
