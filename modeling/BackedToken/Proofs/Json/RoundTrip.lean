import BackedToken.Json.Forms
import BackedToken.Proofs.Json.Values

namespace BackedToken

open Json

namespace FeePlan

@[simp]
theorem rates?_ofRates (rates : Vector Word 12) : rates? (ofRates rates) = some rates := by
  obtain ⟨rates, hlength⟩ := rates
  simp [rates?, ofRates, hlength]

@[simp]
theorem valid_ofRates (rates : Vector Word 12) : Valid (ofRates rates) := valid_map valid_ofQuantity _

theorem ofJson?_toJson (plan : FeePlan) : ofJson? plan.toJson = some plan := by
  rw [ofJson?, toJson, fields?_object _ (by simp)]
  simp [required]

theorem valid_toJson (plan : FeePlan) : Valid plan.toJson := valid_object (by simp)

end FeePlan

namespace Terms

theorem ofJson?_toJson (terms : Terms) : ofJson? terms.toJson = some terms := by
  rw [ofJson?, toJson, fields?_object _ (by simp)]
  simp [required]

theorem valid_toJson (terms : Terms) : Valid terms.toJson := valid_object (by simp)

end Terms

namespace Pool

theorem ofJson?_toJson (pool : Pool) : ofJson? pool.toJson = some pool := by
  rw [ofJson?, toJson, fields?_object _ (by simp)]
  simp [required]

theorem valid_toJson (pool : Pool) : Valid pool.toJson := valid_object (by simp)

namespace Summary

theorem ofJson?_toJson (s : Summary) : ofJson? s.toJson = some s := by
  rw [ofJson?, toJson, fields?_object _ (by simp)]
  simp [required]

theorem valid_toJson (s : Summary) : Valid s.toJson := valid_object (by simp)

end Summary

end Pool

namespace Tariff

@[simp]
theorem ofJson?_toJson (t : Tariff) : ofJson? t.toJson = some t := by
  rw [ofJson?, toJson, fields?_object _ (by simp)]
  simp [Json.optional]

@[simp]
theorem valid_toJson (t : Tariff) : Valid t.toJson := valid_object (by simp)

end Tariff

namespace Settings

theorem ofJson?_toJson (s : Settings) : ofJson? s.toJson = some s := by
  rw [ofJson?, toJson, fields?_object _ (by simp)]
  simp [Json.optional]

theorem valid_toJson (s : Settings) : Valid s.toJson := valid_object (by simp)

end Settings

namespace Json

structure RoundTrips {α : Type} (write : α → Json) (read : Json → Option α) : Prop where
  reads : ∀ a, (parse? (render (write a))).bind read = some a
  rewrites : ∀ a b, (parse? (render (write a))).bind read = some b → render (write b) = render (write a)
  spaced : ∀ a text, Spaced (tokens (write a)) text → (parse? text).bind read = some a

theorem RoundTrips.of_valid {α : Type} {write : α → Json} {read : Json → Option α} (hvalid : ∀ a, Valid (write a))
    (hread : ∀ a, read (write a) = some a) : RoundTrips write read where
  reads a := by simp [(hvalid a).parse_render, hread]
  rewrites a b h := by
    obtain rfl : a = b := by simpa [(hvalid a).parse_render, hread] using h
    rfl
  spaced a text h := by simp [(hvalid a).parse h, hread]

theorem forms_round_trip :
    RoundTrips ofWord word? ∧ RoundTrips ofAddress address? ∧ RoundTrips ofQuantity quantity? ∧
    RoundTrips Terms.toJson Terms.ofJson? ∧ RoundTrips FeePlan.toJson FeePlan.ofJson? ∧
    RoundTrips Pool.toJson Pool.ofJson? ∧ RoundTrips Pool.Summary.toJson Pool.Summary.ofJson? ∧
    RoundTrips Tariff.toJson Tariff.ofJson? ∧ RoundTrips Settings.toJson Settings.ofJson? ∧
    (∀ settings text, Spaced (tokens (Settings.toJson settings)) text →
      Settings.parse (String.ofList text) = .ok settings) ∧
    ∀ j, (tokens j).flatten = render j := by
  have hsettings : RoundTrips Settings.toJson Settings.ofJson? := .of_valid Settings.valid_toJson Settings.ofJson?_toJson
  refine ⟨.of_valid valid_ofWord word?_ofWord, .of_valid valid_ofAddress address?_ofAddress,
    .of_valid valid_ofQuantity quantity?_ofQuantity, .of_valid Terms.valid_toJson Terms.ofJson?_toJson,
    .of_valid FeePlan.valid_toJson FeePlan.ofJson?_toJson, .of_valid Pool.valid_toJson Pool.ofJson?_toJson,
    .of_valid Pool.Summary.valid_toJson Pool.Summary.ofJson?_toJson,
    .of_valid Tariff.valid_toJson Tariff.ofJson?_toJson, hsettings, fun settings text hspaced => ?_, flatten_tokens⟩
  simp [Settings.parse, hsettings.spaced settings text hspaced]

end Json

end BackedToken
