import BackedToken.Proofs.Json.RoundTrip

namespace BackedToken

namespace Json

variable {α : Type} {members : List (String × Json)} {names : List String} {name : String}

def keys (members : List (String × Json)) : List String := members.map Prod.fst

def Once (names : List String) (members : List (String × Json)) : Prop := ∀ name ∈ names, (keys members).count name ≤ 1

def lookup (members : List (String × Json)) (name : String) : Option Json :=
  (members.find? (·.1 == name)).map Prod.snd

theorem fields?_of_once (h : Once names members) : fields? names (object members) = some (lookup members) := by
  rw [fields?_object_eq]
  exact if_pos h

theorem fields?_of_not_once (h : ¬Once names members) : fields? names (object members) = none := by
  rw [fields?_object_eq]
  exact if_neg h

theorem lookup_eq_none : lookup members name = none ↔ name ∉ keys members := by
  simp only [lookup, Option.map_eq_none_iff, List.find?_eq_none, beq_iff_eq, keys, List.mem_map, not_exists, not_and]

theorem mem_of_lookup {j : Json} (h : lookup members name = some j) : (name, j) ∈ members := by
  obtain ⟨⟨key, value⟩, hfind, rfl⟩ := Option.map_eq_some_iff.mp h
  obtain rfl : key = name := by simpa using List.find?_some hfind
  exact List.mem_of_find?_eq_some hfind

theorem lookup_of_mem {j : Json} (hone : (keys members).count name ≤ 1) (h : (name, j) ∈ members) :
    lookup members name = some j := by
  induction members with
  | nil => cases h
  | cons m rest ih =>
    have hone : (keys rest).count name + (if m.1 == name then 1 else 0) ≤ 1 := by
      rwa [keys, List.map_cons, List.count_cons] at hone
    obtain rfl | hrest := List.mem_cons.mp h
    · simp [lookup]
    · have hcount : 0 < (keys rest).count name := List.count_pos_iff.mpr (List.mem_map_of_mem hrest)
      have hother : (m.1 == name) = false := by
        by_contra hsame
        rw [Bool.not_eq_false] at hsame
        rw [if_pos hsame] at hone
        omega
      rw [lookup, List.find?_cons, hother]
      exact ih (by omega) hrest

theorem optional_eq {read : Json → Option α} {a d : α} (h : ∀ j, (name, j) ∈ members → read j = some a) :
    optional (lookup members) name read d = some (if name ∈ keys members then a else d) := by
  rw [optional]
  cases hlookup : lookup members name with
  | none => rw [if_neg (lookup_eq_none.mp hlookup)]
  | some j =>
    have hmem := mem_of_lookup hlookup
    have hkey : name ∈ keys members := List.mem_map_of_mem hmem
    rw [if_pos hkey]
    exact h j hmem

end Json

open Json (keys Once object Valid Spaced tokens)

namespace Tariff

variable {t : Tariff} {members : List (String × Json)}

structure Overrides (t : Tariff) (members : List (String × Json)) : Prop where
  once : Once fieldNames members
  create : ∀ j, ("create_token", j) ∈ members → Json.count? j = some t.create
  perByte : ∀ j, ("per_byte", j) ∈ members → Json.count? j = some t.perByte
  backing : ∀ j, ("get_backing", j) ∈ members → Json.count? j = some t.backing
  burn : ∀ j, ("burn_and_recover", j) ∈ members → Json.count? j = some t.burn
  floorPrice : ∀ j, ("get_floor_price", j) ∈ members → Json.count? j = some t.floorPrice

def chosen (t : Tariff) (names : List String) : Tariff where
  create := if "create_token" ∈ names then t.create else ({} : Tariff).create
  perByte := if "per_byte" ∈ names then t.perByte else ({} : Tariff).perByte
  backing := if "get_backing" ∈ names then t.backing else ({} : Tariff).backing
  burn := if "burn_and_recover" ∈ names then t.burn else ({} : Tariff).burn
  floorPrice := if "get_floor_price" ∈ names then t.floorPrice else ({} : Tariff).floorPrice

theorem Overrides.ofJson? (h : t.Overrides members) : Tariff.ofJson? (object members) = some (t.chosen (keys members)) := by
  simp [Tariff.ofJson?, Json.fields?_of_once h.once, Json.optional_eq h.create, Json.optional_eq h.perByte,
    Json.optional_eq h.backing, Json.optional_eq h.burn, Json.optional_eq h.floorPrice, chosen]

theorem ofJson?_of_not_once (h : ¬Once fieldNames members) : Tariff.ofJson? (object members) = none := by
  simp [Tariff.ofJson?, Json.fields?_of_not_once h]

end Tariff

namespace Settings

variable {s : Settings} {members prices : List (String × Json)}

structure Overrides (s : Settings) (prices members : List (String × Json)) : Prop where
  once : Once fieldNames members
  custodian : ∀ j, ("custodial_address", j) ∈ members → Json.address? j = some s.custodian
  gas : ∀ j, ("gas", j) ∈ members → j = object prices
  prices : s.tariff.Overrides prices

def chosen (s : Settings) (names priceNames : List String) : Settings where
  custodian := if "custodial_address" ∈ names then s.custodian else ({} : Settings).custodian
  tariff := if "gas" ∈ names then s.tariff.chosen priceNames else ({} : Settings).tariff

theorem Overrides.ofJson? (h : s.Overrides prices members) :
    Settings.ofJson? (object members) = some (s.chosen (keys members) (keys prices)) := by
  have htariff : ∀ j, ("gas", j) ∈ members → Tariff.ofJson? j = some (s.tariff.chosen (keys prices)) := by
    intro j hj
    rw [h.gas j hj]
    exact h.prices.ofJson?
  simp [Settings.ofJson?, Json.fields?_of_once h.once, Json.optional_eq h.custodian, Json.optional_eq htariff, chosen]

def Repeats (members : List (String × Json)) : Prop :=
  ¬Once fieldNames members ∨ ∃ prices, ("gas", object prices) ∈ members ∧ ¬Once Tariff.fieldNames prices

theorem ofJson?_of_repeats (h : Repeats members) : Settings.ofJson? (object members) = none := by
  by_cases honce : Once fieldNames members
  · obtain hnot | ⟨prices, hgas, hprices⟩ := h
    · exact absurd honce hnot
    · have hlookup := Json.lookup_of_mem (honce "gas" (by simp [fieldNames])) hgas
      simp [Settings.ofJson?, Json.fields?_of_once honce, Json.optional, hlookup, Tariff.ofJson?_of_not_once hprices]
  · simp [Settings.ofJson?, Json.fields?_of_not_once honce]

theorem parse_spaced {text : List Char} (hvalid : ∀ m ∈ members, Valid m.2) (h : Spaced (tokens (object members)) text) :
    parse (String.ofList text) = match Settings.ofJson? (object members) with
      | some s => .ok s
      | none => .error .malformed := by
  rw [parse, String.toList_ofList, (Json.valid_object hvalid).parse h]
  rfl

theorem overrides_exact :
    (∀ (s : Settings) (prices members : List (String × Json)), s.Overrides prices members →
      (∀ m ∈ members, Valid m.2) → ∀ text, Spaced (tokens (object members)) text →
      parse (String.ofList text) = .ok (s.chosen (keys members) (keys prices))) ∧
    ∀ members : List (String × Json), Repeats members → (∀ m ∈ members, Valid m.2) →
      ∀ text, Spaced (tokens (object members)) text → parse (String.ofList text) = .error .malformed := by
  constructor
  · intro s prices members h hvalid text hspaced
    rw [parse_spaced hvalid hspaced, h.ofJson?]
  · intro members h hvalid text hspaced
    rw [parse_spaced hvalid hspaced, ofJson?_of_repeats h]

theorem overrides_exact_sample :
    let s : Settings := { custodian := 0xff, tariff := { perByte := 16, burn := 7 } }
    let prices : List (String × Json) := [("refund", .null), ("per_byte", .ofCount 16)]
    let members : List (String × Json) := [("old", .object [("custodial_address", .bool false)]), ("gas", object prices)]
    let doubled : List (String × Json) := [("gas", object (("per_byte", .arr []) :: prices))]
    s.Overrides prices members ∧ (∀ m ∈ members, Valid m.2) ∧
      parse (String.ofList (Json.render (object members))) = .ok { tariff := { perByte := 16 } } ∧
      Repeats doubled ∧ (∀ m ∈ doubled, Valid m.2) ∧
      parse (String.ofList (Json.render (object doubled))) = .error .malformed := by
  intro s prices members doubled
  have hprices : s.tariff.Overrides prices := by
    constructor <;> simp [prices, s, Once, keys, Tariff.fieldNames]
  have hover : s.Overrides prices members := by
    refine ⟨?_, ?_, ?_, hprices⟩ <;> simp [members, Once, keys, fieldNames]
  have hgas : Valid (object prices) := Json.valid_object (by simp [prices, Valid.null])
  have hold : Valid (object [("custodial_address", .bool false)]) := Json.valid_object (by simp)
  have hvalid : ∀ m ∈ members, Valid m.2 := by simp [members, hgas, hold]
  have hrepeats : Repeats doubled := .inr ⟨_, List.mem_cons_self, by simp [Once, keys, Tariff.fieldNames, prices]⟩
  have harray : Valid (.arr []) := .arr (by simp)
  have hdoubled : ∀ m ∈ doubled, Valid m.2 := by
    simp only [doubled, List.forall_mem_singleton]
    exact Json.valid_object (by simp [prices, Valid.null, harray])
  have hchosen : s.chosen (keys members) (keys prices) = { tariff := { perByte := 16 } } := by decide +kernel
  have hparse := overrides_exact.1 s prices members hover hvalid _ (.flatten _)
  have hrefused := overrides_exact.2 doubled hrepeats hdoubled _ (.flatten _)
  rw [Json.flatten_tokens] at hparse hrefused
  exact ⟨hover, hvalid, hchosen ▸ hparse, hrepeats, hdoubled, hrefused⟩

end Settings

end BackedToken
