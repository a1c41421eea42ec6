import BackedToken.Contract.Settings
import BackedToken.Json.Fields
import BackedToken.Pool

namespace BackedToken

open Json (required optional)

namespace FeePlan

def rates? (j : Json) : Option (Vector Word 12) := do
  let rates ← j.items? Json.quantity?
  if h : rates.length = 12 then some ⟨rates.toArray, h⟩ else none

def ofRates (rates : Vector Word 12) : Json := .arr (rates.toList.map Json.ofQuantity)

def ofJson? (j : Json) : Option FeePlan := do
  let fields ← j.fields? ["fees", "only_sb", "owner", "enable_lge"]
  let rates ← required fields "fees" rates?
  let onlySB ← required fields "only_sb" Json.flag?
  let owner ← required fields "owner" Json.address?
  let enableLGE ← required fields "enable_lge" Json.flag?
  some ⟨rates, onlySB, owner, enableLGE⟩

def toJson (plan : FeePlan) : Json :=
  .object [("fees", ofRates plan.rates), ("only_sb", .bool plan.onlySB), ("owner", .ofAddress plan.owner),
    ("enable_lge", .bool plan.enableLGE)]

end FeePlan

namespace Terms

def ofJson? (j : Json) : Option Terms := do
  let fields ← j.fields? ["name", "symbol", "total_supply", "backing_asset", "initial_backing", "fees", "only_sb", "owner",
    "enable_lge"]
  let name ← required fields "name" Json.text?
  let symbol ← required fields "symbol" Json.text?
  let supply ← required fields "total_supply" Json.quantity?
  let backingAsset ← required fields "backing_asset" Json.address?
  let initialBacking ← required fields "initial_backing" Json.quantity?
  let rates ← required fields "fees" FeePlan.rates?
  let onlySB ← required fields "only_sb" Json.flag?
  let owner ← required fields "owner" Json.address?
  let enableLGE ← required fields "enable_lge" Json.flag?
  some ⟨name, symbol, supply, backingAsset, initialBacking, ⟨rates, onlySB, owner, enableLGE⟩⟩

def toJson (terms : Terms) : Json :=
  .object [("name", .text terms.name), ("symbol", .text terms.symbol), ("total_supply", .ofQuantity terms.supply),
    ("backing_asset", .ofAddress terms.backingAsset), ("initial_backing", .ofQuantity terms.initialBacking),
    ("fees", FeePlan.ofRates terms.plan.rates), ("only_sb", .bool terms.plan.onlySB), ("owner", .ofAddress terms.plan.owner),
    ("enable_lge", .bool terms.plan.enableLGE)]

end Terms

namespace Pool

def ofJson? (j : Json) : Option Pool := do
  let fields ← j.fields? ["token_address", "backing_asset", "total_backing", "total_supply", "burned_supply", "backing_assets",
    "backing_amounts"]
  let token ← required fields "token_address" Json.address?
  let asset ← required fields "backing_asset" Json.address?
  let backing ← required fields "total_backing" Json.quantity?
  let supply ← required fields "total_supply" Json.quantity?
  let burned ← required fields "burned_supply" Json.quantity?
  let assets ← required fields "backing_assets" (Json.items? Json.address?)
  let amounts ← required fields "backing_amounts" (Json.items? Json.quantity?)
  some ⟨token, asset, backing, supply, burned, assets, amounts⟩

def toJson (pool : Pool) : Json :=
  .object [("token_address", .ofAddress pool.token), ("backing_asset", .ofAddress pool.asset),
    ("total_backing", .ofQuantity pool.backing), ("total_supply", .ofQuantity pool.supply),
    ("burned_supply", .ofQuantity pool.burned), ("backing_assets", .arr (pool.assets.map .ofAddress)),
    ("backing_amounts", .arr (pool.amounts.map .ofQuantity))]

def Summary.ofJson? (j : Json) : Option Summary := do
  let fields ← j.fields? ["backing_asset", "total_backing", "total_supply", "burned_supply", "floor_price", "backing_per_token"]
  let asset ← required fields "backing_asset" Json.address?
  let backing ← required fields "total_backing" Json.quantity?
  let supply ← required fields "total_supply" Json.quantity?
  let burned ← required fields "burned_supply" Json.quantity?
  let floorPrice ← required fields "floor_price" Json.quantity?
  let perToken ← required fields "backing_per_token" Json.quantity?
  some ⟨asset, backing, supply, burned, floorPrice, perToken⟩

def Summary.toJson (s : Summary) : Json :=
  .object [("backing_asset", .ofAddress s.asset), ("total_backing", .ofQuantity s.backing),
    ("total_supply", .ofQuantity s.supply), ("burned_supply", .ofQuantity s.burned),
    ("floor_price", .ofQuantity s.floorPrice), ("backing_per_token", .ofQuantity s.perToken)]

end Pool

namespace Tariff

def fieldNames : List String := ["create_token", "per_byte", "get_backing", "burn_and_recover", "get_floor_price"]

def ofJson? (j : Json) : Option Tariff := do
  let base : Tariff := {}
  let fields ← j.fields? fieldNames
  let create ← optional fields "create_token" Json.count? base.create
  let perByte ← optional fields "per_byte" Json.count? base.perByte
  let backing ← optional fields "get_backing" Json.count? base.backing
  let burn ← optional fields "burn_and_recover" Json.count? base.burn
  let floorPrice ← optional fields "get_floor_price" Json.count? base.floorPrice
  some ⟨create, perByte, backing, burn, floorPrice⟩

def toJson (t : Tariff) : Json :=
  .object [("create_token", .ofCount t.create), ("per_byte", .ofCount t.perByte), ("get_backing", .ofCount t.backing),
    ("burn_and_recover", .ofCount t.burn), ("get_floor_price", .ofCount t.floorPrice)]

end Tariff

namespace Settings

def fieldNames : List String := ["custodial_address", "gas"]

def ofJson? (j : Json) : Option Settings := do
  let base : Settings := {}
  let fields ← j.fields? fieldNames
  let custodian ← optional fields "custodial_address" Json.address? base.custodian
  let tariff ← optional fields "gas" Tariff.ofJson? base.tariff
  some ⟨custodian, tariff⟩

def toJson (s : Settings) : Json :=
  .object [("custodial_address", .ofAddress s.custodian), ("gas", s.tariff.toJson)]

inductive Fault
  | malformed
  | unreadable (path : String)
  | invalid (path : String)
  deriving DecidableEq, Repr

def Fault.message : Fault → String
  | malformed => "Failed to parse asset backing config"
  | unreadable path => s!"Failed to read config file {path}"
  | invalid path => s!"Invalid config file {path}"

def parse (text : String) : Except Fault Settings :=
  match (Json.parse? text.toList).bind ofJson? with
  | some settings => .ok settings
  | none => .error .malformed

def load (path : String) (content : Option Bytes) : Except Fault Settings :=
  match content.bind Bytes.text? with
  | none => .error (.unreadable path)
  | some text => (parse text).mapError fun _ => .invalid path

end Settings

end BackedToken
