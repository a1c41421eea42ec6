import BackedToken.Payload.Block

namespace BackedToken

def selector (signature : String) : Bytes := (Word.digest (Bytes.ofText signature)).bytes.take Payload.selectorSize

inductive Method
  | create
  | backing
  | burn
  | floorPrice
  deriving DecidableEq, Repr

namespace Method

def all : List Method := [create, backing, burn, floorPrice]

def name : Method → String
  | create => "createAssetBackedToken"
  | backing => "getBacking"
  | burn => "burnAndRecover"
  | floorPrice => "getFloorPrice"

def parameters : Method → String
  | create => "((string,string,uint256,address,uint256,uint256[12],bool,address,bool))"
  | backing | burn => "(address,uint256)"
  | floorPrice => "(address)"

def signature (m : Method) : String := m.name ++ m.parameters

private def createSelector : Bytes := BackedToken.selector create.signature

private def backingSelector : Bytes := BackedToken.selector backing.signature

private def burnSelector : Bytes := BackedToken.selector burn.signature

private def floorPriceSelector : Bytes := BackedToken.selector floorPrice.signature

def selector : Method → Bytes
  | create => createSelector
  | backing => backingSelector
  | burn => burnSelector
  | floorPrice => floorPriceSelector

def ofSelector? (bytes : Bytes) : Option Method := all.find? fun m => m.selector == bytes

def mutates : Method → Bool
  | create | burn => true
  | backing | floorPrice => false

theorem selector_eq (m : Method) : m.selector = BackedToken.selector m.signature := by
  cases m <;> rfl

end Method

end BackedToken
