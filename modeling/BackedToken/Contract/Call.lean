import BackedToken.Contract.Method
import BackedToken.Payload.Piece
import BackedToken.Token.Terms

namespace BackedToken

open Payload (Block Fault Piece)

inductive Call
  | create (terms : Terms)
  | backing (token : Address) (amount : Word)
  | burn (token : Address) (amount : Word)
  | floorPrice (token : Address)

namespace Terms

def headWords : Nat := 20

def ratesIndex : Nat := 5

def nameOffset : Nat := headWords * Word.size

def symbolOffset (terms : Terms) : Nat := nameOffset + Payload.dynamicSize (Bytes.ofText terms.name).length

def pieces (terms : Terms) : List Piece :=
  [.number Word.size, .number nameOffset, .number terms.symbolOffset, .word terms.supply, .address terms.backingAsset,
    .word terms.initialBacking] ++ terms.plan.rates.toList.map .word ++
  [.flag terms.plan.onlySB, .address terms.plan.owner, .flag terms.plan.enableLGE,
    .dynamic (Bytes.ofText terms.name), .dynamic (Bytes.ofText terms.symbol)]

def ofArguments (args : Bytes) : Except Fault Terms := do
  let block ← Block.ofArguments args 1
  let tuple ← block.tail 0
  tuple.need (headWords * Word.size)
  let rates ← (List.range 12).mapM fun i => tuple.word (ratesIndex + i)
  let name ← tuple.text 0
  let symbol ← tuple.text 1
  let supply ← tuple.word 2
  let backingAsset ← tuple.address 3
  let initialBacking ← tuple.word 4
  let onlySB ← tuple.flag 17
  let owner ← tuple.address 18
  let enableLGE ← tuple.flag 19
  pure ⟨name, symbol, supply, backingAsset, initialBacking, ⟨Vector.ofFn fun i => rates.getD i 0, onlySB, owner, enableLGE⟩⟩

end Terms

namespace Call

def method : Call → Method
  | create _ => .create
  | backing _ _ => .backing
  | burn _ _ => .burn
  | floorPrice _ => .floorPrice

def pieces : Call → List Piece
  | create terms => terms.pieces
  | backing token amount => [.address token, .word amount]
  | burn token amount => [.address token, .word amount]
  | floorPrice token => [.address token]

def payload (call : Call) : Bytes := call.method.selector ++ Payload.write call.pieces

def tokenAmount (args : Bytes) : Except Fault (Address × Word) := do
  let block ← Block.ofArguments args 2
  let token ← block.address 0
  let amount ← block.word 1
  pure (token, amount)

def oneAddress (args : Bytes) : Except Fault Address := do
  let block ← Block.ofArguments args 1
  block.address 0

def oneWord (args : Bytes) : Except Fault Word := do
  let block ← Block.ofArguments args 1
  block.word 0

end Call

end BackedToken
