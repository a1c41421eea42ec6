import BackedToken.Word

namespace BackedToken

namespace Payload

inductive Fault
  | truncated (needed available : Nat)
  | unaligned (length : Nat)
  | range
  | address
  | flag
  | text
  deriving DecidableEq, Repr

def Fault.message : Fault → String
  | truncated needed available => s!"Payload too short: need {needed} bytes, got {available}"
  | unaligned length => s!"Payload length {length} is not a multiple of the word size"
  | range => "Offset or length out of range"
  | address => "Address word has non-zero padding"
  | flag => "Boolean word must be 0 or 1"
  | text => "String is not valid UTF-8"

end Payload

namespace Host

inductive Fault
  | balanceOverflow (account : Address)
  | balanceInsufficient (account : Address) (need available : Word)
  | writeProtected
  | backend (reason : String)
  deriving DecidableEq, Repr

def Fault.message : Fault → String
  | balanceOverflow account => s!"Balance overflow for {account.text}"
  | balanceInsufficient account need available =>
    s!"Insufficient balance for {account.text}: need {need.decimal}, have {available.decimal}"
  | writeProtected => "State mutation attempted through a read-only view"
  | backend reason => s!"State backend error: {reason}"

end Host

inductive Rejection
  | malformedPayload (fault : Payload.Fault)
  | unknownSelector (selector : Bytes)
  | zeroCaller
  | readOnly
  | nonPayable (value : Word)
  | outOfGas (required limit : UInt64)
  | zeroSupply
  | buyFeesTooHigh (total : Word) (cap : Nat)
  | sellFeesTooHigh (total : Word) (cap : Nat)
  | unsupportedBackingAsset (asset : Address)
  | insufficientBalance (need available : Word)
  | tokenExists (token : Address)
  | poolNotFound (token : Address)
  | burnExceedsSupply (amount circulating : Word)
  | overflow
  | underflow
  | host (fault : Host.Fault)
  deriving DecidableEq, Repr

inductive Failure
  | reverted
  | outOfGas
  deriving DecidableEq, Repr

def Failure.message : Failure → String
  | reverted => "execution reverted"
  | outOfGas => "out of gas"

namespace Rejection

def message : Rejection → String
  | malformedPayload fault => s!"Malformed payload: {fault.message}"
  | unknownSelector selector => s!"Unknown method selector 0x{String.ofList (Hex.encode selector)}"
  | zeroCaller => "Caller identity is required"
  | readOnly => "State mutation is not allowed in a read-only call"
  | nonPayable value => s!"Method is not payable, received {value.decimal}"
  | outOfGas required limit => s!"Out of gas: required {required}, limit {limit}"
  | zeroSupply => "Total supply must be greater than zero"
  | buyFeesTooHigh total cap => s!"Buy-side fees {total.decimal} exceed the cap of {cap} bp"
  | sellFeesTooHigh total cap => s!"Sell-side fees {total.decimal} exceed the cap of {cap} bp"
  | unsupportedBackingAsset asset => s!"Backing asset {asset.text} is not the native coin"
  | insufficientBalance need available => s!"Insufficient balance: need {need.decimal}, have {available.decimal}"
  | tokenExists token => s!"Token {token.text} already exists"
  | poolNotFound token => s!"No backing pool for token {token.text}"
  | burnExceedsSupply amount circulating =>
    s!"Burning {amount.decimal} exceeds circulating supply {circulating.decimal}"
  | overflow => "Arithmetic overflow"
  | underflow => "Arithmetic underflow"
  | host fault => fault.message

def code : Rejection → Nat
  | malformedPayload _ => 0x300
  | unknownSelector _ => 0x301
  | zeroCaller => 0x310
  | readOnly => 0x311
  | nonPayable _ => 0x312
  | outOfGas _ _ => 0x313
  | zeroSupply => 0x320
  | buyFeesTooHigh _ _ => 0x321
  | sellFeesTooHigh _ _ => 0x322
  | unsupportedBackingAsset _ => 0x323
  | insufficientBalance _ _ => 0x330
  | tokenExists _ => 0x331
  | poolNotFound _ => 0x332
  | burnExceedsSupply _ _ => 0x333
  | overflow => 0x334
  | underflow => 0x335
  | host .writeProtected => 0x311
  | host _ => 0x3F0

def failure : Rejection → Failure
  | outOfGas _ _ => .outOfGas
  | _ => .reverted

end Rejection

end BackedToken
