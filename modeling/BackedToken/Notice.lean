import BackedToken.Pool
import BackedToken.Rejection

namespace BackedToken

inductive Level
  | info
  | debug
  | trace
  deriving DecidableEq, Repr

def Level.rank : Level → Nat
  | info => 0
  | debug => 1
  | trace => 2

inductive Notice
  | poolRead (pool : Pool) (slot : Nat)
  | poolWritten (pool : Pool) (slot : Nat)
  | planWritten (token : Address) (count slot : Nat)
  | committing (account : Address) (count : Nat)
  | created (token : Address) (terms : Terms)
  | burned (token caller : Address) (amount recovered rest : Word)
  | credited (token : Address) (amount total : Word)
  | rejected (caller : Address) (rejection : Rejection)

namespace Notice

def level : Notice → Level
  | poolRead _ _ | poolWritten _ _ | planWritten _ _ _ | committing _ _ => .trace
  | credited _ _ _ | rejected _ _ => .debug
  | created _ _ | burned _ _ _ _ _ => .info

private def holdings (pool : Pool) (slot : Nat) : String :=
  s!"pool of {pool.token.text} at slot {slot}: " ++
    s!"backing {pool.backing.decimal}, supply {pool.supply.decimal}, burned {pool.burned.decimal}"

def message : Notice → String
  | poolRead pool slot => "read " ++ holdings pool slot
  | poolWritten pool slot => "write " ++ holdings pool slot
  | planWritten token count slot => s!"write {count} fee slots of {token.text} at slot {slot}"
  | committing account count => s!"committing {count} storage writes for {account.text}"
  | created token terms =>
    s!"Created asset-backed token {terms.name} ({terms.symbol}) at {token.text}: " ++
      s!"supply {terms.supply.decimal}, backing {terms.initialBacking.decimal}"
  | burned token caller amount recovered rest =>
    s!"Burned {amount.decimal} of {token.text} for {caller.text}: " ++
      s!"recovered {recovered.decimal}, remaining backing {rest.decimal}"
  | credited token amount total => s!"Credited {amount.decimal} backing to {token.text}, total {total.decimal}"
  | rejected caller rejection =>
    s!"Asset backing call from {caller.text} rejected " ++
      s!"(code 0x{String.ofList (Hex.padded 4 rejection.code)}): {rejection.message}"

end Notice

end BackedToken
