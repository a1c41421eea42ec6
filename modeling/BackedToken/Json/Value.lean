import BackedToken.Bytes

namespace BackedToken

/-- A number keeps its literal. A string with half a surrogate pair in it has no text. -/
inductive Json
  | null
  | bool (b : Bool)
  | num (literal : List Char)
  | str (text : Option String)
  | arr (items : List Json)
  | obj (members : List (Option String × Json))

namespace Json

def escape (c : Char) : List Char :=
  if c = '"' then ['\\', '"']
  else if c = '\\' then ['\\', '\\']
  else if c = '\x08' then ['\\', 'b']
  else if c = '\x0c' then ['\\', 'f']
  else if c = '\n' then ['\\', 'n']
  else if c = '\r' then ['\\', 'r']
  else if c = '\t' then ['\\', 't']
  else if c.toNat < 0x20 then ['\\', 'u', '0', '0', Hex.digit (c.toNat / 16), Hex.digit (c.toNat % 16)]
  else [c]

def quote : Option String → List Char
  | some text => '"' :: text.toList.flatMap escape ++ ['"']
  | none => "\"\\ud800\"".toList

mutual

def render : Json → List Char
  | null => "null".toList
  | bool true => "true".toList
  | bool false => "false".toList
  | num literal => literal
  | str text => quote text
  | arr [] => ['[', ']']
  | arr (item :: items) => '[' :: render item ++ renderItems items
  | obj [] => ['{', '}']
  | obj ((key, value) :: members) => '{' :: quote key ++ ':' :: render value ++ renderMembers members

def renderItems : List Json → List Char
  | [] => [']']
  | item :: items => ',' :: render item ++ renderItems items

def renderMembers : List (Option String × Json) → List Char
  | [] => ['}']
  | (key, value) :: members => ',' :: quote key ++ ':' :: render value ++ renderMembers members

end

def text (s : String) : Json := str (some s)

def ofNat (n : Nat) : Json := num (Nat.toDigits 10 n)

def object (members : List (String × Json)) : Json := obj (members.map fun m => (some m.1, m.2))

end Json

end BackedToken
