import BackedToken.Json.Reader
import BackedToken.Word

/-! Records are read from objects, unknown members ignored, or from arrays of their fields in order. -/

namespace BackedToken.Json

def fields? (names : List String) : Json → Option (String → Option Json)
  | obj members =>
    if (members.all fun m => m.1.isSome) && names.all fun name => members.countP (·.1 == some name) ≤ 1 then
      some fun name => (members.find? (·.1 == some name)).map (·.2)
    else none
  | arr items => if items.length ≤ names.length then some fun name => items[names.idxOf name]? else none
  | _ => none

def required {α : Type} (fields : String → Option Json) (name : String) (read : Json → Option α) : Option α :=
  (fields name).bind read

def optional {α : Type} (fields : String → Option Json) (name : String) (read : Json → Option α) (default : α) : Option α :=
  match fields name with
  | some value => read value
  | none => some default

def text? : Json → Option String
  | str text => text
  | _ => none

def flag? : Json → Option Bool
  | bool b => some b
  | _ => none

def items? {α : Type} (read : Json → Option α) : Json → Option (List α)
  | arr items => items.mapM read
  | _ => none

def count? : Json → Option UInt64
  | num literal =>
    if literal.all Char.isDigit then
      let n := literal.foldl (fun n c => 10 * n + (c.toNat - 48)) 0
      if n < UInt64.size then some (UInt64.ofNat n) else none
    else none
  | _ => none

/-- Two characters make a byte, counted over the whole text with its blanks, so an odd number of blanks leaves the
last digit without a partner, and it is lost. -/
def spacedNat? (text : List Char) : Option Nat := do
  let digits := text.filter fun c => !isBlank c
  let n ← Hex.nat? digits
  pure (if (text.length - digits.length) % 2 = 0 then n else n / 16)

theorem spacedNat?_of_no_blank {text : List Char} (h : ∀ c ∈ text, isBlank c = false) : spacedNat? text = Hex.nat? text := by
  have hf : (text.filter fun c => !isBlank c) = text := List.filter_eq_self.mpr fun c hc => by simp [h c hc]
  simp [spacedNat?, hf]

def quantity? (j : Json) : Option Word := do
  let text := Hex.unmarked (← j.text?).toList
  if text.length = 0 ∨ 64 < text.length then none
  else (spacedNat? text).map (BitVec.ofNat 256)

def word? (j : Json) : Option Word := do
  let bytes ← Hex.decode (← j.text?).toList
  if bytes.length = Word.size then some (Word.ofBytes bytes) else none

def address? (j : Json) : Option Address := do
  (Address.parse (← j.text?)).toOption

def ofQuantity (w : Word) : Json := text (String.ofList ('0' :: 'x' :: Hex.ofNat w.toNat))

def ofWord (w : Word) : Json := text w.text

def ofAddress (a : Address) : Json := text a.text

def ofCount (n : UInt64) : Json := ofNat n.toNat

end BackedToken.Json
