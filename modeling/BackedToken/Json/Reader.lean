import BackedToken.Json.Value

/-! Reading JSON one character at a time, with the open arrays and objects in the state. -/

namespace BackedToken.Json

inductive Piece
  | char (c : Char)
  | code (n : Nat)

def isHigh (code : Nat) : Bool := 0xD800 ≤ code && code < 0xDC00

def isLow (code : Nat) : Bool := 0xDC00 ≤ code && code < 0xE000

def assemble : List Piece → Option (List Char)
  | [] => some []
  | .char c :: rest => (assemble rest).map (c :: ·)
  | .code high :: .code low :: rest =>
    if isHigh high && isLow low then
      (assemble rest).map (Char.ofNat (0x10000 + 0x400 * (high - 0xD800) + (low - 0xDC00)) :: ·)
    else if isHigh high || isLow high then none
    else (assemble (.code low :: rest)).map (Char.ofNat high :: ·)
  | .code n :: rest => if isHigh n || isLow n then none else (assemble rest).map (Char.ofNat n :: ·)

inductive Quoted
  | plain
  | escape
  | hex (missing code : Nat)

inductive Numeral
  | minus
  | zero
  | whole
  | point
  | fraction
  | mark
  | sign
  | exponent

abbrev Members := List (Option String × Json)

inductive Frame
  | arr (items : List Json)
  | obj (members : Members) (key : Option String)

/-- What may come next. A string is a key if it carries the members before it. -/
inductive Mode
  | value
  | firstItem
  | firstKey
  | key (members : Members)
  | colon (members : Members) (key : Option String)
  | quoted (owner : Option Members) (pieces : List Piece) (place : Quoted)
  | literal (rest : List Char) (value : Json)
  | numeral (place : Numeral) (digits : List Char)
  | done (value : Json)

structure State where
  frames : List Frame
  mode : Mode

def isBlank (c : Char) : Bool := c = ' ' || c = '\t' || c = '\n' || c = '\r'

def startValue (frames : List Frame) (c : Char) : Option State :=
  if c = '"' then some ⟨frames, .quoted none [] .plain⟩
  else if c = '[' then some ⟨frames, .firstItem⟩
  else if c = '{' then some ⟨frames, .firstKey⟩
  else if c = 't' then some ⟨frames, .literal ['r', 'u', 'e'] (bool true)⟩
  else if c = 'f' then some ⟨frames, .literal ['a', 'l', 's', 'e'] (bool false)⟩
  else if c = 'n' then some ⟨frames, .literal ['u', 'l', 'l'] null⟩
  else if c = '-' then some ⟨frames, .numeral .minus [c]⟩
  else if c = '0' then some ⟨frames, .numeral .zero [c]⟩
  else if c.isDigit then some ⟨frames, .numeral .whole [c]⟩
  else none

def endValue (frames : List Frame) (v : Json) (c : Char) : Option State :=
  if isBlank c then some ⟨frames, .done v⟩
  else match frames with
    | [] => none
    | .arr items :: frames =>
      if c = ',' then some ⟨.arr (v :: items) :: frames, .value⟩
      else if c = ']' then some ⟨frames, .done (arr (v :: items).reverse)⟩
      else none
    | .obj members key :: frames =>
      if c = ',' then some ⟨frames, .key ((key, v) :: members)⟩
      else if c = '}' then some ⟨frames, .done (obj ((key, v) :: members).reverse)⟩
      else none

def startKey (frames : List Frame) (members : Members) (c : Char) : Option State :=
  if c = '"' then some ⟨frames, .quoted (some members) [] .plain⟩ else none

def endQuoted (frames : List Frame) (owner : Option Members) (pieces : List Piece) : State :=
  let text := (assemble pieces.reverse).map String.ofList
  match owner with
  | none => ⟨frames, .done (str text)⟩
  | some members => ⟨frames, .colon members text⟩

def unescape? (c : Char) : Option Char :=
  if c = '"' then some '"'
  else if c = '\\' then some '\\'
  else if c = '/' then some '/'
  else if c = 'b' then some '\x08'
  else if c = 'f' then some '\x0c'
  else if c = 'n' then some '\n'
  else if c = 'r' then some '\r'
  else if c = 't' then some '\t'
  else none

def stepQuoted (frames : List Frame) (owner : Option Members) (pieces : List Piece) : Quoted → Char → Option State
  | .plain, c =>
    if c = '"' then some (endQuoted frames owner pieces)
    else if c = '\\' then some ⟨frames, .quoted owner pieces .escape⟩
    else if c.toNat < 0x20 then none
    else some ⟨frames, .quoted owner (.char c :: pieces) .plain⟩
  | .escape, c =>
    if c = 'u' then some ⟨frames, .quoted owner pieces (.hex 4 0)⟩
    else (unescape? c).map fun d => ⟨frames, .quoted owner (.char d :: pieces) .plain⟩
  | .hex missing code, c => do
    let code := 16 * code + (← Hex.value? c)
    if missing ≤ 1 then some ⟨frames, .quoted owner (.code code :: pieces) .plain⟩
    else some ⟨frames, .quoted owner pieces (.hex (missing - 1) code)⟩

def Numeral.next? : Numeral → Char → Option Numeral
  | .minus, c => if c = '0' then some .zero else if c.isDigit then some .whole else none
  | .zero, c => if c = '.' then some .point else if c = 'e' ∨ c = 'E' then some .mark else none
  | .whole, c =>
    if c.isDigit then some .whole else if c = '.' then some .point else if c = 'e' ∨ c = 'E' then some .mark else none
  | .point, c => if c.isDigit then some .fraction else none
  | .fraction, c => if c.isDigit then some .fraction else if c = 'e' ∨ c = 'E' then some .mark else none
  | .mark, c => if c = '+' ∨ c = '-' then some .sign else if c.isDigit then some .exponent else none
  | .sign, c => if c.isDigit then some .exponent else none
  | .exponent, c => if c.isDigit then some .exponent else none

def Numeral.isEnd : Numeral → Bool
  | .zero | .whole | .fraction | .exponent => true
  | _ => false

def stepNumeral (frames : List Frame) (place : Numeral) (digits : List Char) (c : Char) : Option State :=
  match place.next? c with
  | some place => some ⟨frames, .numeral place (c :: digits)⟩
  | none => if place.isEnd then endValue frames (num digits.reverse) c else none

def step (s : State) (c : Char) : Option State :=
  match s.mode with
  | .value => if isBlank c then some s else startValue s.frames c
  | .firstItem =>
    if isBlank c then some s
    else if c = ']' then some ⟨s.frames, .done (arr [])⟩
    else startValue (.arr [] :: s.frames) c
  | .firstKey =>
    if isBlank c then some s
    else if c = '}' then some ⟨s.frames, .done (obj [])⟩
    else startKey s.frames [] c
  | .key members => if isBlank c then some s else startKey s.frames members c
  | .colon members key =>
    if isBlank c then some s else if c = ':' then some ⟨.obj members key :: s.frames, .value⟩ else none
  | .quoted owner pieces place => stepQuoted s.frames owner pieces place c
  | .literal [] value => endValue s.frames value c
  | .literal [d] value => if c = d then some ⟨s.frames, .done value⟩ else none
  | .literal (d :: rest) value => if c = d then some ⟨s.frames, .literal rest value⟩ else none
  | .numeral place digits => stepNumeral s.frames place digits c
  | .done value => endValue s.frames value c

def finish? (s : State) : Option Json :=
  match s.frames, s.mode with
  | [], .done value => some value
  | [], .numeral place digits => if place.isEnd then some (num digits.reverse) else none
  | _, _ => none

def parse? (text : List Char) : Option Json := (text.foldlM step ⟨[], .value⟩).bind finish?

end BackedToken.Json
