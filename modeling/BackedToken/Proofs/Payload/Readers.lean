import BackedToken.Proofs.Payload.Guarded

/-! Readings on a stack of blocks, each of them the end of the one below it. -/

namespace BackedToken

namespace Payload

deriving instance DecidableEq for Block

inductive Reading
  | word
  | address
  | flag
  | offset
  | dynamic
  | text
  | tail

inductive Answer
  | word (w : Word)
  | address (a : Address)
  | flag (v : Bool)
  | offset (n : Nat)
  | dynamic (content : Bytes)
  | text (text : String)
  | tail (t : Block)
  deriving DecidableEq

def Block.read (b : Block) (index : Nat) : Reading → Except Fault Answer
  | .word => (b.word index).map .word
  | .address => (b.address index).map .address
  | .flag => (b.flag index).map .flag
  | .offset => (b.offset index).map .offset
  | .dynamic => (b.dynamic index).map .dynamic
  | .text => (b.text index).map .text
  | .tail => (b.tail index).map .tail

def Guarded.read (b : Block) (index : Nat) : Reading → Guarded Answer
  | .word => .word <$> word b index
  | .address => .address <$> address b index
  | .flag => .flag <$> flag b index
  | .offset => .offset <$> offset b index
  | .dynamic => .dynamic <$> dynamic b index
  | .text => .text <$> text b index
  | .tail => .tail <$> tail b index

def Answer.Within (bytes : Bytes) : Answer → Prop
  | word w => w.bytes <:+: bytes
  | address a => a.word.bytes <:+: bytes
  | flag v => (Word.ofBool v).bytes <:+: bytes
  | offset n => n ≤ bytes.length
  | dynamic content => content <:+: bytes
  | text s => Bytes.ofText s <:+: bytes
  | tail t => t.bytes <:+ bytes

inductive Step
  | pop
  | read (what : Reading) (index : UInt64)

structure Stack where
  top : Block
  below : List Block

namespace Stack

def ofBytes (bytes : Bytes) : Stack := ⟨⟨bytes⟩, []⟩

def pop : Stack → Stack
  | ⟨top, []⟩ => ⟨top, []⟩
  | ⟨_, b :: below⟩ => ⟨b, below⟩

def push (s : Stack) : Except Fault Answer → Stack
  | .ok (.tail t) => ⟨t, s.top :: s.below⟩
  | _ => s

def readAll (s : Stack) : List Step → List (Except Fault Answer) × Stack
  | [] => ([], s)
  | .pop :: steps => s.pop.readAll steps
  | .read what index :: steps =>
    let answer := s.top.read index.toNat what
    let (answers, last) := (s.push answer).readAll steps
    (answer :: answers, last)

def readAllGuarded (s : Stack) : List Step → Option (List (Except Fault Answer) × Stack)
  | [] => some ([], s)
  | .pop :: steps => s.pop.readAllGuarded steps
  | .read what index :: steps => do
    let answer ← (Guarded.read s.top index.toNat what).run
    let (answers, last) ← (s.push answer).readAllGuarded steps
    some (answer :: answers, last)

inductive Nested (bytes : Bytes) : Stack → Prop
  | whole : Nested bytes (ofBytes bytes)
  | tail {t b : Block} {below : List Block} (inside : t.bytes <:+ b.bytes) (rest : Nested bytes ⟨b, below⟩) :
      Nested bytes ⟨t, b :: below⟩

end Stack

theorem map_eq_ok {ε α β : Type} {r : Except ε α} {f : α → β} {b : β} : r.map f = .ok b ↔ ∃ a, r = .ok a ∧ f a = b := by
  cases r <;> simp [Except.map]

section Within

variable {b : Block} {index : Nat} {bytes outer : Bytes} {answer : Answer}

theorem slice_inside (bytes : Bytes) (start count : Nat) : (bytes.drop start).take count <:+: bytes :=
  (List.take_prefix ..).isInfix.trans (List.drop_suffix ..).isInfix

theorem inside_of_word {w : Word} (h : b.word index = .ok w) : w.bytes <:+: b.bytes := by
  rw [← Block.word_eq_ok_iff_bytes.mp h]
  apply slice_inside

theorem inside_of_dynamic {content : Bytes} (h : b.dynamic index = .ok content) : content <:+: b.bytes := by
  obtain ⟨_, _, _, rfl⟩ := Block.dynamic_eq_ok.mp h
  apply slice_inside

theorem within_of_read {what : Reading} (h : b.read index what = .ok answer) : answer.Within b.bytes := by
  cases what with
  | word =>
    obtain ⟨w, hw, rfl⟩ := map_eq_ok.mp h
    exact inside_of_word hw
  | address =>
    obtain ⟨a, ha, rfl⟩ := map_eq_ok.mp h
    apply inside_of_word
    exact Block.word_eq_ok_iff_bytes.mpr (Block.address_eq_ok_iff_bytes.mp ha)
  | flag =>
    obtain ⟨v, hv, rfl⟩ := map_eq_ok.mp h
    apply inside_of_word
    rw [Block.word_eq_ok, Word.toNat_ofBool]
    exact Block.flag_eq_ok.mp hv
  | offset =>
    obtain ⟨n, hn, rfl⟩ := map_eq_ok.mp h
    obtain ⟨_, hle, rfl⟩ := Block.offset_eq_ok.mp hn
    exact hle
  | dynamic =>
    obtain ⟨content, hcontent, rfl⟩ := map_eq_ok.mp h
    exact inside_of_dynamic hcontent
  | text =>
    obtain ⟨text, htext, rfl⟩ := map_eq_ok.mp h
    obtain ⟨_, _, hcontent⟩ := Block.text_eq_ok.mp htext
    rw [Answer.Within, hcontent]
    apply slice_inside
  | tail =>
    obtain ⟨t, ht, rfl⟩ := map_eq_ok.mp h
    obtain ⟨_, _, rfl⟩ := Block.tail_eq_ok.mp ht
    apply List.drop_suffix

theorem Answer.Within.mono (h : answer.Within bytes) (houter : bytes <:+ outer) : answer.Within outer := by
  cases answer with
  | offset n => exact Nat.le_trans h houter.length_le
  | tail t => exact h.trans houter
  | _ => exact h.trans houter.isInfix

theorem Guarded.map_settled {α β : Type} (f : α → β) (r : Except Fault α) : f <$> settled r = settled (r.map f) := by
  cases r <;> rfl

theorem Guarded.read_eq (hb : b.size + Word.size < UInt64.size) (what : Reading) :
    Guarded.read b index what = settled (b.read index what) := by
  cases what with
  | word => rw [Guarded.read, word_eq hb, map_settled, Block.read]
  | address => rw [Guarded.read, address_eq hb, map_settled, Block.read]
  | flag => rw [Guarded.read, flag_eq hb, map_settled, Block.read]
  | offset => rw [Guarded.read, offset_eq hb, map_settled, Block.read]
  | dynamic => rw [Guarded.read, dynamic_eq hb, map_settled, Block.read]
  | text => rw [Guarded.read, text_eq hb, map_settled, Block.read]
  | tail => rw [Guarded.read, tail_eq hb, map_settled, Block.read]

end Within

theorem Block.word_eq_error {b : Block} {index : Nat} {fault : Fault} :
    b.word index = .error fault ↔ b.size < Word.size * (index + 1) ∧
      fault = if UInt64.size ≤ Word.size * (index + 1) then .range else .truncated (Word.size * (index + 1)) b.size := by
  rw [word]
  by_cases hshort : b.size < Word.size * (index + 1)
  · by_cases hfar : UInt64.size ≤ Word.size * (index + 1)
    · simp [hshort, hfar, eq_comm]
    · have hend : Word.size * index + Word.size = Word.size * (index + 1) := (Nat.mul_succ ..).symm
      simp [hshort, hfar, wordAt, need, hend, bind, Except.bind, eq_comm]
  · have hinside : Word.size * index + Word.size ≤ b.size := Nat.mul_succ .. ▸ Nat.not_lt.mp hshort
    obtain ⟨w, hw⟩ : ∃ w, b.wordAt (Word.size * index) = .ok w :=
      ⟨_, wordAt_eq_ok.mpr ⟨hinside, BitVec.toNat_ofNatLT _ (b.bytes.numberAt_lt _)⟩⟩
    simp [hshort, hw]

namespace Stack

variable {bytes : Bytes} {s : Stack}

namespace Nested

theorem top_suffix (h : Nested bytes s) : s.top.bytes <:+ bytes := by
  induction h with
  | whole => exact List.suffix_rfl
  | tail inside _ ih => exact inside.trans ih

theorem pop (h : Nested bytes s) : Nested bytes s.pop := by
  cases h with
  | whole => exact .whole
  | tail _ rest => exact rest

theorem push (h : Nested bytes s) (index : Nat) (what : Reading) : Nested bytes (s.push (s.top.read index what)) := by
  cases hread : s.top.read index what with
  | error fault => exact h
  | ok answer =>
    cases answer with
    | tail t => exact .tail (within_of_read hread) h
    | _ => exact h

theorem readAll (h : Nested bytes s) (steps : List Step) :
    Nested bytes (s.readAll steps).2 ∧ ∀ answer, .ok answer ∈ (s.readAll steps).1 → answer.Within bytes := by
  induction steps generalizing s with
  | nil => exact ⟨h, fun _ hmem => nomatch hmem⟩
  | cons step steps ih =>
    cases step with
    | pop => exact ih h.pop
    | read what index =>
      obtain ⟨hlast, hrest⟩ := ih (h.push index.toNat what)
      refine ⟨hlast, fun answer hmem => ?_⟩
      obtain hfirst | hlater := List.mem_cons.mp hmem
      · exact (within_of_read hfirst.symm).mono h.top_suffix
      · exact hrest answer hlater

theorem readAllGuarded (h : Nested bytes s) (hb : bytes.length + Word.size < UInt64.size) (steps : List Step) :
    s.readAllGuarded steps = some (s.readAll steps) := by
  induction steps generalizing s with
  | nil => rfl
  | cons step steps ih =>
    cases step with
    | pop => exact ih h.pop
    | read what index =>
      have htop : s.top.size + Word.size < UInt64.size := by
        have hle := h.top_suffix.length_le
        rw [Block.size]
        omega
      have hrest := ih (h.push index.toNat what)
      rw [Stack.readAllGuarded, Guarded.read_eq htop]
      simp [Guarded.settled, hrest, Stack.readAll]

end Nested

end Stack

/-- Whatever is read of a byte string in memory, no operation leaves its range, and all that is answered stands in the
bytes. -/
theorem reading_in_range :
    (∀ (bytes : Bytes) (steps : List Step), bytes.length + Word.size < UInt64.size → ∃ answers last,
      (Stack.ofBytes bytes).readAllGuarded steps = some (answers, last) ∧
      (Stack.ofBytes bytes).readAll steps = (answers, last) ∧
      Stack.Nested bytes last ∧ ∀ answer, .ok answer ∈ answers → answer.Within bytes) ∧
    ∀ (b : Block) (index : Nat),
      (∀ w, b.word index = .ok w ↔
        Word.size * (index + 1) ≤ b.size ∧ w.bytes = (b.bytes.drop (Word.size * index)).take Word.size) ∧
      ∀ fault, b.word index = .error fault ↔ b.size < Word.size * (index + 1) ∧
        fault = if UInt64.size ≤ Word.size * (index + 1) then .range else .truncated (Word.size * (index + 1)) b.size := by
  refine ⟨fun bytes steps hb => ?_, fun b index => ⟨fun w => ?_, fun fault => Block.word_eq_error⟩⟩
  · have hnested : Stack.Nested bytes (Stack.ofBytes bytes) := .whole
    obtain ⟨hlast, hanswers⟩ := hnested.readAll steps
    exact ⟨_, _, hnested.readAllGuarded hb steps, rfl, hlast, hanswers⟩
  · rw [eq_comm (b := List.take ..), ← Block.word_eq_ok_iff_bytes, iff_and_self]
    intro hw
    exact (Block.word_eq_ok.mp hw).1

theorem reading_in_range_sample :
    let bytes := Word.bytes 32 ++ Word.bytes 32 ++ Word.bytes 2 ++ [7, 8]
    let steps := [Step.read .tail 0, .read .dynamic 0, .read .word 3, .read .word 0xFFFFFFFFFFFFFFFF]
    bytes.length + Word.size < UInt64.size ∧ ∃ last,
      (Stack.ofBytes bytes).readAllGuarded steps =
        some ([.ok (.tail ⟨bytes.drop 32⟩), .ok (.dynamic [7, 8]), .error (.truncated 128 66), .error .range], last) ∧
      Stack.Nested bytes last := by
  intro bytes steps
  have hb : bytes.length + Word.size < UInt64.size := by decide
  obtain ⟨answers, last, hguarded, hplain, hnested, _⟩ := reading_in_range.1 bytes steps hb
  have hread : ((Stack.ofBytes bytes).readAll steps).1 =
      [.ok (.tail ⟨bytes.drop 32⟩), .ok (.dynamic [7, 8]), .error (.truncated 128 66), .error .range] := by decide +kernel
  rw [hplain] at hread
  exact ⟨hb, last, hread ▸ hguarded, hnested⟩

end Payload

end BackedToken
