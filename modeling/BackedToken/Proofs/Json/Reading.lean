import BackedToken.Json.Reader

/-! A text is a row of tokens with blanks between them, and the reader takes the tokens of a value to that value. -/

namespace BackedToken.Json

mutual

def tokens : Json → List (List Char)
  | arr [] => [['['], [']']]
  | arr (item :: items) => ['['] :: (tokens item ++ tokensItems items)
  | obj [] => [['{'], ['}']]
  | obj ((key, value) :: members) => ['{'] :: quote key :: [':'] :: (tokens value ++ tokensMembers members)
  | null => [render null]
  | bool b => [render (bool b)]
  | num literal => [literal]
  | str text => [quote text]

def tokensItems : List Json → List (List Char)
  | [] => [[']']]
  | item :: items => [','] :: (tokens item ++ tokensItems items)

def tokensMembers : List (Option String × Json) → List (List Char)
  | [] => [['}']]
  | (key, value) :: members => [','] :: quote key :: [':'] :: (tokens value ++ tokensMembers members)

end

theorem render_arr (item : Json) (items : List Json) :
    render (arr (item :: items)) = '[' :: render item ++ renderItems items := rfl

theorem render_obj (key : Option String) (value : Json) (members : List (Option String × Json)) :
    render (obj ((key, value) :: members)) = '{' :: quote key ++ ':' :: render value ++ renderMembers members := rfl

theorem renderItems_cons (item : Json) (items : List Json) :
    renderItems (item :: items) = ',' :: render item ++ renderItems items := rfl

theorem renderMembers_cons (key : Option String) (value : Json) (members : List (Option String × Json)) :
    renderMembers ((key, value) :: members) = ',' :: quote key ++ ':' :: render value ++ renderMembers members := rfl

mutual

theorem flatten_tokens : (j : Json) → (tokens j).flatten = render j
  | null => rfl
  | bool b => by simp [tokens]
  | num literal => List.append_nil literal
  | str text => List.append_nil (quote text)
  | arr [] => rfl
  | arr (item :: items) => by simp [tokens, render_arr, flatten_tokens item, flatten_tokensItems items]
  | obj [] => rfl
  | obj ((key, value) :: members) => by
    simp [tokens, render_obj, flatten_tokens value, flatten_tokensMembers members]

theorem flatten_tokensItems : (items : List Json) → (tokensItems items).flatten = renderItems items
  | [] => rfl
  | item :: items => by simp [tokensItems, renderItems_cons, flatten_tokens item, flatten_tokensItems items]

theorem flatten_tokensMembers : (members : List (Option String × Json)) →
    (tokensMembers members).flatten = renderMembers members
  | [] => rfl
  | (key, value) :: members => by
    simp [tokensMembers, renderMembers_cons, flatten_tokens value, flatten_tokensMembers members]

end

inductive Spaced : List (List Char) → List Char → Prop
  | nil {blanks : List Char} (blank : ∀ c ∈ blanks, isBlank c = true) : Spaced [] blanks
  | cons {blanks token text : List Char} {tokens : List (List Char)} (blank : ∀ c ∈ blanks, isBlank c = true)
      (rest : Spaced tokens text) : Spaced (token :: tokens) (blanks ++ token ++ text)

namespace Spaced

theorem flatten (tokens : List (List Char)) : Spaced tokens tokens.flatten := by
  induction tokens with
  | nil => exact .nil (by simp)
  | cons token tokens ih =>
    change Spaced (token :: tokens) ([] ++ token ++ tokens.flatten)
    exact .cons (by simp) ih

theorem split {front rest : List (List Char)} {text : List Char} (h : Spaced (front ++ rest) text) :
    ∃ first second, text = first ++ second ∧ Spaced front first ∧ Spaced rest second := by
  induction front generalizing text with
  | nil => exact ⟨[], text, rfl, .nil (by simp), h⟩
  | cons token front ih =>
    obtain _ | ⟨hblank, h⟩ := h
    obtain ⟨first, second, rfl, hfirst, hsecond⟩ := ih h
    exact ⟨_, second, by simp, .cons hblank hfirst, hsecond⟩

end Spaced

def Reads (s : State) (text : List Char) (s' : State) : Prop := text.foldlM step s = some s'

variable {s s' s'' : State} {frames : List Frame} {c : Char} {text blanks token : List Char} {v : Json}

namespace Reads

theorem nil (s : State) : Reads s [] s := rfl

theorem cons (h : step s c = some s') (rest : Reads s' text s'') : Reads s (c :: text) s'' := by
  rw [Reads, List.foldlM_cons, h]
  exact rest

theorem append {first second : List Char} (h : Reads s first s') (h' : Reads s' second s'') :
    Reads s (first ++ second) s'' := by
  rw [Reads, List.foldlM_append, h]
  exact h'

end Reads

def Waits (s : State) : Prop := ∀ c, isBlank c = true → step s c = some s

/-- The reader has read a value, or a number that more digits could still make longer. -/
inductive Ends (frames : List Frame) : Json → State → Prop
  | done (v : Json) : Ends frames v ⟨frames, .done v⟩
  | numeral {place : Numeral} {digits : List Char} (isEnd : place.isEnd = true) :
      Ends frames (num digits.reverse) ⟨frames, .numeral place digits⟩

theorem waits_done (v : Json) : Waits ⟨frames, .done v⟩ := fun c hc => by simp [step, endValue, hc]

theorem waits_colon (members : Members) (key : Option String) : Waits ⟨frames, .colon members key⟩ :=
  fun c hc => by simp [step, hc]

theorem waits_value : Waits ⟨frames, .value⟩ := fun c hc => by simp [step, hc]

theorem waits_firstItem : Waits ⟨frames, .firstItem⟩ := fun c hc => by simp [step, hc]

theorem waits_firstKey : Waits ⟨frames, .firstKey⟩ := fun c hc => by simp [step, hc]

theorem waits_key (members : Members) : Waits ⟨frames, .key members⟩ := fun c hc => by simp [step, hc]

theorem Waits.reads (h : Waits s) (hblank : ∀ c ∈ blanks, isBlank c = true) : Reads s blanks s := by
  induction blanks with
  | nil => exact .nil s
  | cons c blanks ih =>
    rw [List.forall_mem_cons] at hblank
    exact .cons (h c hblank.1) (ih hblank.2)

def Follows (c : Char) : Prop := isBlank c = true ∨ c = ',' ∨ c = ']' ∨ c = '}'

theorem Follows.next?_eq_none {place : Numeral} (h : Follows c) : place.next? c = none := by
  simp only [Follows, isBlank, Bool.or_eq_true, decide_eq_true_eq, or_assoc] at h
  obtain rfl | rfl | rfl | rfl | rfl | rfl | rfl := h <;> cases place <;> rfl

namespace Ends

theorem step_eq (h : Ends frames v s) (hc : Follows c) : step s c = endValue frames v c := by
  cases h with
  | done => rfl
  | numeral isEnd => simp [step, stepNumeral, hc.next?_eq_none, isEnd]

theorem reads (h : Ends frames v s) (hblank : ∀ c ∈ blanks, isBlank c = true) :
    ∃ s', Reads s blanks s' ∧ Ends frames v s' := by
  cases blanks with
  | nil => exact ⟨s, .nil s, h⟩
  | cons c blanks =>
    obtain ⟨hc, hblank⟩ := List.forall_mem_cons.mp hblank
    have hstep : step s c = some ⟨frames, .done v⟩ := by simp [h.step_eq (.inl hc), endValue, hc]
    exact ⟨_, .cons hstep ((waits_done v).reads hblank), .done v⟩

theorem finish (h : Ends [] v s) : finish? s = some v := by
  cases h with
  | done => rfl
  | numeral isEnd => simp [finish?, isEnd]

end Ends

def Leads (s : State) (tokens : List (List Char)) (P : State → Prop) : Prop :=
  ∀ text, Spaced tokens text → ∃ s', Reads s text s' ∧ P s'

namespace Leads

variable {P Q : State → Prop} {tokens : List (List Char)}

theorem nil (hwaits : Waits s) (h : P s) : Leads s [] P := by
  rintro text ⟨hblank⟩
  exact ⟨s, hwaits.reads hblank, h⟩

theorem cons (hwaits : Waits s) (htoken : Reads s token s') (h : Leads s' tokens P) : Leads s (token :: tokens) P := by
  rintro text (_ | ⟨hblank, hrest⟩)
  obtain ⟨s'', hreads, hP⟩ := h _ hrest
  exact ⟨s'', ((hwaits.reads hblank).append htoken).append hreads, hP⟩

theorem append {front : List (List Char)} (h : Leads s front Q) (hrest : ∀ s', Q s' → Leads s' tokens P) :
    Leads s (front ++ tokens) P := by
  intro text hspaced
  obtain ⟨first, second, rfl, hfirst, hsecond⟩ := hspaced.split
  obtain ⟨s', hreads, hQ⟩ := h first hfirst
  obtain ⟨s'', hreads', hP⟩ := hrest s' hQ second hsecond
  exact ⟨s'', hreads.append hreads', hP⟩

theorem ends (hends : Ends frames v s) (hc : c = ',' ∨ c = ']' ∨ c = '}') (hnext : endValue frames v c = some s')
    (h : Leads s' tokens P) : Leads s ([c] :: tokens) P := by
  rintro text (_ | ⟨hblank, hrest⟩)
  obtain ⟨s₁, hblanks, hends₁⟩ := hends.reads hblank
  obtain ⟨s'', hreads, hP⟩ := h _ hrest
  have hstep : step s₁ c = some s' := (hends₁.step_eq (.inr hc)).trans hnext
  exact ⟨s'', (hblanks.append (.cons hstep (.nil s'))).append hreads, hP⟩

end Leads

def Readable (v : Json) : Prop := ∀ frames, Leads ⟨frames, .value⟩ (tokens v) (Ends frames v)

theorem Readable.parse (h : Readable v) (hspaced : Spaced (tokens v) text) : parse? text = some v := by
  obtain ⟨s, hreads, hends⟩ := h [] text hspaced
  rw [parse?, hreads]
  exact hends.finish

theorem readable_of_token (htokens : tokens v = [token])
    (h : ∀ frames, ∃ s, Reads ⟨frames, .value⟩ token s ∧ Ends frames v s) : Readable v := by
  rintro frames text hspaced
  rw [htokens] at hspaced
  obtain _ | ⟨hblank, ⟨hafter⟩⟩ := hspaced
  obtain ⟨s, hreads, hends⟩ := h frames
  obtain ⟨s', hreads', hends'⟩ := hends.reads hafter
  exact ⟨s', ((waits_value.reads hblank).append hreads).append hreads', hends'⟩

section Strings

def pieceOf (c : Char) : Piece :=
  if c.toNat < 0x20 ∧ c ∉ ['\x08', '\x0c', '\n', '\r', '\t'] then .code c.toNat else .char c

theorem assemble_code {n : Nat} (h : n < 0x20) (pieces : List Piece) :
    assemble (.code n :: pieces) = (assemble pieces).map (Char.ofNat n :: ·) := by
  have hhigh : isHigh n = false := by simp [isHigh]; omega
  have hlow : isLow n = false := by simp [isLow]; omega
  -- a code that follows could only make a pair with a high half
  cases pieces with
  | nil => simp [assemble, hhigh, hlow]
  | cons piece pieces => cases piece <;> simp [assemble, hhigh, hlow]

theorem assemble_pieces (text : List Char) : assemble (text.map pieceOf) = some text := by
  induction text with
  | nil => rfl
  | cons c text ih =>
    rw [List.map_cons, pieceOf]
    split
    · next h => simp [assemble_code h.1, ih]
    · simp [assemble, ih]

theorem reads_control (frames : List Frame) (owner : Option Members) (pieces : List Piece) (h : c.toNat < 0x20) :
    Reads ⟨frames, .quoted owner pieces .plain⟩
      ['\\', 'u', '0', '0', Hex.digit (c.toNat / 16), Hex.digit (c.toNat % 16)]
      ⟨frames, .quoted owner (.code c.toNat :: pieces) .plain⟩ := by
  have hhigh := Hex.value?_digit (show c.toNat / 16 < 16 by omega)
  have hlow := Hex.value?_digit (show c.toNat % 16 < 16 by omega)
  have hcode : 16 * (c.toNat / 16) + c.toNat % 16 = c.toNat := by omega
  refine .cons rfl (.cons rfl (.cons rfl (.cons rfl ?_)))
  refine .cons (?_ : _ = some ⟨frames, .quoted owner pieces (.hex 1 (c.toNat / 16))⟩) (.cons ?_ (.nil _))
  · simp [step, stepQuoted, hhigh]
  · simp [step, stepQuoted, hlow, hcode]

theorem reads_escape (owner : Option Members) (pieces : List Piece) (c : Char) :
    Reads ⟨frames, .quoted owner pieces .plain⟩ (escape c) ⟨frames, .quoted owner (pieceOf c :: pieces) .plain⟩ := by
  -- characters with an escape of their own, other control characters, and characters that stand for themselves
  by_cases hnamed : c ∈ ['"', '\\', '\x08', '\x0c', '\n', '\r', '\t']
  · simp only [List.mem_cons, List.not_mem_nil, or_false] at hnamed
    obtain rfl | rfl | rfl | rfl | rfl | rfl | rfl := hnamed <;> rfl
  · simp only [List.mem_cons, List.not_mem_nil, or_false, not_or] at hnamed
    by_cases hcontrol : c.toNat < 0x20
    · have hread := reads_control frames owner pieces hcontrol
      simpa [escape, pieceOf, hnamed, hcontrol] using hread
    · have hstep : step ⟨frames, .quoted owner pieces .plain⟩ c = some ⟨frames, .quoted owner (.char c :: pieces) .plain⟩ := by
        simp [step, stepQuoted, hnamed, hcontrol]
      simpa [escape, pieceOf, hnamed, hcontrol] using Reads.cons hstep (.nil _)

theorem reads_escapes (owner : Option Members) (pieces : List Piece) (text : List Char) :
    Reads ⟨frames, .quoted owner pieces .plain⟩ (text.flatMap escape)
      ⟨frames, .quoted owner ((text.map pieceOf).reverse ++ pieces) .plain⟩ := by
  induction text generalizing pieces with
  | nil => exact .nil _
  | cons c text ih =>
    rw [List.flatMap_cons]
    refine (reads_escape owner pieces c).append ?_
    simpa using ih (pieceOf c :: pieces)

def afterString (frames : List Frame) (text : Option String) : Option Members → State
  | none => ⟨frames, .done (str text)⟩
  | some members => ⟨frames, .colon members text⟩

theorem endQuoted_pieces (owner : Option Members) (text : String) :
    endQuoted frames owner (text.toList.map pieceOf).reverse = afterString frames text owner := by
  cases owner <;> simp [endQuoted, assemble_pieces, afterString]

theorem reads_quote {owner : Option Members} (hopen : step s '"' = some ⟨frames, .quoted owner [] .plain⟩)
    (text : Option String) : Reads s (quote text) (afterString frames text owner) := by
  cases text with
  | none =>
    refine .cons hopen ?_
    cases owner <;> rfl
  | some text =>
    refine .cons hopen ((reads_escapes owner [] text.toList).append (.cons ?_ (.nil _)))
    rw [List.append_nil, ← endQuoted_pieces]
    rfl

end Strings

section Numbers

def Numeral.start? (c : Char) : Option Numeral :=
  if c = '-' then some .minus else if c = '0' then some .zero else if c.isDigit then some .whole else none

def IsNumeral : List Char → Prop
  | [] => False
  | c :: rest => ∃ first last, Numeral.start? c = some first ∧ rest.foldlM Numeral.next? first = some last ∧
      last.isEnd = true

theorem step_start {place : Numeral} (h : Numeral.start? c = some place) :
    step ⟨frames, .value⟩ c = some ⟨frames, .numeral place [c]⟩ := by
  rw [Numeral.start?] at h
  split at h
  · next hc =>
    cases h
    rw [hc]
    rfl
  split at h
  · next hc =>
    cases h
    rw [hc]
    rfl
  · next hminus hzero =>
    rw [Option.ite_none_right_eq_some] at h
    obtain ⟨hdigit, ⟨⟩⟩ := h
    have hne : ∀ d : Char, d.isDigit = false → c ≠ d := by
      rintro d hd rfl
      exact Bool.false_ne_true (hd.symm.trans hdigit)
    simp [step, startValue, isBlank, hdigit, hminus, hzero, hne ' ' rfl, hne '\t' rfl, hne '\n' rfl, hne '\r' rfl, hne '"' rfl,
      hne '[' rfl, hne '{' rfl, hne 't' rfl, hne 'f' rfl, hne 'n' rfl]

theorem reads_numeral {place last : Numeral} (digits : List Char) (h : text.foldlM Numeral.next? place = some last) :
    Reads ⟨frames, .numeral place digits⟩ text ⟨frames, .numeral last (text.reverse ++ digits)⟩ := by
  induction text generalizing place digits with
  | nil =>
    cases h
    exact .nil _
  | cons c text ih =>
    rw [List.foldlM_cons] at h
    obtain ⟨next, hnext, hrest⟩ := Option.bind_eq_some_iff.mp h
    have hread := ih (c :: digits) hrest
    simp only [List.reverse_cons, List.append_assoc, List.singleton_append]
    exact .cons (by simp [step, stepNumeral, hnext]) hread

theorem readable_num {literal : List Char} (h : IsNumeral literal) : Readable (num literal) := by
  refine readable_of_token (by rw [tokens]) fun frames => ?_
  cases literal with
  | nil => cases h
  | cons c rest =>
    obtain ⟨first, last, hstart, hrest, hlast⟩ := h
    have hends : Ends frames (num (rest.reverse ++ [c]).reverse) ⟨frames, .numeral last (rest.reverse ++ [c])⟩ :=
      .numeral hlast
    exact ⟨_, .cons (step_start hstart) (reads_numeral [c] hrest), by simpa using hends⟩

end Numbers

section Arrays

theorem Reads.firstItem (h : Reads ⟨.arr [] :: frames, .value⟩ text s) (hends : Ends (.arr [] :: frames) v s) :
    Reads ⟨frames, .firstItem⟩ text s := by
  -- up to the first character that is not blank both states wait, and a value does not start with the closing bracket
  induction text with
  | nil =>
    cases h
    cases hends
  | cons c text ih =>
    by_cases hc : isBlank c = true
    · rw [Reads, List.foldlM_cons, waits_value c hc] at h
      exact .cons (waits_firstItem c hc) (ih h)
    · have hclose : c ≠ ']' := by
        rintro rfl
        cases h
      rw [Reads, List.foldlM_cons] at h ⊢
      simpa [step, hc, hclose] using h

theorem leads_items {items : List Json} (hitems : ∀ item ∈ items, Readable item) {done : List Json} {v : Json} {s : State}
    (h : Ends (.arr done :: frames) v s) :
    Leads s (tokensItems items) (Ends frames (arr ((v :: done).reverse ++ items))) := by
  -- the items read so far stand in the frame, the latest first, and the last of them is the value just ended
  induction items generalizing done v s with
  | nil =>
    rw [tokensItems, List.append_nil]
    exact .ends h (by simp) (by simp [endValue, isBlank]) (.nil (waits_done _) (.done _))
  | cons item items ih =>
    rw [List.forall_mem_cons] at hitems
    rw [tokensItems]
    refine .ends h (by simp) (?_ : _ = some ⟨.arr (v :: done) :: frames, .value⟩) (.append (hitems.1 _) fun s' hends => ?_)
    · simp [endValue, isBlank]
    · simpa using ih hitems.2 hends

theorem readable_arr {items : List Json} (h : ∀ item ∈ items, Readable item) : Readable (arr items) := by
  intro frames
  cases items with
  | nil =>
    rw [tokens]
    exact .cons waits_value (.cons rfl (.nil _)) (.cons waits_firstItem (.cons rfl (.nil _)) (.nil (waits_done _) (.done _)))
  | cons item items =>
    rw [List.forall_mem_cons] at h
    rw [tokens]
    refine .cons waits_value (.cons rfl (.nil _)) (.append (Q := Ends (.arr [] :: frames) item) ?_ fun s hends => ?_)
    · intro text hspaced
      obtain ⟨s, hreads, hends⟩ := h.1 _ text hspaced
      exact ⟨s, hreads.firstItem hends, hends⟩
    · exact leads_items h.2 hends

end Arrays

section Objects

theorem leads_member {members : Members} (hwaits : Waits s)
    (hopen : step s '"' = some ⟨frames, .quoted (some members) [] .plain⟩) (key : Option String) (h : Readable v) :
    Leads s (quote key :: [':'] :: tokens v) (Ends (.obj members key :: frames) v) :=
  .cons hwaits (reads_quote hopen key) (.cons (waits_colon members key) (.cons rfl (.nil _)) (h _))

theorem leads_members {rest : Members} (hrest : ∀ m ∈ rest, Readable m.2) {members : Members} {key : Option String}
    {v : Json} {s : State} (h : Ends (.obj members key :: frames) v s) :
    Leads s (tokensMembers rest) (Ends frames (obj (((key, v) :: members).reverse ++ rest))) := by
  induction rest generalizing members key v s with
  | nil =>
    rw [tokensMembers, List.append_nil]
    exact .ends h (by simp) (by simp [endValue, isBlank]) (.nil (waits_done _) (.done _))
  | cons m rest ih =>
    rw [List.forall_mem_cons] at hrest
    rw [tokensMembers]
    refine .ends h (by simp) (?_ : _ = some ⟨frames, .key ((key, v) :: members)⟩) ?_
    · simp [endValue, isBlank]
    · refine .append (leads_member (waits_key _) rfl m.1 hrest.1) fun s' hends => ?_
      simpa using ih hrest.2 hends

theorem readable_obj {members : Members} (h : ∀ m ∈ members, Readable m.2) : Readable (obj members) := by
  intro frames
  cases members with
  | nil =>
    rw [tokens]
    exact .cons waits_value (.cons rfl (.nil _)) (.cons waits_firstKey (.cons rfl (.nil _)) (.nil (waits_done _) (.done _)))
  | cons m members =>
    rw [List.forall_mem_cons] at h
    rw [tokens]
    refine .cons waits_value (.cons rfl (.nil _)) ?_
    exact .append (leads_member waits_firstKey rfl m.1 h.1) fun s hends => leads_members h.2 hends

end Objects

inductive Valid : Json → Prop
  | null : Valid null
  | bool (b : Bool) : Valid (bool b)
  | num {literal : List Char} (numeral : IsNumeral literal) : Valid (num literal)
  | str (text : Option String) : Valid (str text)
  | arr {items : List Json} (valid : ∀ item ∈ items, Valid item) : Valid (arr items)
  | obj {members : List (Option String × Json)} (valid : ∀ m ∈ members, Valid m.2) : Valid (obj members)

theorem Valid.readable (h : Valid v) : Readable v := by
  induction h with
  | null => exact readable_of_token (by rw [tokens]) fun frames => ⟨⟨frames, .done .null⟩, by rfl, .done _⟩
  | bool b => exact readable_of_token (by rw [tokens]) fun frames => ⟨⟨frames, .done (.bool b)⟩, by cases b <;> rfl, .done _⟩
  | num numeral => exact readable_num numeral
  | str text => exact readable_of_token (by rw [tokens]) fun frames => ⟨_, reads_quote rfl text, .done _⟩
  | arr _ ih => exact readable_arr ih
  | obj _ ih => exact readable_obj ih

theorem Valid.parse (h : Valid v) (hspaced : Spaced (tokens v) text) : parse? text = some v :=
  h.readable.parse hspaced

theorem Valid.parse_render (h : Valid v) : parse? (render v) = some v := by
  rw [← flatten_tokens]
  exact h.parse (.flatten _)

end BackedToken.Json
