/-
This file proves that a parse under any allocator is the parse in which every
request is granted, unless a request is refused, and then it gives null.

`Follows` compares the two runs of a parser. As long as no request is refused, they
come to the same value, the same buffer and the same fault. Once one is, the
parser gives up, and gives up without a fault. The rules follow the shape of a
parser, so each parser gets one short lemma, and the recursive ones are done by
induction on their fuel. Everything but `allocate` is blind to the hooks.
-/

import DiffServSimulation.CjsonParse

namespace DiffServSimulation

open Faulting

/-! ### Two runs of a parser -/

/-- The buffer with an allocator that grants every request. -/
def ParseBuffer.granted (buffer : ParseBuffer) : ParseBuffer :=
  { buffer with hooks := .granting }

variable {Value Other : Type}

/-- What the outcome of a run under some hooks says of the outcome of the run in which every request
is granted. -/
def Agrees (fails : Value → Prop) (hooks : Hooks) (granted : Except Fault (Value × ParseBuffer)) :
    Except Fault (Value × ParseBuffer) → Prop
  | .error fault => granted = .error fault
  | .ok (value, next) =>
    hooks.Granted next.hooks ∧ granted = .ok (value, next.granted) ∨
      hooks.Refused next.hooks ∧ fails value

/-- A parser does what it does where every request is granted, or a request is refused and it
fails. -/
def Follows (parser : Parser Value) (fails : Value → Prop) : Prop :=
  ∀ buffer, Agrees fails buffer.hooks (parser.run buffer.granted) (parser.run buffer)

/-- A parser that is never refused anything. -/
abbrev Quiet (parser : Parser Value) : Prop := Follows parser fun _ => False

/-- A parser fails without another request. -/
def GivesUp (parser : Parser Value) (fails : Value → Prop) : Prop :=
  ∀ buffer, ∃ value next, parser.run buffer = .ok (value, next) ∧ next.hooks = buffer.hooks ∧
    fails value

/-! ### Rules -/

section Rules

variable {fails : Value → Prop}

theorem follows_pure (value : Value) : Follows (pure value) fails :=
  fun buffer => Or.inl ⟨.refl buffer.hooks, rfl⟩

theorem follows_lift (outcome : Except Fault Value) : Follows (lift outcome) fails := by
  intro buffer
  cases outcome with
  | error fault => exact (rfl : Except.error fault = _)
  | ok value => exact Or.inl ⟨.refl buffer.hooks, rfl⟩

/-- A change of the buffer that is blind to the hooks. -/
theorem follows_modify {change : ParseBuffer → ParseBuffer} {fails : PUnit → Prop}
    (blind : ∀ buffer hooks, change { buffer with hooks := hooks } =
      { change buffer with hooks := hooks }) : Follows (modify change) fails := by
  intro buffer
  have kept : (change buffer).hooks = buffer.hooks := by
    rw [show change buffer = _ from blind buffer buffer.hooks]
  refine Or.inl ⟨?_, ?_⟩
  · show buffer.hooks.Granted (change buffer).hooks
    rw [kept]
    exact .refl buffer.hooks
  · show Except.ok (PUnit.unit, change buffer.granted) = _
    rw [ParseBuffer.granted, blind]
    rfl

/-- A look at the buffer that is blind to the hooks. -/
theorem follows_get {parser : ParseBuffer → Parser Value}
    (blind : ∀ buffer, parser buffer.granted = parser buffer)
    (continues : ∀ buffer, Follows (parser buffer) fails) : Follows (get >>= parser) fails := by
  intro buffer
  rw [run_get_bind, run_get_bind, blind]
  exact continues buffer buffer

/-- The rule of sequencing. -/
theorem Follows.bind {first : Parser Other} {rest : Other → Parser Value} {gives : Other → Prop}
    (begins : Follows first gives) (continues : ∀ value, Follows (rest value) fails)
    (givesUp : ∀ value, gives value → GivesUp (rest value) fails) :
    Follows (first >>= rest) fails := by
  intro buffer
  have begun := begins buffer
  cases ran : first.run buffer with
  | error fault =>
    rw [ran] at begun
    rw [run_bind_error first rest buffer fault ran, run_bind_error first rest _ fault begun]
    exact rfl
  | ok reached =>
    obtain ⟨value, next⟩ := reached
    rw [ran] at begun
    rw [run_bind_ok first rest buffer next value ran]
    rcases begun with ⟨granted, same⟩ | ⟨refused, gave⟩
    · rw [run_bind_ok first rest _ _ _ same]
      have continued := continues value next
      cases finished : (rest value).run next with
      | error fault =>
        rw [finished] at continued
        exact continued
      | ok last =>
        rw [finished] at continued
        exact continued.imp (And.imp_left granted.trans) (And.imp_left granted.trans_refused)
    · obtain ⟨result, last, finished, kept, failed⟩ := givesUp value gave next
      rw [finished]
      exact Or.inr ⟨kept ▸ refused, failed⟩

/-- The rule of sequencing after a part that is never refused anything. -/
theorem Follows.andThen {first : Parser Other} {rest : Other → Parser Value} (begins : Quiet first)
    (continues : ∀ value, Follows (rest value) fails) : Follows (first >>= rest) fails :=
  begins.bind continues fun _ absurd => absurd.elim

theorem givesUp_pure {value : Value} (failed : fails value) : GivesUp (pure value) fails :=
  fun buffer => ⟨value, buffer, rfl, rfl, failed⟩

/-- A request is granted, or it is refused and the answer says so. -/
theorem follows_allocate (size : Nat) :
    Follows (allocate size) fun allocated => allocated = false := by
  intro buffer
  show _ ∧ _ ∨ buffer.hooks.Refused (buffer.hooks.asked size) ∧ buffer.hooks.grants 0 size = false
  cases answer : buffer.hooks.grants 0 size with
  | false => exact Or.inr ⟨(Hooks.Granted.refl buffer.hooks).refused answer, rfl⟩
  | true => exact Or.inl ⟨(Hooks.Granted.refl buffer.hooks).asked answer, rfl⟩

/-- A parser that asks for a block and fails without it. -/
theorem follows_allocated (size : Nat) {without continues : Parser Value}
    (givesUp : GivesUp without fails) (without' : Follows without fails)
    (continued : Follows continues fails) :
    Follows (do
      let allocated ← allocate size
      if ¬ allocated then without else continues) fails := by
  refine (follows_allocate size).bind (fun allocated => ?_) fun allocated refused => ?_
  · split
    · exact without'
    · exact continued
  · rw [refused, if_pos Bool.false_ne_true]
    exact givesUp

end Rules

/-! ### Tokens -/

theorem quiet_readAt (position : Nat) : Quiet (readAt position) := by
  refine follows_get (fun _ => rfl) fun buffer => ?_
  cases buffer.content[position]? with
  | none => exact follows_lift _
  | some byte => exact follows_pure byte

theorem quiet_byteAt (index : Nat) : Quiet (byteAt index) :=
  follows_get (fun _ => rfl) fun _ => quiet_readAt _

theorem quiet_setOffset (offset : Nat) : Quiet (setOffset offset) := follows_modify fun _ _ => rfl

theorem quiet_advance (count : Nat) : Quiet (advance count) := follows_modify fun _ _ => rfl

theorem quiet_setDepth (depth : Nat) : Quiet (setDepth depth) := follows_modify fun _ _ => rfl

theorem quiet_nextIs (expected : UInt8) : Quiet (nextIs expected) := by
  refine follows_get (fun _ => rfl) fun buffer => ?_
  split_ifs
  · exact (quiet_byteAt 0).andThen fun byte => follows_pure _
  · exact follows_pure false

theorem quiet_startsWith (literal : List UInt8) (index : Nat) :
    Quiet (startsWith literal index) := by
  induction literal generalizing index with
  | nil => exact follows_pure true
  | cons expected rest inductionHypothesis =>
    refine (quiet_byteAt index).andThen fun byte => ?_
    split_ifs
    · exact inductionHypothesis (index + 1)
    · exact follows_pure false

theorem quiet_literalIs (literal : List UInt8) : Quiet (literalIs literal) := by
  refine follows_get (fun _ => rfl) fun buffer => ?_
  split_ifs
  · exact quiet_startsWith literal 0
  · exact follows_pure false

theorem quiet_whitespaceLoop (fuel : Nat) : Quiet (whitespaceLoop fuel) := by
  induction fuel with
  | zero => exact follows_lift _
  | succ fuel inductionHypothesis =>
    refine follows_get (fun _ => rfl) fun buffer => ?_
    split_ifs
    · refine (quiet_byteAt 0).andThen fun byte => ?_
      split_ifs
      · exact (quiet_advance 1).andThen fun _ => inductionHypothesis
      · exact follows_pure _
    · exact follows_pure _

theorem quiet_bufferSkipWhitespace : Quiet bufferSkipWhitespace := by
  refine follows_get (fun _ => rfl) fun buffer => ?_
  split_ifs
  · refine (quiet_whitespaceLoop _).andThen fun _ => follows_get (fun _ => rfl) fun buffer => ?_
    split_ifs
    · exact quiet_setOffset _
    · exact follows_pure _
  · exact follows_pure _

theorem quiet_skipUtf8Bom : Quiet skipUtf8Bom := by
  refine follows_get (fun _ => rfl) fun buffer => ?_
  split_ifs
  · refine (quiet_startsWith _ 0).andThen fun marked => ?_
    split_ifs
    · exact quiet_advance 3
    · exact follows_pure _
  · exact follows_pure _

theorem quiet_numberLoop (room index : Nat) : Quiet (numberLoop room index) := by
  induction room generalizing index with
  | zero => exact follows_pure []
  | succ room inductionHypothesis =>
    refine follows_get (fun _ => rfl) fun buffer => ?_
    split_ifs
    · refine (quiet_byteAt index).andThen fun byte => ?_
      split_ifs
      · exact (inductionHypothesis (index + 1)).andThen fun rest => follows_pure _
      · exact follows_pure []
    · exact follows_pure []

theorem quiet_hexLoop (left position h : Nat) : Quiet (hexLoop left position h) := by
  induction left generalizing position h with
  | zero => exact follows_pure h
  | succ left inductionHypothesis =>
    refine (quiet_readAt position).andThen fun byte => ?_
    cases hexDigit? byte with
    | none => exact follows_pure 0
    | some digit => exact inductionHypothesis _ _

theorem quiet_utf16LiteralToUtf8 (inputPointer inputEnd : Nat) :
    Quiet (utf16LiteralToUtf8 inputPointer inputEnd) := by
  rw [utf16LiteralToUtf8]
  split
  · exact follows_pure none
  refine (quiet_hexLoop 4 _ 0).andThen fun firstCode => ?_
  split
  · exact follows_pure none
  split
  · simp only
    split
    · exact follows_pure none
    refine (quiet_readAt _).andThen fun escape => ?_
    split
    · exact follows_pure none
    refine (quiet_readAt _).andThen fun letter => ?_
    split
    · exact follows_pure none
    refine (quiet_hexLoop 4 _ 0).andThen fun secondCode => ?_
    split
    · exact follows_pure none
    · exact follows_pure _
  · exact follows_pure _

theorem quiet_closingLoop (fuel inputEnd skippedBytes : Nat) :
    Quiet (closingLoop fuel inputEnd skippedBytes) := by
  induction fuel generalizing inputEnd skippedBytes with
  | zero => exact follows_lift _
  | succ fuel inductionHypothesis =>
    refine follows_get (fun _ => rfl) fun buffer => ?_
    split
    · refine (quiet_readAt inputEnd).andThen fun byte => ?_
      split
      · exact follows_pure _
      split
      · split
        · exact follows_pure none
        · exact inductionHypothesis _ _
      · exact inductionHypothesis _ _
    · exact follows_pure none

theorem quiet_unescape (inputPointer inputEnd : Nat) : Quiet (unescape inputPointer inputEnd) := by
  refine (quiet_readAt inputPointer).andThen fun byte => ?_
  split
  · exact follows_pure _
  refine (quiet_readAt _).andThen fun letter => ?_
  cases simpleEscape? letter with
  | some plain => exact follows_pure _
  | none =>
    simp only
    split
    · exact quiet_utf16LiteralToUtf8 inputPointer inputEnd
    · exact follows_pure none

theorem quiet_unescapeLoop (inputEnd fuel inputPointer : Nat) (output : StringBlock) :
    Quiet (unescapeLoop inputEnd fuel inputPointer output) := by
  induction fuel generalizing inputPointer output with
  | zero => exact follows_lift _
  | succ fuel inductionHypothesis =>
    rw [unescapeLoop]
    split
    · refine (quiet_unescape inputPointer inputEnd).andThen fun literal => ?_
      rcases literal with _ | ⟨bytes, length⟩
      · exact follows_pure _
      · exact (follows_lift _).andThen fun output => inductionHypothesis _ output
    · exact follows_pure _

/-! ### Parsers of items -/

/-- A parser that gives nothing when it is refused a block. -/
abbrev FollowsOrNone (parser : Parser (Option Value)) : Prop :=
  Follows parser fun result => result = none

/-- The rule of sequencing after a parser that may give nothing, where that ends the parse. -/
theorem Follows.bindOrNone {first : Parser (Option Other)}
    {rest : Option Other → Parser (Option Value)} (begins : FollowsOrNone first)
    (ends : rest none = pure none) (continues : ∀ value, FollowsOrNone (rest (some value))) :
    FollowsOrNone (first >>= rest) := by
  refine begins.bind (fun value => ?_) fun value gave => ?_
  · cases value with
    | none =>
      rw [ends]
      exact follows_pure none
    | some value => exact continues value
  · rw [gave, ends]
    exact givesUp_pure rfl

theorem parseNumber_follows (item : Item) : FollowsOrNone (parseNumber item) := by
  refine (quiet_numberLoop 63 0).andThen fun numberCString => ?_
  cases DecimalNumber.strtod numberCString with
  | none => exact follows_pure none
  | some read => exact (quiet_advance read.2).andThen fun _ => follows_pure _

theorem failAt_follows (inputPointer : Nat) : FollowsOrNone (failAt inputPointer) :=
  (quiet_setOffset inputPointer).andThen fun _ => follows_pure none

theorem failAt_givesUp (inputPointer : Nat) :
    GivesUp (failAt inputPointer) fun result => result = none :=
  fun _ => ⟨none, _, rfl, rfl, rfl⟩

theorem parseString_follows (item : Item) : FollowsOrNone (parseString item) := by
  refine follows_get (fun _ => rfl) fun buffer => (quiet_byteAt 0).andThen fun opening => ?_
  split
  · exact failAt_follows _
  refine (quiet_closingLoop _ _ 0).andThen fun closing => ?_
  rcases closing with _ | ⟨inputEnd, skippedBytes⟩
  · exact failAt_follows _
  refine follows_allocated _ (failAt_givesUp _) (failAt_follows _) ?_
  refine (quiet_unescapeLoop inputEnd _ _ _).andThen fun unescaped => ?_
  obtain ⟨_ | output, inputPointer⟩ := unescaped
  · exact failAt_follows inputPointer
  · exact (follows_lift _).andThen fun terminated =>
      (quiet_setOffset _).andThen fun _ => follows_pure _

theorem closeItem_follows (item : Item) (type : ItemType) (items : List Item) :
    FollowsOrNone (closeItem item type items) :=
  follows_get (fun _ => rfl) fun _ => (quiet_setDepth _).andThen fun _ =>
    (quiet_advance 1).andThen fun _ => follows_pure _

theorem parseBracketed_follows (closing : UInt8) (type : ItemType)
    {loop : List Item → Parser (Option (List Item))} (item : Item)
    (follows : FollowsOrNone (loop [])) :
    FollowsOrNone (parseBracketed closing type loop item) := by
  refine (quiet_advance 1).andThen fun _ => quiet_bufferSkipWhitespace.andThen fun _ =>
    (quiet_nextIs closing).andThen fun empty => ?_
  split
  · exact closeItem_follows item type []
  refine follows_get (fun _ => rfl) fun buffer => (quiet_setOffset _).andThen fun _ => ?_
  split
  · exact follows_pure none
  refine follows.bindOrNone rfl fun items => (quiet_nextIs closing).andThen fun closed => ?_
  split
  · exact closeItem_follows item type items
  · exact follows_pure none

theorem parseElement_follows {value : Parser (Option Item)}
    {again : List Item → Parser (Option (List Item))} (items : List Item)
    (followsValue : FollowsOrNone value) (followsRest : ∀ items, FollowsOrNone (again items)) :
    FollowsOrNone (parseElement value again items) := by
  refine followsValue.bindOrNone rfl fun currentItem =>
    quiet_bufferSkipWhitespace.andThen fun _ => (quiet_nextIs _).andThen fun more => ?_
  split
  · exact followsRest _
  · exact follows_pure _

/-- All parsers with some fuel. -/
structure ParsersFollow (fuel : Nat) : Prop where
  value : ∀ item, FollowsOrNone (parseValue fuel item)
  array : ∀ item, FollowsOrNone (parseArray fuel item)
  object : ∀ item, FollowsOrNone (parseObject fuel item)
  arrayLoop : ∀ items, FollowsOrNone (arrayLoop fuel items)
  objectLoop : ∀ items, FollowsOrNone (objectLoop fuel items)

section Step

variable {fuel : Nat} (parsers : ParsersFollow fuel)

include parsers

theorem parseValue_follows (item : Item) : FollowsOrNone (parseValue (fuel + 1) item) := by
  have literal : ∀ (bytes : List UInt8) (count : Nat) (found : Item)
      {others : Parser (Option Item)}, FollowsOrNone others → FollowsOrNone (do
        let stands ← literalIs bytes
        if stands then do
          advance count
          pure (some found)
        else others) := by
    intro bytes count found others follows
    refine (quiet_literalIs bytes).andThen fun stands => ?_
    split
    · exact (quiet_advance count).andThen fun _ => follows_pure _
    · exact follows
  rw [parseValue]
  refine literal _ 4 _ (literal _ 5 _ (literal _ 4 _ ?_))
  refine follows_get (fun _ => rfl) fun buffer => ?_
  split
  · exact follows_pure none
  refine (quiet_byteAt 0).andThen fun byte => ?_
  split
  · exact parseString_follows item
  split
  · exact parseNumber_follows item
  split
  · exact parsers.array item
  split
  · exact parsers.object item
  · exact follows_pure none

theorem parseArray_follows (item : Item) : FollowsOrNone (parseArray (fuel + 1) item) := by
  rw [parseArray]
  refine follows_get (fun _ => rfl) fun buffer => ?_
  split
  · exact follows_pure none
  refine (quiet_setDepth _).andThen fun _ => (quiet_byteAt 0).andThen fun opening => ?_
  split
  · exact follows_pure none
  · exact parseBracketed_follows _ _ item (parsers.arrayLoop [])

theorem arrayLoop_follows (items : List Item) : FollowsOrNone (arrayLoop (fuel + 1) items) := by
  rw [arrayLoop]
  refine follows_allocated _ (givesUp_pure rfl) (follows_pure none) ?_
  exact (quiet_advance 1).andThen fun _ => quiet_bufferSkipWhitespace.andThen fun _ =>
    parseElement_follows items (parsers.value _) parsers.arrayLoop

theorem parseObject_follows (item : Item) : FollowsOrNone (parseObject (fuel + 1) item) := by
  rw [parseObject]
  refine follows_get (fun _ => rfl) fun buffer => ?_
  split
  · exact follows_pure none
  refine (quiet_setDepth _).andThen fun _ => (quiet_nextIs _).andThen fun opened => ?_
  split
  · exact follows_pure none
  · exact parseBracketed_follows _ _ item (parsers.objectLoop [])

theorem objectLoop_follows (items : List Item) : FollowsOrNone (objectLoop (fuel + 1) items) := by
  rw [objectLoop]
  refine follows_allocated _ (givesUp_pure rfl) (follows_pure none) ?_
  refine (quiet_advance 1).andThen fun _ => quiet_bufferSkipWhitespace.andThen fun _ => ?_
  refine (parseString_follows {}).bindOrNone rfl fun named => ?_
  refine quiet_bufferSkipWhitespace.andThen fun _ => (quiet_nextIs _).andThen fun colon => ?_
  split
  · exact follows_pure none
  · exact (quiet_advance 1).andThen fun _ => quiet_bufferSkipWhitespace.andThen fun _ =>
      parseElement_follows items (parsers.value _) parsers.objectLoop

end Step

theorem parsersFollow (fuel : Nat) : ParsersFollow fuel := by
  induction fuel with
  | zero =>
    exact ⟨fun _ => follows_lift _, fun _ => follows_lift _, fun _ => follows_lift _,
      fun _ => follows_lift _, fun _ => follows_lift _⟩
  | succ fuel parsers =>
    exact ⟨parseValue_follows parsers, parseArray_follows parsers, parseObject_follows parsers,
      arrayLoop_follows parsers, objectLoop_follows parsers⟩

theorem parseDocument_follows (fuel : Nat) (requireNullTerminated : Bool) :
    FollowsOrNone (parseDocument fuel requireNullTerminated) := by
  refine follows_allocated _ (givesUp_pure rfl) (follows_pure none) ?_
  refine quiet_skipUtf8Bom.andThen fun _ => quiet_bufferSkipWhitespace.andThen fun _ => ?_
  refine ((parsersFollow fuel).value {}).bindOrNone rfl fun item => ?_
  simp only
  split
  · refine quiet_bufferSkipWhitespace.andThen fun _ => (quiet_nextIs 0).andThen fun terminated => ?_
    split
    · exact follows_pure _
    · exact follows_pure none
  · exact follows_pure _

/-- Under any hooks a C string is parsed as it is where every request is granted, or a request is
refused and the result is null. -/
theorem cJSONParseWithHooks_outcome (value : CString) (requireNullTerminated : Bool)
    (hooks : Hooks) {root : CJSON}
    (parsed : cJSONParseWithOpts value requireNullTerminated = .ok root) :
    ∃ result after, cJSONParseWithHooks value requireNullTerminated hooks = .ok (result, after) ∧
      (hooks.Granted after ∧ result = root ∨ hooks.Refused after ∧ result = .null) := by
  have agrees := parseDocument_follows (3 * (value.bytes.length + 1) + 3) requireNullTerminated
    { content := value.bytes ++ [0], length := value.bytes.length + 1, hooks }
  simp only [ParseBuffer.granted] at agrees
  rw [cJSONParseWithOpts, cJSONParseWithHooks, cJSONParseWithLengthOpts,
    if_neg (Nat.succ_ne_zero _)] at parsed
  rw [cJSONParseWithHooks, cJSONParseWithLengthOpts, if_neg (Nat.succ_ne_zero _)]
  cases ran : (parseDocument (3 * (value.bytes.length + 1) + 3) requireNullTerminated).run
      { content := value.bytes ++ [0], length := value.bytes.length + 1, hooks } with
  | error fault =>
    rw [ran] at agrees
    rw [show _ = Except.error fault from agrees] at parsed
    cases parsed
  | ok reached =>
    obtain ⟨result, next⟩ := reached
    rw [ran] at agrees
    rcases agrees with ⟨granted, same⟩ | ⟨refused, rfl⟩
    · rw [same] at parsed
      cases result with
      | none => exact ⟨.null, _, rfl, Or.inl ⟨granted, Except.ok.inj parsed⟩⟩
      | some item => exact ⟨_, _, rfl, Or.inl ⟨granted, Except.ok.inj parsed⟩⟩
    · exact ⟨.null, _, rfl, Or.inr ⟨refused, rfl⟩⟩

end DiffServSimulation
