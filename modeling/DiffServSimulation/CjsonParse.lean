/-
This file models `cJSON_Parse` and everything it calls, statement by statement.

A parser runs on the `parse_buffer`. Every byte it looks at is read from the
content by position, and every byte of an unescaped string is written into a
block of the allocated capacity, so a read or a write that leaves its block is a
fault of the model. Every block is asked for, and a refused one ends the parse.
Each recursion is bounded by fuel that the entry point takes from the length of
the text. What is freed on the way out and the global error position, which
nothing in the simulator reads, are left out.
-/

import DiffServSimulation.Faulting
import DiffServSimulation.CjsonHooks
import DiffServSimulation.CjsonItem
import DiffServSimulation.DecimalNumber

namespace DiffServSimulation

open Faulting

/-! ### The buffer -/

structure ParseBuffer where
  content : List UInt8
  length : Nat
  offset : Nat := 0
  depth : Nat := 0
  hooks : Hooks

abbrev Parser := Program ParseBuffer Fault

namespace ParseBuffer

/-- `can_read`. -/
def CanRead (buffer : ParseBuffer) (size : Nat) : Prop := buffer.offset + size ≤ buffer.length

instance (buffer : ParseBuffer) (size : Nat) : Decidable (buffer.CanRead size) :=
  inferInstanceAs (Decidable (_ ≤ _))

/-- `can_access_at_index`. -/
def CanAccessAtIndex (buffer : ParseBuffer) (index : Nat) : Prop :=
  buffer.offset + index < buffer.length

instance (buffer : ParseBuffer) (index : Nat) : Decidable (buffer.CanAccessAtIndex index) :=
  inferInstanceAs (Decidable (_ < _))

end ParseBuffer

/-- The byte at a position of the content. -/
def readAt (position : Nat) : Parser UInt8 := do
  let buffer ← get
  match buffer.content[position]? with
  | none => lift (.error .outOfBounds)
  | some byte => pure byte

/-- `buffer_at_offset(buffer)[index]`. -/
def byteAt (index : Nat) : Parser UInt8 := do
  let buffer ← get
  readAt (buffer.offset + index)

def setOffset (offset : Nat) : Parser PUnit := modify fun buffer => { buffer with offset := offset }

def advance (count : Nat) : Parser PUnit :=
  modify fun buffer => { buffer with offset := buffer.offset + count }

def setDepth (depth : Nat) : Parser PUnit := modify fun buffer => { buffer with depth := depth }

/-- `hooks.allocate`: whether the block is granted. -/
def allocate (size : Nat) : Parser Bool := do
  let buffer ← get
  set { buffer with hooks := buffer.hooks.asked size }
  pure (buffer.hooks.grants 0 size)

/-- `sizeof(cJSON)`, where a pointer has eight bytes. -/
def sizeofCJSON : Nat := 64

/-- `can_access_at_index(buffer, 0) && (buffer_at_offset(buffer)[0] == expected)`. -/
def nextIs (expected : UInt8) : Parser Bool := do
  let buffer ← get
  if buffer.CanAccessAtIndex 0 then
    let byte ← byteAt 0
    pure (byte == expected)
  else pure false

/-- The comparison of `strncmp` with a literal, from an index on. It stops at the first
difference. -/
def startsWith : List UInt8 → Nat → Parser Bool
  | [], _ => pure true
  | expected :: rest, index => do
    let byte ← byteAt index
    if byte = expected then startsWith rest (index + 1) else pure false

/-- `can_read(buffer, n) && (strncmp(buffer_at_offset(buffer), literal, n) == 0)` for a literal of
length `n`. -/
def literalIs (literal : List UInt8) : Parser Bool := do
  let buffer ← get
  if buffer.CanRead literal.length then startsWith literal 0 else pure false

/-- The loop of `buffer_skip_whitespace`. -/
def whitespaceLoop : Nat → Parser PUnit
  | 0 => lift (.error .outOfFuel)
  | fuel + 1 => do
    let buffer ← get
    if buffer.CanAccessAtIndex 0 then
      let byte ← byteAt 0
      if byte ≤ 32 then do
        advance 1
        whitespaceLoop fuel
      else pure ⟨⟩
    else pure ⟨⟩

def bufferSkipWhitespace : Parser PUnit := do
  let buffer ← get
  if buffer.CanAccessAtIndex 0 then
    whitespaceLoop (buffer.length + 1)
    let buffer ← get
    if buffer.offset = buffer.length then setOffset (buffer.offset - 1) else pure ⟨⟩
  else pure ⟨⟩

/-- `skip_utf8_bom` at the front of the buffer. -/
def skipUtf8Bom : Parser PUnit := do
  let buffer ← get
  if buffer.CanAccessAtIndex 4 then
    let marked ← startsWith [0xEF, 0xBB, 0xBF] 0
    if marked then advance 3 else pure ⟨⟩
  else pure ⟨⟩

/-! ### Numbers -/

/-- The bytes that may stand in a number. -/
def isNumberByte (byte : UInt8) : Bool :=
  DecimalNumber.isDigit byte || byte == '+'.toUInt8 || byte == '-'.toUInt8 ||
    byte == 'e'.toUInt8 || byte == 'E'.toUInt8 || byte == '.'.toUInt8

/-- The loop of `parse_number` that copies the number into the temporary buffer, with the bytes
that buffer still has room for. -/
def numberLoop : Nat → Nat → Parser (List UInt8)
  | 0, _ => pure []
  | room + 1, index => do
    let buffer ← get
    if buffer.CanAccessAtIndex index then
      let byte ← byteAt index
      if isNumberByte byte then do
        let rest ← numberLoop room (index + 1)
        pure (byte :: rest)
      else pure []
    else pure []

/-- `parse_number`. A parser of an item gives the item it filled, or nothing for `false`. -/
def parseNumber (item : Item) : Parser (Option Item) := do
  let numberCString ← numberLoop 63 0
  match DecimalNumber.strtod numberCString with
  | none => pure none
  | some (number, length) => do
    advance length
    pure (some { item with
      type := .number, valueint := DecimalNumber.saturate number,
      valuedouble := DecimalNumber.Double.ofRat number })

/-! ### Strings -/

/-- The value of a hexadecimal digit. -/
def hexDigit? (byte : UInt8) : Option Nat :=
  if '0'.toUInt8 ≤ byte ∧ byte ≤ '9'.toUInt8 then some (byte.toNat - '0'.toUInt8.toNat)
  else if 'A'.toUInt8 ≤ byte ∧ byte ≤ 'F'.toUInt8 then
    some (10 + (byte.toNat - 'A'.toUInt8.toNat))
  else if 'a'.toUInt8 ≤ byte ∧ byte ≤ 'f'.toUInt8 then
    some (10 + (byte.toNat - 'a'.toUInt8.toNat))
  else none

/-- The loop of `parse_hex4`, with the digits that are left. An invalid digit gives zero. -/
def hexLoop : Nat → Nat → Nat → Parser Nat
  | 0, _, h => pure h
  | left + 1, position, h => do
    let byte ← readAt position
    match hexDigit? byte with
    | none => pure 0
    | some digit => hexLoop left (position + 1) (if 0 < left then (h + digit) <<< 4 else h + digit)

def parseHex4 (position : Nat) : Parser Nat := hexLoop 4 position 0

/-- The continuation bytes of an encoding, last first, and what is left of the codepoint. -/
def continuationBytes : Nat → Nat → List UInt8 → Nat × List UInt8
  | 0, codepoint, written => (codepoint, written)
  | position + 1, codepoint, written =>
    continuationBytes position (codepoint >>> 6)
      (UInt8.ofNat ((codepoint ||| 0x80) &&& 0xBF) :: written)

/-- The part of `utf16_literal_to_utf8` that encodes a codepoint. -/
def encodeUtf8 (codepoint : Nat) : Option (List UInt8) :=
  if codepoint < 0x80 then some [UInt8.ofNat (codepoint &&& 0x7F)]
  else if codepoint < 0x800 then some (encode 1 0xC0)
  else if codepoint < 0x10000 then some (encode 2 0xE0)
  else if codepoint ≤ 0x10FFFF then some (encode 3 0xF0)
  else none
where
  encode (continuation firstByteMark : Nat) : List UInt8 :=
    let (rest, written) := continuationBytes continuation codepoint []
    UInt8.ofNat ((rest ||| firstByteMark) &&& 0xFF) :: written

/-- `utf16_literal_to_utf8`: the bytes of the literal at a position and the length of the literal,
or nothing when it fails. -/
def utf16LiteralToUtf8 (inputPointer inputEnd : Nat) : Parser (Option (List UInt8 × Nat)) := do
  if inputEnd - inputPointer < 6 then pure none
  else
    let firstCode ← parseHex4 (inputPointer + 2)
    if 0xDC00 ≤ firstCode ∧ firstCode ≤ 0xDFFF then pure none
    else if 0xD800 ≤ firstCode ∧ firstCode ≤ 0xDBFF then
      let secondSequence := inputPointer + 6
      if inputEnd - secondSequence < 6 then pure none
      else
        let escape ← readAt secondSequence
        if escape ≠ '\\'.toUInt8 then pure none
        else
          let letter ← readAt (secondSequence + 1)
          if letter ≠ 'u'.toUInt8 then pure none
          else
            let secondCode ← parseHex4 (secondSequence + 2)
            if secondCode < 0xDC00 ∨ 0xDFFF < secondCode then pure none
            else
              let codepoint :=
                0x10000 + (((firstCode &&& 0x3FF) <<< 10) ||| (secondCode &&& 0x3FF))
              pure ((encodeUtf8 codepoint).map fun bytes => (bytes, 12))
    else pure ((encodeUtf8 firstCode).map fun bytes => (bytes, 6))

/-- The block an unescaped string is written to, with the bytes written so far. -/
structure StringBlock where
  capacity : Nat
  written : List UInt8 := []

/-- Write some bytes at `output_pointer` and move it behind them. -/
def StringBlock.write (block : StringBlock) (bytes : List UInt8) : Except Fault StringBlock :=
  if block.written.length + bytes.length ≤ block.capacity then
    .ok { block with written := block.written ++ bytes }
  else .error .outOfBounds

/-- The first loop of `parse_string`: the position of the closing quote and the number of escaped
bytes before it, or nothing when the text ends first. -/
def closingLoop : Nat → Nat → Nat → Parser (Option (Nat × Nat))
  | 0, _, _ => lift (.error .outOfFuel)
  | fuel + 1, inputEnd, skippedBytes => do
    let buffer ← get
    if inputEnd < buffer.length then
      let byte ← readAt inputEnd
      if byte = '"'.toUInt8 then pure (some (inputEnd, skippedBytes))
      else if byte = '\\'.toUInt8 then
        if buffer.length ≤ inputEnd + 1 then pure none
        else closingLoop fuel (inputEnd + 2) (skippedBytes + 1)
      else closingLoop fuel (inputEnd + 1) skippedBytes
    else pure none

/-- The byte a one-letter escape stands for. -/
def simpleEscape? (letter : UInt8) : Option UInt8 :=
  if letter = 'b'.toUInt8 then some 8
  else if letter = 'f'.toUInt8 then some 12
  else if letter = 'n'.toUInt8 then some 10
  else if letter = 'r'.toUInt8 then some 13
  else if letter = 't'.toUInt8 then some 9
  else if letter = '"'.toUInt8 ∨ letter = '\\'.toUInt8 ∨ letter = '/'.toUInt8 then some letter
  else none

/-- One step of the second loop of `parse_string`: the bytes the literal at a position stands for
and its length, or nothing when it is invalid. -/
def unescape (inputPointer inputEnd : Nat) : Parser (Option (List UInt8 × Nat)) := do
  let byte ← readAt inputPointer
  if byte ≠ '\\'.toUInt8 then pure (some ([byte], 1))
  else
    let letter ← readAt (inputPointer + 1)
    match simpleEscape? letter with
    | some plain => pure (some ([plain], 2))
    | none =>
      if letter = 'u'.toUInt8 then utf16LiteralToUtf8 inputPointer inputEnd else pure none

/-- The second loop of `parse_string`. It gives the filled block, or nothing when a literal is
invalid, and the position it stopped at. -/
def unescapeLoop (inputEnd : Nat) : Nat → Nat → StringBlock → Parser (Option StringBlock × Nat)
  | 0, _, _ => lift (.error .outOfFuel)
  | fuel + 1, inputPointer, output =>
    if inputPointer < inputEnd then do
      match ← unescape inputPointer inputEnd with
      | none => pure (none, inputPointer)
      | some (bytes, length) => do
        let output ← lift (output.write bytes)
        unescapeLoop inputEnd fuel (inputPointer + length) output
    else pure (some output, inputPointer)

/-- The `fail` label of `parse_string`. -/
def failAt (inputPointer : Nat) : Parser (Option Item) := do
  setOffset inputPointer
  pure none

def parseString (item : Item) : Parser (Option Item) := do
  let buffer ← get
  let start := buffer.offset + 1
  let opening ← byteAt 0
  if opening ≠ '"'.toUInt8 then failAt start
  else
    match ← closingLoop (buffer.length + 1) start 0 with
    | none => failAt start
    | some (inputEnd, skippedBytes) =>
      let allocationLength := inputEnd - buffer.offset - skippedBytes
      let allocated ← allocate (allocationLength + 1)
      if ¬ allocated then failAt start
      else
      match ← unescapeLoop inputEnd (buffer.length + 1) start { capacity := allocationLength + 1 }
        with
      | (none, inputPointer) => failAt inputPointer
      | (some output, _) => do
        let terminated ← lift (output.write [0])
        setOffset (inputEnd + 1)
        pure (some { item with
          type := .string, valuestring := some (CString.ofBuffer terminated.written) })

/-! ### Values -/

def cJSONNestingLimit : Nat := 1000

/-- The `success` label of `parse_array` and `parse_object`. -/
def closeItem (item : Item) (type : ItemType) (items : List Item) : Parser (Option Item) := do
  let buffer ← get
  setDepth (buffer.depth - 1)
  advance 1
  pure (some { item with type := type, child := CJSON.link items })

/-- What `parse_array` and `parse_object` do from their opening bracket on, with the loop over the
elements. -/
def parseBracketed (closing : UInt8) (type : ItemType)
    (loop : List Item → Parser (Option (List Item))) (item : Item) : Parser (Option Item) := do
  advance 1
  bufferSkipWhitespace
  let empty ← nextIs closing
  if empty then closeItem item type []
  else
  let buffer ← get
  setOffset (buffer.offset - 1)
  if ¬ buffer.CanAccessAtIndex 0 then pure none
  else
  match ← loop [] with
  | none => pure none
  | some items => do
    let closed ← nextIs closing
    if closed then closeItem item type items else pure none

/-- The end of a round of either loop: parse the value of the current item, link it behind the
items before it, and go on after a comma. -/
def parseElement (value : Parser (Option Item)) (again : List Item → Parser (Option (List Item)))
    (items : List Item) : Parser (Option (List Item)) := do
  match ← value with
  | none => pure none
  | some currentItem => do
    bufferSkipWhitespace
    let more ← nextIs ','.toUInt8
    if more then again (items ++ [currentItem]) else pure (some (items ++ [currentItem]))

mutual

def parseValue : Nat → Item → Parser (Option Item)
  | 0, _ => lift (.error .outOfFuel)
  | fuel + 1, item => do
    let isNull ← literalIs ("null".toList.map Char.toUInt8)
    if isNull then do
      advance 4
      pure (some { item with type := .null })
    else
    let isFalse ← literalIs ("false".toList.map Char.toUInt8)
    if isFalse then do
      advance 5
      pure (some { item with type := .false })
    else
    let isTrue ← literalIs ("true".toList.map Char.toUInt8)
    if isTrue then do
      advance 4
      pure (some { item with type := .true, valueint := 1 })
    else
    let buffer ← get
    if ¬ buffer.CanAccessAtIndex 0 then pure none
    else
    let byte ← byteAt 0
    if byte = '"'.toUInt8 then parseString item
    else if byte = '-'.toUInt8 ∨ '0'.toUInt8 ≤ byte ∧ byte ≤ '9'.toUInt8 then parseNumber item
    else if byte = '['.toUInt8 then parseArray fuel item
    else if byte = '\x7b'.toUInt8 then parseObject fuel item
    else pure none

def parseArray : Nat → Item → Parser (Option Item)
  | 0, _ => lift (.error .outOfFuel)
  | fuel + 1, item => do
    let buffer ← get
    if cJSONNestingLimit ≤ buffer.depth then pure none
    else
    setDepth (buffer.depth + 1)
    let opening ← byteAt 0
    if opening ≠ '['.toUInt8 then pure none
    else parseBracketed ']'.toUInt8 .array (arrayLoop fuel) item

/-- The loop of `parse_array` over the elements, with the items linked so far. -/
def arrayLoop : Nat → List Item → Parser (Option (List Item))
  | 0, _ => lift (.error .outOfFuel)
  | fuel + 1, items => do
    let allocated ← allocate sizeofCJSON
    if ¬ allocated then pure none
    else
    advance 1
    bufferSkipWhitespace
    parseElement (parseValue fuel {}) (arrayLoop fuel) items

def parseObject : Nat → Item → Parser (Option Item)
  | 0, _ => lift (.error .outOfFuel)
  | fuel + 1, item => do
    let buffer ← get
    if cJSONNestingLimit ≤ buffer.depth then pure none
    else
    setDepth (buffer.depth + 1)
    let opened ← nextIs '\x7b'.toUInt8
    if ¬ opened then pure none
    else parseBracketed '\x7d'.toUInt8 .object (objectLoop fuel) item

/-- The loop of `parse_object` over the members, with the items linked so far. -/
def objectLoop : Nat → List Item → Parser (Option (List Item))
  | 0, _ => lift (.error .outOfFuel)
  | fuel + 1, items => do
    let allocated ← allocate sizeofCJSON
    if ¬ allocated then pure none
    else
    advance 1
    bufferSkipWhitespace
    match ← parseString {} with
    | none => pure none
    | some named => do
      bufferSkipWhitespace
      -- The name was parsed into `valuestring` and is moved to `string`.
      let named := { named with string := named.valuestring, valuestring := none }
      let colon ← nextIs ':'.toUInt8
      if ¬ colon then pure none
      else
      advance 1
      bufferSkipWhitespace
      parseElement (parseValue fuel named) (objectLoop fuel) items

end

/-! ### Entry points -/

/-- The body of `cJSON_ParseWithLengthOpts` on a fresh buffer. -/
def parseDocument (fuel : Nat) (requireNullTerminated : Bool) : Parser (Option Item) := do
  let allocated ← allocate sizeofCJSON
  if ¬ allocated then pure none
  else
  skipUtf8Bom
  bufferSkipWhitespace
  match ← parseValue fuel {} with
  | none => pure none
  | some item =>
    if requireNullTerminated then do
      bufferSkipWhitespace
      let terminated ← nextIs 0
      if terminated then pure (some item) else pure none
    else pure (some item)

/-- `cJSON_ParseWithLengthOpts` with `global_hooks`. The result is the root, or null when the text
or a request is refused, and the hooks as they are left. -/
def cJSONParseWithLengthOpts (value : List UInt8) (bufferLength : Nat)
    (requireNullTerminated : Bool) (globalHooks : Hooks) : Except Fault (CJSON × Hooks) :=
  if bufferLength = 0 then .ok (.null, globalHooks)
  else
    match (parseDocument (3 * bufferLength + 3) requireNullTerminated).run
        { content := value, length := bufferLength, hooks := globalHooks } with
    | .error fault => .error fault
    | .ok (none, buffer) => .ok (.null, buffer.hooks)
    | .ok (some item, buffer) => .ok (CJSON.link [item], buffer.hooks)

/-- `cJSON_ParseWithOpts` with `global_hooks`. The buffer takes the terminator in. -/
def cJSONParseWithHooks (value : CString) (requireNullTerminated : Bool) (globalHooks : Hooks) :
    Except Fault (CJSON × Hooks) :=
  cJSONParseWithLengthOpts (value.bytes ++ [0]) (value.bytes.length + 1) requireNullTerminated
    globalHooks

/-- `cJSON_ParseWithOpts` where every request is granted. -/
def cJSONParseWithOpts (value : CString) (requireNullTerminated : Bool) : Except Fault CJSON :=
  (cJSONParseWithHooks value requireNullTerminated .granting).map Prod.fst

/-- `cJSON_Parse` where every request is granted. -/
def cJSONParse (value : CString) : Except Fault CJSON := cJSONParseWithOpts value false

end DiffServSimulation
