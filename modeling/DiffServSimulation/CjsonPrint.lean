/-
This file models the printer of the vendored JSON library, statement by
statement: `cJSON_Print`, `cJSON_PrintUnformatted`, `cJSON_PrintBuffered`,
`cJSON_PrintPreallocated`, and everything they call.

A printer runs on the `printbuffer`. Its block holds a byte in each cell, or
nothing where nothing was written yet, and every read and write goes through the
block, so a write behind its end is a fault of the model, and so is a `strlen`
that meets an unwritten cell. A `memcpy` may meet one, but only as the last byte it
copies. The allocator is an argument, and every block is asked for. The decimal
point is that of the C locale.
-/

import DiffServSimulation.Faulting
import DiffServSimulation.CjsonHooks
import DiffServSimulation.CjsonItem
import DiffServSimulation.DecimalFormat
import DiffServSimulation.JsonRender

namespace DiffServSimulation

open Faulting DecimalNumber

/-! ### The buffer -/

/-- A block of bytes. A cell is `none` until it is written. -/
abbrev ByteBlock := List (Option UInt8)

structure PrintBuffer where
  buffer : Option ByteBlock
  length : Nat
  offset : Nat := 0
  depth : Nat := 0
  noalloc : Bool := false
  format : Bool
  hooks : Hooks

abbrev Printer := Program PrintBuffer Fault

def intMax : Nat := 2147483647

/-- A block of a new size with the cells of a block up to a count. -/
def ByteBlock.resized (block : ByteBlock) (count newsize : Nat) : ByteBlock :=
  block.take count ++ List.replicate (newsize - count) none

/-- `memcpy` of some cells to the front of a new block. All but the last have to be written. -/
def ByteBlock.copied (block : ByteBlock) (count newsize : Nat) : Except Fault ByteBlock :=
  if count ≤ block.length ∧ count ≤ newsize then
    if (block.take (count - 1)).all Option.isSome then .ok (block.resized count newsize)
    else .error .uninitialisedRead
  else .error .outOfBounds

/-- The part of `ensure` that moves the block to a larger one. Without `reallocate` the byte behind
the text is copied along, which may be unwritten. -/
def reallocate (block : ByteBlock) (newsize : Nat) : Printer (Option Nat) := do
  let p ← get
  let hooks := p.hooks.asked newsize
  if p.hooks.grants 0 newsize then do
    let newbuffer ←
      if p.hooks.reallocates then pure (block.resized (min block.length newsize) newsize)
      else lift (block.copied (p.offset + 1) newsize)
    set { p with length := newsize, buffer := some newbuffer, hooks := hooks }
    pure (some p.offset)
  else do
    set { p with length := 0, buffer := none, hooks := hooks }
    pure none

/-- `ensure`: the position from which `needed` bytes may be written, or nothing for null. -/
def ensure (needed : Nat) : Printer (Option Nat) := do
  let p ← get
  match p.buffer with
  | none => pure none
  | some block =>
    if 0 < p.length ∧ p.length ≤ p.offset then pure none
    else if intMax < needed then pure none
    else
      let total := needed + (p.offset + 1)
      if total ≤ p.length then pure (some p.offset)
      else if p.noalloc then pure none
      else if intMax / 2 < total then
        if total ≤ intMax then reallocate block intMax else pure none
      else reallocate block (total * 2)

/-- Write a byte at a position. -/
def put (position : Nat) (byte : UInt8) : Printer PUnit := do
  let p ← get
  match p.buffer with
  | none => lift (.error .nullDereference)
  | some block =>
    if position < block.length then set { p with buffer := some (block.set position (some byte)) }
    else lift (.error .outOfBounds)

/-- Write bytes one behind the other, from a position on. -/
def putAll : Nat → List UInt8 → Printer PUnit
  | _, [] => pure ⟨⟩
  | position, byte :: bytes => do
    put position byte
    putAll (position + 1) bytes

/-- `output_buffer->offset += count`. -/
def moveOffset (count : Nat) : Printer PUnit :=
  modify fun p => { p with offset := p.offset + count }

def deeper : Printer PUnit := modify fun p => { p with depth := p.depth + 1 }

def shallower : Printer PUnit := modify fun p => { p with depth := p.depth - 1 }

/-- `strlen` of what stands at the front of some cells. -/
def strlen : ByteBlock → Except Fault Nat
  | [] => .error .outOfBounds
  | none :: _ => .error .uninitialisedRead
  | some byte :: rest => if byte = 0 then .ok 0 else (strlen rest).map (· + 1)

def updateOffset : Printer PUnit := do
  let p ← get
  match p.buffer with
  | none => pure ⟨⟩
  | some block => do
    let length ← lift (strlen (block.drop p.offset))
    moveOffset length

/-- Reserve room for some bytes, and write others there if there is room. -/
def ensured (needed : Nat) (write : Nat → Printer PUnit) : Printer Bool := do
  match ← ensure needed with
  | none => pure false
  | some output => do
    write output
    pure true

/-- `a && b`: the second part runs if the first one succeeds. -/
def andThen (first second : Printer Bool) : Printer Bool := do
  if ← first then second else pure false

/-! ### Numbers -/

/-- `compare_double`. -/
def compareDouble (a b : Double) : Bool :=
  let maxVal := if a.fabs.gt b.fabs then a.fabs else b.fabs
  (a.sub b).fabs.le (maxVal.scale ((1 : ℚ) / 2 ^ 52))

/-- `sprintf` into a block of a given size, terminator included. -/
def sprintf (capacity : Nat) (text : List UInt8) : Except Fault (List UInt8) :=
  if text.length + 1 ≤ capacity then .ok text else .error .outOfBounds

/-- `sscanf` with `%lg`. -/
def sscanf (text : List UInt8) : Option Double := (literal text).map fun read => Double.ofRat read.1

/-- `%1.15g`. -/
def shortNumeral (value : ℚ) : Numeral := formatG 15 (by decide) value

/-- `%1.17g`. -/
def longNumeral (value : ℚ) : Numeral := formatG 17 (by decide) value

/-- What `print_number` puts into `number_buffer`. -/
def numberBuffer (data : ItemData) : Except Fault (List UInt8) :=
  match data.valuedouble with
  | .nan => sprintf 26 (JsonGrammar.ascii "null")
  | .infinity _ => sprintf 26 (JsonGrammar.ascii "null")
  | .finite value isDouble inRange =>
    let d := Double.finite value isDouble inRange
    if d.eq (Double.ofInt data.valueint) then
      sprintf 26 (Numeral.ofInt data.valueint.toInt).text
    else
      let long := sprintf 26 (longNumeral value).text
      match sprintf 26 (shortNumeral value).text with
      | .error fault => .error fault
      | .ok short =>
        match sscanf short with
        | none => long
        | some test => if compareDouble test d then .ok short else long

def printNumber (data : ItemData) : Printer Bool := do
  let number ← lift (numberBuffer data)
  if 25 < number.length then pure false
  else
    ensured (number.length + 1) fun output => do
      putAll output number
      put (output + number.length) 0
      moveOffset number.length

/-! ### Strings -/

/-- The letter of the one-character escape sequence of a byte. -/
def escapeLetter? (byte : UInt8) : Option UInt8 :=
  if byte = '"'.toUInt8 then some '"'.toUInt8
  else if byte = '\\'.toUInt8 then some '\\'.toUInt8
  else if byte = 8 then some 'b'.toUInt8
  else if byte = 12 then some 'f'.toUInt8
  else if byte = 10 then some 'n'.toUInt8
  else if byte = 13 then some 'r'.toUInt8
  else if byte = 9 then some 't'.toUInt8
  else none

/-- The additional characters a byte needs for escaping. -/
def escapeCharacters (byte : UInt8) : Nat :=
  if (escapeLetter? byte).isSome then 1 else if byte < 32 then 5 else 0

/-- `u%04x`. -/
def unicodeEscape (byte : UInt8) : List UInt8 :=
  ['u'.toUInt8, JsonGrammar.hexByte 0, JsonGrammar.hexByte 0,
    JsonGrammar.hexByte (byte.toNat / 16), JsonGrammar.hexByte (byte.toNat % 16)]

/-- The loop of `print_string_ptr` that copies the string. -/
def escapeLoop : List UInt8 → Nat → Printer PUnit
  | [], _ => pure ⟨⟩
  | byte :: rest, output =>
    if 31 < byte ∧ byte ≠ '"'.toUInt8 ∧ byte ≠ '\\'.toUInt8 then do
      put output byte
      escapeLoop rest (output + 1)
    else do
      put output '\\'.toUInt8
      match escapeLetter? byte with
      | some letter => do
        put (output + 1) letter
        escapeLoop rest (output + 2)
      | none => do
        -- The terminator `sprintf` writes is overwritten by what follows.
        putAll (output + 1) (unicodeEscape byte ++ [0])
        escapeLoop rest (output + 6)

/-- The copying of a string, at once if there is nothing to escape. -/
def copyString (escapes : Nat) (bytes : List UInt8) (output : Nat) : Printer PUnit :=
  if escapes = 0 then putAll output bytes else escapeLoop bytes output

def printStringPtr (input : Option CString) : Printer Bool :=
  match input with
  | none => ensured 3 fun output => putAll output ['"'.toUInt8, '"'.toUInt8, 0]
  | some input =>
    let escapes := (input.bytes.map escapeCharacters).sum
    let outputLength := input.bytes.length + escapes
    ensured (outputLength + 3) fun output => do
      put output '"'.toUInt8
      copyString escapes input.bytes (output + 1)
      put (output + outputLength + 1) '"'.toUInt8
      put (output + outputLength + 2) 0

/-! ### Values -/

/-- `strcpy` of a literal. -/
def printLiteral (text : List UInt8) : Printer Bool :=
  ensured (text.length + 1) fun output => putAll output (text ++ [0])

/-- The `cJSON_Raw` case of `print_value`. -/
def printRaw (raw : Option CString) : Printer Bool :=
  match raw with
  | none => pure false
  | some raw => ensured (raw.bytes.length + 1) fun output => putAll output (raw.bytes ++ [0])

/-- `print_value` of a node with its fields, with what prints its children. -/
def printContents (array object : Printer Bool) (data : ItemData) : Printer Bool :=
  match data.type with
  | .null => printLiteral (JsonGrammar.ascii "null")
  | .false => printLiteral (JsonGrammar.ascii "false")
  | .true => printLiteral (JsonGrammar.ascii "true")
  | .number => printNumber data
  | .raw => printRaw data.valuestring
  | .string => printStringPtr data.valuestring
  | .array => array
  | .object => object
  | .invalid => pure false

/-- `print_array` with its loop over the elements. -/
def printArray (loop : Printer Bool) : Printer Bool :=
  andThen
    (ensured 1 fun output => do
      put output '['.toUInt8
      moveOffset 1
      deeper)
    (andThen loop
      (ensured 2 fun output => do
        putAll output [']'.toUInt8, 0]
        shallower))

/-- The comma behind an element that is not the last one. -/
def printComma (last : Bool) : Printer Bool :=
  if last then pure true
  else do
    let p ← get
    let length := if p.format then 2 else 1
    ensured (length + 1) fun output => do
      putAll output (if p.format then [','.toUInt8, ' '.toUInt8, 0] else [','.toUInt8, 0])
      moveOffset length

/-- `print_object` with its loop over the members. -/
def printObject (loop : Printer Bool) : Printer Bool := do
  let p ← get
  let length := if p.format then 2 else 1
  andThen
    (ensured (length + 1) fun output => do
      put output '\x7b'.toUInt8
      deeper
      if p.format then put (output + 1) '\n'.toUInt8 else pure ⟨⟩
      moveOffset length)
    (andThen loop
      (do
        let p ← get
        ensured (if p.format then p.depth + 1 else 2) fun output => do
          let tabs := if p.format then List.replicate (p.depth - 1) '\t'.toUInt8 else []
          putAll output (tabs ++ ['\x7d'.toUInt8, 0])
          shallower))

/-- The indentation in front of a member. -/
def printIndentation : Printer Bool := do
  let p ← get
  if p.format then
    ensured p.depth fun output => do
      putAll output (List.replicate p.depth '\t'.toUInt8)
      moveOffset p.depth
  else pure true

/-- The colon behind a name. -/
def printColon : Printer Bool := do
  let p ← get
  let length := if p.format then 2 else 1
  ensured length fun output => do
    putAll output (if p.format then [':'.toUInt8, '\t'.toUInt8] else [':'.toUInt8])
    moveOffset length

/-- What stands behind a member: a comma if it is not the last one, and the end of the line. -/
def printSeparator (last : Bool) : Printer Bool := do
  let p ← get
  let length := (if p.format then 1 else 0) + (if last then 0 else 1)
  ensured (length + 1) fun output => do
    let comma := if last then [] else [','.toUInt8]
    let line := if p.format then ['\n'.toUInt8] else []
    putAll output (comma ++ line ++ [0])
    moveOffset length

/-- A part, and then `update_offset`. -/
def updated (part : Printer Bool) : Printer Bool :=
  andThen part (do
    updateOffset
    pure true)

/-- `current->next == NULL`. -/
def CJSON.isNull : CJSON → Bool
  | .null => true
  | .node _ _ _ => false

mutual

/-- The loop of `print_array`. -/
def printElements : CJSON → Printer Bool
  | .null => pure true
  | .node next child data =>
    andThen (updated (printContents (printArray (printElements child))
      (printObject (printMembers child)) data))
    (andThen (printComma next.isNull) (printElements next))

/-- The loop of `print_object`. -/
def printMembers : CJSON → Printer Bool
  | .null => pure true
  | .node next child data =>
    andThen printIndentation
    (andThen (updated (printStringPtr data.string))
    (andThen printColon
    (andThen (updated (printContents (printArray (printElements child))
      (printObject (printMembers child)) data))
    (andThen (printSeparator next.isNull) (printMembers next)))))

end

def printValue : CJSON → Printer Bool
  | .null => pure false
  | .node _ child data =>
    printContents (printArray (printElements child)) (printObject (printMembers child)) data

/-! ### Entry points -/

/-- What a run hands out, and the hooks it leaves. -/
def handedOut {Value : Type} (run : Value × PrintBuffer) : Value × Hooks := (run.1, run.2.hooks)

/-- The end of `print`: the text is moved to a block of its own size. -/
def takePrinted : Printer (Option ByteBlock) := do
  let p ← get
  match p.buffer with
  | none => pure none
  | some block => do
    set { p with hooks := p.hooks.asked (p.offset + 1) }
    if ¬ p.hooks.grants 0 (p.offset + 1) then pure none
    else if p.hooks.reallocates then
      pure (some (block.resized (min block.length (p.offset + 1)) (p.offset + 1)))
    else do
      let printed ← lift (block.copied (min p.length (p.offset + 1)) (p.offset + 1))
      pure (some (printed.set p.offset (some 0)))

/-- `print`. The result is the block that is handed out, or nothing for null, and the hooks as they
are left. -/
def print (item : CJSON) (format : Bool) (hooks : Hooks) :
    Except Fault (Option ByteBlock × Hooks) :=
  if hooks.grants 0 256 then
    let printed : Printer (Option ByteBlock) := do
      if ← updated (printValue item) then takePrinted else pure none
    (printed.run { buffer := some (List.replicate 256 none), length := 256, format,
                   hooks := hooks.asked 256 }).map handedOut
  else .ok (none, hooks.asked 256)

/-- `cJSON_Print`. -/
def cJSONPrint (item : CJSON) (hooks : Hooks) : Except Fault (Option ByteBlock × Hooks) :=
  print item true hooks

/-- `cJSON_PrintUnformatted`. -/
def cJSONPrintUnformatted (item : CJSON) (hooks : Hooks) :
    Except Fault (Option ByteBlock × Hooks) :=
  print item false hooks

/-- `cJSON_PrintBuffered`. -/
def cJSONPrintBuffered (item : CJSON) (prebuffer : Int32) (format : Bool) (hooks : Hooks) :
    Except Fault (Option ByteBlock × Hooks) :=
  if prebuffer < 0 then .ok (none, hooks)
  else
    let size := prebuffer.toNatClampNeg
    if hooks.grants 0 size then
      let printed : Printer (Option ByteBlock) := do
        if ← printValue item then
          let p ← get
          pure p.buffer
        else pure none
      (printed.run { buffer := some (List.replicate size none), length := size, format,
                     hooks := hooks.asked size }).map handedOut
    else .ok (none, hooks.asked size)

/-- `cJSON_PrintPreallocated`. The result is what it returns and the buffer it leaves. -/
def cJSONPrintPreallocated (item : CJSON) (buffer : Option ByteBlock) (length : Int32)
    (format : Bool) (hooks : Hooks) : Except Fault (Bool × Option ByteBlock) :=
  match buffer with
  | none => .ok (false, none)
  | some block =>
    if length < 0 then .ok (false, some block)
    else
      ((printValue item).run
        { buffer := some block, length := length.toNatClampNeg, noalloc := true, format,
          hooks }).map fun run => (run.1, run.2.buffer)

end DiffServSimulation
