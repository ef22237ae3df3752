/-
This file proves that the printer writes the text of a tree and nothing else, in
every format, into every kind of buffer and with every allocator.

Each part is specified by its text, and the specification of a whole value is
assembled along the recursion of the printer. No write leaves its block, and a
value is refused only for a reason: the allocator, a tree without a text, or a
text that does not fit into the buffer with two bytes to spare.
-/

import DiffServSimulation.CjsonPrintSafety

namespace DiffServSimulation

open Faulting DecimalNumber JsonGrammar

section Parts

variable {settings : Settings} {depth needed : Nat} {written : List UInt8} {p : PrintBuffer}

/-! ### Writing into reserved room -/

/-- A text is written, perhaps with more behind it, and the offset is moved behind the text. -/
theorem write_moves {bytes : List UInt8} {count : Nat} (text rest : List UInt8)
    (isBytes : bytes = text ++ rest) (isCount : count = text.length)
    (room : Room settings depth written needed p) (fits : bytes.length ≤ needed + 1)
    (behind : count ≤ needed) :
    Completes (do
      putAll written.length bytes
      moveOffset count) p fun _ next => Holds settings depth (written ++ text) next := by
  subst isBytes isCount
  have enough := room.room
  obtain ⟨block, ran, stands⟩ := putAll_run (text ++ rest) room.toBlockBegins (by omega)
  rw [← List.append_assoc] at stands
  have front := stands.front
  refine completes_run_bind ran ⟨⟨⟩, _, rfl, ⟨front.isSettings, front.isDepth, front.block,
    front.small, front.copies⟩, ?_, Or.inr ?_⟩
  · show p.offset + text.length = _
    rw [room.offset, List.length_append]
  · show _ < p.length
    rw [List.length_append]
    omega

theorem Holds.deeper (holds : Holds settings depth written p) :
    Completes deeper p fun _ next => Holds settings (depth + 1) written next :=
  ⟨⟨⟩, _, rfl, ⟨holds.isSettings, congrArg (· + 1) holds.isDepth, holds.block, holds.small,
    holds.copies⟩, holds.offset, holds.inside⟩

/-- A text is written with its terminator. -/
theorem write_printed (text : List UInt8)
    (room : Room settings depth written (text.length + 1) p) :
    Completes (putAll written.length (text ++ [0])) p fun _ next =>
      Printed settings depth written text next := by
  have enough := room.room
  obtain ⟨block, ran, stands⟩ := putAll_run (text ++ [0]) room.toBlockBegins (by
    rw [List.length_append, List.length_singleton]
    omega)
  rw [← List.append_assoc] at stands
  refine ⟨⟨⟩, _, ran, stands, ?_, ?_, ?_⟩
  · exact room.offset.ge
  · show p.offset ≤ _
    rw [room.offset, List.length_append]
    omega
  · show _ < p.length
    rw [List.length_append]
    omega

theorem Printed.shallower {text : List UInt8}
    (printed : Printed settings (depth + 1) written text p) :
    Completes shallower p fun _ next => Printed settings depth written text next :=
  ⟨⟨⟩, _, rfl, ⟨printed.isSettings, congrArg (· - 1) printed.isDepth, printed.block,
    printed.small, printed.copies⟩, printed.above, printed.below, printed.inside⟩

/-! ### Numbers and literals -/

theorem printLiteral_prints (text : List UInt8) (free : TerminatorFree text) :
    PrintsValue settings depth depth (printLiteral text) (some text) :=
  printsValue_ensured _ text free fun _ _ room => write_printed text room

theorem printRaw_prints (raw : Option CString) :
    PrintsValue settings depth depth (printRaw raw) (raw.map CString.bytes) := by
  cases raw with
  | none => exact printsValue_refuses settings depth depth
  | some raw =>
    exact printsValue_ensured _ raw.bytes raw.noTerminator fun _ _ room =>
      write_printed raw.bytes room

theorem printNumber_prints (data : ItemData) :
    PrintsValue settings depth depth (printNumber data) (some (numberText data)) := by
  have short := length_numberText_le data
  intro written p holds
  refine completes_lift_bind (numberBuffer_eq data) ?_
  rw [if_neg (by omega)]
  refine printsValue_ensured _ _ (numberText_terminatorFree data) (fun written p room => ?_)
    written p holds
  have enough := room.room
  obtain ⟨block, ran, stands⟩ := putAll_run (numberText data) room.toBlockBegins (by omega)
  refine completes_run_bind ran ?_
  obtain ⟨last, ran, stands⟩ := put_run stands 0 (by
    rw [List.length_append]
    show _ < p.length
    omega)
  rw [List.length_append] at ran
  refine completes_run_bind ran ⟨⟨⟩, _, rfl, ⟨stands.isSettings, stands.isDepth, stands.block,
    stands.small, stands.copies⟩, ?_, ?_, ?_⟩
  · show _ ≤ p.offset + _
    rw [room.offset]
    omega
  · show p.offset + _ ≤ _
    rw [room.offset, List.length_append]
  · show _ < p.length
    rw [List.length_append]
    omega

/-! ### Strings -/

/-- A byte that is copied as it is. -/
theorem escapedByte_of_normal {byte : UInt8}
    (normal : 31 < byte ∧ byte ≠ '"'.toUInt8 ∧ byte ≠ '\\'.toUInt8) :
    escapedByte byte = [byte] := by
  obtain ⟨visible, noQuote, noEscape⟩ := normal
  have above : ∀ other : UInt8, other ≤ 31 → byte ≠ other := by
    rintro other low rfl
    exact absurd visible (UInt8.not_lt.mpr low)
  have none : escapeLetter? byte = none := by
    unfold escapeLetter?
    rw [if_neg noQuote, if_neg noEscape, if_neg (above 8 (by decide)),
      if_neg (above 12 (by decide)), if_neg (above 10 (by decide)), if_neg (above 13 (by decide)),
      if_neg (above 9 (by decide))]
  have large : ¬ byte < 32 := by
    rw [UInt8.lt_iff_toNat_lt] at visible ⊢
    exact fun small => by
      have low : byte.toNat < 32 := small
      have high : 31 < byte.toNat := visible
      omega
  rw [escapedByte, none]
  simp only [if_neg large]

/-- A byte without a letter that is not copied is a control character. -/
theorem escapedByte_of_control {byte : UInt8}
    (special : ¬ (31 < byte ∧ byte ≠ '"'.toUInt8 ∧ byte ≠ '\\'.toUInt8))
    (none : escapeLetter? byte = none) :
    escapedByte byte = '\\'.toUInt8 :: unicodeEscape byte := by
  have noQuote : byte ≠ '"'.toUInt8 := by
    rintro rfl
    exact absurd none (by decide)
  have noEscape : byte ≠ '\\'.toUInt8 := by
    rintro rfl
    exact absurd none (by decide)
  have low : byte < 32 := by
    have notAbove : ¬ 31 < byte := fun above => special ⟨above, noQuote, noEscape⟩
    rw [UInt8.lt_iff_toNat_lt] at notAbove ⊢
    have bound : ¬ 31 < byte.toNat := notAbove
    show byte.toNat < 32
    omega
  rw [escapedByte, none]
  simp only [if_pos low]

/-- The loop over a string writes each byte escaped. It needs one byte behind the text, for the
terminator of `sprintf`. -/
theorem escapeLoop_run (input : List UInt8) {bytes : List UInt8}
    (stands : BlockBegins settings depth bytes p)
    (room : bytes.length + (input.flatMap escapedByte).length + 1 ≤ p.length) :
    ∃ block, (escapeLoop input bytes.length).run p = .ok (⟨⟩, { p with buffer := some block }) ∧
      BlockBegins settings depth (bytes ++ input.flatMap escapedByte)
        { p with buffer := some block } := by
  induction input generalizing bytes p with
  | nil =>
    obtain ⟨block, present, -⟩ := stands.block
    refine ⟨block, ?_, ?_⟩
    · rw [← present]
      rfl
    · rw [List.flatMap_nil, List.append_nil, ← present]
      exact stands
  | cons byte input inductionHypothesis =>
    rw [List.flatMap_cons, List.length_append] at room
    rw [List.flatMap_cons, ← List.append_assoc]
    -- It is enough to write the one byte, with the rest of the text still to come.
    have continues : ∀ block, BlockBegins settings depth (bytes ++ escapedByte byte)
        { p with buffer := some block } →
        ∃ last, (escapeLoop input (bytes ++ escapedByte byte).length).run
          { p with buffer := some block } = .ok (⟨⟩, { p with buffer := some last }) ∧
          BlockBegins settings depth (bytes ++ escapedByte byte ++ input.flatMap escapedByte)
            { p with buffer := some last } := by
      intro block next
      refine inductionHypothesis next ?_
      rw [List.length_append]
      show _ ≤ p.length
      omega
    rw [escapeLoop]
    by_cases normal : 31 < byte ∧ byte ≠ '"'.toUInt8 ∧ byte ≠ '\\'.toUInt8
    · rw [if_pos normal]
      rw [escapedByte_of_normal normal] at continues room ⊢
      obtain ⟨block, ran, next⟩ := put_run stands byte (by omega)
      obtain ⟨last, rest, final⟩ := continues block next
      rw [List.length_append] at rest
      exact ⟨last, (run_bind_ok _ _ _ _ _ ran).trans rest, final⟩
    rw [if_neg normal]
    obtain ⟨block, ran, next⟩ := put_run stands '\\'.toUInt8 (by omega)
    rw [run_bind_ok _ _ _ _ _ ran]
    cases isLetter : escapeLetter? byte with
    | some letter =>
      have isEscaped : escapedByte byte = ['\\'.toUInt8, letter] := by
        rw [escapedByte, isLetter]
      rw [isEscaped] at continues room ⊢
      rw [List.length_cons, List.length_singleton] at room
      obtain ⟨second, ran, next⟩ := put_run next letter (by
        rw [List.length_append, List.length_singleton]
        show _ < p.length
        omega)
      rw [List.length_append, List.length_singleton] at ran
      rw [List.append_assoc] at next
      obtain ⟨last, rest, final⟩ := continues second next
      rw [List.length_append] at rest
      exact ⟨last, (run_bind_ok _ _ _ _ _ ran).trans rest, final⟩
    | none =>
      have isEscaped := escapedByte_of_control normal isLetter
      have size : (unicodeEscape byte).length = 5 := rfl
      rw [isEscaped] at continues room ⊢
      rw [List.length_cons, size] at room
      obtain ⟨second, ran, next⟩ := putAll_run (unicodeEscape byte ++ [0]) next (by
        rw [List.length_append, List.length_append, size, List.length_singleton,
          List.length_singleton]
        show _ ≤ p.length
        omega)
      rw [List.length_append, List.length_singleton] at ran
      rw [← List.append_assoc, List.append_assoc bytes] at next
      obtain ⟨last, rest, final⟩ := continues second next.front
      rw [List.length_append, List.length_cons, size] at rest
      exact ⟨last, (run_bind_ok _ _ _ _ _ ran).trans rest, final⟩

/-- The short way and the loop write the same bytes. -/
theorem copyString_run (input : List UInt8) {bytes : List UInt8}
    (stands : BlockBegins settings depth bytes p)
    (room : bytes.length + (input.flatMap escapedByte).length + 1 ≤ p.length) :
    ∃ block, (copyString (input.map escapeCharacters).sum input bytes.length).run p =
        .ok (⟨⟩, { p with buffer := some block }) ∧
      BlockBegins settings depth (bytes ++ input.flatMap escapedByte)
        { p with buffer := some block } := by
  unfold copyString
  split_ifs with plain
  · rw [flatMap_escapedByte_of_sum_eq_zero _ plain] at room ⊢
    exact putAll_run input stands (by omega)
  · exact escapeLoop_run input stands room

theorem printStringPtr_prints (input : Option CString) :
    PrintsValue settings depth depth (printStringPtr input) (some (stringText input)) := by
  cases input with
  | none =>
    exact printsValue_ensured _ ['"'.toUInt8, '"'.toUInt8] (stringText_terminatorFree none)
      fun _ _ room => write_printed _ room
  | some input =>
    have length := length_flatMap_escapedByte input.bytes
    have text : (stringText (some input)).length + 1 =
        input.bytes.length + (input.bytes.map escapeCharacters).sum + 3 := by
      rw [stringText, List.length_cons, List.length_append, length, List.length_singleton]
    rw [printStringPtr]
    simp only [← text]
    refine printsValue_ensured _ _ (stringText_terminatorFree (some input)) fun written p room => ?_
    have enough := room.room
    rw [text] at enough
    obtain ⟨first, ran, stands⟩ := put_run room.toBlockBegins '"'.toUInt8 (by omega)
    refine completes_run_bind ran ?_
    obtain ⟨second, ran, stands⟩ := copyString_run input.bytes stands (by
      rw [List.length_append, List.length_singleton, length]
      show _ ≤ p.length
      omega)
    rw [List.length_append, List.length_singleton] at ran
    refine completes_run_bind ran ?_
    have position : written.length + (input.bytes.length +
        (input.bytes.map escapeCharacters).sum) + 1 =
          (written ++ ['"'.toUInt8] ++ input.bytes.flatMap escapedByte).length := by
      rw [List.length_append, List.length_append, List.length_singleton, length]
      omega
    obtain ⟨third, ran, stands⟩ := put_run stands '"'.toUInt8 (by
      rw [← position]
      show _ < p.length
      omega)
    rw [position]
    refine completes_run_bind ran ?_
    obtain ⟨last, ran, stands⟩ := put_run stands 0 (by
      rw [List.length_append, ← position, List.length_singleton]
      show _ < p.length
      omega)
    rw [List.length_append, ← position, List.length_singleton] at ran
    have whole : written ++ ['"'.toUInt8] ++ input.bytes.flatMap escapedByte ++ ['"'.toUInt8] =
        written ++ stringText (some input) := by
      simp [stringText]
    rw [whole] at stands
    refine ⟨⟨⟩, _, ran, stands, room.offset.ge, ?_, ?_⟩
    · show p.offset ≤ _
      rw [room.offset, List.length_append]
      omega
    · show _ < p.length
      rw [List.length_append]
      omega

end Parts

/-! ### Arrays and objects -/

section Parts

variable {settings : Settings} {depth : Nat}

theorem printArray_prints {loop : Printer Bool} {text : Option (List UInt8)}
    (prints : Prints settings (depth + 1) (depth + 1) loop text) :
    PrintsValue settings depth depth (printArray loop) (arrayText text) := by
  refine Prints.andThenValue ?_ (prints.andThenValue ?_)
  · refine prints_ensured 1 _ ['['.toUInt8] (terminatorFree_of_all (by decide)) (by decide)
      fun written p room => ?_
    have enough := room.room
    obtain ⟨block, ran, begins⟩ := put_run room.toBlockBegins '['.toUInt8 (by omega)
    refine completes_run_bind ran (completes_modify_bind (Holds.deeper ⟨⟨begins.isSettings,
      begins.isDepth, begins.block, begins.small, begins.copies⟩, ?_, Or.inr ?_⟩))
    · show p.offset + 1 = _
      rw [room.offset, List.length_append, List.length_singleton]
    · show _ < p.length
      rw [List.length_append, List.length_singleton]
      omega
  · refine printsValue_ensured _ [']'.toUInt8] (terminatorFree_of_all (by decide))
      fun written p room => ?_
    exact completes_bind (write_printed [']'.toUInt8] room) fun _ _ printed => printed.shallower

theorem printComma_prints (last : Bool) :
    Prints settings depth depth (printComma last) (some (commaText settings.format last)) := by
  cases last with
  | true => exact prints_nothing settings depth
  | false =>
    refine prints_get fun p isFormat _ => ?_
    simp only [isFormat]
    cases settings.format with
    | true =>
      exact prints_ensured 3 _ [','.toUInt8, ' '.toUInt8] (terminatorFree_of_all (by decide))
        (by decide) fun written p room =>
          write_moves _ [0] rfl rfl room (by decide) (by decide)
    | false =>
      exact prints_ensured 2 _ [','.toUInt8] (terminatorFree_of_all (by decide)) (by decide)
        fun written p room => write_moves _ [0] rfl rfl room (by decide) (by decide)

theorem tabs_terminatorFree (depth : Nat) : TerminatorFree (tabs depth) := by
  intro byte member
  rw [List.eq_of_mem_replicate member]
  decide

theorem BlockBegins.deeper {bytes : List UInt8} {p : PrintBuffer}
    (begins : BlockBegins settings depth bytes p) :
    BlockBegins settings (depth + 1) bytes { p with depth := p.depth + 1 } :=
  ⟨begins.isSettings, congrArg (· + 1) begins.isDepth, begins.block, begins.small, begins.copies⟩

/-- The opening brace, and the end of its line. -/
theorem openBrace_prints (format : Bool) :
    Prints settings depth (depth + 1)
      (ensured ((if format then 2 else 1) + 1) fun output => do
        put output '\x7b'.toUInt8
        deeper
        if format then put (output + 1) '\n'.toUInt8 else pure ⟨⟩
        moveOffset (if format then 2 else 1))
      (some ('\x7b'.toUInt8 :: whenFormatted format ['\n'.toUInt8])) := by
  cases format with
  | true =>
    refine prints_ensured 3 _ ['\x7b'.toUInt8, '\n'.toUInt8] (terminatorFree_of_all (by decide))
      (by decide) fun written p room => ?_
    have enough := room.room
    obtain ⟨block, ran, begins⟩ := put_run room.toBlockBegins '\x7b'.toUInt8 (by omega)
    refine completes_run_bind ran (completes_modify_bind ?_)
    obtain ⟨last, ran, begins⟩ := put_run begins.deeper '\n'.toUInt8 (by
      rw [List.length_append, List.length_singleton]
      show _ < p.length
      omega)
    rw [List.length_append, List.length_singleton] at ran
    rw [List.append_assoc] at begins
    refine completes_run_bind ran ⟨⟨⟩, _, rfl, ⟨begins.isSettings, begins.isDepth, begins.block,
      begins.small, begins.copies⟩, ?_, Or.inr ?_⟩
    · show p.offset + 2 = _
      rw [room.offset, List.length_append]
      rfl
    · show _ < p.length
      rw [List.length_append]
      show written.length + 2 < p.length
      omega
  | false =>
    refine prints_ensured 2 _ ['\x7b'.toUInt8] (terminatorFree_of_all (by decide))
      (by decide) fun written p room => ?_
    have enough := room.room
    obtain ⟨block, ran, begins⟩ := put_run room.toBlockBegins '\x7b'.toUInt8 (by omega)
    refine completes_run_bind ran (completes_modify_bind ?_)
    have deep := begins.deeper
    refine ⟨⟨⟩, _, rfl, ⟨deep.isSettings, deep.isDepth, deep.block, deep.small, deep.copies⟩, ?_,
      Or.inr ?_⟩
    · show p.offset + 1 = _
      rw [room.offset, List.length_append, List.length_singleton]
    · show _ < p.length
      rw [List.length_append, List.length_singleton]
      omega

/-- The closing brace, with its indentation. -/
theorem closeBrace_prints (format : Bool) :
    PrintsValue settings (depth + 1) depth
      (ensured (if format then depth + 1 + 1 else 2) fun output => do
        putAll output ((if format then List.replicate depth '\t'.toUInt8 else []) ++
          ['\x7d'.toUInt8, 0])
        shallower)
      (some (whenFormatted format (tabs depth) ++ ['\x7d'.toUInt8])) := by
  have needed : (if format then depth + 1 + 1 else 2) =
      (whenFormatted format (tabs depth) ++ ['\x7d'.toUInt8]).length + 1 := by
    cases format
    · rfl
    · rw [whenFormatted, if_pos rfl, if_pos rfl, tabs, List.length_append, List.length_replicate]
      rfl
  have bytes : (if format then List.replicate depth '\t'.toUInt8 else []) ++ ['\x7d'.toUInt8, 0] =
      whenFormatted format (tabs depth) ++ ['\x7d'.toUInt8] ++ [0] := by
    rw [List.append_assoc]
    rfl
  rw [needed, bytes]
  refine printsValue_ensured _ _ ?_ fun written p room => ?_
  · refine TerminatorFree.append ?_ (terminatorFree_of_all (by decide))
    cases format
    · exact terminatorFree_of_all rfl
    · exact tabs_terminatorFree depth
  · exact completes_bind (write_printed _ room) fun _ _ printed => printed.shallower

theorem printObject_prints {loop : Printer Bool} {text : Option (List UInt8)}
    (prints : Prints settings (depth + 1) (depth + 1) loop text) :
    PrintsValue settings depth depth (printObject loop)
      (objectText settings.format depth text) := by
  refine printsValue_get fun p isFormat _ => ?_
  simp only [isFormat]
  refine (openBrace_prints settings.format).andThenValue (prints.andThenValue ?_)
  refine printsValue_get fun p isFormat isDepth => ?_
  simp only [isFormat, isDepth, Nat.add_sub_cancel]
  exact closeBrace_prints settings.format

theorem printIndentation_prints :
    Prints settings depth depth printIndentation
      (some (whenFormatted settings.format (tabs depth))) := by
  refine prints_get fun p isFormat isDepth => ?_
  simp only [isFormat, isDepth]
  cases settings.format with
  | true =>
    refine prints_ensured depth _ (tabs depth) (tabs_terminatorFree depth) ?_
      fun written p room => ?_
    · rw [tabs, List.length_replicate]
      omega
    · refine write_moves (tabs depth) [] (List.append_nil _).symm ?_ room ?_ (Nat.le_refl _)
      · rw [tabs, List.length_replicate]
      · rw [List.length_replicate]
        omega
  | false => exact prints_nothing settings depth

theorem printColon_prints :
    Prints settings depth depth printColon
      (some (':'.toUInt8 :: whenFormatted settings.format ['\t'.toUInt8])) := by
  refine prints_get fun p isFormat _ => ?_
  simp only [isFormat]
  cases settings.format with
  | true =>
    exact prints_ensured 2 _ _ (terminatorFree_of_all (by decide)) (by decide)
      fun written p room => write_moves _ [] rfl rfl room (by decide) (by decide)
  | false =>
    exact prints_ensured 1 _ _ (terminatorFree_of_all (by decide)) (by decide)
      fun written p room => write_moves _ [] rfl rfl room (by decide) (by decide)

theorem printSeparator_prints (last : Bool) :
    Prints settings depth depth (printSeparator last)
      (some (separatorText settings.format last)) := by
  refine prints_get fun p isFormat _ => ?_
  simp only [isFormat]
  cases settings.format <;> cases last <;>
    exact prints_ensured _ _ _ (terminatorFree_of_all (by decide)) (by decide)
      fun written p room => write_moves _ [0] rfl rfl room (by decide) (by decide)

/-! ### Trees -/

theorem printContents_prints {array object : Printer Bool}
    {elements members : Option (List UInt8)} (data : ItemData)
    (printsArray : PrintsValue settings depth depth array elements)
    (printsObject : PrintsValue settings depth depth object members) :
    PrintsValue settings depth depth (printContents array object data)
      (contentsText elements members data) := by
  unfold printContents contentsText
  cases data.type with
  | invalid => exact printsValue_refuses settings depth depth
  | false => exact printLiteral_prints _ (terminatorFree_of_all (by decide))
  | true => exact printLiteral_prints _ (terminatorFree_of_all (by decide))
  | null => exact printLiteral_prints _ (terminatorFree_of_all (by decide))
  | number => exact printNumber_prints data
  | string => exact printStringPtr_prints data.valuestring
  | array => exact printsArray
  | object => exact printsObject
  | raw => exact printRaw_prints data.valuestring

end Parts

/-- Both loops write the texts of the children, at every depth. -/
theorem printChildren_print (settings : Settings) (children : CJSON) (depth : Nat) :
    Prints settings depth depth (printElements children)
        (elementsText settings.format depth children) ∧
      Prints settings depth depth (printMembers children)
        (membersText settings.format depth children) := by
  induction children generalizing depth with
  | null => exact ⟨prints_nothing settings depth, prints_nothing settings depth⟩
  | node next child data nextHypothesis childHypothesis =>
    obtain ⟨elements, members⟩ := nextHypothesis depth
    obtain ⟨childElements, childMembers⟩ := childHypothesis (depth + 1)
    have contents := printContents_prints data (printArray_prints childElements)
      (printObject_prints childMembers)
    exact ⟨contents.updated.andThen ((printComma_prints next.isNull).andThen elements),
      printIndentation_prints.andThen ((printStringPtr_prints data.string).updated.andThen
        (printColon_prints.andThen (contents.updated.andThen
          ((printSeparator_prints next.isNull).andThen members))))⟩

theorem printValue_prints (settings : Settings) (depth : Nat) (item : CJSON) :
    PrintsValue settings depth depth (printValue item)
      (valueText settings.format depth item) := by
  cases item with
  | null => exact printsValue_refuses settings depth depth
  | node next child data =>
    obtain ⟨elements, members⟩ := printChildren_print settings child (depth + 1)
    exact printContents_prints data (printArray_prints elements) (printObject_prints members)

end DiffServSimulation
