/-
This file proves that the vendored parser takes every text of its dialect for
exactly the item the dialect gives, and so decides the dialect.

The grammar is followed constructor by constructor. `ReadsValue`, `ReadsItems`
and `ReadsRound` say what the parsers do with a text of each kind, whatever
stands behind it, and every constructor has one lemma that takes the statements
of its parts to its own. Only a number depends on what follows: it goes on for as
long as there are bytes a number may hold.
-/

import DiffServSimulation.CjsonParseRefusals
import DiffServSimulation.CjsonParseSound
import DiffServSimulation.CjsonParseStrings

namespace DiffServSimulation

open Faulting DecimalNumber

/-! ### What is proved of each kind of text -/

/-- The parser of a value takes the text for the item. -/
def ReadsValue (depth : Nat) (name : Option CString) (text : List UInt8) (item : Item) : Prop :=
  ∀ (fuel : Nat) (type : ItemType) (buffer : ParseBuffer) (rest : List UInt8), buffer.Regular →
    buffer.ahead = text ++ rest → (item.type = .number → StopsAt isNumberByte rest) →
    buffer.depth + depth ≤ cJSONNestingLimit → 3 * buffer.ahead.length + 2 ≤ fuel →
    (parseValue fuel { type := type, string := name }).run buffer =
      .ok (some item, buffer.skip text.length)

/-- A loop over elements, entered one position before the whites ahead of the first of them, takes
the text up to the closing bracket and links the items. -/
def ReadsItems (loop : Nat → List Item → Parser (Option (List Item))) (closing : UInt8)
    (depth : Nat) (text : List UInt8) (linked : List Item) : Prop :=
  ∀ (fuel : Nat) (items : List Item) (buffer : ParseBuffer) (opening : UInt8)
    (white rest : List UInt8), buffer.Regular → White white →
    buffer.ahead = opening :: (white ++ (text ++ closing :: rest)) →
    buffer.depth + depth ≤ cJSONNestingLimit → 3 * buffer.ahead.length ≤ fuel →
    (loop fuel items).run buffer =
      .ok (some (items ++ linked), buffer.skip (1 + white.length + text.length))

/-- A round of a loop over elements comes down to a parser of a value, and that parser takes the
text of the round and builds its item. -/
def ReadsRound (loop : Nat → List Item → Parser (Option (List Item))) (depth : Nat)
    (text : List UInt8) (item : Item) : Prop :=
  ∀ (fuel : Nat) (items : List Item) (buffer : ParseBuffer) (opening : UInt8)
    (white rest : List UInt8), buffer.Regular → White white →
    buffer.ahead = opening :: (white ++ (text ++ rest)) → StopsAt isNumberByte rest →
    buffer.depth + depth ≤ cJSONNestingLimit → 3 * buffer.ahead.length ≤ fuel + 1 →
    ∃ (value : Parser (Option Item)) (count : Nat),
      (loop (fuel + 1) items).run buffer =
        (parseElement value (loop fuel) items).run (buffer.skip count) ∧
      value.run (buffer.skip count) =
        .ok (some item, buffer.skip (1 + white.length + text.length))

/-! ### Leaves -/

variable {buffer : ParseBuffer}

theorem not_isPrefixOf_of_ne {first byte : UInt8} (different : byte ≠ first)
    (others rest : List UInt8) : ¬ (first :: others).isPrefixOf (byte :: rest) = true := by
  rw [List.isPrefixOf_cons_cons, beq_false_of_ne (Ne.symm different), Bool.false_and]
  exact Bool.false_ne_true

theorem isPrefixOf_append (text rest : List UInt8) : text.isPrefixOf (text ++ rest) = true :=
  List.isPrefixOf_iff_prefix.mpr (List.prefix_append text rest)

/-- A literal that does not stand ahead is passed by. -/
theorem run_literalIs_of_not (regular : buffer.Regular) {literal : List UInt8}
    (positive : 0 < literal.length) (absent : ¬ literal.isPrefixOf buffer.ahead = true)
    (found other : Parser (Option Item)) :
    (do let stands ← literalIs literal; if stands then found else other).run buffer =
      other.run buffer := by
  refine (run_bind_ok _ _ _ _ _ (literalIs_run regular literal positive)).trans ?_
  rw [if_neg absent]

theorem run_literalIs (regular : buffer.Regular) {literal rest : List UInt8}
    (positive : 0 < literal.length) (stands : buffer.ahead = literal ++ rest)
    (found other : Parser (Option Item)) :
    (do let stands ← literalIs literal; if stands then found else other).run buffer =
      found.run buffer := by
  refine (run_bind_ok _ _ _ _ _ (literalIs_run regular literal positive)).trans ?_
  rw [stands, if_pos (isPrefixOf_append _ _)]

/-- On a byte that begins no literal name, the parser goes by that byte. -/
theorem parseValue_run_of_first (regular : buffer.Regular) (fuel : Nat) (item : Item) {byte : UInt8}
    {rest : List UInt8} (stands : buffer.ahead = byte :: rest) (notNull : byte ≠ 'n'.toUInt8)
    (notFalse : byte ≠ 'f'.toUInt8) (notTrue : byte ≠ 't'.toUInt8) :
    (parseValue (fuel + 1) item).run buffer =
      (if byte = '"'.toUInt8 then parseString item
      else if byte = '-'.toUInt8 ∨ '0'.toUInt8 ≤ byte ∧ byte ≤ '9'.toUInt8 then parseNumber item
      else if byte = '['.toUInt8 then parseArray fuel item
      else if byte = '\x7b'.toUInt8 then parseObject fuel item
      else pure none : Parser (Option Item)).run buffer := by
  have accessible : buffer.CanAccessAtIndex 0 :=
    (regular.canAccessAtIndex_iff 0).mpr (by rw [stands]; exact Nat.succ_pos _)
  rw [parseValue]
  refine (run_literalIs_of_not regular (by decide)
    (stands ▸ not_isPrefixOf_of_ne notNull _ rest) _ _).trans ?_
  refine (run_literalIs_of_not regular (by decide)
    (stands ▸ not_isPrefixOf_of_ne notFalse _ rest) _ _).trans ?_
  refine (run_literalIs_of_not regular (by decide)
    (stands ▸ not_isPrefixOf_of_ne notTrue _ rest) _ _).trans ?_
  rw [run_get_bind, if_neg (not_not_intro accessible)]
  exact run_bind_ok _ _ _ _ byte (byteAt_run (by rw [stands]; rfl))

theorem readsValue_null (depth : Nat) (name : Option CString) :
    ReadsValue depth name ("null".toList.map Char.toUInt8)
      { type := .null, string := name } := by
  intro fuel type buffer rest regular stands stops deep enough
  obtain ⟨fuel, rfl⟩ := Nat.exists_eq_succ_of_ne_zero (show fuel ≠ 0 by omega)
  rw [parseValue]
  exact run_literalIs regular (by decide) stands _ _

theorem readsValue_false (depth : Nat) (name : Option CString) :
    ReadsValue depth name ("false".toList.map Char.toUInt8)
      { type := .false, string := name } := by
  intro fuel type buffer rest regular stands stops deep enough
  obtain ⟨fuel, rfl⟩ := Nat.exists_eq_succ_of_ne_zero (show fuel ≠ 0 by omega)
  rw [parseValue]
  refine (run_literalIs_of_not regular (by decide)
    (stands ▸ not_isPrefixOf_of_ne (by decide) _ _) _ _).trans ?_
  exact run_literalIs regular (by decide) stands _ _

theorem readsValue_true (depth : Nat) (name : Option CString) :
    ReadsValue depth name ("true".toList.map Char.toUInt8)
      { type := .true, valueint := 1, string := name } := by
  intro fuel type buffer rest regular stands stops deep enough
  obtain ⟨fuel, rfl⟩ := Nat.exists_eq_succ_of_ne_zero (show fuel ≠ 0 by omega)
  rw [parseValue]
  refine (run_literalIs_of_not regular (by decide)
    (stands ▸ not_isPrefixOf_of_ne (by decide) _ _) _ _).trans ?_
  refine (run_literalIs_of_not regular (by decide)
    (stands ▸ not_isPrefixOf_of_ne (by decide) _ _) _ _).trans ?_
  exact run_literalIs regular (by decide) stands _ _

theorem readsValue_number (depth : Nat) (name : Option CString) {text : List UInt8} {number : ℚ}
    (isNumber : NumberText text number) :
    ReadsValue depth name text
      { type := .number, valueint := saturate number, valuedouble := Double.ofRat number,
        string := name } := by
  intro fuel type buffer rest regular stands stops deep enough
  obtain ⟨fuel, rfl⟩ := Nat.exists_eq_succ_of_ne_zero (show fuel ≠ 0 by omega)
  obtain ⟨byte, first, starts⟩ := isNumber.starts
  obtain ⟨others, rfl⟩ := List.head?_eq_some_iff.mp first
  have apart : byte ≠ 'n'.toUInt8 ∧ byte ≠ 'f'.toUInt8 ∧ byte ≠ 't'.toUInt8 ∧
      byte ≠ '"'.toUInt8 := by
    rcases starts with rfl | digit
    · decide
    · refine ⟨?_, ?_, ?_, ?_⟩ <;>
      · rintro rfl
        exact absurd digit (by decide)
  have number : byte = '-'.toUInt8 ∨ '0'.toUInt8 ≤ byte ∧ byte ≤ '9'.toUInt8 := by
    simpa [isDigit] using starts
  rw [parseValue_run_of_first regular fuel _ stands apart.1 apart.2.1 apart.2.2.1,
    if_neg apart.2.2.2, if_pos number]
  exact parseNumber_run regular _ isNumber (stops rfl) stands

theorem readsValue_string (depth : Nat) (name : Option CString) {text bytes : List UInt8}
    (quoted : Quoted text bytes) :
    ReadsValue depth name text
      { type := .string, valuestring := some (CString.ofBuffer bytes), string := name } := by
  intro fuel type buffer rest regular stands stops deep enough
  obtain ⟨fuel, rfl⟩ := Nat.exists_eq_succ_of_ne_zero (show fuel ≠ 0 by omega)
  have read := fun item => parseString_run regular item quoted stands
  obtain ⟨body, rfl, -⟩ := quoted.body
  rw [parseValue_run_of_first regular fuel _ stands (by decide) (by decide) (by decide), if_pos rfl]
  exact read _

/-! ### Brackets -/

theorem closeItem_run (item : Item) (type : ItemType) (items : List Item) :
    (closeItem item type items).run buffer =
      .ok (some { item with type := type, child := CJSON.link items },
        { buffer.skip 1 with depth := buffer.depth - 1 }) := rfl

theorem nextIs_run_of_cons (regular : buffer.Regular) (expected : UInt8) {byte : UInt8}
    {rest : List UInt8} (stands : buffer.ahead = byte :: rest) :
    (nextIs expected).run buffer = .ok (byte == expected, buffer) := by
  rw [nextIs_run regular, stands]
  rfl

/-- Brackets around nothing but whites. -/
theorem parseBracketed_run_empty (regular : buffer.Regular) (closing : UInt8)
    (visible : 32 < closing) (type : ItemType)
    (loop : List Item → Parser (Option (List Item))) (item : Item) {opening : UInt8}
    {white rest : List UInt8} (isWhite : White white)
    (stands : buffer.ahead = opening :: (white ++ closing :: rest)) :
    (parseBracketed closing type loop item).run buffer =
      .ok (some { item with type := type, child := CJSON.link [] },
        { buffer.skip (1 + white.length + 1) with depth := buffer.depth - 1 }) := by
  have behind : (buffer.skip 1).ahead = white ++ closing :: rest := by
    rw [ParseBuffer.ahead_skip, stands]
    rfl
  have atClosing : (buffer.skip (1 + white.length)).ahead = closing :: rest := by
    rw [← ParseBuffer.skip_skip, ParseBuffer.ahead_skip, behind, List.drop_left]
  rw [parseBracketed]
  refine (run_bind_ok _ _ _ _ _ (advance_run 1)).trans ?_
  refine (run_bind_ok _ _ _ _ _
    (bufferSkipWhitespace_run_white (regular.skip 1) isWhite visible behind)).trans ?_
  rw [ParseBuffer.skip_skip]
  refine (run_bind_ok _ _ _ _ _ (nextIs_run_of_cons (regular.skip _) closing atClosing)).trans ?_
  rw [if_pos (beq_self_eq_true closing), closeItem_run, ParseBuffer.skip_skip]
  rfl

/-- Brackets around elements. The loop is entered one position before the first of them. -/
theorem parseBracketed_run (regular : buffer.Regular)
    (loop : Nat → List Item → Parser (Option (List Item))) (closing : UInt8) (type : ItemType)
    {depth : Nat} {text : List UInt8} {linked : List Item}
    (reads : ReadsItems loop closing depth text linked) (fuel : Nat) (item : Item)
    {opening byte : UInt8} {white others rest : List UInt8} (isWhite : White white)
    (begins : text = byte :: others) (visible : 32 < byte) (opens : byte ≠ closing)
    (stands : buffer.ahead = opening :: (white ++ (text ++ closing :: rest)))
    (deep : buffer.depth + depth ≤ cJSONNestingLimit) (enough : 3 * buffer.ahead.length ≤ fuel) :
    (parseBracketed closing type (loop fuel) item).run buffer =
      .ok (some { item with type := type, child := CJSON.link linked },
        { buffer.skip (1 + white.length + text.length + 1) with depth := buffer.depth - 1 }) := by
  have behind : (buffer.skip 1).ahead = white ++ byte :: (others ++ closing :: rest) := by
    rw [ParseBuffer.ahead_skip, stands, begins]
    rfl
  have atFirst : (buffer.skip (1 + white.length)).ahead = byte :: (others ++ closing :: rest) := by
    rw [← ParseBuffer.skip_skip, ParseBuffer.ahead_skip, behind, List.drop_left]
  have apart : (byte == closing) = false := beq_false_of_ne opens
  have inside : white.length < buffer.ahead.length := by
    rw [stands, List.length_cons, List.length_append]
    omega
  have beforeFirst : (buffer.skip white.length).ahead =
      buffer.ahead[white.length] :: ([] ++ (text ++ closing :: rest)) := by
    rw [ParseBuffer.ahead_skip, List.drop_eq_getElem_cons inside, ← ParseBuffer.ahead_skip,
      Nat.add_comm, atFirst, begins]
    rfl
  have shorter : (buffer.skip white.length).ahead.length ≤ buffer.ahead.length := by
    rw [ParseBuffer.ahead_skip, List.length_drop]
    exact Nat.sub_le _ _
  have looped := reads fuel [] (buffer.skip white.length) _ [] rest (regular.skip _)
    (fun _ absent => absurd absent List.not_mem_nil) beforeFirst deep (by omega)
  have atClosing : (buffer.skip (1 + white.length + text.length)).ahead = closing :: rest := by
    rw [← ParseBuffer.skip_skip, ParseBuffer.ahead_skip, atFirst, begins]
    exact List.drop_left
  rw [parseBracketed]
  refine (run_bind_ok _ _ _ _ _ (advance_run 1)).trans ?_
  refine (run_bind_ok _ _ _ _ _
    (bufferSkipWhitespace_run_white (regular.skip 1) isWhite visible behind)).trans ?_
  rw [ParseBuffer.skip_skip]
  refine (run_bind_ok _ _ _ _ _ (nextIs_run_of_cons (regular.skip _) closing atFirst)).trans ?_
  rw [if_neg (Bool.eq_false_iff.mp apart), run_get_bind]
  have back : (setOffset ((buffer.skip (1 + white.length)).offset - 1)).run
      (buffer.skip (1 + white.length)) = .ok (⟨⟩, buffer.skip white.length) := by
    have offset : buffer.offset + (1 + white.length) - 1 = buffer.offset + white.length := by omega
    show Except.ok (PUnit.unit,
      { buffer with offset := buffer.offset + (1 + white.length) - 1 }) = _
    rw [offset]
    rfl
  have accessible : (buffer.skip (1 + white.length)).CanAccessAtIndex 0 :=
    ((regular.skip _).canAccessAtIndex_iff 0).mpr (by rw [atFirst]; exact Nat.succ_pos _)
  refine (run_bind_ok _ _ _ _ _ back).trans ?_
  rw [if_neg (not_not_intro accessible)]
  refine (run_bind_ok _ _ _ _ _ looped).trans ?_
  have position : white.length + (1 + ([] : List UInt8).length + text.length) =
      1 + white.length + text.length := by
    rw [List.length_nil]
    omega
  rw [ParseBuffer.skip_skip, position]
  refine (run_bind_ok _ _ _ _ _ (nextIs_run_of_cons (regular.skip _) closing atClosing)).trans ?_
  rw [if_pos (beq_self_eq_true closing), closeItem_run, ParseBuffer.skip_skip, List.nil_append]
  rfl

/-- An opening bracket leads the parser of a value to the bracketed items, one level deeper. -/
structure OpensBracket (opening closing : UInt8) (type : ItemType)
    (loop : Nat → List Item → Parser (Option (List Item))) : Prop where
  visible : 32 < closing
  leads : ∀ (fuel : Nat) (item : Item) (buffer : ParseBuffer) (rest : List UInt8), buffer.Regular →
    buffer.ahead = opening :: rest → buffer.depth < cJSONNestingLimit →
    (parseValue (fuel + 2) item).run buffer =
      (parseBracketed closing type (loop fuel) item).run { buffer with depth := buffer.depth + 1 }

theorem opens_array : OpensBracket '['.toUInt8 ']'.toUInt8 .array arrayLoop where
  visible := by decide
  leads fuel item buffer rest regular stands deep := by
    rw [parseValue_run_of_first regular (fuel + 1) item stands (by decide) (by decide) (by decide),
      if_neg (by decide), if_neg (by decide), if_pos rfl, parseArray, run_get_bind,
      if_neg (Nat.not_le.mpr deep), setDepth, run_modify_bind]
    have opened : ({ buffer with depth := buffer.depth + 1 } : ParseBuffer).ahead[0]? =
        some '['.toUInt8 := by
      show buffer.ahead[0]? = _
      rw [stands]
      rfl
    refine (run_bind_ok _ _ _ _ _ (byteAt_run opened)).trans ?_
    rw [if_neg (not_not_intro rfl)]

theorem opens_object : OpensBracket '\x7b'.toUInt8 '\x7d'.toUInt8 .object objectLoop where
  visible := by decide
  leads fuel item buffer rest regular stands deep := by
    rw [parseValue_run_of_first regular (fuel + 1) item stands (by decide) (by decide) (by decide),
      if_neg (by decide), if_neg (by decide), if_neg (by decide), if_pos rfl, parseObject,
      run_get_bind, if_neg (Nat.not_le.mpr deep), setDepth, run_modify_bind]
    have deeper : ({ buffer with depth := buffer.depth + 1 } : ParseBuffer).Regular :=
      regular.at_depth _
    refine (run_bind_ok _ _ _ _ _ (nextIs_run_of_cons deeper _ stands)).trans ?_
    rw [if_neg (by decide)]

section Bracketed

variable {opening closing : UInt8} {type : ItemType}
  {loop : Nat → List Item → Parser (Option (List Item))}
  (opens : OpensBracket opening closing type loop) (name : Option CString) {white : List UInt8}
  (isWhite : White white)

include opens isWhite

theorem readsValue_empty (depth : Nat) :
    ReadsValue (depth + 1) name (opening :: (white ++ [closing]))
      { type := type, string := name } := by
  intro fuel itemType buffer rest regular stands stops deep enough
  obtain ⟨fuel, rfl⟩ := Nat.exists_eq_add_of_le' (show 2 ≤ fuel by omega)
  have first : buffer.ahead = opening :: (white ++ closing :: rest) := by
    rw [stands]
    simp
  have deeper : ({ buffer with depth := buffer.depth + 1 } : ParseBuffer).Regular :=
    regular.at_depth _
  rw [opens.leads fuel _ buffer _ regular first (by omega),
    parseBracketed_run_empty deeper closing opens.visible type (loop fuel) _ isWhite first]
  have length : (opening :: (white ++ [closing])).length = 1 + white.length + 1 := by
    simp only [List.length_cons, List.length_append, List.length_nil]
    omega
  rw [length]
  rfl

theorem readsValue_bracketed {depth : Nat} {text : List UInt8} {linked : List Item}
    (reads : ReadsItems loop closing depth text linked)
    (first : Begins [closing] text) :
    ReadsValue (depth + 1) name (opening :: (white ++ text ++ [closing]))
      { type := type, string := name, child := CJSON.link linked } := by
  intro fuel itemType buffer rest regular stands stops deep enough
  obtain ⟨fuel, rfl⟩ := Nat.exists_eq_add_of_le' (show 2 ≤ fuel by omega)
  obtain ⟨byte, others, begins, visible, apart⟩ := first
  have inner : buffer.ahead = opening :: (white ++ (text ++ closing :: rest)) := by
    rw [stands]
    simp
  have deeper : ({ buffer with depth := buffer.depth + 1 } : ParseBuffer).Regular :=
    regular.at_depth _
  rw [opens.leads fuel _ buffer _ regular inner (by omega),
    parseBracketed_run deeper loop closing type reads fuel _ isWhite begins visible
      (fun same => apart (List.mem_singleton.mpr same)) inner
      (by show buffer.depth + 1 + depth ≤ _; omega) (by show 3 * buffer.ahead.length ≤ _; omega)]
  have length : (opening :: (white ++ text ++ [closing])).length =
      1 + white.length + text.length + 1 := by
    simp only [List.length_cons, List.length_append, List.length_nil]
    omega
  rw [length]
  rfl

end Bracketed

/-! ### Loops -/

theorem isNumberByte_of_white {byte : UInt8} (white : byte ≤ 32) : isNumberByte byte = false := by
  rw [Bool.eq_false_iff]
  intro number
  simp only [isNumberByte, isDigit, Bool.or_eq_true, Bool.and_eq_true, decide_eq_true_eq,
    beq_iff_eq] at number
  rcases number with ((((digit | rfl) | rfl) | rfl) | rfl) | rfl
  · exact absurd (UInt8.le_trans digit.1 white) (by decide)
  all_goals exact absurd white (by decide)

theorem stopsAt_white {white : List UInt8} (isWhite : White white) {byte : UInt8}
    (noNumber : isNumberByte byte = false) (rest : List UInt8) :
    StopsAt isNumberByte (white ++ byte :: rest) := by
  intro first stands
  cases white with
  | nil =>
    cases stands
    exact noNumber
  | cons other white =>
    cases stands
    exact isNumberByte_of_white (isWhite first List.mem_cons_self)

/-- Behind its value, a round skips whites and goes on after a comma. -/
theorem parseElement_run {first second : ParseBuffer} (regular : second.Regular)
    {value : Parser (Option Item)} {item : Item}
    (parses : value.run first = .ok (some item, second))
    (again : List Item → Parser (Option (List Item))) (items : List Item) {white : List UInt8}
    {byte : UInt8} {rest : List UInt8} (isWhite : White white) (visible : 32 < byte)
    (stands : second.ahead = white ++ byte :: rest) :
    (parseElement value again items).run first =
      (if byte = ','.toUInt8 then again (items ++ [item])
      else pure (some (items ++ [item])) : Parser (Option (List Item))).run
        (second.skip white.length) := by
  have behind : (second.skip white.length).ahead = byte :: rest := by
    rw [ParseBuffer.ahead_skip, stands, List.drop_left]
  rw [parseElement]
  refine (run_bind_ok _ _ _ _ _ parses).trans ?_
  refine (run_bind_ok _ _ _ _ _
    (bufferSkipWhitespace_run_white regular isWhite visible stands)).trans ?_
  refine (run_bind_ok _ _ _ _ _ (nextIs_run_of_cons (regular.skip _) _ behind)).trans ?_
  simp only [beq_iff_eq]

/-- What stands behind the whites ahead of a text, and behind the text. -/
theorem ahead_skip_lead {opening : UInt8} {lead rest : List UInt8}
    (stands : buffer.ahead = opening :: (lead ++ rest)) :
    (buffer.skip (1 + lead.length)).ahead = rest := by
  rw [← ParseBuffer.skip_skip, ParseBuffer.ahead_skip, ParseBuffer.ahead_skip, stands]
  exact List.drop_left

theorem ahead_skip_text {opening : UInt8} {lead text rest : List UInt8}
    (stands : buffer.ahead = opening :: (lead ++ (text ++ rest))) :
    (buffer.skip (1 + lead.length + text.length)).ahead = rest := by
  rw [← ParseBuffer.skip_skip, ParseBuffer.ahead_skip, ahead_skip_lead stands, List.drop_left]

section Items

variable {loop : Nat → List Item → Parser (Option (List Item))} {closing : UInt8}
  (visible : 32 < closing) (noComma : closing ≠ ','.toUInt8)
  (noNumber : isNumberByte closing = false) {depth : Nat} {text : List UInt8} {item : Item}
  (round : ReadsRound loop depth text item)

include round

include visible noComma noNumber in
/-- The last round of a loop. -/
theorem readsItems_last {white : List UInt8} (isWhite : White white) :
    ReadsItems loop closing depth (text ++ white) [item] := by
  intro fuel items buffer opening lead rest regular isLead stands deep enough
  have length : 0 < buffer.ahead.length := by
    rw [stands]
    exact Nat.succ_pos _
  obtain ⟨fuel, rfl⟩ := Nat.exists_eq_succ_of_ne_zero (show fuel ≠ 0 by omega)
  rw [List.append_assoc] at stands
  obtain ⟨value, count, loops, parses⟩ := round fuel items buffer opening lead _ regular isLead
    stands (stopsAt_white isWhite noNumber rest) deep enough
  rw [loops, parseElement_run (regular.skip _) parses _ _ isWhite visible (ahead_skip_text stands),
    if_neg noComma, ParseBuffer.skip_skip, List.length_append, ← Nat.add_assoc]
  rfl

/-- A round that a comma follows. -/
theorem readsItems_cons {before after others : List UInt8} {linked : List Item}
    (isBefore : White before) (isAfter : White after)
    (reads : ReadsItems loop closing depth others linked) :
    ReadsItems loop closing depth (text ++ before ++ ','.toUInt8 :: (after ++ others))
      (item :: linked) := by
  intro fuel items buffer opening lead rest regular isLead stands deep enough
  have length : 0 < buffer.ahead.length := by
    rw [stands]
    exact Nat.succ_pos _
  obtain ⟨fuel, rfl⟩ := Nat.exists_eq_succ_of_ne_zero (show fuel ≠ 0 by omega)
  have reordered : buffer.ahead = opening :: (lead ++ (text ++
      (before ++ ','.toUInt8 :: (after ++ (others ++ closing :: rest))))) := by
    rw [stands]
    simp
  obtain ⟨value, count, loops, parses⟩ := round fuel items buffer opening lead _ regular isLead
    reordered (stopsAt_white isBefore (by decide) _) deep enough
  have behind := ahead_skip_text reordered
  have atComma : (buffer.skip (1 + lead.length + text.length + before.length)).ahead =
      ','.toUInt8 :: (after ++ (others ++ closing :: rest)) := by
    rw [← ParseBuffer.skip_skip, ParseBuffer.ahead_skip, behind, List.drop_left]
  have shorter : (buffer.skip (1 + lead.length + text.length + before.length)).ahead.length + 1 ≤
      buffer.ahead.length := by
    rw [ParseBuffer.ahead_skip, List.length_drop]
    omega
  rw [loops, parseElement_run (regular.skip _) parses _ _ isBefore (by decide) behind, if_pos rfl,
    ParseBuffer.skip_skip,
    reads fuel (items ++ [item]) _ ','.toUInt8 after rest (regular.skip _) isAfter atComma deep
      (by omega), ParseBuffer.skip_skip, List.append_assoc]
  have position : 1 + lead.length + text.length + before.length +
      (1 + after.length + others.length) = 1 + lead.length +
        (text ++ before ++ ','.toUInt8 :: (after ++ others)).length := by
    simp only [List.length_append, List.length_cons]
    omega
  rw [position]
  rfl

end Items

/-- A round over an array is the parser of its element. -/
theorem readsRound_element {depth : Nat} {text : List UInt8} {item : Item}
    (reads : ReadsValue depth none text item)
    (first : Begins [']'.toUInt8, 0xEF] text) :
    ReadsRound arrayLoop depth text item := by
  intro fuel items buffer opening lead rest regular isLead stands stops deep enough
  obtain ⟨byte, others, begins, visible, -⟩ := first
  have behind : (buffer.skip 1).ahead = lead ++ byte :: (others ++ rest) := by
    rw [ParseBuffer.ahead_skip, stands, begins]
    rfl
  have atText := ahead_skip_lead stands
  have shorter : (buffer.skip (1 + lead.length)).ahead.length + 1 ≤ buffer.ahead.length := by
    rw [ParseBuffer.ahead_skip, List.length_drop, stands, List.length_cons]
    omega
  refine ⟨parseValue fuel {}, 1 + lead.length, ?_, ?_⟩
  · rw [arrayLoop]
    refine (run_bind_ok _ _ _ _ _ (allocate_run regular sizeofCJSON)).trans ?_
    rw [if_neg (not_not_intro rfl)]
    refine (run_bind_ok _ _ _ _ _ (advance_run 1)).trans ?_
    refine (run_bind_ok _ _ _ _ _
      (bufferSkipWhitespace_run_white (regular.skip 1) isLead visible behind)).trans ?_
    rw [ParseBuffer.skip_skip]
  · refine (reads fuel .invalid _ rest (regular.skip _) atText (fun _ => stops) deep
      (by omega)).trans ?_
    rw [ParseBuffer.skip_skip]

/-- A round over an object reads a name and a colon first. -/
theorem readsRound_member {depth : Nat} {key bytes before after text : List UInt8} {item : Item}
    (quoted : Quoted key bytes) (isBefore : White before) (isAfter : White after)
    (reads : ReadsValue depth (some (CString.ofBuffer bytes)) text item)
    (first : Begins [']'.toUInt8, 0xEF] text) :
    ReadsRound objectLoop depth (key ++ before ++ ':'.toUInt8 :: (after ++ text)) item := by
  intro fuel items buffer opening lead rest regular isLead stands stops deep enough
  obtain ⟨byte, others, begins, visible, -⟩ := first
  have reordered : buffer.ahead = opening :: (lead ++ (key ++
      (before ++ ':'.toUInt8 :: (after ++ (text ++ rest))))) := by
    rw [stands]
    simp
  have atKey := ahead_skip_lead reordered
  have keyRead := parseString_run (regular.skip (1 + lead.length)) {} quoted atKey
  obtain ⟨body, isKey, -⟩ := quoted.body
  have beforeKey : (buffer.skip 1).ahead = lead ++ '"'.toUInt8 ::
      (body ++ ['"'.toUInt8] ++ (before ++ ':'.toUInt8 :: (after ++ (text ++ rest)))) := by
    rw [ParseBuffer.ahead_skip, reordered, isKey]
    rfl
  have behindKey := ahead_skip_text reordered
  have atColon : (buffer.skip (1 + lead.length + key.length + before.length)).ahead =
      ':'.toUInt8 :: (after ++ (text ++ rest)) := by
    rw [← ParseBuffer.skip_skip, ParseBuffer.ahead_skip, behindKey, List.drop_left]
  have behindColon : (buffer.skip (1 + lead.length + key.length + before.length + 1)).ahead =
      after ++ byte :: (others ++ rest) := by
    rw [← ParseBuffer.skip_skip, ParseBuffer.ahead_skip, atColon, begins]
    rfl
  have atText : (buffer.skip (1 + lead.length + key.length + before.length + 1 +
      after.length)).ahead = text ++ rest := by
    rw [← ParseBuffer.skip_skip, ParseBuffer.ahead_skip, behindColon, List.drop_left, begins]
    rfl
  have shorter : (buffer.skip (1 + lead.length + key.length + before.length + 1 +
      after.length)).ahead.length + 1 ≤ buffer.ahead.length := by
    rw [ParseBuffer.ahead_skip, List.length_drop, stands, List.length_cons]
    omega
  refine ⟨parseValue fuel { type := .string, string := some (CString.ofBuffer bytes) },
    1 + lead.length + key.length + before.length + 1 + after.length, ?_, ?_⟩
  · rw [objectLoop]
    refine (run_bind_ok _ _ _ _ _ (allocate_run regular sizeofCJSON)).trans ?_
    rw [if_neg (not_not_intro rfl)]
    refine (run_bind_ok _ _ _ _ _ (advance_run 1)).trans ?_
    refine (run_bind_ok _ _ _ _ _
      (bufferSkipWhitespace_run_white (regular.skip 1) isLead (by decide) beforeKey)).trans ?_
    rw [ParseBuffer.skip_skip]
    refine (run_bind_ok _ _ _ _ _ keyRead).trans ?_
    rw [ParseBuffer.skip_skip]
    refine (run_bind_ok _ _ _ _ _
      (bufferSkipWhitespace_run_white (regular.skip _) isBefore (by decide) behindKey)).trans ?_
    rw [ParseBuffer.skip_skip]
    refine (run_bind_ok _ _ _ _ _ (nextIs_run_of_cons (regular.skip _) _ atColon)).trans ?_
    rw [if_neg (by decide)]
    refine (run_bind_ok _ _ _ _ _ (advance_run 1)).trans ?_
    rw [ParseBuffer.skip_skip]
    refine (run_bind_ok _ _ _ _ _
      (bufferSkipWhitespace_run_white (regular.skip _) isAfter visible behindColon)).trans ?_
    rw [ParseBuffer.skip_skip]
  · refine (reads fuel .string _ rest (regular.skip _) atText (fun _ => stops) deep
      (by omega)).trans ?_
    have position :
        1 + lead.length + key.length + before.length + 1 + after.length + text.length =
          1 + lead.length + (key ++ before ++ ':'.toUInt8 :: (after ++ text)).length := by
      simp only [List.length_append, List.length_cons]
      omega
    rw [ParseBuffer.skip_skip, position]

/-! ### Every derivation -/

mutual

theorem readsValue {depth : Nat} {name : Option CString} {text : List UInt8} {item : Item} :
    Taken depth name text item → ReadsValue depth name text item
  | .null depth name => readsValue_null depth name
  | .false depth name => readsValue_false depth name
  | .true depth name => readsValue_true depth name
  | .number depth name isNumber => readsValue_number depth name isNumber
  | .string depth name quoted => readsValue_string depth name quoted
  | .emptyArray depth name isWhite => readsValue_empty opens_array name isWhite depth
  | .array name isWhite elements =>
    readsValue_bracketed opens_array name isWhite (readsElements elements) elements.begins
  | .emptyObject depth name isWhite => readsValue_empty opens_object name isWhite depth
  | .object name isWhite members =>
    readsValue_bracketed opens_object name isWhite (readsMembers members) members.begins

theorem readsElements {depth : Nat} {text : List UInt8} {items : List Item} :
    TakenElements depth text items → ReadsItems arrayLoop ']'.toUInt8 depth text items
  | .last first isWhite =>
    readsItems_last (by decide) (by decide) (by decide)
      (readsRound_element (readsValue first) first.begins) isWhite
  | .cons first isBefore isAfter others =>
    readsItems_cons (readsRound_element (readsValue first) first.begins) isBefore isAfter
      (readsElements others)

theorem readsMembers {depth : Nat} {text : List UInt8} {items : List Item} :
    TakenMembers depth text items → ReadsItems objectLoop '\x7d'.toUInt8 depth text items
  | .last first isWhite =>
    readsItems_last (by decide) (by decide) (by decide) (readsMember first) isWhite
  | .cons first isBefore isAfter others =>
    readsItems_cons (readsMember first) isBefore isAfter (readsMembers others)

theorem readsMember {depth : Nat} {text : List UInt8} {item : Item} :
    TakenMember depth text item → ReadsRound objectLoop depth text item
  | .intro quoted isBefore isAfter value =>
    readsRound_member quoted isBefore isAfter (readsValue value) value.begins

end

/-! ### Whole texts -/

theorem skipUtf8Bom_run_of_none (regular : buffer.Regular) {byte : UInt8} {rest : List UInt8}
    (stands : buffer.ahead = byte :: rest) (noMark : byte ≠ 0xEF) :
    skipUtf8Bom.run buffer = .ok (⟨⟩, buffer) := by
  rw [skipUtf8Bom, run_get_bind]
  by_cases long : buffer.CanAccessAtIndex 4
  · have room := (regular.canAccessAtIndex_iff 4).mp long
    have unmarked : ¬ [0xEF, 0xBB, (0xBF : UInt8)].isPrefixOf (buffer.ahead.drop 0) = true := by
      rw [List.drop_zero, stands]
      exact not_isPrefixOf_of_ne noMark _ _
    rw [if_pos long]
    refine (run_bind_ok _ _ _ _ _ (startsWith_run [0xEF, 0xBB, 0xBF] 0
      (Nat.le_of_lt (Nat.lt_of_succ_lt room)))).trans ?_
    rw [if_neg unmarked]
    rfl
  · rw [if_neg long]
    rfl

/-- A byte order mark is skipped in front of a text of two bytes or more, terminator included. -/
theorem skipUtf8Bom_run (regular : buffer.Regular) {mark : List UInt8}
    (isMark : mark = [] ∨ mark = [0xEF, 0xBB, 0xBF]) {byte : UInt8} {rest : List UInt8}
    (stands : buffer.ahead = mark ++ byte :: rest) (noMark : byte ≠ 0xEF) (more : rest ≠ []) :
    skipUtf8Bom.run buffer = .ok (⟨⟩, buffer.skip mark.length) := by
  rcases isMark with rfl | rfl
  · exact skipUtf8Bom_run_of_none regular stands noMark
  · have long : 4 < buffer.ahead.length := by
      have positive := List.length_pos_iff.mpr more
      rw [stands, List.length_append, List.length_cons]
      show 4 < 3 + (rest.length + 1)
      omega
    have marked : [0xEF, 0xBB, (0xBF : UInt8)].isPrefixOf (buffer.ahead.drop 0) = true := by
      rw [List.drop_zero, stands]
      exact isPrefixOf_append _ _
    rw [skipUtf8Bom, run_get_bind, if_pos ((regular.canAccessAtIndex_iff 4).mpr long)]
    refine (run_bind_ok _ _ _ _ _ (startsWith_run [0xEF, 0xBB, 0xBF] 0
      (Nat.le_of_lt (Nat.lt_of_succ_lt long)))).trans ?_
    rw [if_pos marked]
    rfl

theorem stopsAt_terminator {rest : List UInt8} (stops : StopsAt isNumberByte rest) :
    StopsAt isNumberByte (rest ++ [0]) := by
  cases rest with
  | nil =>
    rintro _ ⟨⟩
    rfl
  | cons byte rest => exact stops

/-- A text of the dialect is accepted for its item, as long as no number byte stands behind a
number, and nothing but whitespace behind the value if it has to be the last one. -/
theorem cJSONParseWithOpts_takes (value : CString) (requireNullTerminated : Bool)
    {rest : List UInt8} {item : Item} (taken : TakenText value.bytes rest item)
    (stops : item.type = .number → StopsAt isNumberByte rest)
    (ends : requireNullTerminated = true → White rest) :
    cJSONParseWithOpts value requireNullTerminated = .ok (CJSON.link [item]) := by
  obtain ⟨mark, lead, body, isMark, isLead, isTaken, holds⟩ := taken
  obtain ⟨byte, others, begins, visible, apart⟩ := isTaken.begins
  obtain ⟨first, remaining, starts, noMark, more⟩ : ∃ first remaining,
      lead ++ (body ++ (rest ++ [0])) = first :: remaining ∧ first ≠ 0xEF ∧ remaining ≠ [] := by
    cases lead with
    | nil =>
      refine ⟨byte, others ++ (rest ++ [0]), by rw [begins]; rfl, ?_, by simp⟩
      rintro rfl
      exact apart (by decide)
    | cons white lead =>
      refine ⟨white, lead ++ (body ++ (rest ++ [0])), rfl, ?_, by simp⟩
      rintro rfl
      exact absurd (isLead 0xEF List.mem_cons_self) (by decide)
  let buffer : ParseBuffer :=
    { content := value.bytes ++ [0], length := value.bytes.length + 1, hooks := Hooks.granting }
  have regular : buffer.Regular := (ready_of_cString value).regular
  have stands : buffer.ahead = mark ++ (lead ++ (body ++ (rest ++ [0]))) := by
    show value.bytes ++ [0] = _
    rw [holds, List.append_assoc, List.append_assoc, List.append_assoc]
  have atLead : (buffer.skip mark.length).ahead = lead ++ byte :: (others ++ (rest ++ [0])) := by
    rw [ParseBuffer.ahead_skip, stands, List.drop_left, begins]
    rfl
  have atBody : (buffer.skip (mark.length + lead.length)).ahead = body ++ (rest ++ [0]) := by
    rw [← ParseBuffer.skip_skip, ParseBuffer.ahead_skip, atLead, List.drop_left, begins]
    rfl
  have atRest : (buffer.skip (mark.length + lead.length + body.length)).ahead = rest ++ [0] := by
    rw [← ParseBuffer.skip_skip, ParseBuffer.ahead_skip, atBody, List.drop_left]
  have enough : 3 * (buffer.skip (mark.length + lead.length)).ahead.length + 2 ≤
      3 * (value.bytes.length + 1) + 3 := by
    have shorter : (buffer.skip (mark.length + lead.length)).ahead.length ≤
        value.bytes.length + 1 := by
      rw [ParseBuffer.ahead_skip, List.length_drop, regular.length_ahead]
      exact (Nat.sub_le _ _).trans (Nat.sub_le _ _)
    omega
  have parses := readsValue isTaken _ .invalid _ _ (regular.skip _) atBody
    (fun number => stopsAt_terminator (stops number)) (Nat.le_of_eq (Nat.zero_add _)) enough
  rw [ParseBuffer.skip_skip] at parses
  have document : ∃ last, (parseDocument (3 * (value.bytes.length + 1) + 3)
      requireNullTerminated).run buffer = .ok (some item, last) := by
    rw [parseDocument]
    rw [run_bind_ok _ _ _ _ _ (allocate_run regular sizeofCJSON), if_neg (not_not_intro rfl)]
    rw [run_bind_ok _ _ _ _ _ (skipUtf8Bom_run regular isMark (starts ▸ stands) noMark more),
      run_bind_ok _ _ _ _ _ (bufferSkipWhitespace_run_white (regular.skip _) isLead visible atLead),
      ParseBuffer.skip_skip, run_bind_ok _ _ _ _ _ parses]
    cases requireNullTerminated with
    | false => exact ⟨_, rfl⟩
    | true =>
      have atEnd : (buffer.skip (mark.length + lead.length + body.length +
          rest.length)).ahead = [0] := by
        rw [← ParseBuffer.skip_skip, ParseBuffer.ahead_skip, atRest, List.drop_left]
      simp only [if_true]
      rw [run_bind_ok _ _ _ _ _ (bufferSkipWhitespace_run_end (regular.skip _) (ends rfl) atRest),
        ParseBuffer.skip_skip, run_bind_ok _ _ _ _ _ (nextIs_run_of_cons (regular.skip _) 0 atEnd)]
      exact ⟨_, rfl⟩
  obtain ⟨last, ran⟩ := document
  rw [cJSONParseWithOpts, cJSONParseWithHooks, cJSONParseWithLengthOpts,
    if_neg (Nat.succ_ne_zero _), ran]
  rfl

/-! ### The language of the parser -/

/-- Where the value has to be the last one, the parser accepts exactly the texts of the dialect. -/
theorem cJSONParseWithOpts_eq_iff (value : CString) (item : Item) :
    cJSONParseWithOpts value true = .ok (CJSON.link [item]) ↔
      ∃ rest, White rest ∧ TakenText value.bytes rest item := by
  constructor
  · intro accepted
    obtain ⟨rest, taken, ends⟩ := cJSONParseWithOpts_taken value true item accepted
    exact ⟨rest, ends rfl, taken⟩
  · rintro ⟨rest, isWhite, taken⟩
    refine cJSONParseWithOpts_takes value true taken (fun _ byte first => ?_) fun _ => isWhite
    exact isNumberByte_of_white (isWhite byte (List.mem_of_mem_head? first))

/-- Whatever the allocator does, the parser does not fault where the value has to be the last one.
It gives the item the dialect takes the text for and null if there is none, unless a request is
refused, and then it gives null. -/
theorem cJSONParseWithHooks_eq_iff (value : CString) (hooks : Hooks) :
    ∃ root after, cJSONParseWithHooks value true hooks = .ok (root, after) ∧
      (hooks.Granting → hooks.Granted after) ∧
      (hooks.Granted after ∧ (root = .null ∨ ∃ item, root = CJSON.link [item]) ∧
          (∀ item, root = CJSON.link [item] ↔
            ∃ rest, White rest ∧ TakenText value.bytes rest item) ∨
        hooks.Refused after ∧ root = .null) := by
  obtain ⟨root, parsed, shape⟩ : ∃ root, cJSONParseWithOpts value true = .ok root ∧
      (root = .null ∨ ∃ item, root = CJSON.link [item]) := by
    rcases cJSONParseWithOpts_outcome value true with null | ⟨item, rest, parsed, -⟩
    · exact ⟨.null, null, Or.inl rfl⟩
    · exact ⟨_, parsed, Or.inr ⟨item, rfl⟩⟩
  obtain ⟨result, after, ran, outcome⟩ := cJSONParseWithHooks_outcome value true hooks parsed
  refine ⟨result, after, ran, fun granting => ?_, ?_⟩
  · rcases outcome with ⟨granted, -⟩ | ⟨refused, -⟩
    · exact granted
    · exact absurd granting refused.not_granting
  · refine outcome.imp ?_ id
    rintro ⟨granted, rfl⟩
    refine ⟨granted, shape, fun item => ?_⟩
    rw [← cJSONParseWithOpts_eq_iff value item, parsed, Except.ok.injEq]

/-- Otherwise it accepts exactly the texts that the dialect derives a front part of, unless the
value is a number, which goes on for as long as it can. -/
theorem cJSONParse_eq_iff (value : CString) (item : Item) (notNumber : item.type ≠ .number) :
    cJSONParse value = .ok (CJSON.link [item]) ↔ ∃ rest, TakenText value.bytes rest item := by
  constructor
  · intro accepted
    obtain ⟨rest, taken, -⟩ := cJSONParseWithOpts_taken value false item accepted
    exact ⟨rest, taken⟩
  · rintro ⟨rest, taken⟩
    exact cJSONParseWithOpts_takes value false taken (fun number => absurd number notNumber)
      fun asked => nomatch asked

end DiffServSimulation
