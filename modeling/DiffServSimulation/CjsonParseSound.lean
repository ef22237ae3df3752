/-
This file proves what `cJSON_Parse` returns: on every C string it ends without a
fault, in null or in the item that the dialect takes the front of the text for.
The tree of an accepted text is therefore well formed, has at most one item for
each byte of the text, and nests no deeper than the parser's limit.

The five mutually recursive parsers are taken together. `ParserSpecs` says what
each of them does with a given amount of fuel, each has a step lemma that assumes
the specifications at one unit less, and the induction on fuel is done once. A
parser entered with `left` bytes before the end of the text needs about three
units for each of them, one for each function a nested value passes through.
-/

import DiffServSimulation.CjsonStringSafety

namespace DiffServSimulation

open Faulting

/-! ### Specifications -/

/-- A parser of a value takes a part of the text for an item or refuses. -/
def TakesValue (parser : Item → Parser (Option Item)) (extra available : Nat) : Prop :=
  ∀ (type : ItemType) (name : Option CString) (buffer : ParseBuffer), Ready buffer →
    buffer.depth ≤ cJSONNestingLimit → 3 * (buffer.length - buffer.offset) + extra ≤ available →
    Completes (parser { type := type, string := name }) buffer fun result next =>
      ∀ parsed, result = some parsed → ∃ text, Passed buffer text next ∧
        Taken (cJSONNestingLimit - buffer.depth) name text parsed

/-- A loop over elements takes a part of the text for further items or refuses. It is entered one
position before the first element. -/
def TakesItems (loop : List Item → Parser (Option (List Item)))
    (taken : Nat → List UInt8 → List Item → Prop) (available : Nat) : Prop :=
  ∀ (items : List Item) (buffer : ParseBuffer), Ready (buffer.skip 1) →
    buffer.depth ≤ cJSONNestingLimit → 3 * (buffer.length - buffer.offset) ≤ available →
    Completes (loop items) buffer fun result next =>
      ∀ linked, result = some linked → ∃ white text more, White white ∧
        Passed (buffer.skip 1) (white ++ text) next ∧
        taken (cJSONNestingLimit - buffer.depth) text more ∧ linked = items ++ more

/-- The five parsers with a given amount of fuel. -/
structure ParserSpecs (fuel : Nat) : Prop where
  value : TakesValue (parseValue fuel) 2 fuel
  array : TakesValue (parseArray fuel) 1 fuel
  object : TakesValue (parseObject fuel) 1 fuel
  arrayLoop : TakesItems (arrayLoop fuel) TakenElements fuel
  objectLoop : TakesItems (objectLoop fuel) TakenMembers fuel

/-! ### One step of each parser -/

/-- A literal that stands ahead is stepped over. -/
theorem takeLiteral_completes {buffer : ParseBuffer} (ready : Ready buffer) {literal : List UInt8}
    {depth : Nat} {name : Option CString} {filled : Item} (free : 0 ∉ literal)
    (stands : ∃ rest, buffer.ahead = literal ++ rest) (taken : Taken depth name literal filled) :
    Completes (do advance literal.length; pure (some filled) : Parser (Option Item)) buffer
      fun result next => ∀ parsed, result = some parsed →
        ∃ text, Passed buffer text next ∧ Taken depth name text parsed := by
  obtain ⟨rest, stands⟩ := stands
  refine completes_run_bind (advance_run literal.length) (completes_pure fun parsed found => ?_)
  cases found
  exact ⟨literal, ready.passed_of_free stands free, taken⟩

theorem parseValue_step {fuel : Nat} (specs : ParserSpecs fuel) :
    TakesValue (parseValue (fuel + 1)) 2 (fuel + 1) := by
  intro type name buffer ready shallow enough
  have accessible : buffer.CanAccessAtIndex 0 := ready.inside
  obtain ⟨byte, holds⟩ := ready.byte buffer.offset ready.inside
  rw [parseValue]
  refine completes_bind_same (literalIs_completes ready ("null".toList.map Char.toUInt8)
    (by decide)) fun isNull nullStands => ?_
  by_cases null : isNull = true
  · rw [if_pos null]
    exact takeLiteral_completes ready (by decide) (nullStands null) (Taken.null _ name)
  rw [if_neg null]
  refine completes_bind_same (literalIs_completes ready ("false".toList.map Char.toUInt8)
    (by decide)) fun isFalse falseStands => ?_
  by_cases false' : isFalse = true
  · rw [if_pos false']
    exact takeLiteral_completes ready (by decide) (falseStands false') (Taken.false _ name)
  rw [if_neg false']
  refine completes_bind_same (literalIs_completes ready ("true".toList.map Char.toUInt8)
    (by decide)) fun isTrue trueStands => ?_
  by_cases true' : isTrue = true
  · rw [if_pos true']
    exact takeLiteral_completes ready (by decide) (trueStands true') (Taken.true _ name)
  rw [if_neg true']
  refine completes_get_bind ?_
  rw [if_neg (not_not.mpr accessible)]
  have first : buffer.ahead[0]? = some byte := (buffer.getElem?_ahead 0).symm.trans holds
  refine completes_run_bind (byteAt_run first) ?_
  by_cases quote : byte = '"'.toUInt8
  · rw [if_pos quote]
    refine (parseString_completes ready _).mono fun result next takes parsed found => ?_
    obtain ⟨text, bytes, passed, quoted, rfl⟩ := takes parsed found
    exact ⟨text, passed, Taken.string _ name quoted⟩
  rw [if_neg quote]
  by_cases number : byte = '-'.toUInt8 ∨ '0'.toUInt8 ≤ byte ∧ byte ≤ '9'.toUInt8
  · rw [if_pos number]
    have starts : ∃ byte ∈ buffer.ahead.head?,
        byte = '-'.toUInt8 ∨ DecimalNumber.isDigit byte = true := by
      refine ⟨byte, ?_, ?_⟩
      · rw [List.head?_eq_getElem?, first]
        rfl
      · simpa [DecimalNumber.isDigit] using number
    refine (parseNumber_completes ready _ starts).mono fun result next takes parsed found => ?_
    obtain ⟨text, number, passed, isNumber, rfl⟩ := takes parsed found
    exact ⟨text, passed, Taken.number _ name isNumber⟩
  rw [if_neg number]
  split_ifs
  · exact specs.array type name buffer ready shallow (by omega)
  · exact specs.object type name buffer ready shallow (by omega)
  · exact completes_refuse

/-- Closing an array or an object restores the depth it was opened at. -/
theorem closeItem_completes {outer inner : ParseBuffer} {text rest : List UInt8} {closing : UInt8}
    (passed : Passed { outer with depth := outer.depth + 1 } text inner)
    (stands : inner.ahead = closing :: rest) (nonzero : closing ≠ 0) (item : Item)
    (type : ItemType) (items : List Item) :
    Completes (closeItem item type items) inner fun result next =>
      ∀ parsed, result = some parsed → Passed outer (text ++ [closing]) next ∧
        parsed = { item with type := type, child := CJSON.link items } := by
  refine ⟨_, _, rfl, fun parsed found => ?_⟩
  cases found
  have behind := passed_one passed.ready stands nonzero
  have whole := passed.trans behind
  refine ⟨⟨?_, ?_, behind.ready.of_offset _ _ behind.ready.inside⟩, rfl⟩
  · rw [passed.skipped, List.length_append]
    rfl
  · exact whole.stands

/-- A text in brackets, and the items it is taken for. -/
inductive Bracketed (opening closing : UInt8) (taken : List UInt8 → List Item → Prop) :
    List UInt8 → List Item → Prop where
  | empty {white : List UInt8} (isWhite : White white) :
      Bracketed opening closing taken (opening :: (white ++ [closing])) []
  | items {white text : List UInt8} {items : List Item} (isWhite : White white)
      (isTaken : taken text items) :
      Bracketed opening closing taken (opening :: (white ++ text ++ [closing])) items

theorem White.append {first second : List UInt8} (left : White first) (right : White second) :
    White (first ++ second) := List.forall_mem_append.mpr ⟨left, right⟩

/-- From its opening bracket on, an array or an object takes its elements and closes, or refuses. -/
theorem parseBracketed_completes {outer : ParseBuffer} (ready : Ready outer)
    {opening closing : UInt8} {rest : List UInt8} (stands : outer.ahead = opening :: rest)
    (openingNonzero : opening ≠ 0) (closingNonzero : closing ≠ 0) (item : Item) (type : ItemType)
    {loop : List Item → Parser (Option (List Item))}
    {taken : Nat → List UInt8 → List Item → Prop} {available : Nat}
    (takesItems : TakesItems loop taken available) (deep : outer.depth < cJSONNestingLimit)
    (enough : 3 * (outer.length - outer.offset) ≤ available) :
    Completes (parseBracketed closing type loop item) { outer with depth := outer.depth + 1 }
      fun result next => ∀ parsed, result = some parsed → ∃ text items, Passed outer text next ∧
        Bracketed opening closing (taken (cJSONNestingLimit - (outer.depth + 1))) text items ∧
        parsed = { item with type := type, child := CJSON.link items } := by
  have deeper : Ready { outer with depth := outer.depth + 1 } := ready.of_offset _ _ ready.inside
  have opened := passed_one deeper stands openingNonzero
  rw [parseBracketed]
  refine completes_run_bind (advance_run 1) ?_
  refine completes_bind (bufferSkipWhitespace_completes opened.ready) ?_
  rintro _ second ⟨white, isWhite, passedWhite⟩
  have entered := opened.trans passedWhite
  refine completes_bind_same (nextIs_completes entered.ready closing) fun empty isEmpty => ?_
  by_cases closesAtOnce : empty = true
  · rw [if_pos closesAtOnce]
    obtain ⟨behind, atClosing⟩ := isEmpty closesAtOnce
    refine (closeItem_completes entered atClosing closingNonzero item type []).mono ?_
    intro result next closes parsed found
    obtain ⟨passed, rfl⟩ := closes parsed found
    exact ⟨_, [], passed, Bracketed.empty isWhite, rfl⟩
  rw [if_neg closesAtOnce]
  refine completes_get_bind (completes_modify_bind ?_)
  rw [if_neg (not_not.mpr (show second.CanAccessAtIndex 0 from entered.ready.inside))]
  have offset : second.offset = outer.offset + ([opening] ++ white).length := entered.offset
  have length : second.length = outer.length := entered.length
  have depth : second.depth = outer.depth + 1 := entered.depth
  rw [List.length_append, List.length_singleton] at offset
  -- The loop is entered one position before the first element, at the bracket or behind it.
  have isSecond : ParseBuffer.skip { second with offset := second.offset - 1 } 1 = second := by
    rw [ParseBuffer.skip, Nat.sub_add_cancel (by omega)]
  refine completes_bind (takesItems [] { second with offset := second.offset - 1 }
    (isSecond.symm ▸ entered.ready) (by show second.depth ≤ cJSONNestingLimit; omega)
    (by show 3 * (second.length - (second.offset - 1)) ≤ available; omega)) ?_
  intro linked fourth takes
  cases linked with
  | none => exact completes_refuse
  | some items =>
    obtain ⟨lead, text, _, isLead, passedItems, isTaken, rfl⟩ := takes items rfl
    rw [isSecond] at passedItems
    refine completes_bind_same (nextIs_completes passedItems.ready closing)
      fun closed isClosed => ?_
    by_cases closes : closed = true
    · rw [if_pos closes]
      obtain ⟨behind, atClosing⟩ := isClosed closes
      refine (closeItem_completes (entered.trans passedItems) atClosing closingNonzero item type
        _).mono ?_
      intro result next closesItem parsed found
      obtain ⟨passed, rfl⟩ := closesItem parsed found
      refine ⟨_, items, passed, ?_, rfl⟩
      have whole : [opening] ++ white ++ (lead ++ text) ++ [closing] =
          opening :: (white ++ lead ++ text ++ [closing]) := by simp
      rw [whole]
      exact Bracketed.items (isWhite.append isLead) (depth ▸ isTaken)
    · rw [if_neg closes]
      exact completes_refuse

theorem parseArray_step {fuel : Nat} (specs : ParserSpecs fuel) :
    TakesValue (parseArray (fuel + 1)) 1 (fuel + 1) := by
  intro type name buffer ready shallow enough
  rw [parseArray]
  refine completes_get_bind ?_
  by_cases deep : cJSONNestingLimit ≤ buffer.depth
  · rw [if_pos deep]
    exact completes_refuse
  rw [if_neg deep]
  refine completes_modify_bind ?_
  obtain ⟨opening, holds⟩ := ready.byte buffer.offset ready.inside
  have first : ({ buffer with depth := buffer.depth + 1 } : ParseBuffer).ahead[0]? =
      some opening := (buffer.getElem?_ahead 0).symm.trans holds
  refine completes_run_bind (byteAt_run first) ?_
  by_cases noBracket : opening ≠ '['.toUInt8
  · rw [if_pos noBracket]
    exact completes_refuse
  rw [if_neg noBracket]
  have stands : buffer.ahead = '['.toUInt8 :: buffer.content.drop (buffer.offset + 1) := by
    rw [ParseBuffer.ahead, drop_eq_cons holds, not_not.mp noBracket]
  refine (parseBracketed_completes ready stands (by decide) (by decide) _ .array specs.arrayLoop
    (by omega) (by omega)).mono fun result next takes parsed found => ?_
  obtain ⟨text, items, passed, bracketed, rfl⟩ := takes parsed found
  have level : cJSONNestingLimit - buffer.depth =
      cJSONNestingLimit - (buffer.depth + 1) + 1 := by omega
  refine ⟨text, passed, level ▸ ?_⟩
  cases bracketed with
  | empty isWhite => exact Taken.emptyArray _ name isWhite
  | items isWhite elements => exact Taken.array name isWhite elements

theorem parseObject_step {fuel : Nat} (specs : ParserSpecs fuel) :
    TakesValue (parseObject (fuel + 1)) 1 (fuel + 1) := by
  intro type name buffer ready shallow enough
  rw [parseObject]
  refine completes_get_bind ?_
  by_cases deep : cJSONNestingLimit ≤ buffer.depth
  · rw [if_pos deep]
    exact completes_refuse
  rw [if_neg deep]
  refine completes_modify_bind ?_
  have deeper : Ready { buffer with depth := buffer.depth + 1 } :=
    ready.of_offset _ _ ready.inside
  refine completes_bind_same (nextIs_completes deeper '\x7b'.toUInt8) fun opened isOpened => ?_
  by_cases noBracket : ¬ opened = true
  · rw [if_pos noBracket]
    exact completes_refuse
  rw [if_neg noBracket]
  obtain ⟨rest, stands⟩ := isOpened (not_not.mp noBracket)
  refine (parseBracketed_completes ready (show buffer.ahead = _ from stands) (by decide)
    (by decide) _ .object specs.objectLoop (by omega) (by omega)).mono
      fun result next takes parsed found => ?_
  obtain ⟨text, items, passed, bracketed, rfl⟩ := takes parsed found
  have level : cJSONNestingLimit - buffer.depth =
      cJSONNestingLimit - (buffer.depth + 1) + 1 := by omega
  refine ⟨text, passed, level ▸ ?_⟩
  cases bracketed with
  | empty isWhite => exact Taken.emptyObject _ name isWhite
  | items isWhite members => exact Taken.object name isWhite members

/-- The end of a round takes a value and the whitespace behind it, and after a comma the rounds
that follow. -/
theorem parseElement_completes {buffer : ParseBuffer} (ready : Ready buffer)
    {value : Item → Parser (Option Item)} {again : List Item → Parser (Option (List Item))}
    {taken : Nat → List UInt8 → List Item → Prop} {available : Nat}
    (takesValue : TakesValue value 2 available) (takesItems : TakesItems again taken available)
    (items : List Item) (type : ItemType) (name : Option CString)
    (shallow : buffer.depth ≤ cJSONNestingLimit)
    (enough : 3 * (buffer.length - buffer.offset) + 2 ≤ available) :
    Completes (parseElement (value { type := type, string := name }) again items) buffer
      fun result next => ∀ linked, result = some linked →
        ∃ text item white, Taken (cJSONNestingLimit - buffer.depth) name text item ∧
          White white ∧
          ((Passed buffer (text ++ white) next ∧ linked = items ++ [item]) ∨
            ∃ after rest more, White after ∧
              taken (cJSONNestingLimit - buffer.depth) rest more ∧
              Passed buffer (text ++ white ++ ','.toUInt8 :: (after ++ rest)) next ∧
              linked = items ++ item :: more) := by
  rw [parseElement]
  refine completes_bind (takesValue type name buffer ready shallow enough) ?_
  intro result first takes
  cases result with
  | none => exact completes_refuse
  | some currentItem =>
    obtain ⟨text, passedValue, isTaken⟩ := takes currentItem rfl
    refine completes_bind (bufferSkipWhitespace_completes passedValue.ready) ?_
    rintro _ second ⟨white, isWhite, passedWhite⟩
    have passed := passedValue.trans passedWhite
    refine completes_bind_same (nextIs_completes passed.ready ','.toUInt8) fun more isMore => ?_
    by_cases goesOn : more = true
    · rw [if_pos goesOn]
      obtain ⟨behind, atComma⟩ := isMore goesOn
      have comma := passed_one passed.ready atComma (by decide)
      have offset := passed.offset
      have length := passed.length
      have depth := passed.depth
      refine (takesItems (items ++ [currentItem]) second comma.ready (by omega)
        (by omega)).mono ?_
      intro result last takesRest linked found
      obtain ⟨after, rest, others, isAfter, passedRest, isRest, rfl⟩ := takesRest linked found
      refine ⟨text, currentItem, white, isTaken, isWhite,
        Or.inr ⟨after, rest, others, isAfter, depth ▸ isRest, ?_, by simp⟩⟩
      simpa using (passed.trans comma).trans passedRest
    · rw [if_neg goesOn]
      refine completes_pure fun linked found => ?_
      cases found
      exact ⟨text, currentItem, white, isTaken, isWhite, Or.inl ⟨passed, rfl⟩⟩

theorem arrayLoop_step {fuel : Nat} (specs : ParserSpecs fuel) :
    TakesItems (arrayLoop (fuel + 1)) TakenElements (fuel + 1) := by
  intro items buffer ready shallow enough
  rw [arrayLoop]
  refine completes_run_bind (allocate_run ready.regular.of_skip sizeofCJSON) ?_
  rw [if_neg (not_not_intro rfl)]
  refine completes_run_bind (advance_run 1) ?_
  refine completes_bind (bufferSkipWhitespace_completes ready) ?_
  rintro _ first ⟨lead, isLead, passedLead⟩
  have inside : buffer.offset + 1 < buffer.length := ready.inside
  have offset : first.offset = buffer.offset + 1 + lead.length := passedLead.offset
  have length : first.length = buffer.length := passedLead.length
  have depth : first.depth = buffer.depth := passedLead.depth
  refine (parseElement_completes passedLead.ready specs.value specs.arrayLoop items .invalid none
    (by omega) (by omega)).mono fun result next takes linked found => ?_
  obtain ⟨text, item, white, isTaken, isWhite, ends⟩ := takes linked found
  rw [depth] at isTaken ends
  rcases ends with ⟨passed, rfl⟩ | ⟨after, rest, more, isAfter, isRest, passed, rfl⟩
  · exact ⟨lead, _, [item], isLead, passedLead.trans passed, TakenElements.last isTaken isWhite,
      rfl⟩
  · exact ⟨lead, _, item :: more, isLead, passedLead.trans passed,
      TakenElements.cons isTaken isWhite isAfter isRest, rfl⟩

theorem objectLoop_step {fuel : Nat} (specs : ParserSpecs fuel) :
    TakesItems (objectLoop (fuel + 1)) TakenMembers (fuel + 1) := by
  intro items buffer ready shallow enough
  rw [objectLoop]
  refine completes_run_bind (allocate_run ready.regular.of_skip sizeofCJSON) ?_
  rw [if_neg (not_not_intro rfl)]
  refine completes_run_bind (advance_run 1) ?_
  refine completes_bind (bufferSkipWhitespace_completes ready) ?_
  rintro _ first ⟨lead, isLead, passedLead⟩
  refine completes_bind (parseString_completes passedLead.ready {}) ?_
  intro result second takesKey
  cases result with
  | none => exact completes_refuse
  | some named =>
    obtain ⟨key, bytes, passedKey, quoted, rfl⟩ := takesKey named rfl
    refine completes_bind (bufferSkipWhitespace_completes passedKey.ready) ?_
    rintro _ third ⟨before, isBefore, passedBefore⟩
    refine completes_bind_same (nextIs_completes passedBefore.ready ':'.toUInt8)
      fun colon isColon => ?_
    by_cases noColon : ¬ colon = true
    · rw [if_pos noColon]
      exact completes_refuse
    rw [if_neg noColon]
    obtain ⟨behind, atColon⟩ := isColon (not_not.mp noColon)
    have passedColon := passed_one passedBefore.ready atColon (by decide)
    refine completes_run_bind (advance_run 1) ?_
    refine completes_bind (bufferSkipWhitespace_completes passedColon.ready) ?_
    rintro _ fifth ⟨after, isAfter, passedAfter⟩
    have entered := (((passedLead.trans passedKey).trans passedBefore).trans passedColon).trans
      passedAfter
    have inside : buffer.offset + 1 < buffer.length := ready.inside
    have offset : fifth.offset = buffer.offset + 1 + _ := entered.offset
    have length : fifth.length = buffer.length := entered.length
    have depth : fifth.depth = buffer.depth := entered.depth
    refine (parseElement_completes passedAfter.ready specs.value specs.objectLoop items .string
      (some (CString.ofBuffer bytes)) (by omega) (by omega)).mono
        fun result next takes linked found => ?_
    obtain ⟨text, item, white, isTaken, isWhite, ends⟩ := takes linked found
    rw [depth] at isTaken ends
    have member := TakenMember.intro quoted isBefore isAfter isTaken
    rcases ends with ⟨passed, rfl⟩ | ⟨others, rest, more, isOthers, isRest, passed, rfl⟩
    · refine ⟨lead, _, [item], isLead, ?_, TakenMembers.last member isWhite, rfl⟩
      simpa using entered.trans passed
    · refine ⟨lead, _, item :: more, isLead, ?_, TakenMembers.cons member isWhite isOthers isRest,
        rfl⟩
      simpa using entered.trans passed

/-! ### Whole runs -/

theorem parserSpecs (fuel : Nat) : ParserSpecs fuel := by
  induction fuel with
  | zero =>
    constructor
    · intro type name buffer ready shallow enough
      omega
    · intro type name buffer ready shallow enough
      omega
    · intro type name buffer ready shallow enough
      omega
    · intro items buffer ready shallow enough
      have inside : buffer.offset + 1 < buffer.length := ready.inside
      omega
    · intro items buffer ready shallow enough
      have inside : buffer.offset + 1 < buffer.length := ready.inside
      omega
  | succ fuel specs =>
    exact ⟨parseValue_step specs, parseArray_step specs, parseObject_step specs,
      arrayLoop_step specs, objectLoop_step specs⟩

theorem skipUtf8Bom_completes {buffer : ParseBuffer} (ready : Ready buffer) :
    Completes skipUtf8Bom buffer fun _ next =>
      ∃ mark, (mark = [] ∨ mark = [0xEF, 0xBB, 0xBF]) ∧ Passed buffer mark next := by
  rw [skipUtf8Bom]
  refine completes_get_bind ?_
  by_cases long : buffer.CanAccessAtIndex 4
  · have room := (ready.regular.canAccessAtIndex_iff 4).mp long
    rw [if_pos long]
    refine completes_run_bind (startsWith_run [0xEF, 0xBB, 0xBF] 0
      (Nat.le_of_lt (Nat.lt_of_succ_lt room))) ?_
    by_cases marked : [0xEF, 0xBB, (0xBF : UInt8)].isPrefixOf (buffer.ahead.drop 0) = true
    · rw [if_pos marked]
      obtain ⟨rest, stands⟩ := List.isPrefixOf_iff_prefix.mp marked
      exact ⟨⟨⟩, _, rfl, _, Or.inr rfl, ready.passed_of_free stands.symm (by decide)⟩
    · rw [if_neg marked]
      exact completes_pure ⟨[], Or.inl rfl, Passed.refl ready⟩
  · rw [if_neg long]
    exact completes_pure ⟨[], Or.inl rfl, Passed.refl ready⟩

/-- Where a parse of the whole text ends: behind the value, and at the terminator if that was asked
for. -/
structure Ended (buffer : ParseBuffer) (requireNullTerminated : Bool) (text : List UInt8)
    (last : ParseBuffer) : Prop where
  passed : Passed buffer text last
  terminated : requireNullTerminated = true →
    ∃ white rest, White white ∧ last.ahead = white ++ 0 :: rest

theorem parseDocument_completes {buffer : ParseBuffer} (ready : Ready buffer) (fuel : Nat)
    (requireNullTerminated : Bool) (top : buffer.depth = 0)
    (enough : 3 * buffer.length + 2 ≤ fuel) :
    Completes (parseDocument fuel requireNullTerminated) buffer fun result _ =>
      ∀ parsed, result = some parsed → ∃ mark white body last,
        (mark = [] ∨ mark = [0xEF, 0xBB, 0xBF]) ∧ White white ∧
        Taken cJSONNestingLimit none body parsed ∧
        Ended buffer requireNullTerminated (mark ++ (white ++ body)) last := by
  rw [parseDocument]
  refine completes_run_bind (allocate_run ready.regular sizeofCJSON) ?_
  rw [if_neg (not_not_intro rfl)]
  refine completes_bind (skipUtf8Bom_completes ready) ?_
  rintro _ first ⟨mark, isMark, passedMark⟩
  refine completes_bind (bufferSkipWhitespace_completes passedMark.ready) ?_
  rintro _ second ⟨white, isWhite, passedWhite⟩
  have entered := passedMark.trans passedWhite
  have length := entered.length
  have depth := entered.depth
  refine completes_bind ((parserSpecs fuel).value .invalid none second entered.ready (by omega)
    (by omega)) ?_
  intro result third takes
  cases result with
  | none => exact completes_refuse
  | some item =>
    obtain ⟨body, passedBody, isTaken⟩ := takes item rfl
    have passed := passedMark.trans (passedWhite.trans passedBody)
    rw [depth, top, Nat.sub_zero] at isTaken
    cases requireNullTerminated with
    | false =>
      refine completes_pure fun parsed found => ?_
      cases found
      exact ⟨mark, white, body, third, isMark, isWhite, isTaken, passed, fun asked => nomatch asked⟩
    | true =>
      refine completes_bind (bufferSkipWhitespace_completes passed.ready) ?_
      rintro _ fourth ⟨trail, isTrail, passedTrail⟩
      refine completes_bind_same (nextIs_completes passedTrail.ready 0)
        fun terminated isTerminated => ?_
      by_cases ends : terminated = true
      · rw [if_pos ends]
        refine completes_pure fun parsed found => ?_
        cases found
        obtain ⟨rest, atEnd⟩ := isTerminated ends
        refine ⟨mark, white, body, third, isMark, isWhite, isTaken, passed, fun _ => ?_⟩
        exact ⟨trail, rest, isTrail, by rw [passedTrail.stands, atEnd]⟩
      · rw [if_neg ends]
        exact completes_refuse

/-- The buffer a C string is parsed in. -/
theorem ready_of_cString (value : CString) :
    Ready { content := value.bytes ++ [0], length := value.bytes.length + 1,
            hooks := Hooks.granting } := by
  refine ⟨⟨by rw [List.length_append, List.length_singleton], rfl⟩, Nat.succ_pos _, ?_⟩
  show (value.bytes ++ [0])[value.bytes.length + 1 - 1]? = some 0
  rw [Nat.add_sub_cancel, List.getElem?_append_right (Nat.le_refl _), Nat.sub_self]
  rfl

/-- A terminator behind a part of a C string is the one at its end. -/
theorem eq_of_terminated (value : CString) {front rest : List UInt8}
    (stands : value.bytes ++ [0] = front ++ 0 :: rest) : value.bytes = front := by
  rcases List.eq_nil_or_concat rest with rfl | ⟨middle, last, rfl⟩
  · exact List.append_cancel_right stands
  · have split : value.bytes ++ [0] = (front ++ 0 :: middle) ++ [last] := by simp [stands]
    have inside : (0 : UInt8) ∈ value.bytes := by
      rw [(List.append_inj' split rfl).1]
      simp
    exact absurd rfl (value.noTerminator 0 inside)

/-- Parsing a C string never faults, and gives null or the item its text is taken for. When the
text has to end behind the value, nothing but whitespace follows it. -/
theorem cJSONParseWithOpts_outcome (value : CString) (requireNullTerminated : Bool) :
    cJSONParseWithOpts value requireNullTerminated = .ok .null ∨
      ∃ item rest, cJSONParseWithOpts value requireNullTerminated = .ok (CJSON.link [item]) ∧
        TakenText value.bytes rest item ∧ (requireNullTerminated = true → White rest) := by
  have ready := ready_of_cString value
  obtain ⟨result, _, ran, accepts⟩ := parseDocument_completes ready
    (3 * (value.bytes.length + 1) + 3) requireNullTerminated rfl (by simp)
  rw [cJSONParseWithOpts, cJSONParseWithHooks, cJSONParseWithLengthOpts,
    if_neg (Nat.succ_ne_zero _), ran]
  cases result with
  | none => exact Or.inl rfl
  | some item =>
    obtain ⟨mark, white, body, last, isMark, isWhite, isTaken, ended⟩ := accepts item rfl
    have stands : value.bytes ++ [0] = mark ++ (white ++ body) ++ last.ahead := ended.passed.stands
    obtain ⟨rest, ends⟩ := ended.passed.ready.ahead_eq
    have whole : value.bytes = mark ++ (white ++ body) ++ rest := by
      rw [ends, ← List.append_assoc] at stands
      exact List.append_cancel_right stands
    refine Or.inr ⟨item, rest, rfl, ⟨mark, white, body, isMark, isWhite, isTaken, ?_⟩,
      fun asked => ?_⟩
    · rw [whole]
      simp
    · obtain ⟨trail, behind, isTrail, atEnd⟩ := ended.terminated asked
      rw [atEnd, ← List.append_assoc] at stands
      have isRest := eq_of_terminated value stands
      rw [whole] at isRest
      exact List.append_cancel_left isRest ▸ isTrail

/-- The item a text is taken for is well formed, has at most one item below it for each byte, and
nests within the limit. -/
theorem TakenText.bounded {text rest : List UInt8} {item : Item}
    (taken : TakenText text rest item) : Bounded item cJSONNestingLimit text.length := by
  obtain ⟨mark, white, body, _, _, value, rfl⟩ := taken
  refine value.bounded.mono ?_
  simp only [List.length_append]
  omega

/-- Parsing a C string never faults, and gives null or a well-formed tree that has at most one item
for each byte and nests within the limit. -/
theorem cJSONParseWithOpts_ok (value : CString) (requireNullTerminated : Bool) :
    ∃ result : ParseResult,
      cJSONParseWithOpts value requireNullTerminated = .ok result.root ∧
        result.root.nodes ≤ value.bytes.length ∧
        result.root.height ≤ cJSONNestingLimit + 1 := by
  rcases cJSONParseWithOpts_outcome value requireNullTerminated with
    null | ⟨item, rest, accepted, taken, -⟩
  · exact ⟨⟨.null, trivial⟩, null, Nat.zero_le _, Nat.zero_le _⟩
  · have bounded := taken.bounded
    refine ⟨⟨CJSON.link [item], CJSON.wellFormed_link [item] (by simpa using bounded.shaped)⟩,
      accepted, ?_, ?_⟩
    · show 0 + item.child.nodes + 1 ≤ value.bytes.length
      have small := bounded.small
      omega
    · have shallow := bounded.shallow
      show max 0 (item.child.height + 1) ≤ cJSONNestingLimit + 1
      omega

theorem cJSONParse_ok (value : CString) :
    ∃ result : ParseResult, cJSONParse value = .ok result.root ∧
      result.root.nodes ≤ value.bytes.length ∧ result.root.height ≤ cJSONNestingLimit + 1 :=
  cJSONParseWithOpts_ok value false

/-- What is accepted is a text of the dialect. -/
theorem cJSONParseWithOpts_taken (value : CString) (requireNullTerminated : Bool) (item : Item)
    (accepted : cJSONParseWithOpts value requireNullTerminated = .ok (CJSON.link [item])) :
    ∃ rest, TakenText value.bytes rest item ∧ (requireNullTerminated = true → White rest) := by
  rcases cJSONParseWithOpts_outcome value requireNullTerminated with
    null | ⟨other, rest, parsed, taken⟩
  · exact absurd (null.symm.trans accepted) (fun same => nomatch same)
  · have same : CJSON.link [other] = CJSON.link [item] :=
      Except.ok.inj (parsed.symm.trans accepted)
    have chains := congrArg CJSON.chain same
    rw [CJSON.chain_link, CJSON.chain_link, List.singleton_inj] at chains
    exact ⟨rest, chains ▸ taken⟩

end DiffServSimulation
