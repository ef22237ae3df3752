/-
This file says which texts the vendored parser takes, as a grammar of its own, and
which item each of them is taken for.

The dialect is wider than JSON. Every byte up to a space is whitespace, a string
may hold control characters and bytes that are no UTF-8, a number is whatever
`strtod` takes of it, and an escaped code unit with an invalid digit stands for
zero. The end of a string is found before it is unescaped, and the two passes may
disagree on which backslashes begin an escape, to the point that the closing
quote is also read as escaped.
-/

import DiffServSimulation.CjsonParse

namespace DiffServSimulation

/-! ### Strings -/

/-- Text that is skipped between tokens. -/
def White (text : List UInt8) : Prop := ∀ byte ∈ text, byte ≤ 32

/-- The code unit some digits write, behind the digits already read. A byte that is no digit makes
it zero. -/
def hexValue : Nat → List UInt8 → Nat
  | value, [] => value
  | value, byte :: digits =>
    match hexDigit? byte with
    | none => 0
    | some digit => hexValue (16 * value + digit) digits

/-- Neither half of a surrogate pair. -/
def Single (code : Nat) : Prop := code < 0xD800 ∨ 0xDFFF < code

/-- A part of a string and the bytes it is unescaped to. -/
inductive Part : List UInt8 → List UInt8 → Prop where
  | plain (byte : UInt8) (noEscape : byte ≠ '\\'.toUInt8) : Part [byte] [byte]
  | simple {letter byte : UInt8} (escape : simpleEscape? letter = some byte) :
      Part ['\\'.toUInt8, letter] [byte]
  | unit {digits bytes : List UInt8} (four : digits.length = 4)
      (single : Single (hexValue 0 digits))
      (encodes : encodeUtf8 (hexValue 0 digits) = some bytes) :
      Part ('\\'.toUInt8 :: 'u'.toUInt8 :: digits) bytes
  | pair {high low bytes : List UInt8} (highFour : high.length = 4) (lowFour : low.length = 4)
      (isHigh : 0xD800 ≤ hexValue 0 high ∧ hexValue 0 high ≤ 0xDBFF)
      (isLow : 0xDC00 ≤ hexValue 0 low ∧ hexValue 0 low ≤ 0xDFFF)
      (encodes : encodeUtf8 (0x10000 + (((hexValue 0 high &&& 0x3FF) <<< 10) |||
        (hexValue 0 low &&& 0x3FF))) = some bytes) :
      Part ('\\'.toUInt8 :: 'u'.toUInt8 :: (high ++ '\\'.toUInt8 :: 'u'.toUInt8 :: low)) bytes

/-- A text the second pass unescapes, part by part. -/
inductive Parts : List UInt8 → List UInt8 → Prop where
  | nil : Parts [] []
  | cons {text rest bytes more : List UInt8} (first : Part text bytes) (others : Parts rest more) :
      Parts (text ++ rest) (bytes ++ more)

/-- A text in which the first pass finds no closing quote: a backslash hides the byte behind it. -/
inductive Unclosed : List UInt8 → Prop where
  | nil : Unclosed []
  | plain {byte : UInt8} {rest : List UInt8} (noQuote : byte ≠ '"'.toUInt8)
      (noEscape : byte ≠ '\\'.toUInt8) (others : Unclosed rest) : Unclosed (byte :: rest)
  | escape (hidden : UInt8) {rest : List UInt8} (others : Unclosed rest) :
      Unclosed ('\\'.toUInt8 :: hidden :: rest)

/-- A string and the bytes it is unescaped to. The second pass may read an escaped quote where the
first pass found the closing one. -/
inductive Quoted : List UInt8 → List UInt8 → Prop where
  | intro {body bytes : List UInt8} (unclosed : Unclosed body) (parts : Parts body bytes) :
      Quoted ('"'.toUInt8 :: (body ++ ['"'.toUInt8])) bytes
  | beyond {front bytes : List UInt8} (unclosed : Unclosed (front ++ ['\\'.toUInt8]))
      (parts : Parts front bytes) :
      Quoted ('"'.toUInt8 :: (front ++ ['\\'.toUInt8] ++ ['"'.toUInt8])) (bytes ++ ['"'.toUInt8])

/-! ### Values -/

/-- A number as `parse_number` takes it, and the double it denotes. -/
structure NumberText (text : List UInt8) (number : ℚ) : Prop where
  bytes : ∀ byte ∈ text, isNumberByte byte = true
  starts : ∃ byte ∈ text.head?, byte = '-'.toUInt8 ∨ DecimalNumber.isDigit byte = true
  short : text.length ≤ 63
  reads : DecimalNumber.strtod text = some (number, text.length)

mutual

/-- A text is taken for an item of a given name, which nests no deeper than a limit. -/
inductive Taken : Nat → Option CString → List UInt8 → Item → Prop where
  | null (depth : Nat) (name : Option CString) :
      Taken depth name ("null".toList.map Char.toUInt8) { type := .null, string := name }
  | false (depth : Nat) (name : Option CString) :
      Taken depth name ("false".toList.map Char.toUInt8) { type := .false, string := name }
  | true (depth : Nat) (name : Option CString) :
      Taken depth name ("true".toList.map Char.toUInt8)
        { type := .true, valueint := 1, string := name }
  | number (depth : Nat) (name : Option CString) {text : List UInt8} {number : ℚ}
      (isNumber : NumberText text number) :
      Taken depth name text
        { type := .number, valueint := DecimalNumber.saturate number,
          valuedouble := DecimalNumber.Double.ofRat number, string := name }
  | string (depth : Nat) (name : Option CString) {text bytes : List UInt8}
      (quoted : Quoted text bytes) :
      Taken depth name text
        { type := .string, valuestring := some (CString.ofBuffer bytes), string := name }
  | emptyArray (depth : Nat) (name : Option CString) {white : List UInt8} (isWhite : White white) :
      Taken (depth + 1) name ('['.toUInt8 :: (white ++ [']'.toUInt8]))
        { type := .array, string := name }
  | array {depth : Nat} (name : Option CString) {white text : List UInt8} {items : List Item}
      (isWhite : White white) (elements : TakenElements depth text items) :
      Taken (depth + 1) name ('['.toUInt8 :: (white ++ text ++ [']'.toUInt8]))
        { type := .array, string := name, child := CJSON.link items }
  | emptyObject (depth : Nat) (name : Option CString) {white : List UInt8}
      (isWhite : White white) :
      Taken (depth + 1) name ('\x7b'.toUInt8 :: (white ++ ['\x7d'.toUInt8]))
        { type := .object, string := name }
  | object {depth : Nat} (name : Option CString) {white text : List UInt8} {items : List Item}
      (isWhite : White white) (members : TakenMembers depth text items) :
      Taken (depth + 1) name ('\x7b'.toUInt8 :: (white ++ text ++ ['\x7d'.toUInt8]))
        { type := .object, string := name, child := CJSON.link items }

/-- The elements of an array that is not empty, with the commas and whitespace behind them. -/
inductive TakenElements : Nat → List UInt8 → List Item → Prop where
  | last {depth : Nat} {text white : List UInt8} {item : Item} (first : Taken depth none text item)
      (isWhite : White white) : TakenElements depth (text ++ white) [item]
  | cons {depth : Nat} {text before after rest : List UInt8} {item : Item} {items : List Item}
      (first : Taken depth none text item) (isBefore : White before) (isAfter : White after)
      (others : TakenElements depth rest items) :
      TakenElements depth (text ++ before ++ ','.toUInt8 :: (after ++ rest)) (item :: items)

/-- The members of an object that is not empty. -/
inductive TakenMembers : Nat → List UInt8 → List Item → Prop where
  | last {depth : Nat} {text white : List UInt8} {item : Item} (first : TakenMember depth text item)
      (isWhite : White white) : TakenMembers depth (text ++ white) [item]
  | cons {depth : Nat} {text before after rest : List UInt8} {item : Item} {items : List Item}
      (first : TakenMember depth text item) (isBefore : White before) (isAfter : White after)
      (others : TakenMembers depth rest items) :
      TakenMembers depth (text ++ before ++ ','.toUInt8 :: (after ++ rest)) (item :: items)

/-- A name, a colon and a value. -/
inductive TakenMember : Nat → List UInt8 → Item → Prop where
  | intro {depth : Nat} {key bytes before after text : List UInt8} {item : Item}
      (quoted : Quoted key bytes) (isBefore : White before) (isAfter : White after)
      (value : Taken depth (some (CString.ofBuffer bytes)) text item) :
      TakenMember depth (key ++ before ++ ':'.toUInt8 :: (after ++ text)) item

end

/-- A whole text: a byte order mark or nothing, whitespace, and a value. -/
def TakenText (text rest : List UInt8) (item : Item) : Prop :=
  ∃ mark white body, (mark = [] ∨ mark = [0xEF, 0xBB, 0xBF]) ∧ White white ∧
    Taken cJSONNestingLimit none body item ∧ text = mark ++ (white ++ (body ++ rest))

/-! ### What a text is taken for -/

theorem Taken.string_eq {depth : Nat} {name : Option CString} {text : List UInt8} {item : Item}
    (taken : Taken depth name text item) : item.string = name := by
  cases taken <;> rfl

/-- A text begins with a visible byte other than some. -/
def Begins (avoided text : List UInt8) : Prop :=
  ∃ byte rest, text = byte :: rest ∧ 32 < byte ∧ byte ∉ avoided

/-- A value neither closes an array nor begins with a byte order mark. -/
theorem Taken.begins {depth : Nat} {name : Option CString} {text : List UInt8} {item : Item}
    (taken : Taken depth name text item) : Begins [']'.toUInt8, 0xEF] text := by
  cases taken with
  | number depth name isNumber =>
    obtain ⟨byte, first, starts⟩ := isNumber.starts
    obtain ⟨rest, begins⟩ := List.head?_eq_some_iff.mp first
    refine ⟨byte, rest, begins, ?_⟩
    rcases starts with rfl | digit
    · decide
    · rw [DecimalNumber.isDigit, Bool.and_eq_true, decide_eq_true_eq, decide_eq_true_eq] at digit
      refine ⟨UInt8.lt_of_lt_of_le (by decide) digit.1, fun avoided => ?_⟩
      simp only [List.mem_cons, List.not_mem_nil, or_false] at avoided
      rcases avoided with rfl | rfl
      · exact absurd digit.2 (by decide)
      · exact absurd digit.2 (by decide)
  | string depth name quoted => cases quoted <;> exact ⟨_, _, rfl, by decide⟩
  | _ => exact ⟨_, _, rfl, by decide⟩

theorem TakenElements.begins {depth : Nat} {text : List UInt8} {items : List Item}
    (elements : TakenElements depth text items) : Begins [']'.toUInt8] text := by
  cases elements with
  | last first isWhite =>
    obtain ⟨byte, rest, rfl, visible, apart⟩ := first.begins
    exact ⟨byte, _, rfl, visible, fun closes => apart (List.mem_cons.mpr (Or.inl
      (List.mem_singleton.mp closes)))⟩
  | cons first isBefore isAfter others =>
    obtain ⟨byte, rest, rfl, visible, apart⟩ := first.begins
    exact ⟨byte, _, rfl, visible, fun closes => apart (List.mem_cons.mpr (Or.inl
      (List.mem_singleton.mp closes)))⟩

/-- A member begins with the quote of its name. -/
theorem TakenMember.begins {depth : Nat} {text : List UInt8} {item : Item}
    (member : TakenMember depth text item) : ∃ rest, text = '"'.toUInt8 :: rest := by
  obtain ⟨quoted, _, _, _⟩ := member
  cases quoted <;> exact ⟨_, rfl⟩

theorem TakenMembers.begins {depth : Nat} {text : List UInt8} {items : List Item}
    (members : TakenMembers depth text items) : Begins ['\x7d'.toUInt8] text := by
  cases members with
  | last first isWhite =>
    obtain ⟨rest, rfl⟩ := first.begins
    exact ⟨_, _, rfl, by decide⟩
  | cons first isBefore isAfter others =>
    obtain ⟨rest, rfl⟩ := first.begins
    exact ⟨_, _, rfl, by decide⟩

/-- The tree below an item is well formed, nests within a limit, and has no more items than a text
has bytes. -/
structure Bounded (item : Item) (depth length : Nat) : Prop where
  shaped : item.Shaped
  shallow : item.child.height ≤ depth
  small : item.child.nodes + 1 ≤ length

/-- The same of linked items, with what is asked of their names. -/
structure AllBounded (named : Option CString → Prop) (items : List Item) (depth length : Nat) :
    Prop where
  named : ∀ item ∈ items, named item.string
  shaped : ∀ item ∈ items, item.Shaped
  shallow : ∀ item ∈ items, item.child.height + 1 ≤ depth + 1
  small : (CJSON.link items).nodes ≤ length

theorem Bounded.mono {item : Item} {depth length longer : Nat} (bounded : Bounded item depth length)
    (le : length ≤ longer) : Bounded item depth longer :=
  ⟨bounded.shaped, bounded.shallow, bounded.small.trans le⟩

theorem bounded_leaf {item : Item} (childless : item.child = .null) (depth : Nat) {length : Nat}
    (positive : 0 < length) : Bounded item depth length := by
  refine ⟨Item.shaped_of_child_null item childless, ?_, ?_⟩
  · rw [childless]
    exact Nat.zero_le depth
  · rw [childless]
    exact positive

section Linked

variable {named : Option CString → Prop} {depth length : Nat}

theorem AllBounded.mono {items : List Item} {longer : Nat}
    (bounded : AllBounded named items depth length) (le : length ≤ longer) :
    AllBounded named items depth longer :=
  ⟨bounded.named, bounded.shaped, bounded.shallow, bounded.small.trans le⟩

theorem allBounded_singleton {item : Item} (isNamed : named item.string)
    (first : Bounded item depth length) : AllBounded named [item] depth length where
  named := by simpa using isNamed
  shaped := by simpa using first.shaped
  shallow := by simpa using first.shallow
  small := by
    have small := first.small
    show 0 + item.child.nodes + 1 ≤ length
    omega

theorem allBounded_cons {item : Item} {items : List Item} {rest : Nat}
    (isNamed : named item.string) (first : Bounded item depth length)
    (others : AllBounded named items depth rest) :
    AllBounded named (item :: items) depth (length + rest) where
  named := List.forall_mem_cons.mpr ⟨isNamed, others.named⟩
  shaped := List.forall_mem_cons.mpr ⟨first.shaped, others.shaped⟩
  shallow := List.forall_mem_cons.mpr ⟨Nat.succ_le_succ first.shallow, others.shallow⟩
  small := by
    have small := first.small
    have more := others.small
    show (CJSON.link items).nodes + item.child.nodes + 1 ≤ length + rest
    omega

/-- Items in brackets. -/
theorem AllBounded.bracketed {items : List Item} (bounded : AllBounded named items depth length)
    {item : Item} (linked : item.child = CJSON.link items)
    (admits : (∀ child ∈ items, named child.string) → item.type.Admits items) {longer : Nat}
    (le : length + 1 ≤ longer) : Bounded item (depth + 1) longer := by
  refine ⟨⟨?_, ?_⟩, ?_, ?_⟩
  · rw [linked, CJSON.chain_link]
    exact admits bounded.named
  · rw [linked]
    exact CJSON.wellFormed_link items bounded.shaped
  · rw [linked]
    exact CJSON.height_link_le items (depth + 1) bounded.shallow
  · rw [linked]
    exact (Nat.succ_le_succ bounded.small).trans le

end Linked

theorem Part.length_pos {text bytes : List UInt8} (part : Part text bytes) : 0 < text.length := by
  cases part <;> exact Nat.succ_pos _

theorem Quoted.length_pos {text bytes : List UInt8} (quoted : Quoted text bytes) :
    0 < text.length := by
  cases quoted <;> exact Nat.succ_pos _

theorem NumberText.length_pos {text : List UInt8} {number : ℚ} (isNumber : NumberText text number) :
    0 < text.length := by
  obtain ⟨byte, first, -⟩ := isNumber.starts
  cases text with
  | nil => cases first
  | cons byte rest => exact Nat.succ_pos _

theorem length_bracket_le (opening closing : UInt8) (white text : List UInt8) :
    text.length + 1 ≤ (opening :: (white ++ text ++ [closing])).length := by
  simp only [List.length_cons, List.length_append]
  omega

theorem length_separated_le (comma : UInt8) (text before after rest : List UInt8) :
    text.length + rest.length ≤ (text ++ before ++ comma :: (after ++ rest)).length := by
  simp only [List.length_cons, List.length_append]
  omega

theorem length_named_le (colon : UInt8) (key before after text : List UInt8) :
    text.length ≤ (key ++ before ++ colon :: (after ++ text)).length := by
  simp only [List.length_cons, List.length_append]
  omega

theorem TakenMember.named {depth : Nat} {text : List UInt8} {item : Item}
    (member : TakenMember depth text item) : item.string ≠ none := by
  obtain ⟨_, _, _, value⟩ := member
  rw [value.string_eq]
  exact Option.some_ne_none _

mutual

/-- The tree a text is taken for is bounded by the text. -/
theorem Taken.bounded {depth : Nat} {name : Option CString} {text : List UInt8} {item : Item} :
    Taken depth name text item → Bounded item depth text.length
  | .null depth _ => bounded_leaf rfl depth (by decide)
  | .false depth _ => bounded_leaf rfl depth (by decide)
  | .true depth _ => bounded_leaf rfl depth (by decide)
  | .number depth _ isNumber => bounded_leaf rfl depth isNumber.length_pos
  | .string depth _ quoted => bounded_leaf rfl depth quoted.length_pos
  | .emptyArray depth _ _ => bounded_leaf rfl _ (Nat.succ_pos _)
  | .array _ _ elements =>
    elements.bounded.bracketed rfl (by exact id) (length_bracket_le _ _ _ _)
  | .emptyObject depth _ _ => bounded_leaf rfl _ (Nat.succ_pos _)
  | .object _ _ members =>
    members.bounded.bracketed rfl (by exact id) (length_bracket_le _ _ _ _)

theorem TakenElements.bounded {depth : Nat} {text : List UInt8} {items : List Item} :
    TakenElements depth text items →
      AllBounded (fun name => name = none) items depth text.length
  | .last first _ => allBounded_singleton first.string_eq (first.bounded.mono (by simp))
  | .cons first _ _ others =>
    (allBounded_cons first.string_eq first.bounded others.bounded).mono
      (length_separated_le _ _ _ _ _)

theorem TakenMembers.bounded {depth : Nat} {text : List UInt8} {items : List Item} :
    TakenMembers depth text items →
      AllBounded (fun name => name ≠ none) items depth text.length
  | .last first _ => allBounded_singleton first.named (first.bounded.mono (by simp))
  | .cons first _ _ others =>
    (allBounded_cons first.named first.bounded others.bounded).mono
      (length_separated_le _ _ _ _ _)

theorem TakenMember.bounded {depth : Nat} {text : List UInt8} {item : Item} :
    TakenMember depth text item → Bounded item depth text.length
  | .intro _ _ _ value => value.bounded.mono (length_named_le _ _ _ _ _)

end

end DiffServSimulation
