/-
This file proves that the printer writes JSON.

A tree without raw text and without nodes of an unknown type has a text in either
format, and the text writes the document the tree stands for: an object with its
members in order, an array with its elements, a number with the numeral it is
printed as. What the format adds are blanks, and they stand where the grammar has
blanks.
-/

import DiffServSimulation.CjsonPrintText
import DiffServSimulation.CjsonAcceptsJson

namespace DiffServSimulation

open JsonGrammar DecimalNumber

/-! ### The document of a tree -/

/-- The bytes of a string, of which a null string has none. -/
def bytesOf (string : Option CString) : List UInt8 := (string.map CString.bytes).getD []

/-- The document of a node with its fields, with those of its children. -/
def contentsDocument (elements : List Json) (members : List (List UInt8 × Json))
    (data : ItemData) : Json :=
  match data.type with
  | .false => .bool false
  | .true => .bool true
  | .number => ((numeralOf? data).map Json.number).getD .null
  | .string => .string (bytesOf data.valuestring)
  | .array => .array elements
  | .object => .object members
  | _ => .null

mutual

def elementDocuments : CJSON → List Json
  | .null => []
  | .node next child data =>
    contentsDocument (elementDocuments child) (memberDocuments child) data ::
      elementDocuments next

def memberDocuments : CJSON → List (List UInt8 × Json)
  | .null => []
  | .node next child data =>
    (bytesOf data.string, contentsDocument (elementDocuments child) (memberDocuments child) data) ::
      memberDocuments next

end

/-- The document of the node a pointer leads to. -/
def documentOf : CJSON → Json
  | .null => .null
  | .node _ child data => contentsDocument (elementDocuments child) (memberDocuments child) data

/-- Every node that is printed has a type that JSON knows, and no more than some arrays and objects
are nested. -/
def CJSON.Writable : Nat → CJSON → Prop
  | _, .null => True
  | limit, .node next child data =>
    (match data.type with
      | .invalid => False
      | .raw => False
      | .array => 0 < limit ∧ child.Writable (limit - 1)
      | .object => 0 < limit ∧ child.Writable (limit - 1)
      | _ => True) ∧ next.Writable limit

/-! ### Strings -/

/-- Each byte is written as the grammar has it. -/
theorem escapedByte_writes (byte : UInt8) : CharText (escapedByte byte) [byte] := by
  unfold escapedByte
  cases isLetter : escapeLetter? byte with
  | some letter =>
    refine CharText.short letter byte ?_
    unfold escapeLetter? at isLetter
    split_ifs at isLetter with quote escape backspace formFeed lineFeed return' tab <;>
      (rw [← Option.some.inj isLetter]; subst byte; decide)
  | none =>
    simp only
    split_ifs with control
    · have special : ¬ (byte = '"'.toUInt8 ∨ byte = '\\'.toUInt8) := by
        rintro (rfl | rfl)
        · exact absurd isLetter (by decide)
        · exact absurd isLetter (by decide)
      have rendered := renderByte_writes byte
      rw [renderByte, if_neg special, if_pos control] at rendered
      exact rendered
    · refine CharText.plain byte (UInt8.not_lt.mp control) ?_ ?_
      · rintro rfl
        exact absurd isLetter (by decide)
      · rintro rfl
        exact absurd isLetter (by decide)

theorem stringText_writes (string : Option CString) :
    StringText (stringText string) (bytesOf string) := by
  cases string with
  | none => exact ⟨[], StringBody.nil, rfl⟩
  | some string =>
    refine ⟨string.bytes.flatMap escapedByte, ?_, rfl⟩
    show StringBody (string.bytes.flatMap escapedByte) string.bytes
    induction string.bytes with
    | nil => exact StringBody.nil
    | cons byte bytes inductionHypothesis =>
      exact StringBody.cons (escapedByte_writes byte) inductionHypothesis

/-! ### Blanks -/

theorem blank_of_all {text : List UInt8}
    (all : text.all (· ∈ [0x20, 0x09, 0x0A, 0x0D]) = true) : Blank text :=
  fun byte member => by simpa using List.all_eq_true.mp all byte member

theorem blank_append {first second : List UInt8} (left : Blank first) (right : Blank second) :
    Blank (first ++ second) :=
  List.forall_mem_append.mpr ⟨left, right⟩

theorem blank_tabs (depth : Nat) : Blank (tabs depth) := by
  intro byte member
  rw [List.eq_of_mem_replicate member]
  decide

theorem blank_whenFormatted (format : Bool) {bytes : List UInt8} (blank : Blank bytes) :
    Blank (whenFormatted format bytes) := by
  cases format with
  | true => exact blank
  | false => exact blank_nil

/-! ### Children -/

/-- The elements of an array are written, or there are none. -/
def ElementsWritten (limit : Nat) (text : List UInt8) (elements : List Json) : Prop :=
  elements = [] ∧ text = [] ∨ Elements 63 limit text elements

/-- The members of an object are written behind a blank, with any blank behind them, or there are
none. -/
def MembersWritten (limit : Nat) (text : List UInt8) (members : List (List UInt8 × Json)) : Prop :=
  members = [] ∧ text = [] ∨ ∃ lead body, text = lead ++ body ∧ Blank lead ∧
    ∀ trail, Blank trail → Members 63 limit (body ++ trail) members

section Children

variable {limit : Nat} {text rest : List UInt8} {elements : List Json}
  {members : List (List UInt8 × Json)}

theorem ElementsWritten.bracketed (written : ElementsWritten limit text elements) :
    Value 63 (limit + 1) (['['.toUInt8] ++ (text ++ [']'.toUInt8])) (.array elements) := by
  rcases written with ⟨rfl, rfl⟩ | writes
  · exact Value.emptyArray limit blank_nil
  · exact Value.array blank_nil writes

theorem MembersWritten.braced {first last : List UInt8}
    (written : MembersWritten limit text members) (before : Blank first) (after : Blank last) :
    Value 63 (limit + 1) ('\x7b'.toUInt8 :: first ++ (text ++ (last ++ ['\x7d'.toUInt8])))
      (.object members) := by
  rcases written with ⟨rfl, rfl⟩ | ⟨lead, body, rfl, isBlank, writes⟩
  · have value : Value 63 (limit + 1) _ _ :=
      Value.emptyObject limit (blank_append before after)
    rwa [List.append_assoc] at value
  · have value := Value.object (blank_append before isBlank) (writes last after)
    simpa only [List.append_assoc, List.cons_append] using value

/-- One more element in front. -/
theorem ElementsWritten.cons {json : Json} (format last : Bool)
    (writes : Value 63 limit text json) (written : ElementsWritten limit rest elements)
    (isLast : last = true ↔ elements = []) :
    ElementsWritten limit (text ++ (commaText format last ++ rest)) (json :: elements) := by
  have space : Blank [' '.toUInt8] := blank_of_all (by decide)
  refine Or.inr ?_
  rcases written with ⟨rfl, rfl⟩ | others
  · rw [isLast.mpr rfl]
    exact Elements.last writes blank_nil
  · have more : elements ≠ [] := by
      rintro rfl
      cases others
    rw [Bool.eq_false_iff.mpr (mt isLast.mp more)]
    have written := Elements.cons writes blank_nil
      (blank_whenFormatted format space) others
    rwa [List.append_nil] at written

/-- One more member in front, on a line of its own if the text is formatted. -/
theorem MembersWritten.cons {name key : List UInt8} {json : Json} (format last : Bool)
    (depth : Nat) (named : StringText key name) (writes : Value 63 limit text json)
    (written : MembersWritten limit rest members) (isLast : last = true ↔ members = []) :
    MembersWritten limit (whenFormatted format (tabs depth) ++ (key ++
      (':'.toUInt8 :: whenFormatted format ['\t'.toUInt8] ++ (text ++
        (separatorText format last ++ rest))))) ((name, json) :: members) := by
  have line : Blank (whenFormatted format ['\n'.toUInt8]) :=
    blank_whenFormatted format (blank_of_all (by decide))
  have member : Member 63 limit
      (key ++ [] ++ ':'.toUInt8 :: (whenFormatted format ['\t'.toUInt8] ++ text)) name json :=
    Member.intro named blank_nil (blank_whenFormatted format (blank_of_all (by decide))) writes
  refine Or.inr ⟨_, _, rfl, blank_whenFormatted format (blank_tabs depth), fun trail isTrail => ?_⟩
  rcases written with ⟨rfl, rfl⟩ | ⟨lead, body, rfl, isLead, others⟩
  · rw [isLast.mpr rfl]
    have written := Members.last member (blank_append line isTrail)
    simpa [separatorText] using written
  · have more : members ≠ [] := by
      have written := others [] blank_nil
      rintro rfl
      generalize body ++ [] = whole at written
      cases written
    rw [Bool.eq_false_iff.mpr (mt isLast.mp more)]
    have written := Members.cons member blank_nil (blank_append line isLead) (others trail isTrail)
    simpa [separatorText] using written

end Children

/-! ### Trees -/

theorem isNull_iff_elements (pointer : CJSON) :
    pointer.isNull = true ↔ elementDocuments pointer = [] := by
  cases pointer <;> simp [CJSON.isNull, elementDocuments]

theorem isNull_iff_members (pointer : CJSON) :
    pointer.isNull = true ↔ memberDocuments pointer = [] := by
  cases pointer <;> simp [CJSON.isNull, memberDocuments]

section Trees

variable (format : Bool)

/-- A node is written, if its children are. -/
theorem contentsText_writes {limit : Nat} (depth : Nat) (child : CJSON) (data : ItemData)
    (writable : match data.type with
      | .invalid => False
      | .raw => False
      | .array => 0 < limit ∧ child.Writable (limit - 1)
      | .object => 0 < limit ∧ child.Writable (limit - 1)
      | _ => True)
    (children : ∀ lower, child.Writable lower →
      (∃ text, elementsText format (depth + 1) child = some text ∧
        ElementsWritten lower text (elementDocuments child)) ∧
      ∃ text, membersText format (depth + 1) child = some text ∧
        MembersWritten lower text (memberDocuments child)) :
    ∃ text, contentsText (arrayText (elementsText format (depth + 1) child))
        (objectText format depth (membersText format (depth + 1) child)) data = some text ∧
      Value 63 limit text (contentsDocument (elementDocuments child) (memberDocuments child)
        data) := by
  unfold contentsText contentsDocument
  cases isType : data.type <;> simp only [isType] at writable ⊢
  case null => exact ⟨_, rfl, Value.null limit⟩
  case false => exact ⟨_, rfl, Value.false limit⟩
  case true => exact ⟨_, rfl, Value.true limit⟩
  case string => exact ⟨_, rfl, Value.string limit (stringText_writes data.valuestring)⟩
  case number =>
    refine ⟨_, rfl, ?_⟩
    unfold numberText
    cases written : numeralOf? data with
    | none => exact Value.null limit
    | some numeral =>
      exact Value.number limit numeral ((length_numeralOf?_le written).trans (by decide))
  case array =>
    obtain ⟨positive, below⟩ := writable
    obtain ⟨lower, rfl⟩ := Nat.exists_eq_succ_of_ne_zero (Nat.ne_of_gt positive)
    obtain ⟨⟨text, isText, written⟩, -⟩ := children lower below
    rw [arrayText, isText]
    exact ⟨_, rfl, written.bracketed⟩
  case object =>
    obtain ⟨positive, below⟩ := writable
    obtain ⟨lower, rfl⟩ := Nat.exists_eq_succ_of_ne_zero (Nat.ne_of_gt positive)
    obtain ⟨-, text, isText, written⟩ := children lower below
    rw [objectText, isText]
    exact ⟨_, rfl, written.braced (blank_whenFormatted format (blank_of_all (by decide)))
      (blank_whenFormatted format (blank_tabs depth))⟩

theorem children_write (children : CJSON) (depth limit : Nat) (writable : children.Writable limit) :
    (∃ text, elementsText format depth children = some text ∧
      ElementsWritten limit text (elementDocuments children)) ∧
    ∃ text, membersText format depth children = some text ∧
      MembersWritten limit text (memberDocuments children) := by
  induction children generalizing depth limit with
  | null => exact ⟨⟨[], rfl, Or.inl ⟨rfl, rfl⟩⟩, [], rfl, Or.inl ⟨rfl, rfl⟩⟩
  | node next child data nextHypothesis childHypothesis =>
    obtain ⟨here, there⟩ := writable
    obtain ⟨text, isText, writes⟩ := contentsText_writes format depth child data here
      (childHypothesis (depth + 1))
    obtain ⟨⟨elements, isElements, others⟩, members, isMembers, more⟩ :=
      nextHypothesis depth limit there
    constructor
    · rw [elementsText, isText, isElements]
      exact ⟨_, rfl, others.cons format next.isNull writes (isNull_iff_elements next)⟩
    · rw [membersText, isText, isMembers]
      exact ⟨_, rfl, more.cons format next.isNull depth (stringText_writes data.string) writes
        (isNull_iff_members next)⟩

/-- A tree of types that JSON knows is printed as JSON, in either format. -/
theorem valueText_writes {limit : Nat} (depth : Nat) (next child : CJSON) (data : ItemData)
    (writable : (CJSON.node next child data).Writable limit) :
    ∃ text, valueText format depth (.node next child data) = some text ∧
      Value 63 limit text (documentOf (.node next child data)) :=
  contentsText_writes format depth child data writable.1 fun lower below =>
    children_write format child (depth + 1) lower below

end Trees

end DiffServSimulation
