/-
This file takes the load sequence from the text of the configuration file to the
numbers in the configuration, with the vendored parser in its place.

On a JSON text the sequence depends on the document alone: on the first member
whose name reads as `QueueCount` and on the first one with the key of the array.
A document that describes a configuration in 32-bit integers is loaded exactly as
it is written, whatever blanks, escapes, exponents and further members it has. Any
configuration can be written down so, and loading the file gives it back.

On any other text the outcome is decided by the dialect of the parser: the
sequence goes on to the simulation for exactly the files that begin with an object
of the dialect with a queue count, and follows a null pointer on all others.
-/

import DiffServSimulation.CjsonAcceptsJson
import DiffServSimulation.JsonRender
import DiffServSimulation.LoadSequence

namespace DiffServSimulation

open Faulting JsonGrammar DecimalNumber

/-! ### Members of a document -/

/-- The value of the first member whose name, read as a C string, is the key. -/
def member? (json : Json) (key : CString) : Option Json :=
  match json with
  | .object members =>
    (members.find? fun member => CString.ofBuffer member.1 = key).map Prod.snd
  | _ => none

/-- The values below a document: the elements of an array or the values of the members. -/
def below : Json → List Json
  | .array elements => elements
  | .object members => members.map Prod.snd
  | _ => []

theorem itemOf_string (name : Option CString) (json : Json) : (itemOf name json).string = name := by
  unfold itemOf
  split <;> rfl

/-- What the simulator reads a value as. -/
def intValue : Json → Int32
  | .number numeral => valueintOf numeral
  | .bool true => 1
  | _ => 0

theorem itemOf_valueint (name : Option CString) (json : Json) :
    (itemOf name json).valueint = intValue json := by
  unfold itemOf
  split <;> rfl

theorem elementItems_valueint (elements : List Json) :
    (elementItems elements).map (fun item => item.valueint) = elements.map intValue := by
  rw [elementItems_eq_map, List.map_map]
  exact List.map_congr_left fun json _ => itemOf_valueint none json

theorem memberItems_valueint (members : List (List UInt8 × Json)) :
    (memberItems members).map (fun item => item.valueint) =
      (members.map Prod.snd).map intValue := by
  rw [memberItems_eq_map, List.map_map, List.map_map]
  exact List.map_congr_left fun member _ => itemOf_valueint _ member.2

/-- The items below the item of a document are read as the values below the document. -/
theorem child_valueint (name : Option CString) (json : Json) :
    (itemOf name json).child.chain.map (fun item => item.valueint) =
      (below json).map intValue := by
  cases json with
  | array elements =>
    show (CJSON.link (elementItems elements)).chain.map _ = _
    rw [CJSON.chain_link, elementItems_valueint]
    rfl
  | object members =>
    show (CJSON.link (memberItems members)).chain.map _ = _
    rw [CJSON.chain_link, memberItems_valueint]
    rfl
  | bool value => cases value <;> rfl
  | _ => rfl

theorem find?_elementItems (elements : List Json) (key : CString) :
    ((elementItems elements).find? fun item => item.string = some key) = none := by
  rw [elementItems_eq_map, List.find?_eq_none]
  intro item member
  obtain ⟨json, _, rfl⟩ := List.mem_map.mp member
  simp [itemOf_string]

theorem find?_memberItems (members : List (List UInt8 × Json)) (key : CString) :
    ((memberItems members).find? fun item => item.string = some key) =
      ((members.find? fun member => CString.ofBuffer member.1 = key).map Prod.snd).map
        (itemOf (some key)) := by
  induction members with
  | nil => rfl
  | cons member others inductionHypothesis =>
    obtain ⟨name, json⟩ := member
    rw [memberItems, List.find?_cons, List.find?_cons]
    by_cases same : CString.ofBuffer name = key
    · simp [itemOf_string, same]
    · simpa [itemOf_string, same] using inductionHypothesis

/-- Looking a member up in the tree is looking it up in the document. -/
theorem firstMember_itemOf (json : Json) (key : CString) :
    (CJSON.link [itemOf none json]).firstMember key =
      (member? json key).map (itemOf (some key)) := by
  cases json with
  | array elements =>
    rw [CJSON.firstMember]
    show ((CJSON.link (elementItems elements)).chain.find? _) = _
    rw [CJSON.chain_link, find?_elementItems]
    rfl
  | object members =>
    rw [CJSON.firstMember]
    show ((CJSON.link (memberItems members)).chain.find? _) = _
    rw [CJSON.chain_link, find?_memberItems]
    rfl
  | bool value => cases value <;> rfl
  | _ => rfl

/-- The values the entries of a mode are read from. -/
def entryValues (json : Json) (mode : Mode) : List Json :=
  match member? json mode.arrayKey with
  | none => []
  | some array => below array

theorem arrayItems_valueint (result : ParseResult) (json : Json) (mode : Mode)
    (root : result.root = CJSON.link [itemOf none json]) :
    (result.arrayItems mode).map (fun item => item.valueint) =
      (entryValues json mode).map intValue := by
  rw [ParseResult.arrayItems, root, firstMember_itemOf, entryValues]
  cases member? json mode.arrayKey with
  | none => rfl
  | some array => exact child_valueint _ array

theorem countItem?_itemOf (result : ParseResult) (json : Json)
    (root : result.root = CJSON.link [itemOf none json]) :
    result.countItem? = (member? json queueCountKey).map (itemOf (some queueCountKey)) := by
  rw [ParseResult.countItem?, root, firstMember_itemOf]

/-! ### The text of the file -/

theorem ofBuffer_bytes_of_terminatorFree (buffer : List UInt8) (free : 0 ∉ buffer) :
    (CString.ofBuffer buffer).bytes = buffer := by
  refine List.takeWhile_eq_self_iff.mpr fun byte member => decide_eq_true ?_
  rintro rfl
  exact free member

/-- The file is there at both openings and holds a JSON text, with or without a byte order mark. -/
structure HoldsJson (atCheck atRead : FileSystem) (mode : Mode) (json : Json) : Prop where
  found : (atCheck (configPath mode.configFile)).isSome
  writes : ∃ marked text, JsonText 63 cJSONNestingLimit text json ∧
    atRead (configPath mode.configFile) = some (utf8Bom marked ++ text)

theorem HoldsJson.opens {atCheck atRead : FileSystem} {mode : Mode} {json : Json}
    (holds : HoldsJson atCheck atRead mode json) :
    ∃ text result, FileParses cJSONParse atCheck atRead mode text result ∧
      result.root = CJSON.link [itemOf none json] := by
  obtain ⟨found, marked, text, writes, read⟩ := holds
  have free : 0 ∉ utf8Bom marked ++ text := by
    rw [List.mem_append, not_or]
    exact ⟨by cases marked <;> decide, writes.terminatorFree⟩
  have accepted := cJSONParseWithOpts_accepts (CString.ofBuffer (utf8Bom marked ++ text)) marked
    false writes (ofBuffer_bytes_of_terminatorFree _ free)
  obtain ⟨result, parsed, -⟩ := cJSONParse_ok (CString.ofBuffer (utf8Bom marked ++ text))
  refine ⟨_, result, ⟨found, read, parsed⟩, ?_⟩
  exact Except.ok.inj (parsed.symm.trans accepted)

/-! ### Loading a document -/

section Load

variable {atCheck atRead : FileSystem} {mode : Mode} {json : Json}
  (holds : HoldsJson atCheck atRead mode json) (globals : Globals)

include holds

/-- A document without a queue count makes the sequence follow a null pointer. -/
theorem loadSequence_run_of_json_countless (countless : member? json queueCountKey = none) :
    (loadSequence cJSONParse atCheck atRead mode.configFile).run globals =
      .error .nullDereference := by
  obtain ⟨text, result, opens, root⟩ := holds.opens
  refine loadSequence_run_of_countless opens globals ?_
  rw [countItem?_itemOf result json root, countless]
  rfl

/-- Any other document of fewer than `2 ^ 31` entries is loaded: the count and the entries are what
its values are read as. -/
theorem loadSequence_run_of_json {count : Json} (counted : member? json queueCountKey = some count)
    (small : (entryValues json mode).length < 2 ^ 31) :
    ∃ next, (loadSequence cJSONParse atCheck atRead mode.configFile).run globals =
        .ok (.simulate, next) ∧
      next.config mode = some ⟨intValue count,
        some ((entryValues json mode).map fun value => some (intValue value))⟩ ∧
      ∀ other, other ≠ mode → next.config other = globals.config other := by
  obtain ⟨text, result, opens, root⟩ := holds.opens
  have present : result.countItem? = some (itemOf (some queueCountKey) count) := by
    rw [countItem?_itemOf result json root, counted]
    rfl
  have values := arrayItems_valueint result json mode root
  have length : (result.arrayItems mode).length = (entryValues json mode).length := by
    have same := congrArg List.length values
    rwa [List.length_map, List.length_map] at same
  have whole : (result.arrayItems mode).length % 2 ^ 32 = (result.arrayItems mode).length :=
    Nat.mod_eq_of_lt (by omega)
  have fits : ¬ result.SizeOverflows mode := by
    rw [ParseResult.SizeOverflows, whole]
    omega
  have entries : ((result.arrayItems mode).map fun item => some item.valueint) =
      (entryValues json mode).map fun value => some (intValue value) := by
    have same := congrArg (List.map some) values
    rwa [List.map_map, List.map_map] at same
  have ran := loadSequence_run opens globals
  simp only [present, if_neg fits, whole, List.take_length] at ran
  refine ⟨_, ran, ?_, fun other different => ?_⟩
  · rw [populated_config, itemOf_valueint, entries]
  · rw [populated_config_of_ne _ _ _ _ _ different, Globals.config_print]

end Load

/-! ### Every text -/

/-- The text begins, as far as a C string goes, with a value of the parser's dialect, limits
included, that has a child whose name is read as the queue count's. -/
def HoldsCount (text : List UInt8) : Prop :=
  ∃ rest item, TakenText (CString.ofBuffer text).bytes rest item ∧
    ∃ child ∈ item.child.chain, child.string = some queueCountKey

/-- Only objects have named children. -/
theorem type_eq_object {item child : Item} (shaped : item.Shaped)
    (member : child ∈ item.child.chain) (named : child.string ≠ none) : item.type = .object := by
  have admits := shaped.1
  cases type : item.type with
  | object => rfl
  | array =>
    rw [type] at admits
    exact absurd (admits child member) named
  | _ =>
    rw [type] at admits
    have empty : item.child.chain = [] := admits
    rw [empty] at member
    cases member

theorem holdsCount_iff {text : List UInt8} {result : ParseResult}
    (parsed : cJSONParse (CString.ofBuffer text) = .ok result.root) :
    HoldsCount text ↔ ∃ countItem, result.countItem? = some countItem := by
  have finds : (∃ countItem, result.countItem? = some countItem) ↔
      ∃ child ∈ result.root.children, child.string = some queueCountKey := by
    rw [← Option.isSome_iff_exists, ParseResult.countItem?, CJSON.firstMember, List.find?_isSome]
    simp only [decide_eq_true_eq]
  rw [finds]
  constructor
  · rintro ⟨rest, item, taken, child, member, named⟩
    have notNumber : item.type ≠ .number := by
      rw [type_eq_object taken.bounded.shaped member (named ▸ Option.some_ne_none _)]
      decide
    have root : result.root = CJSON.link [item] :=
      Except.ok.inj (parsed.symm.trans
        ((cJSONParse_eq_iff _ item notNumber).mpr ⟨rest, taken⟩))
    exact ⟨child, root ▸ member, named⟩
  · rintro ⟨child, member, named⟩
    rcases cJSONParseWithOpts_outcome (CString.ofBuffer text) false with
      null | ⟨item, rest, accepted, taken, -⟩
    · have root : result.root = .null := Except.ok.inj (parsed.symm.trans null)
      rw [root] at member
      cases member
    · have root : result.root = CJSON.link [item] := Except.ok.inj (parsed.symm.trans accepted)
      rw [root] at member
      exact ⟨rest, item, taken, child, member, named⟩

section Every

variable (atCheck atRead : FileSystem) (mode : Mode) (text : List UInt8)
  (found : (atCheck (configPath mode.configFile)).isSome)
  (read : atRead (configPath mode.configFile) = some text) (short : text.length < 2 ^ 31)
  (globals : Globals)

include found read short

/-- The load sequence goes on to the simulation for exactly the texts that hold a queue count. -/
theorem loadSequence_simulates_iff :
    (∃ next, (loadSequence cJSONParse atCheck atRead mode.configFile).run globals =
      .ok (.simulate, next)) ↔ HoldsCount text := by
  obtain ⟨result, parsed, ran⟩ := loadSequence_run_of_short atCheck atRead mode text found read
    short globals
  rw [holdsCount_iff parsed, ran]
  cases result.countItem? with
  | none => simp
  | some countItem => simp

/-- It follows a null pointer on all others. -/
theorem loadSequence_faults_iff :
    (loadSequence cJSONParse atCheck atRead mode.configFile).run globals =
      .error .nullDereference ↔ ¬ HoldsCount text := by
  obtain ⟨result, parsed, ran⟩ := loadSequence_run_of_short atCheck atRead mode text found read
    short globals
  rw [holdsCount_iff parsed, ran]
  cases result.countItem? with
  | none => simp
  | some countItem => simp

/-- On every text the load sequence either goes on to the simulation, exactly if there is a queue
count, or follows a null pointer. -/
theorem loadSequence_every_text :
    ((∃ next, (loadSequence cJSONParse atCheck atRead mode.configFile).run globals =
        .ok (.simulate, next)) ↔ HoldsCount text) ∧
      ((loadSequence cJSONParse atCheck atRead mode.configFile).run globals =
        .error .nullDereference ↔ ¬ HoldsCount text) :=
  ⟨loadSequence_simulates_iff atCheck atRead mode text found read short globals,
    loadSequence_faults_iff atCheck atRead mode text found read short globals⟩

end Every

/-- A text with a queue count, which is no standard number, and one without. -/
theorem loadSequence_every_text_sides :
    (∃ next, (loadSequence cJSONParse (holding "\x7b\"QueueCount\":007\x7d")
        (holding "\x7b\"QueueCount\":007\x7d") Mode.drr.configFile).run {} =
          .ok (.simulate, next)) ∧
      (loadSequence cJSONParse (holding "[7]") (holding "[7]") Mode.drr.configFile).run {} =
        .error .nullDereference := by
  have counted := loadSequence_every_text (holding "\x7b\"QueueCount\":007\x7d")
    (holding "\x7b\"QueueCount\":007\x7d") .drr _ rfl rfl (by decide) {}
  have countless := loadSequence_every_text (holding "[7]") (holding "[7]") .drr _ rfl rfl
    (by decide) {}
  have accepts : cJSONParse (CString.literal "\x7b\"QueueCount\":007\x7d") =
      .ok (CJSON.link [{ type := .object
                         child := CJSON.link [numberItem (some queueCountKey) 7] }]) := by
    decide +kernel
  have refuses : cJSONParse (CString.literal "[7]") =
      .ok (CJSON.link [{ type := .array, child := CJSON.link [numberItem none 7] }]) := by
    decide +kernel
  refine ⟨counted.1.mpr ?_, countless.2.mpr fun holds => ?_⟩
  · obtain ⟨result, parsed, -⟩ := cJSONParse_ok (CString.literal "\x7b\"QueueCount\":007\x7d")
    have root := Except.ok.inj (parsed.symm.trans accepts)
    refine (holdsCount_iff parsed).mpr ⟨numberItem (some queueCountKey) 7, ?_⟩
    rw [ParseResult.countItem?, root]
    rfl
  · obtain ⟨result, parsed, -⟩ := cJSONParse_ok (CString.literal "[7]")
    have root := Except.ok.inj (parsed.symm.trans refuses)
    obtain ⟨countItem, found⟩ := (holdsCount_iff parsed).mp holds
    rw [ParseResult.countItem?, root] at found
    cases found

/-! ### Configurations -/

/-- A numeral denotes an integer of 32 bits, in whatever form it is written. -/
structure DenotesInt (numeral : Numeral) (value : ℤ) : Prop where
  exact : numeral.value = value
  low : -2 ^ 31 ≤ value
  high : value < 2 ^ 31

/-- A document describes a configuration in integers of 32 bits. -/
structure Describes (json : Json) (mode : Mode) (count : ℤ) (entries : List ℤ) : Prop where
  counted : ∃ numeral, member? json queueCountKey = some (.number numeral) ∧
    DenotesInt numeral count
  listed : ∃ numerals : List Numeral,
    member? json mode.arrayKey = some (.array (numerals.map .number)) ∧
      List.Forall₂ DenotesInt numerals entries

theorem valueintOf_eq_of_denotes {numeral : Numeral} {value : ℤ}
    (denotes : DenotesInt numeral value) : valueintOf numeral = Int32.ofInt value := by
  have low := denotes.low
  have high := denotes.high
  have small : |value| < 2 ^ 53 := abs_lt.mpr ⟨by omega, by omega⟩
  rw [valueintOf, denotes.exact, roundToDouble_intCast value small,
    saturate_intCast value low high]

theorem valueintOf_map_of_denotes {numerals : List Numeral} {values : List ℤ}
    (denote : List.Forall₂ DenotesInt numerals values) :
    numerals.map valueintOf = values.map Int32.ofInt := by
  induction denote with
  | nil => rfl
  | cons first _ inductionHypothesis =>
    rw [List.map_cons, List.map_cons, valueintOf_eq_of_denotes first, inductionHypothesis]

/-- The configuration of the mode is what the numerals of the document are read as. -/
theorem loadSequence_run_of_numerals {atCheck atRead : FileSystem} {mode : Mode} {json : Json}
    (holds : HoldsJson atCheck atRead mode json) {count : Numeral} {entries : List Numeral}
    (counted : member? json queueCountKey = some (.number count))
    (listed : member? json mode.arrayKey = some (.array (entries.map .number)))
    (few : entries.length < 2 ^ 31) (globals : Globals) :
    ∃ next, (loadSequence cJSONParse atCheck atRead mode.configFile).run globals =
        .ok (.simulate, next) ∧
      next.config mode = some ⟨valueintOf count, some ((entries.map valueintOf).map some)⟩ ∧
      ∀ other, other ≠ mode → next.config other = globals.config other := by
  have values : entryValues json mode = entries.map .number := by
    rw [entryValues, listed]
    rfl
  obtain ⟨next, ran, left, kept⟩ := loadSequence_run_of_json holds globals counted
    (by rw [values, List.length_map]; exact few)
  refine ⟨next, ran, ?_, kept⟩
  rw [left, values, List.map_map, List.map_map]
  rfl

/-- The configuration of the mode is the one the document describes, number for number. -/
theorem loadSequence_loads_described {atCheck atRead : FileSystem} {mode : Mode} {json : Json}
    (holds : HoldsJson atCheck atRead mode json) {count : ℤ} {entries : List ℤ}
    (describes : Describes json mode count entries) (few : entries.length < 2 ^ 31)
    (globals : Globals) :
    ∃ next, (loadSequence cJSONParse atCheck atRead mode.configFile).run globals =
        .ok (.simulate, next) ∧
      next.config mode = some ⟨Int32.ofInt count,
        some (entries.map fun entry => some (Int32.ofInt entry))⟩ ∧
      ∀ other, other ≠ mode → next.config other = globals.config other := by
  obtain ⟨countNumeral, counted, countDenotes⟩ := describes.counted
  obtain ⟨numerals, listed, entriesDenote⟩ := describes.listed
  obtain ⟨next, ran, left, kept⟩ := loadSequence_run_of_numerals holds counted listed
    (by rw [entriesDenote.length_eq]; exact few) globals
  refine ⟨next, ran, ?_, kept⟩
  rw [left, valueintOf_eq_of_denotes countDenotes, valueintOf_map_of_denotes entriesDenote,
    List.map_map]
  rfl

/-- The number two in tenths. -/
def twoNumeral : Numeral where
  negative := false
  whole := ascii "20"
  fraction := ascii "00"
  exponent := some ⟨true, some true, ascii "1", List.all_eq_true.mp (by decide), by decide⟩
  wholeDigits := List.all_eq_true.mp (by decide)
  nonempty := by decide
  fractionDigits := List.all_eq_true.mp (by decide)

theorem denotesInt_two : DenotesInt twoNumeral 2 where
  exact := by
    have tenths : (digitsValue 0 (twoNumeral.whole ++ twoNumeral.fraction) : ℚ) = 2000 :=
      congrArg Nat.cast (by decide : digitsValue 0 (twoNumeral.whole ++ twoNumeral.fraction) = 2000)
    have places : twoNumeral.exponentValue - twoNumeral.fraction.length = -3 := by decide
    rw [Numeral.value, Numeral.magnitude, tenths, places]
    norm_num [twoNumeral]
  low := by decide
  high := by decide

/-- A document in another order than the ones under `config/`, with a member more. -/
def laidOutJson : Json :=
  .object [(Mode.spq.arrayKey.bytes, .array [.number twoNumeral]), (ascii "note", .null),
    (queueCountKey.bytes, .number twoNumeral)]

theorem loadSequence_loads_described_two :
    ∃ next, (loadSequence cJSONParse (fun _ => some (render laidOutJson))
        (fun _ => some (render laidOutJson)) Mode.spq.configFile).run {} =
        .ok (.simulate, next) ∧
      next.config .spq = some ⟨Int32.ofInt 2,
        some ([2].map fun entry => some (Int32.ofInt entry))⟩ ∧
      ∀ other, other ≠ .spq → next.config other = Globals.config {} other := by
  have number (depth : Nat) : Within 63 depth (.number twoNumeral) := .number _ _ (by decide)
  have within : Within 63 cJSONNestingLimit laidOutJson :=
    .object (.cons (.array (.cons (number 998) (.nil 998))) (.cons (.null 999)
      (.cons (number 999) (.nil 999))))
  have describes : Describes laidOutJson .spq 2 [2] :=
    ⟨⟨twoNumeral, rfl, denotesInt_two⟩, [twoNumeral], rfl, .cons denotesInt_two .nil⟩
  exact loadSequence_loads_described ⟨rfl, false, _, jsonText_render within, rfl⟩ describes
    (by decide) {}

/-! ### Writing a configuration down -/

/-- The document of a configuration, laid out as the ones under `config/`. -/
def configJson (mode : Mode) (count : Int32) (entries : List Int32) : Json :=
  .object [(queueCountKey.bytes, .number (.ofInt count.toInt)),
    (mode.arrayKey.bytes, .array (entries.map fun entry => .number (.ofInt entry.toInt)))]

theorem denotesInt_ofInt (value : Int32) : DenotesInt (.ofInt value.toInt) value.toInt where
  exact := Numeral.value_ofInt value.toInt
  low := value.le_toInt
  high := value.toInt_lt

theorem within_ofInt (value : Int32) (depth : Nat) :
    Within 63 depth (.number (.ofInt value.toInt)) := by
  have low := value.le_toInt
  have high := value.toInt_lt
  have short := Numeral.length_text_ofInt_le value.toInt 10 (by decide) (by omega)
  exact Within.number depth _ (by omega)

theorem within_configJson (mode : Mode) (count : Int32) (entries : List Int32) :
    Within 63 cJSONNestingLimit (configJson mode count entries) := by
  have elements : AllWithin 63 998 (entries.map fun entry => .number (.ofInt entry.toInt)) := by
    induction entries with
    | nil => exact AllWithin.nil 998
    | cons entry entries inductionHypothesis =>
      exact AllWithin.cons (within_ofInt entry 998) inductionHypothesis
  exact Within.object (MembersWithin.cons (within_ofInt count 999)
    (MembersWithin.cons (Within.array elements) (MembersWithin.nil 999)))

/-- Loading a configuration that was written down gives it back. -/
theorem loadSequence_loads_config {atCheck atRead : FileSystem} {mode : Mode} {count : Int32}
    {entries : List Int32} (found : (atCheck (configPath mode.configFile)).isSome)
    (read : atRead (configPath mode.configFile) = some (render (configJson mode count entries)))
    (few : entries.length < 2 ^ 31) (globals : Globals) :
    ∃ next, (loadSequence cJSONParse atCheck atRead mode.configFile).run globals =
        .ok (.simulate, next) ∧
      next.config mode = some ⟨count, some (entries.map some)⟩ ∧
      ∀ other, other ≠ mode → next.config other = globals.config other := by
  have holds : HoldsJson atCheck atRead mode (configJson mode count entries) :=
    ⟨found, false, _, jsonText_render (within_configJson mode count entries), read⟩
  have counted : member? (configJson mode count entries) queueCountKey =
      some (.number (.ofInt count.toInt)) := by cases mode <;> rfl
  have listed : member? (configJson mode count entries) mode.arrayKey =
      some (.array ((entries.map fun entry => .ofInt entry.toInt).map .number)) := by
    rw [List.map_map]
    cases mode <;> rfl
  obtain ⟨next, ran, left, kept⟩ := loadSequence_run_of_numerals holds counted listed
    (by rwa [List.length_map]) globals
  refine ⟨next, ran, ?_, kept⟩
  have exact (value : Int32) : valueintOf (.ofInt value.toInt) = value :=
    (valueintOf_eq_of_denotes (denotesInt_ofInt value)).trans (Int32.ofInt_toInt value)
  rw [left, exact, List.map_map, List.map_map]
  congr 3
  exact List.map_congr_left fun entry _ => congrArg some (exact entry)

theorem loadSequence_loads_config_spq :
    ∃ next, (loadSequence cJSONParse (fun _ => some (render (configJson .spq 2 [1, 2])))
        (fun _ => some (render (configJson .spq 2 [1, 2]))) Mode.spq.configFile).run {} =
        .ok (.simulate, next) ∧
      next.config .spq = some ⟨2, some ([1, 2].map some)⟩ ∧
      ∀ other, other ≠ .spq → next.config other = Globals.config {} other :=
  loadSequence_loads_config rfl rfl (by decide) {}

end DiffServSimulation
