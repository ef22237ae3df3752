/-
This file proves what comes back when a printed tree is parsed again.

`reread` is the tree that comes back: the same nodes in the same order, with the
same names and strings, and each number replaced by the double its text denotes.
A finite number comes back as one the library takes for equal, and exactly when
it is an `int`. A tree of such numbers, as every configuration is one, comes back
as it was.
-/

import DiffServSimulation.CjsonPrintEntry
import DiffServSimulation.CjsonPrintJson

namespace DiffServSimulation

open JsonGrammar DecimalNumber

/-! ### What comes back -/

/-- A name of no characters. -/
def emptyString : CString := ⟨[], fun _ absent => absurd absent List.not_mem_nil⟩

/-- The node that comes back for a node, under a name if it is a member. -/
def ItemData.reread (data : ItemData) (name : Option CString) : ItemData :=
  match data.type with
  | .false => { type := .false, string := name }
  | .true => { type := .true, valueint := 1, string := name }
  | .number =>
    match numeralOf? data with
    | none => { type := .null, string := name }
    | some numeral =>
      { type := .number, valueint := valueintOf numeral, valuedouble := valuedoubleOf numeral,
        string := name }
  | .string =>
    { type := .string, valuestring := some (data.valuestring.getD emptyString), string := name }
  | .array => { type := .array, string := name }
  | .object => { type := .object, string := name }
  | _ => { type := .null, string := name }

/-- The name a member is printed under. -/
def memberName (data : ItemData) : CString := data.string.getD emptyString

/-- The chain that comes back for a chain of elements, or of members. -/
def CJSON.reread : Bool → CJSON → CJSON
  | _, .null => .null
  | named, .node next child data =>
    .node (next.reread named)
      (match data.type with
        | .array => child.reread false
        | .object => child.reread true
        | _ => .null)
      (data.reread (if named then some (memberName data) else none))

theorem ofBuffer_bytes (string : CString) : CString.ofBuffer string.bytes = string := by
  obtain ⟨bytes, free⟩ := string
  rw [CString.ofBuffer, CString.mk.injEq]
  exact List.takeWhile_eq_self_iff.mpr fun byte member => by simpa using free byte member

theorem ofBuffer_bytesOf (string : Option CString) :
    CString.ofBuffer (bytesOf string) = string.getD emptyString := by
  cases string with
  | none => rfl
  | some string => exact ofBuffer_bytes string

/-- The item of a node's document is the node that comes back. -/
theorem itemOf_contentsDocument (name : Option CString) (child : CJSON) (data : ItemData)
    (elements : CJSON.link (elementItems (elementDocuments child)) = child.reread false)
    (members : CJSON.link (memberItems (memberDocuments child)) = child.reread true) :
    itemOf name (contentsDocument (elementDocuments child) (memberDocuments child) data) =
      { data.reread name with
        child := match data.type with
          | .array => child.reread false
          | .object => child.reread true
          | _ => .null } := by
  unfold contentsDocument ItemData.reread
  cases isType : data.type with
  | number =>
    cases numeralOf? data with
    | none => rfl
    | some numeral => rfl
  | string =>
    show itemOf name (.string (bytesOf data.valuestring)) = _
    rw [itemOf, ofBuffer_bytesOf]
  | array =>
    show itemOf name (.array (elementDocuments child)) = _
    rw [itemOf, elements]
  | object =>
    show itemOf name (.object (memberDocuments child)) = _
    rw [itemOf, members]
  | _ => rfl

/-- The items of the documents of a chain are the chain that comes back. -/
theorem items_reread (chain : CJSON) :
    CJSON.link (elementItems (elementDocuments chain)) = chain.reread false ∧
      CJSON.link (memberItems (memberDocuments chain)) = chain.reread true := by
  induction chain with
  | null => exact ⟨rfl, rfl⟩
  | node next child data nextHypothesis childHypothesis =>
    obtain ⟨elements, members⟩ := childHypothesis
    constructor
    · rw [elementDocuments, elementItems, itemOf_contentsDocument none child data elements members,
        CJSON.link, nextHypothesis.1]
      rfl
    · rw [memberDocuments, memberItems, ofBuffer_bytesOf,
        itemOf_contentsDocument _ child data elements members, CJSON.link, nextHypothesis.2]
      rfl

/-- A tree is printed as a text that is parsed as what comes back for it. -/
theorem valueText_parses (next child : CJSON) (data : ItemData) (format : Bool)
    (writable : (CJSON.node next child data).Writable cJSONNestingLimit) :
    ∃ text : CString, valueText format 0 (.node next child data) = some text.bytes ∧
      ∀ requireNullTerminated,
        cJSONParseWithOpts text requireNullTerminated =
          .ok ((CJSON.node .null child data).reread false) := by
  obtain ⟨text, isText, writes⟩ := valueText_writes format 0 next child data writable
  have json : JsonText 63 cJSONNestingLimit text (documentOf (.node next child data)) :=
    ⟨[], text, [], blank_nil, blank_nil, writes, by simp⟩
  have free : ∀ byte ∈ text, byte ≠ 0 := fun byte member zero =>
    json.terminatorFree (zero ▸ member)
  refine ⟨⟨text, free⟩, isText, fun requireNullTerminated => ?_⟩
  rw [cJSONParseWithOpts_accepts ⟨text, free⟩ false requireNullTerminated json rfl]
  exact congrArg Except.ok (items_reread (.node .null child data)).1

/-- Whatever `cJSON_Print` or `cJSON_PrintUnformatted` hands out for a tree of types that JSON
knows is parsed again, as what comes back for the tree. -/
theorem print_roundTrip (next child : CJSON) (data : ItemData) (format : Bool) (hooks : Hooks)
    (writable : (CJSON.node next child data).Writable cJSONNestingLimit) {block : ByteBlock}
    {after : Hooks}
    (printed : print (.node next child data) format hooks = .ok (some block, after)) :
    ∃ text : CString, block = textBlock text.bytes ∧ ∀ requireNullTerminated,
      cJSONParseWithOpts text requireNullTerminated =
        .ok ((CJSON.node .null child data).reread false) := by
  obtain ⟨text, isText, parses⟩ := valueText_parses next child data format writable
  obtain ⟨result, left, ran, outcome⟩ := print_outcome (.node next child data) format hooks
  rw [printed, Except.ok.injEq, Prod.mk.injEq] at ran
  obtain ⟨rfl, -⟩ := ran
  obtain ⟨-, whole, isWhole, rfl, -⟩ := outcome
  obtain rfl := Option.some.inj (isText.symm.trans isWhole)
  exact ⟨text, rfl, parses⟩

/-! ### Numbers -/

/-- A finite double is equal to itself for `compare_double`. -/
theorem compareDouble_self (value : ℚ) (isDouble : IsDouble value) (inRange : |value| < 2 ^ 1024) :
    compareDouble (.finite value isDouble inRange) (.finite value isDouble inRange) = true := by
  have none : Double.ofRat (value - value) = Double.ofInt 0 := by
    rw [sub_self]
    rfl
  have bound : ∀ magnitude : ℚ, 0 ≤ magnitude →
      (Double.ofInt 0).fabs.le (Double.ofRat magnitude) = true := by
    intro magnitude nonneg
    rw [Double.ofInt_eq]
    unfold Double.ofRat
    split_ifs with fits
    · exact decide_eq_true (by simpa using roundToDouble_nonneg magnitude nonneg)
    · simp [Double.fabs, Double.le, nonneg]
  have nonneg : 0 ≤ |value| * ((1 : ℚ) / 2 ^ 52) := mul_nonneg (abs_nonneg value) (by norm_num)
  have self := bound _ nonneg
  rw [← none] at self
  unfold compareDouble
  simp only [ite_self]
  exact self

/-- The numeral of a finite number denotes a double that `compare_double` takes for the number, and
an `int` exactly. -/
theorem numeralOf?_reads (data : ItemData) (value : ℚ) (isDouble : IsDouble value)
    (inRange : |value| < 2 ^ 1024) (finite : data.valuedouble = .finite value isDouble inRange) :
    ∃ numeral, numeralOf? data = some numeral ∧
      compareDouble (Double.ofRat numeral.value) data.valuedouble = true ∧
      (data.valuedouble = Double.ofInt data.valueint →
        Double.ofRat numeral.value = data.valuedouble ∧ valueintOf numeral = data.valueint) := by
  unfold numeralOf?
  simp only [finite]
  by_cases integral : Double.finite value isDouble inRange = Double.ofInt data.valueint
  · rw [if_pos ((Double.eq_true_iff _ _).mpr ⟨by simp, integral⟩)]
    have same : Double.ofRat (Numeral.ofInt data.valueint.toInt).value =
        Double.finite value isDouble inRange := by
      rw [Numeral.value_ofInt, integral]
      rfl
    refine ⟨_, rfl, ?_, fun _ => ⟨same, ?_⟩⟩
    · rw [same]
      exact compareDouble_self value isDouble inRange
    · have rounded : roundToDouble (data.valueint.toInt : ℚ) = data.valueint.toInt :=
        isDouble_intCast _ (Double.abs_toInt_lt _)
      rw [valueintOf, Numeral.value_ofInt, rounded,
        saturate_intCast _ data.valueint.le_toInt data.valueint.toInt_lt, Int32.ofInt_toInt]
  · rw [if_neg fun equal => integral ((Double.eq_true_iff _ _).mp equal).2]
    refine ⟨_, rfl, ?_, fun equal => absurd equal integral⟩
    unfold doubleNumeral
    split_ifs with close
    · exact close
    · rw [longNumeral, ofRat_formatG value isDouble inRange]
      exact compareDouble_self value isDouble inRange

theorem compareDouble_infinity (negative : Bool) (value : ℚ) (isDouble : IsDouble value)
    (inRange : |value| < 2 ^ 1024) :
    compareDouble (.infinity negative) (.finite value isDouble inRange) = true := rfl

theorem abs_toInt_lt_overflowThreshold (value : Int32) :
    |(value.toInt : ℚ)| < overflowThreshold := by
  have small : |(value.toInt : ℚ)| < 2 ^ 53 := by exact_mod_cast Double.abs_toInt_lt value
  have place : (10 : ℚ) ^ (2 : ℤ) ≤ 10 ^ (294 : ℤ) :=
    zpow_le_zpow_right₀ (by norm_num) (by norm_num)
  unfold overflowThreshold
  generalize (10 : ℚ) ^ (294 : ℤ) = limit at place ⊢
  norm_num at small place ⊢
  linarith

/-- Near the end of the range a finite number comes back as an infinity: its fifteen digits denote
one, and `compare_double` takes that for the number. -/
theorem numeralOf?_infinite_iff (data : ItemData) (value : ℚ) (isDouble : IsDouble value)
    (inRange : |value| < 2 ^ 1024) (finite : data.valuedouble = .finite value isDouble inRange) :
    ∃ numeral, numeralOf? data = some numeral ∧
      ((∃ negative, Double.ofRat numeral.value = .infinity negative) ↔
        overflowThreshold ≤ |value|) := by
  have short := ofRat_formatG_infinite_iff value inRange
  unfold numeralOf?
  simp only [finite]
  split_ifs with integral
  · obtain ⟨-, isInt⟩ := (Double.eq_true_iff _ _).mp integral
    rw [Double.ofInt_eq, Double.finite.injEq] at isInt
    subst isInt
    refine ⟨_, rfl, iff_of_false ?_ (not_le.mpr (abs_toInt_lt_overflowThreshold _))⟩
    rw [Numeral.value_ofInt]
    rintro ⟨negative, infinite⟩
    have read := Double.ofInt_eq data.valueint
    rw [Double.ofInt, infinite] at read
    cases read
  · refine ⟨_, rfl, ?_⟩
    unfold doubleNumeral
    by_cases infinite : ∃ negative, Double.ofRat (shortNumeral value).value = .infinity negative
    · obtain ⟨negative, isInfinite⟩ := infinite
      rw [isInfinite, if_pos (compareDouble_infinity negative value isDouble inRange)]
      exact short
    · refine iff_of_false ?_ (mt short.mpr infinite)
      split_ifs
      · exact infinite
      · rw [longNumeral, ofRat_formatG value isDouble inRange]
        rintro ⟨negative, impossible⟩
        cases impossible

/-- A finite number never overruns `number_buffer`, and what stands there is read back as a double
that `compare_double` takes for the number. It is the number itself if that is an `int`, and an
infinity exactly from the threshold on. -/
theorem numberBuffer_reads (data : ItemData) (value : ℚ) (isDouble : IsDouble value)
    (inRange : |value| < 2 ^ 1024) (finite : data.valuedouble = .finite value isDouble inRange) :
    ∃ text read, numberBuffer data = .ok text ∧ text.length + 1 ≤ 26 ∧ sscanf text = some read ∧
      compareDouble read data.valuedouble = true ∧
      (data.valuedouble = Double.ofInt data.valueint → read = data.valuedouble) ∧
      ((∃ negative, read = .infinity negative) ↔ overflowThreshold ≤ |value|) := by
  obtain ⟨numeral, written, close, exact⟩ := numeralOf?_reads data value isDouble inRange finite
  obtain ⟨other, same, infinite⟩ := numeralOf?_infinite_iff data value isDouble inRange finite
  obtain rfl := Option.some.inj (written.symm.trans same)
  have isText : numberText data = numeral.text := by rw [numberText, written]
  have short := length_numberText_le data
  rw [isText] at short
  refine ⟨numeral.text, Double.ofRat numeral.value, isText ▸ numberBuffer_eq data, by omega,
    sscanf_text numeral, close, fun isInt => (exact isInt).1, infinite⟩

theorem numberBuffer_reads_seven :
    ∃ text read, numberBuffer { valueint := 7, valuedouble := Double.ofInt 7 } = .ok text ∧
      sscanf text = some read ∧ read = Double.ofInt 7 := by
  obtain ⟨text, read, written, -, reads, -, exact, -⟩ :=
    numberBuffer_reads { valueint := 7, valuedouble := Double.ofInt 7 } _ _ _ (Double.ofInt_eq 7)
  exact ⟨text, read, written, reads, exact rfl⟩

/-! ### Trees that come back as they were -/

/-- A node as the parser makes one: the fields that its type does not use have their defaults, and a
number is an `int`. -/
def ItemData.Plain (data : ItemData) : Prop :=
  match data.type with
  | .number => data.valuestring = none ∧ data.valuedouble = Double.ofInt data.valueint
  | .string => data.valuestring ≠ none ∧ data.valueint = 0 ∧ data.valuedouble = zeroDouble
  | .true => data.valuestring = none ∧ data.valueint = 1 ∧ data.valuedouble = zeroDouble
  | .invalid => False
  | .raw => False
  | _ => data.valuestring = none ∧ data.valueint = 0 ∧ data.valuedouble = zeroDouble

/-- A chain of such nodes, all with names or all without. -/
def CJSON.Plain : Bool → CJSON → Prop
  | _, .null => True
  | named, .node next child data =>
    data.Plain ∧ data.string.isSome = named ∧
      (match data.type with
        | .array => child.Plain false
        | .object => child.Plain true
        | _ => child = .null) ∧ next.Plain named

theorem ItemData.Plain.reread_eq {data : ItemData} (plain : data.Plain) :
    data.reread data.string = data := by
  obtain ⟨type, valuestring, valueint, valuedouble, string⟩ := data
  unfold ItemData.Plain at plain
  cases type <;> simp only at plain
  case number =>
    obtain ⟨rfl, integral⟩ := plain
    rw [Double.ofInt_eq] at integral
    obtain ⟨numeral, written, -, exact⟩ := numeralOf?_reads
      ⟨.number, none, valueint, valuedouble, string⟩ _ _ _ integral
    obtain ⟨same, same'⟩ := exact (integral.trans (Double.ofInt_eq valueint).symm)
    unfold ItemData.reread
    simp only [written, valuedoubleOf, same, same']
  case string =>
    obtain ⟨present, rfl, rfl⟩ := plain
    obtain ⟨string', rfl⟩ := Option.ne_none_iff_exists'.mp present
    rfl
  case false | true | null | array | object =>
    obtain ⟨rfl, rfl, rfl⟩ := plain
    rfl

/-- A tree of plain nodes comes back as it was. -/
theorem CJSON.Plain.reread_eq {named : Bool} {chain : CJSON} (plain : chain.Plain named) :
    chain.reread named = chain := by
  induction chain generalizing named with
  | null => rfl
  | node next child data nextHypothesis childHypothesis =>
    obtain ⟨here, names, below, rest⟩ := plain
    have name : (if named then some (memberName data) else none) = data.string := by
      cases isString : data.string with
      | none =>
        rw [isString] at names
        rw [← names]
        rfl
      | some string =>
        rw [isString] at names
        rw [← names, memberName, isString]
        rfl
    rw [CJSON.reread, name, here.reread_eq, nextHypothesis rest]
    congr 1
    cases isType : data.type <;> simp only [isType] at below ⊢
    case array | object => exact childHypothesis below
    case invalid | false | true | null | number | string | raw => exact below.symm

/-- What `cJSON_Print` and `cJSON_PrintUnformatted` hand out for a tree of plain nodes is parsed as
that tree, whatever the allocator does. Null is handed out or parsed only if a request was refused,
or if the text is too long. -/
theorem cJSONPrint_parses (child : CJSON) (data : ItemData) (hooks : Hooks)
    (plain : (CJSON.node .null child data).Plain false)
    (writable : (CJSON.node .null child data).Writable cJSONNestingLimit)
    (format requireNullTerminated : Bool) :
    ∃ printed after, print (.node .null child data) format hooks = .ok (printed, after) ∧
      (printed = none → RefusesToPrint hooks after (valueText format 0 (.node .null child data))) ∧
      ∀ block, printed = some block → ∃ text : CString, block = textBlock text.bytes ∧
        ∀ parseHooks : Hooks, ∃ root last,
          cJSONParseWithHooks text requireNullTerminated parseHooks = .ok (root, last) ∧
            (parseHooks.Granted last ∧ root = CJSON.node .null child data ∨
              parseHooks.Refused last ∧ root = .null) := by
  obtain ⟨printed, after, ran, outcome⟩ := print_outcome (.node .null child data) format hooks
  refine ⟨printed, after, ran, fun isNull => ?_, fun block handed => ?_⟩
  · rwa [isNull] at outcome
  · obtain ⟨text, isText, parses⟩ := print_roundTrip .null child data format hooks writable
      (handed ▸ ran)
    rw [plain.reread_eq] at parses
    exact ⟨text, isText, fun parseHooks =>
      cJSONParseWithHooks_outcome text requireNullTerminated parseHooks
        (parses requireNullTerminated)⟩

/-- The member of `{"score": 7}`. -/
def scoreMember : CJSON :=
  .node .null .null { type := .number, valueint := 7, valuedouble := Double.ofInt 7,
                      string := some (CString.literal "score") }

theorem cJSONPrint_parses_score :
    ∃ printed after, print (.node .null scoreMember { type := .object }) true .granting =
        .ok (printed, after) ∧
      (printed = none → RefusesToPrint .granting after
        (valueText true 0 (.node .null scoreMember { type := .object }))) ∧
      ∀ block, printed = some block → ∃ text : CString, block = textBlock text.bytes ∧
        ∀ parseHooks : Hooks, ∃ root last,
          cJSONParseWithHooks text true parseHooks = .ok (root, last) ∧
            (parseHooks.Granted last ∧ root = .node .null scoreMember { type := .object } ∨
              parseHooks.Refused last ∧ root = .null) :=
  cJSONPrint_parses scoreMember { type := .object } .granting
    (by simp [CJSON.Plain, ItemData.Plain, scoreMember, CString.literal])
    (by simp [CJSON.Writable, cJSONNestingLimit, scoreMember]) true true

end DiffServSimulation
