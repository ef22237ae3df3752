/-
This file models the read accessors of the vendored JSON library that the
simulator uses, loop by loop, and says once what each of them computes.

The accessors walk the child list from its head every time they are called. In
terms of that list, `cJSON_GetArraySize` is its length as an `int`,
`cJSON_GetArrayItem` leads to the entry at the index, and the case-sensitive
lookup leads to the first member with the name, as long as the list is not a
mixture of named and unnamed items. The lookup gives up at the first unnamed
item, so on a mixture it may miss a member; the parser builds no mixtures.
-/

import DiffServSimulation.CjsonItem

namespace DiffServSimulation

/-! ### The accessors -/

/-- The counting loop of `cJSON_GetArraySize`. -/
def countLoop : CJSON → Nat → Nat
  | .null, size => size
  | .node next _ _, size => countLoop next (size + 1)

/-- `cJSON_GetArraySize`. The count is a `size_t` that is cast to an `int`, so it wraps from
`2 ^ 31` children on. -/
def cJSONGetArraySize (array : CJSON) : Int32 :=
  match array with
  | .null => 0
  | .node _ child _ => Int32.ofNat (countLoop child 0)

/-- The indexing loop of `get_array_item`. -/
def indexLoop : CJSON → Nat → CJSON
  | .null, _ => .null
  | .node next child data, 0 => .node next child data
  | .node next _ _, index + 1 => indexLoop next index

def getArrayItem (array : CJSON) (index : Nat) : CJSON :=
  match array with
  | .null => .null
  | .node _ child _ => indexLoop child index

/-- `cJSON_GetArrayItem`. -/
def cJSONGetArrayItem (array : CJSON) (index : Int32) : CJSON :=
  if index < 0 then .null else getArrayItem array index.toNatClampNeg

/-- `tolower` in the C locale. -/
def toLower (byte : UInt8) : UInt8 :=
  if 65 ≤ byte ∧ byte ≤ 90 then byte + 32 else byte

/-- `case_insensitive_strcmp`. Null pointers compare unequal to everything. -/
def caseInsensitiveStrcmp : Option CString → Option CString → Int
  | some first, some second =>
    strcmpBytes (first.bytes.map toLower) (second.bytes.map toLower)
  | _, _ => 1

/-- The search loop of `get_object_item` with `case_sensitive` set. It stops at the first item
without a name. -/
def caseSensitiveLoop (name : CString) : CJSON → CJSON
  | .null => .null
  | .node next child data =>
    match data.string with
    | none => .node next child data
    | some string =>
      if strcmp name string ≠ 0 then caseSensitiveLoop name next else .node next child data

/-- The search loop of `get_object_item` with `case_sensitive` clear. -/
def caseInsensitiveLoop (name : CString) : CJSON → CJSON
  | .null => .null
  | .node next child data =>
    if caseInsensitiveStrcmp (some name) data.string ≠ 0 then caseInsensitiveLoop name next
    else .node next child data

def getObjectItem (object : CJSON) (name : Option CString) (caseSensitive : Bool) : CJSON :=
  match object, name with
  | .node _ child _, some name =>
    let currentElement :=
      if caseSensitive then caseSensitiveLoop name child else caseInsensitiveLoop name child
    match currentElement with
    | .null => .null
    | .node next child data =>
      match data.string with
      | none => .null
      | some _ => .node next child data
  | _, _ => .null

/-- `cJSON_GetObjectItem`. -/
def cJSONGetObjectItem (object : CJSON) (string : Option CString) : CJSON :=
  getObjectItem object string false

/-- `cJSON_GetObjectItemCaseSensitive`. -/
def cJSONGetObjectItemCaseSensitive (object : CJSON) (string : Option CString) : CJSON :=
  getObjectItem object string true

/-! ### Counting and indexing agree -/

theorem countLoop_eq (pointer : CJSON) (size : Nat) :
    countLoop pointer size = size + pointer.chain.length := by
  induction pointer generalizing size with
  | null => rfl
  | node next child data nextHypothesis _ =>
    rw [countLoop, nextHypothesis, CJSON.chain, List.length_cons]
    omega

theorem cJSONGetArraySize_eq (array : CJSON) :
    cJSONGetArraySize array = Int32.ofNat array.children.length := by
  cases array with
  | null => rfl
  | node next child data => rw [cJSONGetArraySize, countLoop_eq, Nat.zero_add, CJSON.children]

/-- A size that is not negative never exceeds the number of children, wrapped or not. This is
what keeps every index below it on the child list. -/
theorem cJSONGetArraySize_le (array : CJSON) :
    (cJSONGetArraySize array).toNatClampNeg ≤ array.children.length := by
  rw [cJSONGetArraySize_eq, ← Int32.toNat_toInt, Int32.toInt_ofNat']
  rw [Int.bmod_def, Int32.size]
  split <;> omega

theorem indexLoop_chain (pointer : CJSON) (index : Nat) :
    (indexLoop pointer index).chain = pointer.chain.drop index := by
  induction pointer generalizing index with
  | null => rw [indexLoop, CJSON.chain_null, List.drop_nil]
  | node next child data nextHypothesis _ =>
    cases index with
    | zero => rfl
    | succ index => rw [indexLoop, nextHypothesis, CJSON.chain, List.drop_succ_cons]

theorem getArrayItem_chain (array : CJSON) (index : Nat) :
    (getArrayItem array index).chain = array.children.drop index := by
  cases array with
  | null => rw [getArrayItem, CJSON.chain_null, CJSON.children, List.drop_nil]
  | node next child data => rw [getArrayItem, indexLoop_chain, CJSON.children]

/-- Indexing leads to the child at the index, and to null past the end. -/
theorem cJSONGetArrayItem_item? (array : CJSON) (index : Int32) (nonnegative : ¬ index < 0) :
    (cJSONGetArrayItem array index).item? = array.children[index.toNatClampNeg]? := by
  rw [cJSONGetArrayItem, if_neg nonnegative, CJSON.item?_eq_head?, getArrayItem_chain,
    List.head?_drop]

theorem not_ofNat_neg (index : Nat) (small : index < 2 ^ 31) : ¬ Int32.ofNat index < 0 := by
  rw [Int32.lt_iff_toInt_lt, Int32.toInt_ofNat_of_lt small, Int32.toInt_zero]
  omega

theorem cJSONGetArrayItem_ofNat (array : CJSON) (index : Nat) (small : index < 2 ^ 31) :
    (cJSONGetArrayItem array (Int32.ofNat index)).item? = array.children[index]? := by
  rw [cJSONGetArrayItem_item? array _ (not_ofNat_neg index small),
    Int32.toNatClampNeg_ofNat_of_lt small]

/-! ### Looking a member up -/

/-- On named items the search loop leads to the first item with the name. -/
theorem caseSensitiveLoop_item? (name : CString) (pointer : CJSON)
    (named : ∀ item ∈ pointer.chain, item.string ≠ none) :
    (caseSensitiveLoop name pointer).item? =
      pointer.chain.find? fun item => item.string = some name := by
  induction pointer with
  | null => rfl
  | node next child data nextHypothesis _ =>
    rw [CJSON.chain] at named ⊢
    have rest := nextHypothesis fun item member => named item (List.mem_cons_of_mem _ member)
    cases string : data.string with
    | none => exact absurd string (named { data with child := child } List.mem_cons_self)
    | some string' =>
      by_cases same : strcmp name string' = 0
      · have equal : string' = name := ((strcmp_eq_zero_iff _ _).mp same).symm
        rw [equal] at same string
        simp [caseSensitiveLoop, string, same, CJSON.item?]
      · have different : ¬ string' = name := fun equal =>
          same ((strcmp_eq_zero_iff _ _).mpr equal.symm)
        simp [caseSensitiveLoop, string, same, different, rest]

/-- What the search loop leads to on named items is named. -/
theorem getObjectItem_of_named (next child : CJSON) (data : ItemData) (name : CString)
    (named : ∀ item ∈ child.chain, item.string ≠ none) :
    (getObjectItem (.node next child data) (some name) true).item? =
      child.chain.find? fun item => item.string = some name := by
  have walked := caseSensitiveLoop_item? name child named
  rw [← walked]
  cases found : caseSensitiveLoop name child with
  | null => simp [getObjectItem, found]
  | node next' child' data' =>
    rw [found] at walked
    have member : ({ data' with child := child' } : Item) ∈ child.chain :=
      List.mem_of_find?_eq_some walked.symm
    cases string : data'.string with
    | none => exact absurd string (named _ member)
    | some _ => simp [getObjectItem, found, string]

/-- On unnamed items the search loop stops at once, and the lookup finds nothing. -/
theorem getObjectItem_of_unnamed (next child : CJSON) (data : ItemData) (name : CString)
    (unnamed : ∀ item ∈ child.chain, item.string = none) :
    getObjectItem (.node next child data) (some name) true = .null := by
  cases child with
  | null => rfl
  | node next' child' data' =>
    have string : data'.string = none := unnamed { data' with child := child' } List.mem_cons_self
    simp [getObjectItem, caseSensitiveLoop, string]

theorem find?_named_of_unnamed (items : List Item) (name : CString)
    (unnamed : ∀ item ∈ items, item.string = none) :
    (items.find? fun item => item.string = some name) = none := by
  rw [List.find?_eq_none]
  intro item member
  simp [unnamed item member]

/-- On the children of a parsed item the case-sensitive lookup leads to the first member with the
name, and to null when there is none. -/
theorem cJSONGetObjectItemCaseSensitive_item? (result : ParseResult) (name : CString) :
    (cJSONGetObjectItemCaseSensitive result.root (some name)).item? =
      result.root.firstMember name := by
  obtain ⟨root, wellFormed⟩ := result
  cases root with
  | null => rfl
  | node next child data =>
    rw [cJSONGetObjectItemCaseSensitive, CJSON.firstMember, CJSON.children]
    rcases wellFormed.1.uniform with named | unnamed
    · exact getObjectItem_of_named next child data name named
    · rw [getObjectItem_of_unnamed next child data name unnamed,
        find?_named_of_unnamed child.chain name unnamed]
      rfl

/-! ### Looking a member up without regard to case -/

theorem toLower_ne_zero {byte : UInt8} (nonzero : byte ≠ 0) : toLower byte ≠ 0 := by
  unfold toLower
  split_ifs with capital
  · intro zero
    have low := UInt8.le_iff_toNat_le.mp capital.1
    have high := UInt8.le_iff_toNat_le.mp capital.2
    have sum := congrArg UInt8.toNat zero
    rw [UInt8.toNat_add] at sum
    simp only [UInt8.reduceToNat] at low high sum
    omega
  · exact nonzero

/-- The bytes of a name with the capitals lowered. -/
def lowered (string : CString) : List UInt8 := string.bytes.map toLower

theorem lowered_noTerminator (string : CString) : ∀ byte ∈ lowered string, byte ≠ 0 := by
  intro byte member
  obtain ⟨original, isByte, rfl⟩ := List.mem_map.mp member
  exact toLower_ne_zero (string.noTerminator original isByte)

/-- A name compares equal to the names that differ from it in case only. -/
theorem caseInsensitiveStrcmp_eq_zero_iff (name : CString) (string : Option CString) :
    caseInsensitiveStrcmp (some name) string = 0 ↔ string.map lowered = some (lowered name) := by
  cases string with
  | none => simp [caseInsensitiveStrcmp]
  | some string =>
    rw [caseInsensitiveStrcmp, Option.map_some, Option.some.injEq]
    exact (strcmpBytes_eq_zero_iff _ _ (lowered_noTerminator name)
      (lowered_noTerminator string)).trans eq_comm

theorem caseInsensitiveLoop_item? (name : CString) (pointer : CJSON) :
    (caseInsensitiveLoop name pointer).item? =
      pointer.chain.find? fun item => item.string.map lowered = some (lowered name) := by
  induction pointer with
  | null => rfl
  | node next child data nextHypothesis _ =>
    rw [CJSON.chain, List.find?_cons, caseInsensitiveLoop]
    by_cases same : caseInsensitiveStrcmp (some name) data.string = 0
    · have named := (caseInsensitiveStrcmp_eq_zero_iff name data.string).mp same
      simp [same, named, CJSON.item?]
    · have apart := mt (caseInsensitiveStrcmp_eq_zero_iff name data.string).mpr same
      simp [same, apart, nextHypothesis]

/-- Without regard to case the lookup leads to the first member whose name differs in case only,
on any list of items. An unnamed item is passed over, where the case-sensitive lookup stops. -/
theorem cJSONGetObjectItem_item? (object : CJSON) (name : CString) :
    (cJSONGetObjectItem object (some name)).item? =
      object.children.find? fun item => item.string.map lowered = some (lowered name) := by
  cases object with
  | null => rfl
  | node next child data =>
    have walked := caseInsensitiveLoop_item? name child
    rw [CJSON.children, ← walked, cJSONGetObjectItem]
    cases found : caseInsensitiveLoop name child with
    | null => simp [getObjectItem, found]
    | node next' child' data' =>
      rw [found] at walked
      have named := List.find?_some walked.symm
      cases string : data'.string with
      | none => simp [string] at named
      | some _ => simp [getObjectItem, found, string]

end DiffServSimulation
