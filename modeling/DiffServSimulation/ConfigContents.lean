/-
This file says what a configuration holds once `populate_config_struct` has
filled it.

The entries are a faithful copy: one for each child of the array, in order, read
from the first member with the key, and the configuration of the other mode is
left alone. The count is not tied to them. It is copied from `QueueCount`, so it
is the number of entries for exactly those documents that declare that number,
and the copy and the declared count meet only in the document.
-/

import DiffServSimulation.PopulateConfig
import DiffServSimulation.CjsonParseSound

namespace DiffServSimulation

open Faulting

/-! ### Documents with a count and an array -/

/-- A number as the parser leaves it. -/
def numberItem (name : Option CString) (value : Int32) : Item where
  type := .number
  valueint := value
  valuedouble := DecimalNumber.Double.ofInt value
  string := name

/-- The array of a configuration as the parser leaves it. -/
def arrayItem (name : CString) (entries : List Int32) : Item where
  type := .array
  string := some name
  child := CJSON.link (entries.map (numberItem none))

/-- The root of a configuration file that declares a count and lists some entries. -/
def configRoot (mode : Mode) (count : Int32) (entries : List Int32) : Item where
  type := .object
  child := CJSON.link [numberItem (some queueCountKey) count, arrayItem mode.arrayKey entries]

theorem arrayItem_shaped (name : CString) (entries : List Int32) :
    (arrayItem name entries).Shaped := by
  refine ⟨?_, CJSON.wellFormed_link _ fun item member => ?_⟩
  · show ∀ item ∈ (CJSON.link (entries.map (numberItem none))).chain, item.string = none
    rw [CJSON.chain_link]
    intro item member
    obtain ⟨value, _, rfl⟩ := List.mem_map.mp member
    rfl
  · obtain ⟨value, _, rfl⟩ := List.mem_map.mp member
    exact Item.shaped_of_child_null _ rfl

theorem configRoot_shaped (mode : Mode) (count : Int32) (entries : List Int32) :
    (configRoot mode count entries).Shaped := by
  refine ⟨?_, CJSON.wellFormed_link _ fun item member => ?_⟩
  · show ∀ item ∈ (CJSON.link [_, _]).chain, item.string ≠ none
    rw [CJSON.chain_link]
    intro item member
    rcases List.mem_pair.mp member with rfl | rfl <;> exact Option.some_ne_none _
  · rcases List.mem_pair.mp member with rfl | rfl
    · exact Item.shaped_of_child_null _ rfl
    · exact arrayItem_shaped _ _

/-- The parse outcome of such a file. -/
def configResult (mode : Mode) (count : Int32) (entries : List Int32) : ParseResult where
  root := CJSON.link [configRoot mode count entries]
  wellFormed := by
    refine CJSON.wellFormed_link _ fun item member => ?_
    rw [List.mem_singleton.mp member]
    exact configRoot_shaped mode count entries

/-! ### What a completed branch leaves -/

theorem populated_config (globals : Globals) (mode : Mode) (countItem : Item)
    (items : List Item) :
    (populated globals mode countItem items).config mode =
      some ⟨countItem.valueint, some (items.map fun item => some item.valueint)⟩ := by
  rw [populated, Globals.config_print, Globals.config_setConfig]

theorem populated_config_of_ne (globals : Globals) (mode other : Mode) (countItem : Item)
    (items : List Item) (different : other ≠ mode) :
    (populated globals mode countItem items).config other = globals.config other := by
  rw [populated, Globals.config_print, Globals.config_setConfig_of_ne _ _ _ _ different]

/-- The count of a configuration is not negative and is the number of its entries, and every entry
was initialised from the child of the array at its index. -/
structure QueueConfig.SelfConsistent (config : QueueConfig) (items : List Item) : Prop where
  nonnegative : 0 ≤ config.queueCount.toInt
  counts : ∃ block, config.entries = some block ∧ (block.length : Int) = config.queueCount.toInt ∧
    ∀ index < block.length, ∃ item, items[index]? = some item ∧
      block[index]? = some (some item.valueint)

/-- A copy of the first `size` children is self-consistent when the count is `size`, and only
then. -/
theorem selfConsistent_take_iff (count : Int32) (items : List Item) (size : Nat)
    (enough : size ≤ items.length) :
    QueueConfig.SelfConsistent
        ⟨count, some ((items.take size).map fun item => some item.valueint)⟩ items ↔
      count.toInt = size := by
  have copied : ((items.take size).map fun item => some item.valueint).length = size := by
    rw [List.length_map, List.length_take, Nat.min_eq_left enough]
  constructor
  · rintro ⟨_, block, same, counted, _⟩
    cases same
    rw [copied] at counted
    exact counted.symm
  · intro counted
    refine ⟨?_, _, rfl, ?_, ?_⟩
    · show 0 ≤ count.toInt
      rw [counted]
      exact Int.natCast_nonneg size
    · show _ = count.toInt
      rw [copied, counted]
    · intro index inside
      rw [copied] at inside
      have bound : index < items.length := Nat.lt_of_lt_of_le inside enough
      refine ⟨items[index], List.getElem?_eq_getElem bound, ?_⟩
      rw [List.getElem?_map, List.getElem?_take_of_lt inside, List.getElem?_eq_getElem bound]
      rfl

/-! ### Self-consistency -/

/-- Whenever `populate_config_struct` completes, it leaves a self-consistent configuration. -/
def LeavesSelfConsistent (result : ParseResult) (mode : Mode) : Prop :=
  ∀ globals next, (populateConfigStruct result.root mode.configFile).run globals = .ok (⟨⟩, next) →
    ∃ config, next.config mode = some config ∧ config.SelfConsistent (result.arrayItems mode)

/-- It does so for exactly the documents whose count is the number of their array entries, as far
as it completes at all. -/
theorem leavesSelfConsistent_iff (result : ParseResult) (mode : Mode) :
    LeavesSelfConsistent result mode ↔
      ∀ countItem, result.countItem? = some countItem → result.SizeOverflows mode ∨
        countItem.valueint.toInt = ((result.arrayItems mode).length % 2 ^ 32 : Nat) := by
  have enough := Nat.mod_le (result.arrayItems mode).length (2 ^ 32)
  constructor
  · intro consistent countItem counted
    by_cases overflows : result.SizeOverflows mode
    · exact Or.inl overflows
    · right
      have ran := populateConfigStruct_run result mode {}
      simp only [counted, if_neg overflows] at ran
      obtain ⟨config, left, holds⟩ := consistent {} _ ran
      rw [populated_config] at left
      cases left
      exact (selfConsistent_take_iff _ _ _ enough).mp holds
  · intro declared globals next ran
    rw [populateConfigStruct_run] at ran
    cases counted : result.countItem? with
    | none =>
      rw [counted] at ran
      cases ran
    | some countItem =>
      by_cases overflows : result.SizeOverflows mode
      · simp only [counted, if_pos overflows] at ran
        cases ran
      · simp only [counted, if_neg overflows] at ran
        cases ran
        refine ⟨_, populated_config _ _ _ _, (selfConsistent_take_iff _ _ _ enough).mpr ?_⟩
        exact (declared countItem counted).resolve_left overflows

/-- A file that declares three queues and lists two priorities. -/
def overcountedText : CString :=
  CString.literal "\x7b\"QueueCount\" : 3, \"QueuePriority\" : [1, 2]\x7d"

set_option maxRecDepth 4000 in
/-- Loading it records three queues over an array of two. -/
theorem populateConfigStruct_overcounts :
    cJSONParse overcountedText = .ok (configResult .spq 3 [1, 2]).root ∧
      ¬ LeavesSelfConsistent (configResult .spq 3 [1, 2]) .spq := by
  refine ⟨by decide +kernel, fun consistent => ?_⟩
  have ran : (populateConfigStruct (configResult .spq 3 [1, 2]).root "SPQ").run {} =
      .ok (⟨⟩, populated {} .spq (numberItem (some queueCountKey) 3)
        [numberItem none 1, numberItem none 2]) := by decide +kernel
  obtain ⟨config, left, holds⟩ := consistent _ _ ran
  rw [populated_config] at left
  cases left
  obtain ⟨block, same, counted, _⟩ := holds.counts
  cases same
  revert counted
  decide

/-! ### Faithful transcription -/

/-- With both members present and fewer than `2 ^ 31` array entries, `populate_config_struct`
completes and copies the children of the array in order, whatever else the document holds. -/
theorem populateConfigStruct_transcribes (result : ParseResult) (mode : Mode)
    (countItem array : Item) (counted : result.root.firstMember queueCountKey = some countItem)
    (listed : result.root.firstMember mode.arrayKey = some array)
    (small : array.child.chain.length < 2 ^ 31) (globals : Globals) :
    (∃ next, (populateConfigStruct result.root mode.configFile).run globals = .ok (⟨⟩, next) ∧
      next.config mode = some ⟨countItem.valueint,
        some (array.child.chain.map fun item => some item.valueint)⟩ ∧
      ∀ other, other ≠ mode → next.config other = globals.config other) ∧
    (∀ index < array.child.chain.length, ∃ item, array.child.chain[index]? = some item ∧
      (cJSONGetArrayItem (cJSONGetObjectItemCaseSensitive result.root (some mode.arrayKey))
        (Int32.ofNat index)).item? = some item) ∧
    (∀ other : ParseResult, other.root.firstMember queueCountKey = some countItem →
      other.root.firstMember mode.arrayKey = some array →
      (populateConfigStruct other.root mode.configFile).run globals =
        (populateConfigStruct result.root mode.configFile).run globals) := by
  have completes : ∀ other : ParseResult,
      other.root.firstMember queueCountKey = some countItem →
      other.root.firstMember mode.arrayKey = some array →
      (populateConfigStruct other.root mode.configFile).run globals =
        .ok (⟨⟩, populated globals mode countItem array.child.chain) := by
    intro other otherCounted otherListed
    have items := other.arrayItems_of_member mode array otherListed
    have whole : array.child.chain.length % 2 ^ 32 = array.child.chain.length :=
      Nat.mod_eq_of_lt (by omega)
    have fits : ¬ other.SizeOverflows mode := by
      rw [ParseResult.SizeOverflows, items, whole]
      omega
    rw [populateConfigStruct_run, ParseResult.countItem?, otherCounted]
    simp only [if_neg fits, items, whole, List.take_length]
  refine ⟨⟨_, completes result counted listed, populated_config _ _ _ _, ?_⟩, ?_, ?_⟩
  · intro other different
    exact populated_config_of_ne _ _ _ _ _ different
  · intro index inside
    refine ⟨_, List.getElem?_eq_getElem inside, ?_⟩
    rw [cJSONGetArrayItem_ofNat _ _ (by omega), result.arrayItems_eq,
      result.arrayItems_of_member mode array listed, List.getElem?_eq_getElem inside]
  · intro other otherCounted otherListed
    rw [completes other otherCounted otherListed, completes result counted listed]

/-- The transcription of the file that ships for deficit round robin. -/
theorem populateConfigStruct_transcribes_drr :
    ∃ next, (populateConfigStruct (configResult .drr 3 [100, 200, 300]).root "DRR").run {} =
        .ok (⟨⟩, next) ∧
      next.config .drr = some ⟨3, some [some 100, some 200, some 300]⟩ ∧
      ∀ other, other ≠ .drr → next.config other = none := by
  obtain ⟨next, ran, left, kept⟩ := (populateConfigStruct_transcribes
    (configResult .drr 3 [100, 200, 300]) .drr (numberItem (some queueCountKey) 3)
    (arrayItem Mode.drr.arrayKey [100, 200, 300]) rfl rfl (by decide) {}).1
  refine ⟨next, ran, left, fun other different => (kept other different).trans ?_⟩
  cases other <;> rfl

end DiffServSimulation
