/-
This file proves what `populate_config_struct` does to the globals on every parse
outcome.

A branch has three endings and no others. It follows a null pointer when the
document has no `QueueCount`, it is stopped by `new` when the number of array
entries reads as a negative `int`, and otherwise it leaves one initialised entry
for each child that the size counts. The loop invariant is `fillGlobals`: after
`index` steps the first `index` entries hold the numbers of the first `index`
children and the rest of the block is still uninitialised.
-/

import DiffServSimulation.SimulatorStartup

namespace DiffServSimulation

open Faulting

/-! ### Single statements -/

theorem follow_run_of_some {pointer : CJSON} {item : Item} (leads : pointer.item? = some item)
    (globals : Globals) : (follow pointer).run globals = .ok (item, globals) := by
  rw [follow, CJSON.deref_of_some leads, run_lift_ok]

theorem follow_run_of_none {pointer : CJSON} (leads : pointer.item? = none)
    (globals : Globals) : (follow pointer).run globals = .error .nullDereference := by
  rw [follow, CJSON.deref_of_none leads, run_lift_error]

theorem followConfig_run (mode : Mode) (globals : Globals) (config : QueueConfig)
    (points : globals.config mode = some config) :
    (followConfig mode).run globals = .ok (config, globals) := by
  refine (run_bind_ok _ _ globals globals globals rfl).trans ?_
  rw [points]
  rfl

theorem setConfig_run (mode : Mode) (config : QueueConfig) (globals : Globals) :
    (setConfig mode config).run globals = .ok (⟨⟩, globals.setConfig mode config) := rfl

theorem printf_run (text : String) (globals : Globals) :
    (printf text).run globals = .ok (⟨⟩, globals.print [text]) := rfl

theorem store_of_lt (block : IntBlock) (index : Nat) (value : Int32)
    (inside : index < block.length) :
    block.store index value = .ok (block.set index (some value)) := by
  rw [IntBlock.store, if_pos inside]

theorem load_set (block : IntBlock) (index : Nat) (value : Int32)
    (inside : index < block.length) :
    IntBlock.load (block.set index (some value)) index = .ok value := by
  rw [IntBlock.load, List.getElem?_set_self inside]

theorem newIntArray_run_of_neg {length : Int32} (negative : length < 0) (globals : Globals) :
    (lift (newIntArray length) : Simulator IntBlock).run globals = .error .badArrayNewLength := by
  rw [newIntArray, if_pos negative, run_lift_error]

theorem newIntArray_run_of_nonneg {length : Int32} (nonnegative : ¬ length < 0)
    (globals : Globals) :
    (lift (newIntArray length) : Simulator IntBlock).run globals =
      .ok (List.replicate length.toNatClampNeg none, globals) := by
  rw [newIntArray, if_neg nonnegative, run_lift_ok]

/-! ### The fill loop -/

/-- The array after `index` steps of the fill loop. -/
def fillBlock (items : List Item) (size index : Nat) : IntBlock :=
  (items.take index).map (fun item => some item.valueint) ++ List.replicate (size - index) none

theorem fillBlock_zero (items : List Item) (size : Nat) :
    fillBlock items size 0 = List.replicate size none := by
  simp [fillBlock]

theorem fillBlock_full (items : List Item) (size : Nat) :
    fillBlock items size size = (items.take size).map fun item => some item.valueint := by
  simp [fillBlock]

theorem fillBlock_length (items : List Item) (size index : Nat) (inside : index ≤ items.length)
    (bound : index ≤ size) : (fillBlock items size index).length = size := by
  simp only [fillBlock, List.length_append, List.length_map, List.length_take,
    List.length_replicate]
  omega

/-- One step of the fill loop writes the first entry that is still uninitialised. -/
theorem fillBlock_set (items : List Item) (size index : Nat) (item : Item)
    (child : items[index]? = some item) (inside : index < size) :
    (fillBlock items size index).set index (some item.valueint) =
      fillBlock items size (index + 1) := by
  have bound : index < items.length := (List.getElem?_eq_some_iff.mp child).1
  have filled : ((items.take index).map fun item => some item.valueint).length = index := by
    rw [List.length_map, List.length_take, Nat.min_eq_left (Nat.le_of_lt bound)]
  have room : size - index = (size - (index + 1)) + 1 := by omega
  rw [fillBlock, List.set_append_right _ _ (Nat.le_of_eq filled), filled, Nat.sub_self, room,
    List.replicate_succ, List.set_cons_zero, fillBlock, List.take_add_one, child]
  simp

/-- The globals after `index` steps of the fill loop. -/
def fillGlobals (globals : Globals) (mode : Mode) (count : Int32) (items : List Item)
    (size index : Nat) : Globals :=
  (globals.setConfig mode ⟨count, some (fillBlock items size index)⟩).print
    ((items.take index).map fun item => mode.entryLine item.valueint)

theorem fillGlobals_config (globals : Globals) (mode : Mode) (count : Int32) (items : List Item)
    (size index : Nat) :
    (fillGlobals globals mode count items size index).config mode =
      some ⟨count, some (fillBlock items size index)⟩ := by
  simp [fillGlobals]

/-- One step of the fill loop neither follows a null pointer nor leaves the block. -/
theorem fillEntry_run (globals : Globals) (mode : Mode) (count : Int32) (queueArray : CJSON)
    (size index : Nat) (item : Item) (inside : index < size) (small : size ≤ 2 ^ 31)
    (child : queueArray.children[index]? = some item) :
    (fillEntry mode queueArray index).run
        (fillGlobals globals mode count queueArray.children size index) =
      .ok (⟨⟩, fillGlobals globals mode count queueArray.children size (index + 1)) := by
  have bound : index < queueArray.children.length := (List.getElem?_eq_some_iff.mp child).1
  have leads : (cJSONGetArrayItem queueArray (Int32.ofNat index)).item? = some item := by
    rw [cJSONGetArrayItem_ofNat queueArray index (by omega), child]
  have room : index < (fillBlock queueArray.children size index).length := by
    rw [fillBlock_length _ _ _ (Nat.le_of_lt bound) (Nat.le_of_lt inside)]
    exact inside
  rw [fillEntry]
  refine (run_bind_ok _ _ _ _ _ (follow_run_of_some leads _)).trans ?_
  refine (run_bind_ok _ _ _ _ _
    (followConfig_run mode _ _ (fillGlobals_config globals mode count _ size index))).trans ?_
  refine (run_bind_ok _ _ _ _ (fillBlock queueArray.children size index) rfl).trans ?_
  rw [store_of_lt _ _ _ room]
  refine (run_bind_ok _ _ _ _ _ (run_lift_ok _ _)).trans ?_
  refine (run_bind_ok _ _ _ _ _ (setConfig_run mode _ _)).trans ?_
  rw [load_set _ _ _ room]
  refine (run_bind_ok _ _ _ _ _ (run_lift_ok _ _)).trans ?_
  rw [printf_run, fillBlock_set _ _ _ item child inside]
  simp [fillGlobals, List.take_add_one, child]

/-- The whole fill loop. -/
theorem fill_run (globals : Globals) (mode : Mode) (count : Int32) (queueArray : CJSON)
    (size : Nat) (small : size ≤ 2 ^ 31) (enough : size ≤ queueArray.children.length) :
    (forUpTo size (fillEntry mode queueArray)).run
        (fillGlobals globals mode count queueArray.children size 0) =
      .ok (⟨⟩, fillGlobals globals mode count queueArray.children size size) := by
  refine run_eq_of_completes _ _ _ _ ?_
  obtain ⟨_, last, ran, final⟩ := completes_forUpTo size (fillEntry mode queueArray)
    (fun index current => current = fillGlobals globals mode count queueArray.children size index)
    _ rfl (by
      intro index current inside holds
      have bound : index < queueArray.children.length := Nat.lt_of_lt_of_le inside enough
      subst holds
      exact ⟨⟨⟩, _, fillEntry_run globals mode count queueArray size index _ inside small
        (List.getElem?_eq_getElem bound), rfl⟩)
  exact ⟨⟨⟩, last, ran, rfl, final⟩

/-! ### A whole branch -/

/-- The globals a completed branch leaves, given the count item and the children it took entries
from. -/
def populated (globals : Globals) (mode : Mode) (countItem : Item) (items : List Item) : Globals :=
  (globals.setConfig mode
      ⟨countItem.valueint, some (items.map fun item => some item.valueint)⟩).print
    (items.map (fun item => mode.entryLine item.valueint) ++ [countLine countItem.valueint])

/-- Without a queue count the branch follows a null pointer. -/
theorem populateBranch_run_of_absent (globals : Globals) (mode : Mode) (json : CJSON)
    (absent : (cJSONGetObjectItemCaseSensitive json (some queueCountKey)).item? = none) :
    (populateBranch mode json).run globals = .error .nullDereference := by
  rw [populateBranch]
  refine (run_bind_ok _ _ _ _ _ (setConfig_run mode _ _)).trans ?_
  exact run_bind_error _ _ _ _ (follow_run_of_none absent _)

section Present

variable (globals : Globals) (mode : Mode) (json : CJSON) (countItem : Item)
  (present : (cJSONGetObjectItemCaseSensitive json (some queueCountKey)).item? = some countItem)

include present

/-- With a queue count the branch stores it and goes on to the array. -/
theorem populateBranch_run_of_present :
    (populateBranch mode json).run globals =
      (do
        let queueArray := cJSONGetObjectItemCaseSensitive json (some mode.arrayKey)
        let block ← lift (newIntArray (cJSONGetArraySize queueArray))
        let config ← followConfig mode
        setConfig mode { config with entries := some block }
        forUpTo (cJSONGetArraySize queueArray).toNatClampNeg (fillEntry mode queueArray)
        let config ← followConfig mode
        printf (countLine config.queueCount)).run
        (globals.setConfig mode { queueCount := countItem.valueint }) := by
  rw [populateBranch]
  refine (run_bind_ok _ _ _ _ _ (setConfig_run mode _ _)).trans ?_
  refine (run_bind_ok _ _ _ _ _ (follow_run_of_some present _)).trans ?_
  refine (run_bind_ok _ _ _ _ _ (followConfig_run mode _ _ (Globals.config_setConfig _ _ _))).trans
    ?_
  refine (run_bind_ok _ _ _ _ _ (setConfig_run mode _ _)).trans ?_
  rw [Globals.setConfig_setConfig]

/-- A size that reads as a negative `int` stops the branch in `new`. -/
theorem populateBranch_run_of_negative
    (negative : cJSONGetArraySize (cJSONGetObjectItemCaseSensitive json (some mode.arrayKey)) < 0) :
    (populateBranch mode json).run globals = .error .badArrayNewLength :=
  (populateBranch_run_of_present globals mode json countItem present).trans
    (run_bind_error _ _ _ _ (newIntArray_run_of_neg negative _))

/-- Otherwise the branch completes, with one entry for each child that the size counts. -/
theorem populateBranch_run_of_nonnegative
    (nonnegative :
      ¬ cJSONGetArraySize (cJSONGetObjectItemCaseSensitive json (some mode.arrayKey)) < 0) :
    (populateBranch mode json).run globals =
      .ok (⟨⟩, populated globals mode countItem
        ((cJSONGetObjectItemCaseSensitive json (some mode.arrayKey)).children.take
          (cJSONGetArraySize
            (cJSONGetObjectItemCaseSensitive json (some mode.arrayKey))).toNatClampNeg)) := by
  have enough := cJSONGetArraySize_le (cJSONGetObjectItemCaseSensitive json (some mode.arrayKey))
  have small := Nat.le_of_lt (Int32.toNatClampNeg_lt
    (cJSONGetArraySize (cJSONGetObjectItemCaseSensitive json (some mode.arrayKey))))
  rw [populateBranch_run_of_present globals mode json countItem present]
  generalize cJSONGetObjectItemCaseSensitive json (some mode.arrayKey) = queueArray at *
  refine (run_bind_ok _ _ _ _ _ (newIntArray_run_of_nonneg nonnegative _)).trans ?_
  refine (run_bind_ok _ _ _ _ _ (followConfig_run mode _ _ (Globals.config_setConfig _ _ _))).trans
    ?_
  refine (run_bind_ok _ _ _ _ _ (setConfig_run mode _ _)).trans ?_
  have start : ∀ size, ((globals.setConfig mode { queueCount := countItem.valueint }).setConfig mode
        ⟨countItem.valueint, some (List.replicate size none)⟩) =
      fillGlobals globals mode countItem.valueint queueArray.children size 0 := by
    intro size
    simp [fillGlobals, fillBlock_zero]
  refine (run_bind_ok _ _ _ _ _ ((congrArg _ (start _)).trans
    (fill_run globals mode countItem.valueint queueArray _ small enough))).trans ?_
  refine (run_bind_ok _ _ _ _ _
    (followConfig_run mode _ _ (fillGlobals_config globals mode _ _ _ _))).trans ?_
  rw [printf_run, fillGlobals, populated, fillBlock_full, Globals.print_print]

end Present

/-! ### Every parse outcome -/

theorem populateConfigStruct_configFile (mode : Mode) (json : CJSON) :
    populateConfigStruct json mode.configFile = populateBranch mode json := by
  cases mode <;> rfl

namespace ParseResult

variable (result : ParseResult)

/-- The item `QueueCount` leads to. -/
def countItem? : Option Item := result.root.firstMember queueCountKey

/-- The children of the first member the array key of a mode names, none when it is absent. -/
def arrayItems (mode : Mode) : List Item :=
  match result.root.firstMember mode.arrayKey with
  | none => []
  | some array => array.child.chain

/-- They are what the lookup leads the loader to. -/
theorem arrayItems_eq (mode : Mode) :
    (cJSONGetObjectItemCaseSensitive result.root (some mode.arrayKey)).children =
      result.arrayItems mode := by
  rw [arrayItems, ← cJSONGetObjectItemCaseSensitive_item?]
  cases cJSONGetObjectItemCaseSensitive result.root (some mode.arrayKey) <;> rfl

theorem arrayItems_of_member (mode : Mode) (array : Item)
    (member : result.root.firstMember mode.arrayKey = some array) :
    result.arrayItems mode = array.child.chain := by
  rw [arrayItems, member]

/-- The number of array entries reads as a negative `int`. -/
def SizeOverflows (mode : Mode) : Prop := 2 ^ 31 ≤ (result.arrayItems mode).length % 2 ^ 32

instance (mode : Mode) : Decidable (result.SizeOverflows mode) :=
  inferInstanceAs (Decidable (_ ≤ _))

end ParseResult

theorem ofNat_neg_iff (count : Nat) : Int32.ofNat count < 0 ↔ 2 ^ 31 ≤ count % 2 ^ 32 := by
  rw [Int32.lt_iff_toInt_lt, Int32.toInt_ofNat', Int32.toInt_zero, Int.bmod_def, Int32.size]
  split <;> omega

theorem toNatClampNeg_ofNat_of_nonneg (count : Nat) (nonnegative : ¬ 2 ^ 31 ≤ count % 2 ^ 32) :
    (Int32.ofNat count).toNatClampNeg = count % 2 ^ 32 := by
  rw [← Int32.toNat_toInt, Int32.toInt_ofNat', Int.bmod_def, Int32.size]
  split <;> omega

section Run

variable (result : ParseResult) (mode : Mode) (globals : Globals)

/-- The three endings of `populate_config_struct`, each under its condition on the document. -/
theorem populateConfigStruct_run :
    (populateConfigStruct result.root mode.configFile).run globals =
      match result.countItem? with
      | none => .error .nullDereference
      | some countItem =>
        if result.SizeOverflows mode then .error .badArrayNewLength
        else .ok (⟨⟩, populated globals mode countItem
          ((result.arrayItems mode).take ((result.arrayItems mode).length % 2 ^ 32))) := by
  have lookup := cJSONGetObjectItemCaseSensitive_item? result queueCountKey
  rw [populateConfigStruct_configFile, ParseResult.countItem?]
  cases found : result.root.firstMember queueCountKey with
  | none =>
    rw [found] at lookup
    exact populateBranch_run_of_absent globals mode result.root lookup
  | some countItem =>
    rw [found] at lookup
    have size : cJSONGetArraySize
        (cJSONGetObjectItemCaseSensitive result.root (some mode.arrayKey)) =
        Int32.ofNat (result.arrayItems mode).length := by
      rw [cJSONGetArraySize_eq, result.arrayItems_eq]
    by_cases overflows : result.SizeOverflows mode
    · simp only [if_pos overflows]
      refine populateBranch_run_of_negative globals mode result.root countItem lookup ?_
      rw [size]
      exact (ofNat_neg_iff _).mpr overflows
    · simp only [if_neg overflows]
      have nonnegative : ¬ cJSONGetArraySize
          (cJSONGetObjectItemCaseSensitive result.root (some mode.arrayKey)) < 0 := by
        rw [size]
        exact fun negative => overflows ((ofNat_neg_iff _).mp negative)
      rw [populateBranch_run_of_nonnegative globals mode result.root countItem lookup nonnegative,
        size, result.arrayItems_eq, toNatClampNeg_ofNat_of_nonneg _ overflows]

end Run

end DiffServSimulation
