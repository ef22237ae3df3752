/-
This file models `simulator-startup.cc` up to the point where the network is
built: the two configuration globals, `populate_config_struct`, `read_config`,
and the part of `main` that calls them.

`spq_config` and `drr_config` have the same layout, a count and a pointer to an
array of `int`, and the two branches of `populate_config_struct` are the same
statements over different names. Both are therefore one definition here, applied
to the key, the label and the global of each branch. `cJSON_Parse` and the two
openings of the configuration file are arguments, so that what is proved holds
for every text and every parse outcome.
-/

import DiffServSimulation.Faulting
import DiffServSimulation.CjsonLookup

namespace DiffServSimulation

open Faulting

/-! ### The globals -/

/-- A block handed out by `new int[n]`. An entry is `none` until it is written. -/
abbrev IntBlock := List (Option Int32)

/-- `new int[length]`, which throws on a negative length. -/
def newIntArray (length : Int32) : Except Fault IntBlock :=
  if length < 0 then .error .badArrayNewLength
  else .ok (List.replicate length.toNatClampNeg none)

/-- `block[index] = value`. -/
def IntBlock.store (block : IntBlock) (index : Nat) (value : Int32) : Except Fault IntBlock :=
  if index < block.length then .ok (block.set index (some value)) else .error .outOfBounds

/-- The value of `block[index]`. -/
def IntBlock.load (block : IntBlock) (index : Nat) : Except Fault Int32 :=
  match block[index]? with
  | none => .error .outOfBounds
  | some none => .error .uninitialisedRead
  | some (some value) => .ok value

/-- `struct spq_config` and `struct drr_config`: `entries` is `queue_priority` in the one and
`queue_quantum` in the other. The defaults are those of `new spq_config ()`. -/
structure QueueConfig where
  queueCount : Int32 := 0
  entries : Option IntBlock := none
deriving DecidableEq

/-- The two configurations the simulator knows. -/
inductive Mode where
  | spq
  | drr
deriving DecidableEq

namespace Mode

/-- The value of `config_file` that selects the configuration. -/
def configFile : Mode → String
  | spq => "SPQ"
  | drr => "DRR"

/-- The key of the array the configuration is filled from. -/
def arrayKey : Mode → CString
  | spq => CString.literal "QueuePriority"
  | drr => CString.literal "QueueQuantum"

/-- What is printed for each entry. -/
def entryLine (mode : Mode) (value : Int32) : String :=
  match mode with
  | spq => "Queue Priority : " ++ toString value ++ "\n"
  | drr => "Queue Quantum : " ++ toString value ++ "\n"

end Mode

/-- The globals `config_spq` and `config_drr`, and what has been printed so far. -/
structure Globals where
  configSpq : Option QueueConfig := none
  configDrr : Option QueueConfig := none
  stdout : List String := []
  stderr : List String := []
deriving DecidableEq

namespace Globals

/-- The configuration global of a mode. -/
def config (globals : Globals) : Mode → Option QueueConfig
  | .spq => globals.configSpq
  | .drr => globals.configDrr

/-- Point the configuration global of a mode at a configuration. -/
def setConfig (globals : Globals) (mode : Mode) (config : QueueConfig) : Globals :=
  match mode with
  | .spq => { globals with configSpq := some config }
  | .drr => { globals with configDrr := some config }

/-- Print some texts to standard output. -/
def print (globals : Globals) (texts : List String) : Globals :=
  { globals with stdout := globals.stdout ++ texts }

@[simp] theorem config_setConfig (globals : Globals) (mode : Mode) (config : QueueConfig) :
    (globals.setConfig mode config).config mode = some config := by
  cases mode <;> rfl

theorem config_setConfig_of_ne (globals : Globals) (mode other : Mode) (config : QueueConfig)
    (different : other ≠ mode) :
    (globals.setConfig mode config).config other = globals.config other := by
  cases mode <;> cases other <;> first | rfl | exact absurd rfl different

@[simp] theorem setConfig_setConfig (globals : Globals) (mode : Mode)
    (first second : QueueConfig) :
    (globals.setConfig mode first).setConfig mode second = globals.setConfig mode second := by
  cases mode <;> rfl

@[simp] theorem config_print (globals : Globals) (texts : List String) (mode : Mode) :
    (globals.print texts).config mode = globals.config mode := by
  cases mode <;> rfl

@[simp] theorem setConfig_print (globals : Globals) (texts : List String) (mode : Mode)
    (config : QueueConfig) :
    (globals.print texts).setConfig mode config = (globals.setConfig mode config).print texts := by
  cases mode <;> rfl

@[simp] theorem print_nil (globals : Globals) : globals.print [] = globals := by
  simp only [print, List.append_nil]

@[simp] theorem print_print (globals : Globals) (first second : List String) :
    (globals.print first).print second = globals.print (first ++ second) := by
  simp only [print, List.append_assoc]

end Globals

/-! ### `populate_config_struct` -/

/-- A part of the simulator: it changes the globals and may fault. -/
abbrev Simulator := Program Globals Fault

def printf (text : String) : Simulator PUnit := modify fun globals => globals.print [text]

/-- Follow a `cJSON` pointer. -/
def follow (pointer : CJSON) : Simulator Item := lift pointer.deref

/-- Follow the configuration global of a mode. -/
def followConfig (mode : Mode) : Simulator QueueConfig := do
  let globals ← get
  match globals.config mode with
  | none => lift (.error .nullDereference)
  | some config => pure config

/-- Follow the array pointer of a configuration. -/
def followEntries (config : QueueConfig) : Simulator IntBlock :=
  match config.entries with
  | none => lift (.error .nullDereference)
  | some block => pure block

def setConfig (mode : Mode) (config : QueueConfig) : Simulator PUnit :=
  modify fun globals => globals.setConfig mode config

def queueCountKey : CString := CString.literal "QueueCount"

/-- What is printed for the queue count. -/
def countLine (value : Int32) : String := "Queue count : " ++ toString value ++ "\n"

/-- The body of the loop that fills the array. -/
def fillEntry (mode : Mode) (queueArray : CJSON) (index : Nat) : Simulator PUnit := do
  let item ← follow (cJSONGetArrayItem queueArray (Int32.ofNat index))
  let config ← followConfig mode
  let block ← followEntries config
  let written ← lift (block.store index item.valueint)
  setConfig mode { config with entries := some written }
  let value ← lift (written.load index)
  printf (mode.entryLine value)

/-- One branch of `populate_config_struct`. -/
def populateBranch (mode : Mode) (json : CJSON) : Simulator PUnit := do
  setConfig mode {}
  let queueCount := cJSONGetObjectItemCaseSensitive json (some queueCountKey)
  let queueArray := cJSONGetObjectItemCaseSensitive json (some mode.arrayKey)
  let countItem ← follow queueCount
  let config ← followConfig mode
  setConfig mode { config with queueCount := countItem.valueint }
  let arraySize := cJSONGetArraySize queueArray
  let block ← lift (newIntArray arraySize)
  let config ← followConfig mode
  setConfig mode { config with entries := some block }
  -- No `i` below an `int` bound overflows, and a bound below zero stops the loop at once.
  forUpTo arraySize.toNatClampNeg (fillEntry mode queueArray)
  let config ← followConfig mode
  printf (countLine config.queueCount)

def populateConfigStruct (json : CJSON) (configFile : String) : Simulator PUnit :=
  if configFile = "DRR" then populateBranch .drr json
  else if configFile = "SPQ" then populateBranch .spq json
  else printf "Invalid config file input\n"

/-! ### `read_config` and `main` -/

/-- What opening a path for reading gives: nothing, or the bytes of the file. -/
abbrev FileSystem := String → Option (List UInt8)

def readConfig (cJSONParse : CString → Except Fault CJSON) (files : FileSystem) (path : String) :
    Simulator CJSON :=
  match files path with
  | none => do
    modify fun globals =>
      { globals with stderr := globals.stderr ++ ["Error opening file: " ++ path ++ "\n"] }
    pure .null
  | some buffer => lift (cJSONParse (CString.ofBuffer buffer))

/-- How the load sequence of `main` ends: in a return, or in the construction of the network. -/
inductive LoadOutcome where
  | exit (code : Int32)
  | simulate
deriving DecidableEq

def configPath (configFile : String) : String :=
  "./scratch/Project2/config/" ++ configFile ++ ".json"

/-- The load sequence of `main`. The file is opened twice, first by `main` to see that it exists
and then by `read_config`, so the file system is given at both moments. -/
def loadSequence (cJSONParse : CString → Except Fault CJSON) (atCheck atRead : FileSystem)
    (configFile : String) : Simulator LoadOutcome :=
  if ¬ (configFile = "DRR" ∨ configFile = "SPQ") then do
    printf "You must specify the configuration file (SPQ/DRR)\n"
    pure (.exit 0)
  else
    match atCheck (configPath configFile) with
    | some _ => do
      printf "Config file detected\n"
      let json ← readConfig cJSONParse atRead (configPath configFile)
      populateConfigStruct json configFile
      pure .simulate
    | none => do
      printf "No config file detected\n"
      pure (.exit 0)

end DiffServSimulation
