/-
This file proves how the load sequence of `main` ends.

A missing file and an unknown mode end in a return, after a message. Once the
file is open nothing is checked any more: the outcome of the parser goes straight
to `populate_config_struct`, which follows the pointer to the queue count. The
sequence is therefore free of null dereferences for exactly the outcomes that
have a queue count, and every malformed file is one that has none.
-/

import DiffServSimulation.ConfigContents

namespace DiffServSimulation

open Faulting

/-! ### The steps of the sequence -/

theorem configFile_valid (mode : Mode) : mode.configFile = "DRR" ∨ mode.configFile = "SPQ" := by
  cases mode
  · exact Or.inr rfl
  · exact Or.inl rfl

section Steps

variable (parse : CString → Except Fault CJSON) (atCheck atRead : FileSystem)

theorem readConfig_run_of_some {path : String} {buffer : List UInt8} {json : CJSON}
    (read : atRead path = some buffer) (parsed : parse (CString.ofBuffer buffer) = .ok json)
    (globals : Globals) : (readConfig parse atRead path).run globals = .ok (json, globals) := by
  unfold readConfig
  rw [read]
  show (lift (parse (CString.ofBuffer buffer)) : Simulator CJSON).run globals = _
  rw [parsed, run_lift_ok]

theorem readConfig_run_of_none {path : String} (read : atRead path = none) (globals : Globals) :
    (readConfig parse atRead path).run globals = .ok (.null,
      { globals with stderr := globals.stderr ++ ["Error opening file: " ++ path ++ "\n"] }) := by
  unfold readConfig
  rw [read]
  rfl

/-- A mode that is neither of the two ends the sequence before any file is opened. -/
theorem loadSequence_run_of_unknown {configFile : String}
    (unknown : ¬ (configFile = "DRR" ∨ configFile = "SPQ")) (globals : Globals) :
    (loadSequence parse atCheck atRead configFile).run globals =
      .ok (.exit 0, globals.print ["You must specify the configuration file (SPQ/DRR)\n"]) := by
  unfold loadSequence
  rw [if_pos unknown]
  rfl

/-- A file that is missing when `main` looks for it ends the sequence. -/
theorem loadSequence_run_of_missing (mode : Mode)
    (missing : atCheck (configPath mode.configFile) = none) (globals : Globals) :
    (loadSequence parse atCheck atRead mode.configFile).run globals =
      .ok (.exit 0, globals.print ["No config file detected\n"]) := by
  unfold loadSequence
  rw [if_neg (not_not_intro (configFile_valid mode)), missing]
  rfl

/-- Once the file is open the sequence is `read_config` and `populate_config_struct`. -/
theorem loadSequence_run_of_opened (mode : Mode) {text : List UInt8}
    (opened : atCheck (configPath mode.configFile) = some text) (globals : Globals) :
    (loadSequence parse atCheck atRead mode.configFile).run globals =
      (do
        let json ← readConfig parse atRead (configPath mode.configFile)
        populateConfigStruct json mode.configFile
        pure LoadOutcome.simulate).run (globals.print ["Config file detected\n"]) := by
  unfold loadSequence
  rw [if_neg (not_not_intro (configFile_valid mode)), opened]
  exact run_bind_ok _ _ _ _ _ (printf_run _ _)

/-- A file that disappears between the two openings makes the sequence follow a null pointer. -/
theorem loadSequence_run_of_vanished (mode : Mode) {text : List UInt8}
    (opened : atCheck (configPath mode.configFile) = some text)
    (vanished : atRead (configPath mode.configFile) = none) (globals : Globals) :
    (loadSequence parse atCheck atRead mode.configFile).run globals =
      .error .nullDereference := by
  rw [loadSequence_run_of_opened parse atCheck atRead mode opened]
  refine (run_bind_ok _ _ _ _ _ (readConfig_run_of_none parse atRead vanished _)).trans ?_
  exact run_bind_error _ _ _ _ (populateConfigStruct_run ⟨.null, trivial⟩ mode _)

end Steps

/-! ### Every text -/

section Opened

variable (parse : CString → Except Fault CJSON) (atCheck atRead : FileSystem) (mode : Mode)
  (text : List UInt8) (result : ParseResult)

/-- The file is there at both openings, and its text has the given parse outcome. -/
structure FileParses : Prop where
  found : (atCheck (configPath mode.configFile)).isSome
  read : atRead (configPath mode.configFile) = some text
  parsed : parse (CString.ofBuffer text) = .ok result.root

variable {parse atCheck atRead mode text result}
  (opens : FileParses parse atCheck atRead mode text result) (globals : Globals)

include opens

/-- The three endings of the sequence, each under its condition on the parse outcome. -/
theorem loadSequence_run :
    (loadSequence parse atCheck atRead mode.configFile).run globals =
      match result.countItem? with
      | none => .error .nullDereference
      | some countItem =>
        if result.SizeOverflows mode then .error .badArrayNewLength
        else .ok (.simulate, populated (globals.print ["Config file detected\n"]) mode countItem
          ((result.arrayItems mode).take ((result.arrayItems mode).length % 2 ^ 32))) := by
  obtain ⟨checked, opened⟩ := Option.isSome_iff_exists.mp opens.found
  rw [loadSequence_run_of_opened parse atCheck atRead mode opened]
  refine (run_bind_ok _ _ _ _ _
    (readConfig_run_of_some parse atRead opens.read opens.parsed _)).trans ?_
  have populates := populateConfigStruct_run result mode (globals.print ["Config file detected\n"])
  cases counted : result.countItem? with
  | none =>
    rw [counted] at populates
    exact run_bind_error _ _ _ _ populates
  | some countItem =>
    by_cases overflows : result.SizeOverflows mode
    · simp only [counted, if_pos overflows] at populates ⊢
      exact run_bind_error _ _ _ _ populates
    · simp only [counted, if_neg overflows] at populates ⊢
      exact run_bind_ok _ _ _ _ _ populates

/-- Without a queue count the sequence follows a null pointer. -/
theorem loadSequence_run_of_countless (countless : result.countItem? = none) :
    (loadSequence parse atCheck atRead mode.configFile).run globals =
      .error .nullDereference := by
  rw [loadSequence_run opens, countless]

/-- With a queue count it follows none. -/
theorem loadSequence_run_ne_of_counted {countItem : Item}
    (counted : result.countItem? = some countItem) :
    (loadSequence parse atCheck atRead mode.configFile).run globals ≠
      .error .nullDereference := by
  rw [loadSequence_run opens, counted]
  by_cases overflows : result.SizeOverflows mode
  · simp only [if_pos overflows]
    exact fun same => nomatch same
  · simp only [if_neg overflows]
    exact fun same => nomatch same

end Opened

/-- A run of the load sequence follows no null pointer, and ends in a return when the text is
malformed or has no queue count. -/
structure HandlesOutcome (run : Except Fault (LoadOutcome × Globals)) (result : ParseResult) :
    Prop where
  neverNull : run ≠ .error .nullDereference
  returns : result.root = .null ∨ result.countItem? = none →
    ∃ code next, run = .ok (.exit code, next)

/-- The load sequence meets this for exactly the parse outcomes that have a queue count. -/
theorem loadSequence_handles_iff (parse : CString → Except Fault CJSON)
    (atCheck atRead : FileSystem) (mode : Mode) (text : List UInt8) (result : ParseResult)
    (opens : FileParses parse atCheck atRead mode text result) (globals : Globals) :
    HandlesOutcome ((loadSequence parse atCheck atRead mode.configFile).run globals) result ↔
      ∃ countItem, result.countItem? = some countItem := by
  constructor
  · intro handles
    cases counted : result.countItem? with
    | none => exact absurd (loadSequence_run_of_countless opens globals counted) handles.neverNull
    | some countItem => exact ⟨countItem, rfl⟩
  · rintro ⟨countItem, counted⟩
    refine ⟨loadSequence_run_ne_of_counted opens globals counted, ?_⟩
    rintro (null | countless)
    · rw [ParseResult.countItem?, null] at counted
      cases counted
    · rw [counted] at countless
      cases countless

/-- A file system that holds one text under every path. -/
def holding (text : String) : FileSystem := fun _ => some (text.toList.map Char.toUInt8)

/-- The vendored parser accepts an empty object and refuses an unclosed one, and the load sequence
follows a null pointer on both. -/
theorem loadSequence_follows_null :
    cJSONParse (CString.literal "\x7b\x7d") = .ok (CJSON.link [{ type := .object }]) ∧
      (loadSequence cJSONParse (holding "\x7b\x7d") (holding "\x7b\x7d") "SPQ").run {} =
        .error .nullDereference ∧
      cJSONParse (CString.literal "\x7b") = .ok .null ∧
      (loadSequence cJSONParse (holding "\x7b") (holding "\x7b") "DRR").run {} =
        .error .nullDereference := by
  decide +kernel

/-- The text that ships for strict priority queueing. -/
def spqText : String :=
  "\x7b\n    \"QueueCount\" : 2,\n    \"QueuePriority\" : [1, 2]\n\n\x7d"

set_option maxRecDepth 4000 in
/-- The vendored parser on the file that ships for strict priority queueing. -/
theorem loadSequence_handles_spq :
    HandlesOutcome ((loadSequence cJSONParse (holding spqText) (holding spqText) "SPQ").run {})
      (configResult .spq 2 [1, 2]) :=
  (loadSequence_handles_iff cJSONParse (holding spqText) (holding spqText) .spq
    (spqText.toList.map Char.toUInt8) (configResult .spq 2 [1, 2])
    ⟨rfl, rfl, by decide +kernel⟩ {}).mpr ⟨numberItem (some queueCountKey) 2, rfl⟩

/-! ### With the vendored parser -/

theorem length_arrayItems_le_nodes (result : ParseResult) (mode : Mode) :
    (result.arrayItems mode).length ≤ result.root.nodes := by
  rw [ParseResult.arrayItems]
  cases found : result.root.firstMember mode.arrayKey with
  | none => exact Nat.zero_le _
  | some array =>
    have member : array ∈ result.root.children := List.mem_of_find?_eq_some found
    have bound := CJSON.length_chain_le_nodes array.child
    show array.child.chain.length ≤ result.root.nodes
    cases pointer : result.root with
    | null =>
      rw [pointer] at member
      cases member
    | node next child data =>
      rw [pointer] at member
      have below := CJSON.nodes_child_le_of_mem child array member
      rw [CJSON.nodes]
      omega

theorem length_ofBuffer_le (buffer : List UInt8) :
    (CString.ofBuffer buffer).bytes.length ≤ buffer.length :=
  (List.takeWhile_prefix _).length_le

section Vendored

variable (atCheck atRead : FileSystem)

/-- On a file of fewer than `2 ^ 31` bytes the array size never overflows, and the sequence is
decided by the queue count alone. -/
theorem loadSequence_run_of_short (mode : Mode) (text : List UInt8)
    (found : (atCheck (configPath mode.configFile)).isSome)
    (read : atRead (configPath mode.configFile) = some text) (short : text.length < 2 ^ 31)
    (globals : Globals) :
    ∃ result : ParseResult, cJSONParse (CString.ofBuffer text) = .ok result.root ∧
      (loadSequence cJSONParse atCheck atRead mode.configFile).run globals =
        match result.countItem? with
        | none => .error .nullDereference
        | some countItem => .ok (.simulate,
          populated (globals.print ["Config file detected\n"]) mode countItem
            (result.arrayItems mode)) := by
  obtain ⟨result, parsed, small, -⟩ := cJSONParse_ok (CString.ofBuffer text)
  have few := length_arrayItems_le_nodes result mode
  have bytes := length_ofBuffer_le text
  have whole : (result.arrayItems mode).length % 2 ^ 32 = (result.arrayItems mode).length :=
    Nat.mod_eq_of_lt (by omega)
  have fits : ¬ result.SizeOverflows mode := by
    rw [ParseResult.SizeOverflows, whole]
    omega
  refine ⟨result, parsed, ?_⟩
  rw [loadSequence_run ⟨found, read, parsed⟩]
  cases result.countItem? with
  | none => rfl
  | some countItem => simp only [if_neg fits, whole, List.take_length]

/-- Whatever the mode and the files, as long as these are shorter than `2 ^ 31` bytes, the only
fault the load sequence can meet is a null dereference. No access leaves the text, an unescaped
string or the array of entries, nothing is read before it is written, and the sequence ends. -/
theorem loadSequence_fault_eq (short : ∀ path text, atRead path = some text → text.length < 2 ^ 31)
    (configFile : String) (globals : Globals) (fault : Fault)
    (faults : (loadSequence cJSONParse atCheck atRead configFile).run globals = .error fault) :
    fault = .nullDereference := by
  by_cases known : configFile = "DRR" ∨ configFile = "SPQ"
  · obtain ⟨mode, rfl⟩ : ∃ mode : Mode, configFile = mode.configFile := by
      rcases known with rfl | rfl
      · exact ⟨.drr, rfl⟩
      · exact ⟨.spq, rfl⟩
    cases opened : atCheck (configPath mode.configFile) with
    | none =>
      rw [loadSequence_run_of_missing _ _ _ mode opened] at faults
      cases faults
    | some checked =>
      cases read : atRead (configPath mode.configFile) with
      | none =>
        rw [loadSequence_run_of_vanished _ _ _ mode opened read] at faults
        cases faults
        rfl
      | some text =>
        obtain ⟨result, -, ran⟩ := loadSequence_run_of_short atCheck atRead mode text
          (by rw [opened]; rfl) read (short _ text read) globals
        rw [ran] at faults
        cases counted : result.countItem? with
        | none =>
          rw [counted] at faults
          cases faults
          rfl
        | some countItem =>
          rw [counted] at faults
          cases faults
  · rw [loadSequence_run_of_unknown _ _ _ known] at faults
    cases faults

end Vendored

end DiffServSimulation
