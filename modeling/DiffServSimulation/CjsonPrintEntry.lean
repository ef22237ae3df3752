/-
This file says what the entry points of the printer hand out.

`cJSON_Print` and `cJSON_PrintUnformatted` never fault and hand out the text of
the tree in a block of its own size. `cJSON_PrintPreallocated` succeeds if and
only if the text fits with two bytes to spare. `cJSON_PrintBuffered` has one
fault: when it starts with an empty block and there is no `realloc`, growing the
block copies a byte that is not there.
-/

import DiffServSimulation.CjsonPrintSound

namespace DiffServSimulation

open Faulting

/-! ### Blocks and texts -/

/-- A text with its terminator, as it stands in memory. -/
def textBlock (text : List UInt8) : ByteBlock := (text ++ [0]).map some

/-- A fresh block begins with nothing. -/
theorem holds_fresh (size : Nat) (noalloc format : Bool) {hooks current : Hooks}
    (granted : hooks.Granted current) (block : ByteBlock) (small : size ≤ intMax)
    (long : size ≤ block.length)
    (copies : 0 < size ∨ hooks.reallocates = true ∨ noalloc = true) :
    Holds { format, noalloc, hooks, limit := if noalloc then size else intMax } 0 []
      { buffer := some block, length := size, noalloc, format, hooks := current } := by
  rw [← granted.reaches.reallocates] at copies
  refine ⟨⟨⟨rfl, rfl, granted, rfl⟩, rfl, ⟨block, rfl, List.nil_prefix, long⟩, small, copies⟩, rfl,
    ?_⟩
  by_cases empty : size = 0
  · exact Or.inl ⟨empty, rfl⟩
  · exact Or.inr (Nat.pos_of_ne_zero empty)

/-- The cells before some that follow a text and its terminator. -/
theorem take_textBlock {text : List UInt8} {block : ByteBlock}
    (begins : (text ++ [0]).map some <+: block) :
    block.take (text.length + 1) = textBlock text := by
  obtain ⟨rest, rfl⟩ := begins
  have length : text.length + 1 = ((text ++ [0]).map (some : UInt8 → Option UInt8)).length := by
    rw [List.length_map, List.length_append, List.length_singleton]
  rw [length, List.take_left]
  rfl

/-- The block that is handed out holds the text, whichever way it is made. -/
theorem takePrinted_completes {settings : Settings} {text : List UInt8} {p : PrintBuffer}
    (printed : Printed settings 0 [] text p) (offset : p.offset = text.length) :
    Completes takePrinted p fun result next =>
      match result with
      | some block => block = textBlock text ∧ settings.hooks.Granted next.hooks
      | none => settings.hooks.Refused next.hooks := by
  obtain ⟨block, present, begins, long⟩ := printed.block
  rw [List.nil_append] at begins
  have inside : text.length < p.length := printed.inside
  have fits : p.offset + 1 ≤ block.length := by omega
  refine completes_get_bind ?_
  simp only [present]
  refine completes_run_bind rfl ?_
  by_cases grants : p.hooks.grants 0 (p.offset + 1) = true
  · rw [if_neg (by simpa using grants)]
    by_cases reallocates : p.hooks.reallocates = true
    · rw [if_pos reallocates]
      refine ⟨_, _, rfl, ?_, printed.granted.asked grants⟩
      show block.resized (min block.length (p.offset + 1)) (p.offset + 1) = _
      rw [Nat.min_eq_right fits, ByteBlock.resized, Nat.sub_self, List.replicate_zero,
        List.append_nil, offset, take_textBlock begins]
    · rw [if_neg reallocates]
      have count : min p.length (p.offset + 1) = p.offset + 1 := by omega
      have front : text.map some <+: block := by
        rw [List.map_append] at begins
        exact (List.prefix_append _ _).trans begins
      have copied := copied_of_prefix (p.offset + 1) front (offset ▸ fits) (by rw [offset])
      rw [← offset] at copied
      rw [count]
      refine completes_lift_bind copied ⟨_, _, rfl, ?_, printed.granted.asked grants⟩
      show (block.resized (p.offset + 1) (p.offset + 1)).set p.offset (some 0) = _
      rw [ByteBlock.resized, Nat.sub_self, List.replicate_zero, List.append_nil, offset,
        take_textBlock begins, textBlock, List.map_append, List.set_append_right _ _ (by simp),
        List.length_map, Nat.sub_self]
      rfl
  · rw [if_pos (by simpa using grants)]
    exact ⟨_, _, rfl, printed.granted.refused (by simpa using grants)⟩

/-! ### `cJSON_Print` -/

/-- There is a reason to print nothing: a request was refused, or the text does not exist or is too
long. -/
def RefusesToPrint (hooks after : Hooks) (text : Option (List UInt8)) : Prop :=
  hooks.Refused after ∨ ∀ whole, text = some whole → intMax < whole.length + 2

/-- What `print` hands out is the text of the tree, in a block of its own size. -/
def PrintOutcome (hooks after : Hooks) (text : Option (List UInt8)) : Option ByteBlock → Prop
  | some block => hooks.Granted after ∧
    ∃ whole, text = some whole ∧ block = textBlock whole ∧ whole.length + 2 ≤ intMax
  | none => RefusesToPrint hooks after text

theorem Refuses.toPrint {settings : Settings} {text : Option (List UInt8)} {next : PrintBuffer}
    (refuses : Refuses settings [] text next) (limit : settings.limit = intMax) :
    RefusesToPrint settings.hooks next.hooks text := by
  refine refuses.imp And.right fun large whole isWhole => ?_
  have bound := large whole isWhole
  rw [List.length_nil, Nat.zero_add, limit] at bound
  exact bound

/-- `print` never faults, and hands out the text of the tree. -/
theorem print_outcome (item : CJSON) (format : Bool) (hooks : Hooks) :
    ∃ printed after, print item format hooks = .ok (printed, after) ∧
      PrintOutcome hooks after (valueText format 0 item) printed := by
  unfold print
  by_cases grants : hooks.grants 0 256 = true
  · rw [if_pos grants]
    have fresh := holds_fresh 256 false format ((Hooks.Granted.refl hooks).asked grants)
      (List.replicate 256 none) (by decide) List.length_replicate.ge (Or.inl (by decide))
    suffices whole : Completes _ _ fun printed (last : PrintBuffer) =>
        PrintOutcome hooks last.hooks (valueText format 0 item) printed by
      obtain ⟨printed, last, ran, outcome⟩ := whole
      exact ⟨printed, last.hooks, congrArg (Except.map handedOut) ran, outcome⟩
    refine completes_bind ((printValue_prints _ 0 item).updated_completes fresh)
      fun succeeds next outcome => ?_
    cases succeeds with
    | false => exact ⟨none, next, rfl, Refuses.toPrint outcome rfl⟩
    | true =>
      obtain ⟨text, isText, -, printed, offset, fits⟩ := outcome
      rw [List.length_nil, Nat.zero_add] at fits
      refine (takePrinted_completes printed offset).mono fun result _ handed => ?_
      cases result with
      | none => exact Or.inl handed
      | some block => exact ⟨handed.2, text, isText, handed.1, fits⟩
  · rw [if_neg grants]
    exact ⟨none, _, rfl, Or.inl ((Hooks.Granted.refl hooks).refused (by simpa using grants))⟩

/-- With an allocator that grants everything, exactly the trees with a text that fits are
printed. -/
theorem print_eq (item : CJSON) (format : Bool) (hooks : Hooks) (granting : hooks.Granting) :
    ∃ after, print item format hooks = .ok (match valueText format 0 item with
      | some text => if text.length + 2 ≤ intMax then some (textBlock text) else none
      | none => none, after) := by
  obtain ⟨printed, after, ran, outcome⟩ := print_outcome item format hooks
  refine ⟨after, ran.trans ?_⟩
  cases printed with
  | some block =>
    obtain ⟨-, text, isText, rfl, fits⟩ := outcome
    simp only [isText, if_pos fits]
  | none =>
    rcases outcome with refused | large
    · exact absurd granting refused.not_granting
    · cases isText : valueText format 0 item with
      | none => rfl
      | some text =>
        have bound := large text isText
        simp only [if_neg (Nat.not_le.mpr bound)]

/-- `cJSON_Print` and `cJSON_PrintUnformatted` never fault, whatever the allocator does, and hand
out the text of the tree or nothing. -/
theorem cJSONPrint_outcome (item : CJSON) (hooks : Hooks) :
    (∃ printed after, cJSONPrint item hooks = .ok (printed, after) ∧
      PrintOutcome hooks after (valueText true 0 item) printed) ∧
    ∃ printed after, cJSONPrintUnformatted item hooks = .ok (printed, after) ∧
      PrintOutcome hooks after (valueText false 0 item) printed :=
  ⟨print_outcome item true hooks, print_outcome item false hooks⟩

/-! ### Buffers of the caller's choice -/

theorem toNatClampNeg_le (value : Int32) : value.toNatClampNeg ≤ intMax :=
  Nat.le_of_lt_succ value.toNatClampNeg_lt

theorem toNatClampNeg_pos {value : Int32} (positive : 0 < value) : 0 < value.toNatClampNeg := by
  rw [Int32.lt_iff_toInt_lt] at positive
  have positive' : 0 < value.toInt := positive
  have same : value.toNatClampNeg = value.toInt.toNat := rfl
  omega

/-- `cJSON_PrintBuffered` hands out a block that begins with the text, provided the block it starts
with has a byte or may be reallocated. -/
theorem cJSONPrintBuffered_outcome (item : CJSON) (prebuffer : Int32) (format : Bool)
    (hooks : Hooks) (copies : 0 < prebuffer ∨ hooks.reallocates = true) :
    ∃ printed after, cJSONPrintBuffered item prebuffer format hooks = .ok (printed, after) ∧
      match printed with
      | some block => ∃ text, valueText format 0 item = some text ∧ textBlock text <+: block
      | none => prebuffer < 0 ∨ RefusesToPrint hooks after (valueText format 0 item) := by
  unfold cJSONPrintBuffered
  by_cases negative : prebuffer < 0
  · rw [if_pos negative]
    exact ⟨none, hooks, rfl, Or.inl negative⟩
  rw [if_neg negative]
  simp only
  by_cases grants : hooks.grants 0 prebuffer.toNatClampNeg = true
  · rw [if_pos grants]
    have fresh := holds_fresh prebuffer.toNatClampNeg false format
      ((Hooks.Granted.refl hooks).asked grants) (List.replicate prebuffer.toNatClampNeg none)
      (toNatClampNeg_le prebuffer) List.length_replicate.ge
      (copies.imp toNatClampNeg_pos Or.inl)
    suffices whole : Completes _ _ fun printed (last : PrintBuffer) =>
        match printed with
        | some block => ∃ text, valueText format 0 item = some text ∧ textBlock text <+: block
        | none => prebuffer < 0 ∨ RefusesToPrint hooks last.hooks (valueText format 0 item) by
      obtain ⟨printed, last, ran, outcome⟩ := whole
      exact ⟨printed, last.hooks, congrArg (Except.map handedOut) ran, outcome⟩
    refine completes_bind (printValue_prints _ 0 item _ _ fresh) fun succeeds next outcome => ?_
    cases succeeds with
    | false => exact ⟨none, next, rfl, Or.inr (Refuses.toPrint outcome rfl)⟩
    | true =>
      obtain ⟨text, isText, -, printed, -⟩ := outcome
      obtain ⟨block, present, begins, -⟩ := printed.block
      refine ⟨some block, next, ?_, text, isText, begins⟩
      show Except.ok (next.buffer, next) = _
      rw [present]
  · rw [if_neg grants]
    exact ⟨none, _, rfl,
      Or.inr (Or.inl ((Hooks.Granted.refl hooks).refused (by simpa using grants)))⟩

/-- A block that is empty and may only be copied. -/
structure Hollow (p : PrintBuffer) : Prop where
  block : p.buffer = some []
  length : p.length = 0
  offset : p.offset = 0
  grows : p.noalloc = false
  copies : p.hooks.reallocates = false
  granting : p.hooks.Granting

/-- Growing an empty block copies the byte at its end. -/
theorem ensure_hollow {p : PrintBuffer} (hollow : Hollow p) (needed : Nat)
    (small : needed + 1 ≤ intMax) : (ensure needed).run p = .error .outOfBounds := by
  have copied : ∀ newsize, (reallocate [] newsize).run p = .error .outOfBounds := by
    intro newsize
    rw [reallocate, run_get_bind]
    simp only [hollow.granting 0 newsize, hollow.copies, hollow.offset, if_true,
      Bool.false_eq_true, if_false]
    exact run_bind_error _ _ _ _ rfl
  rw [ensure, run_get_bind]
  simp only [hollow.block, hollow.length, hollow.offset, hollow.grows, Nat.zero_add,
    Nat.le_zero_eq, Nat.succ_ne_zero, if_false, Bool.false_eq_true, lt_self_iff_false, false_and,
    if_neg (Nat.not_lt.mpr (Nat.le_of_succ_le small)), if_pos small]
  split_ifs <;> exact copied _

theorem ensured_hollow {p : PrintBuffer} (hollow : Hollow p) (needed : Nat)
    (write : Nat → Printer PUnit) (small : needed + 1 ≤ intMax) :
    (ensured needed write).run p = .error .outOfBounds :=
  run_bind_error _ _ _ _ (ensure_hollow hollow needed small)

theorem andThen_hollow {p : PrintBuffer} {first : Printer Bool} (second : Printer Bool)
    (faults : first.run p = .error .outOfBounds) :
    (andThen first second).run p = .error .outOfBounds :=
  run_bind_error _ _ _ _ faults

/-- Every tree with a text that fits reserves room first, and faults there. -/
theorem printValue_hollow {p : PrintBuffer} (hollow : Hollow p) (item : CJSON) {text : List UInt8}
    (isText : valueText p.format p.depth item = some text) (fits : text.length + 2 ≤ intMax) :
    (printValue item).run p = .error .outOfBounds := by
  cases item with
  | null => cases isText
  | node next child data =>
    unfold valueText contentsText at isText
    unfold printValue printContents
    cases isType : data.type <;> simp only [isType] at isText ⊢
    case false | true | null => exact ensured_hollow hollow _ _ (by decide)
    case invalid => cases isText
    case number =>
      have short := length_numberText_le data
      rw [printNumber, numberBuffer_eq, run_bind_ok _ _ _ _ _ (run_lift_ok _ _),
        if_neg (by omega)]
      exact ensured_hollow hollow _ _ (by rw [intMax]; omega)
    case string =>
      rw [Option.some.injEq] at isText
      subst isText
      cases isString : data.valuestring with
      | none => exact ensured_hollow hollow 3 _ (by decide)
      | some string =>
        have length := length_flatMap_escapedByte string.bytes
        rw [isString, stringText, List.length_cons, List.length_append, length,
          List.length_singleton] at fits
        exact ensured_hollow hollow _ _ (by omega)
    case array => exact andThen_hollow _ (ensured_hollow hollow 1 _ (by decide))
    case object =>
      rw [printObject, run_get_bind]
      refine andThen_hollow _ (ensured_hollow hollow _ _ ?_)
      split_ifs <;> decide
    case raw =>
      rw [Option.map_eq_some_iff] at isText
      obtain ⟨raw, isRaw, rfl⟩ := isText
      rw [isRaw]
      exact ensured_hollow hollow _ _ fits

/-- `cJSON_PrintBuffered` faults on a tree that could be printed if and only if it starts with an
empty block and cannot reallocate it. -/
theorem cJSONPrintBuffered_faults_iff (item : CJSON) (prebuffer : Int32) (format : Bool)
    (hooks : Hooks) (granting : hooks.Granting) {text : List UInt8}
    (isText : valueText format 0 item = some text) (fits : text.length + 2 ≤ intMax) :
    cJSONPrintBuffered item prebuffer format hooks = .error .outOfBounds ↔
      prebuffer = 0 ∧ hooks.reallocates = false := by
  constructor
  · intro faults
    by_contra either
    have completes : ∃ printed,
        cJSONPrintBuffered item prebuffer format hooks = .ok printed := by
      rcases Int32.lt_or_le prebuffer 0 with negative | nonneg
      · exact ⟨_, by rw [cJSONPrintBuffered, if_pos negative]⟩
      · have copies : 0 < prebuffer ∨ hooks.reallocates = true := by
          rcases Int32.le_iff_lt_or_eq.mp nonneg with positive | zero
          · exact Or.inl positive
          · exact Or.inr (by simpa [zero.symm] using either)
        obtain ⟨printed, after, ran, -⟩ :=
          cJSONPrintBuffered_outcome item prebuffer format hooks copies
        exact ⟨_, ran⟩
    obtain ⟨printed, ran⟩ := completes
    rw [ran] at faults
    cases faults
  · rintro ⟨rfl, copies⟩
    have hollow : Hollow { buffer := some [], length := 0, format, hooks := hooks.asked 0 } :=
      ⟨rfl, rfl, rfl, rfl, copies, fun request => granting (request + 1)⟩
    have faults := printValue_hollow hollow item isText fits
    rw [cJSONPrintBuffered, if_neg (by decide)]
    simp only
    rw [if_pos (granting 0 _)]
    exact congrArg (Except.map handedOut) (run_bind_error _ _ _ _ faults)

theorem cJSONPrintBuffered_faults_iff_true :
    cJSONPrintBuffered (.node .null .null { type := .true }) 0 false ⟨fun _ _ => true, false, 0⟩ =
        .error .outOfBounds ↔ (0 : Int32) = 0 ∧ false = false :=
  cJSONPrintBuffered_faults_iff _ 0 false ⟨fun _ _ => true, false, 0⟩ (fun _ _ => rfl) rfl
    (by decide)

/-- `cJSON_PrintPreallocated` succeeds if and only if the text fits into the length that is given
with two bytes to spare, and then the buffer begins with it. -/
theorem cJSONPrintPreallocated_outcome (item : CJSON) (block : ByteBlock) (length : Int32)
    (format : Bool) (hooks : Hooks) (enough : length.toNatClampNeg ≤ block.length) :
    ∃ succeeds last, cJSONPrintPreallocated item (some block) length format hooks =
        .ok (succeeds, last) ∧
      (succeeds = true ↔ 0 ≤ length ∧
        ∃ text, valueText format 0 item = some text ∧ text.length + 2 ≤ length.toNatClampNeg) ∧
      (succeeds = true → ∃ text after, valueText format 0 item = some text ∧ last = some after ∧
        textBlock text <+: after) := by
  unfold cJSONPrintPreallocated
  simp only
  by_cases negative : length < 0
  · rw [if_pos negative]
    refine ⟨false, some block, rfl,
      ⟨fun succeeds => absurd succeeds Bool.false_ne_true, fun ⟨nonneg, _⟩ => ?_⟩,
      fun succeeds => absurd succeeds Bool.false_ne_true⟩
    exact absurd negative (Int32.not_lt.mpr nonneg)
  rw [if_neg negative]
  have fresh := holds_fresh length.toNatClampNeg true format (Hooks.Granted.refl hooks) block
    (toNatClampNeg_le length) enough (Or.inr (Or.inr rfl))
  obtain ⟨succeeds, next, ran, outcome⟩ := printValue_prints _ 0 item _ _ fresh
  refine ⟨succeeds, next.buffer, congrArg (Except.map fun run => (run.1, run.2.buffer)) ran, ?_⟩
  cases succeeds with
  | false =>
    refine ⟨⟨fun succeeds => absurd succeeds Bool.false_ne_true, fun ⟨_, text, isText, fits⟩ => ?_⟩,
      fun succeeds => absurd succeeds Bool.false_ne_true⟩
    rcases outcome with ⟨grows, -⟩ | large
    · cases grows
    · have bound := large text isText
      rw [List.length_nil, Nat.zero_add] at bound
      exact absurd bound (Nat.not_lt.mpr fits)
  | true =>
    obtain ⟨text, isText, -, printed, fits⟩ := outcome
    rw [List.length_nil, Nat.zero_add] at fits
    obtain ⟨after, present, begins, -⟩ := printed.block
    exact ⟨⟨fun _ => ⟨Int32.not_lt.mp negative, text, isText, fits⟩, fun _ => rfl⟩,
      fun _ => ⟨text, after, isText, present, begins⟩⟩

theorem cJSONPrintPreallocated_outcome_true :
    ∃ succeeds last, cJSONPrintPreallocated (.node .null .null { type := .true })
        (some (List.replicate 8 none)) 8 false ⟨fun _ _ => true, true, 0⟩ = .ok (succeeds, last) ∧
      (succeeds = true ↔ (0 : Int32) ≤ 8 ∧ ∃ text,
        valueText false 0 (.node .null .null { type := .true }) = some text ∧
          text.length + 2 ≤ Int32.toNatClampNeg 8) ∧
      (succeeds = true → ∃ text after,
        valueText false 0 (.node .null .null { type := .true }) = some text ∧
          last = some after ∧ textBlock text <+: after) :=
  cJSONPrintPreallocated_outcome _ (List.replicate 8 none) 8 false ⟨fun _ _ => true, true, 0⟩
    (by decide)

end DiffServSimulation
