/-
This file proves that the vendored JSON library duplicates an item, or gives up
without a trace.

The memory shows a tree behind the item, which may have references in it. The
duplicate is a new root that mirrors the tree, so it owns all it shows and shares
nothing but constant names. The induction is on the tree: a list of children is
duplicated one child after the other, and each child with the list below it. A
refused request at any point deletes what was built so far.
-/

import DiffServSimulation.CjsonCreation

namespace DiffServSimulation

open Faulting LinkedRing Layout Memory

/-! ### The strings of an item -/

section Strings

variable {allocator : Allocator} {borrowed : List Address} {before middle : Memory}
  {address : Address} {cell : Cell Address Fields}

/-- The fields of a duplicate before its strings are copied. -/
def unnamed (fields : Fields) : Fields where
  type := fields.type
  stringIsConst := fields.stringIsConst
  valueint := fields.valueint
  valuedouble := fields.valuedouble

/-- A field of a duplicate leads to the string that the original leads to. -/
structure Repeats (before last : Memory) (original copy : Option Address) : Prop where
  same : copy.bind last.texts = original.bind before.texts
  live : ∀ text, copy = some text → last.texts text ≠ none

theorem repeats_of_copy {last : Memory} {string : Address} {copy : Option Address} {text : CString}
    (present : before.texts string = some text)
    (copied : ∀ new, copy = some new → last.texts new = some text) (given : copy ≠ none) :
    Repeats before last (some string) copy := by
  obtain ⟨new, rfl⟩ := Option.ne_none_iff_exists'.mp given
  refine ⟨(copied new rfl).trans present.symm, fun other same => ?_⟩
  obtain rfl := Option.some.inj same
  exact (copied new rfl).trans_ne (Option.some_ne_none text)

theorem Repeats.keep {last final : Memory} {original copy : Option Address}
    (repeated : Repeats before last original copy)
    (kept : ∀ text, last.texts text ≠ none → final.texts text = last.texts text) :
    Repeats before final original copy := by
  obtain ⟨same, live⟩ := repeated
  cases copy with
  | none => exact ⟨same, fun text isText => absurd isText (Option.some_ne_none text).symm⟩
  | some text =>
    refine ⟨(kept text (live text rfl)).trans same, fun other isOther => ?_⟩
    obtain rfl := Option.some.inj isOther
    exact (kept text (live text rfl)).trans_ne (live text rfl)

/-- The value string of the duplicate. -/
theorem Grown.duplicateValuestring_run
    (grown : Grown before middle ⟨address, unnamed cell.value, .null⟩ none) {item : Address}
    (present : before.items item = some cell) (legible : Legible borrowed before.texts cell.value) :
    ∃ done copy last, (duplicateValuestring allocator (some item) (some address)).run middle =
        .ok (done, last) ∧
      Grown before last ⟨address, { unnamed cell.value with valuestring := copy }, .null⟩ none ∧
      (done = true → Repeats before last cell.value.valuestring copy) := by
  have here := (grown.kept (present.trans_ne (Option.some_ne_none _))).trans present
  rw [duplicateValuestring, run_follow_bind _ here]
  cases isText : cell.value.valuestring with
  | none =>
    rw [if_pos rfl]
    exact ⟨true, none, middle, rfl, grown, fun _ =>
      ⟨rfl, fun text isText => absurd isText (Option.some_ne_none text).symm⟩⟩
  | some string =>
    obtain ⟨text, isString⟩ :=
      Option.ne_none_iff_exists'.mp (legible.valuestring string isText)
    have there := (grown.keptTexts (isString.trans_ne (Option.some_ne_none _))).trans isString
    obtain ⟨copy, asked, last, ran, filled, final, -, copied⟩ := grown.copyText_run allocator there
      (fun copy fields => { fields with valuestring := copy }) (fun copy => ⟨rfl, rfl⟩)
      fun copy => by simp [ownedTexts, unnamed]
    refine ⟨decide (copy ≠ none), copy, last, ?_, final, fun given => ?_⟩
    · rw [if_neg (Option.some_ne_none _), run_bind_ok _ _ _ _ _ ran, run_bind_ok _ _ _ _ _ filled]
      rfl
    · exact repeats_of_copy isString copied (of_decide_eq_true given)

/-- The name of the duplicate, which is shared if it is a constant. -/
theorem Grown.duplicateString_run {copy : Option Address}
    (grown : Grown before middle ⟨address, { unnamed cell.value with valuestring := copy }, .null⟩
      none) {item : Address} (present : before.items item = some cell)
    (legible : Legible borrowed before.texts cell.value) :
    ∃ done name last, (duplicateString allocator (some item) (some address)).run middle =
        .ok (done, last) ∧
      Grown before last
        ⟨address, { unnamed cell.value with valuestring := copy, string := name }, .null⟩ none ∧
      (∀ other, middle.texts other ≠ none → last.texts other = middle.texts other) ∧
      (done = true → Repeats before last cell.value.string name ∧
        (cell.value.stringIsConst = true → name = cell.value.string)) := by
  have here := (grown.kept (present.trans_ne (Option.some_ne_none _))).trans present
  have item : middle.items address ≠ none := grown.present List.mem_cons_self
  rw [duplicateString, run_follow_bind _ here]
  cases isName : cell.value.string with
  | none =>
    rw [if_pos rfl]
    exact ⟨true, none, middle, rfl, grown, fun _ _ => rfl, fun _ =>
      ⟨⟨rfl, fun text isText => absurd isText (Option.some_ne_none text).symm⟩, fun _ => rfl⟩⟩
  | some string =>
    have live := legible.string string isName
    have kept := grown.keptTexts live
    rw [if_neg (Option.some_ne_none _)]
    cases isConst : cell.value.stringIsConst with
    | true =>
      refine ⟨true, some string, _, ?_, grown.refill
        (fun fields => { fields with string := some string }) [] ⟨rfl, rfl⟩ ?_ rfl
        (by simp) List.nodup_nil (by simp) fun _ _ => rfl, fun _ _ => rfl, fun _ =>
          ⟨⟨kept, fun text isText => ?_⟩, fun _ => rfl⟩⟩
      · rw [if_pos rfl, run_bind_ok _ _ _ _ _ (setFields_run item _)]
        rfl
      · simp [ownedTexts, unnamed, isConst]
      · obtain rfl := Option.some.inj isText
        exact kept.trans_ne live
    | false =>
      obtain ⟨text, isString⟩ := Option.ne_none_iff_exists'.mp live
      obtain ⟨name, asked, last, ran, filled, final, keeps, copied⟩ := grown.copyText_run allocator
        (kept.trans isString) (fun name fields => { fields with string := name })
        (fun name => ⟨rfl, rfl⟩) fun name => by
          simpa [ownedTexts, unnamed, isConst] using List.perm_append_comm
      refine ⟨decide (name ≠ none), name, last, ?_, final, keeps,
        fun given => ⟨?_, fun isTrue => ?_⟩⟩
      · rw [if_neg (by simp), run_bind_ok _ _ _ _ _ ran, run_bind_ok _ _ _ _ _ filled]
        rfl
      · exact repeats_of_copy isString copied (of_decide_eq_true given)
      · cases isTrue

end Strings

/-! ### Children -/

section Children

variable {allocator : Allocator} {borrowed : List Address} {before middle memory : Memory}
  {root : Branch} {address item : Address} {cell : Cell Address Fields} {tree : CJSON}
  {fuel deep : Nat} {recurse : Bool}

variable (allocator borrowed) in
/-- The loop duplicates the children that a tree stands for, behind the ones that are there. -/
def LoopDuplicates (tree : CJSON) : Prop :=
  ∀ ⦃before middle root done pointer deep fuel⦄, Grown before middle root none →
    root.fields.isReference = false → root.child.Mirrors borrowed middle.texts (CJSON.link done) →
    Shows borrowed before pointer tree → tree.nodes ≤ deep → tree.nodes ≤ fuel →
    Completes (duplicateLoop (fun child => cJSONDuplicate allocator deep child true)
        (some root.address) fuel pointer (back none root.child.entries)) middle
      (Continued borrowed before middle root done tree)

/-- The children are duplicated, and the ring is closed or the root is given up. -/
theorem Grown.duplicateChildren_completes {fields : Fields}
    (children : LoopDuplicates allocator borrowed tree)
    (grown : Grown before middle ⟨address, fields, .null⟩ none)
    (owner : fields.isReference = false) (legible : Legible borrowed middle.texts fields)
    (present : before.items item = some cell)
    (shows : if recurse then Shows borrowed before cell.value.child tree else tree = .null)
    (enough : tree.nodes ≤ fuel) :
    Completes (duplicateChildren (fun child => cJSONDuplicate allocator fuel child true) fuel
        recurse (some item) (some address)) middle
      (Created borrowed before ⟨fields.data middle.texts, tree⟩) := by
  cases recurse with
  | false =>
    obtain rfl : tree = .null := shows
    exact ⟨some address, middle, rfl, .inr ⟨_, rfl, grown, .node owner legible .null .null⟩⟩
  | true =>
    have here := (grown.kept (present.trans_ne (Option.some_ne_none _))).trans present
    have empty : Layout.null.Mirrors borrowed middle.texts (CJSON.link []) := .null
    obtain ⟨reply, last, ran, continued⟩ := children grown owner empty shows enough enough
    exact completes_run_bind (run_follow here) (completes_run_bind ran
      (continued.finish owner legible enough))

/-- With both strings copied, a duplicate says what the original says. -/
theorem legible_of_repeats {fields : Fields} {copy name : Option Address}
    (legible : Legible borrowed before.texts fields)
    (valuestring : Repeats before middle fields.valuestring copy)
    (string : Repeats before middle fields.string name)
    (constant : fields.stringIsConst = true → name = fields.string) :
    Legible borrowed middle.texts { unnamed fields with valuestring := copy, string := name } ∧
      Fields.data middle.texts { unnamed fields with valuestring := copy, string := name } =
        fields.data before.texts := by
  refine ⟨⟨valuestring.live, string.live, ?_⟩, ?_⟩
  · refine List.Subset.trans ?_ legible.constant
    unfold constantNames
    cases isConst : fields.stringIsConst with
    | false => simp [unnamed, isConst]
    | true => simp [unnamed, isConst, constant isConst]
  · rw [Fields.data, Fields.data, valuestring.same, string.same]
    rfl

/-- A new item is filled in and given children, or given up. -/
theorem duplicateFields_completes (children : LoopDuplicates allocator borrowed tree)
    (fresh : before.items address = none) (present : before.items item = some cell)
    (legible : Legible borrowed before.texts cell.value)
    (shows : if recurse then Shows borrowed before cell.value.child tree else tree = .null)
    (enough : tree.nodes ≤ fuel) :
    Completes (duplicateFields allocator (fun child => cJSONDuplicate allocator fuel child true)
        fuel recurse (some item) (some address)) (before.place address {})
      (Created borrowed before ⟨cell.value.data before.texts, tree⟩) := by
  have blank : Grown before (before.place address {}) ⟨address, {}, .null⟩ none :=
    grown_place fresh rfl rfl
  have here := (blank.kept (present.trans_ne (Option.some_ne_none _))).trans present
  unfold duplicateFields
  refine completes_run_bind (run_follow here) (completes_run_bind (setFields_run
    (blank.present List.mem_cons_self) _) ?_)
  have filled := blank.refill (fun fields =>
    { fields with
      type := cell.value.type
      isReference := false
      stringIsConst := cell.value.stringIsConst
      valueint := cell.value.valueint
      valuedouble := cell.value.valuedouble }) [] ⟨rfl, rfl⟩ (by simp [ownedTexts]) rfl (by simp)
    List.nodup_nil (by simp) fun _ _ => rfl
  obtain ⟨hasValuestring, copy, second, ranValue, valued, repeatsValue⟩ :=
    filled.duplicateValuestring_run present legible
  refine completes_run_bind ranValue ?_
  cases hasValuestring with
  | false => exact valued.abandon_completes
  | true =>
    obtain ⟨hasString, name, third, ranName, named, kept, repeatsName⟩ :=
      valued.duplicateString_run present legible
    refine completes_run_bind ranName ?_
    cases hasString with
    | false => exact named.abandon_completes
    | true =>
      obtain ⟨name_repeats, shared⟩ := repeatsName rfl
      obtain ⟨readable, same⟩ := legible_of_repeats legible ((repeatsValue rfl).keep kept)
        name_repeats shared
      rw [← same]
      exact named.duplicateChildren_completes children rfl readable present shows enough

/-- `cJSON_Duplicate` ends in a duplicate, or with every block as it was. -/
theorem cJSONDuplicate_completes (children : LoopDuplicates allocator borrowed tree)
    (present : before.items item = some cell) (legible : Legible borrowed before.texts cell.value)
    (shows : if recurse then Shows borrowed before cell.value.child tree else tree = .null)
    (enough : tree.nodes + 1 ≤ fuel) :
    Completes (cJSONDuplicate allocator fuel (some item) recurse) before
      (Created borrowed before ⟨cell.value.data before.texts, tree⟩) := by
  obtain ⟨fuel, rfl⟩ : ∃ less, fuel = less + 1 := ⟨fuel - 1, by omega⟩
  rw [cJSONDuplicate]
  cases given : allocator.item before with
  | none =>
    exact completes_run_bind (cJSONNewItem_refused given)
      (completes_pure (.inl ⟨rfl, rfl, rfl⟩))
  | some address =>
    exact completes_run_bind (cJSONNewItem_run given) (duplicateFields_completes children
      (allocator.itemFresh before address given) present legible shows (by omega))

/-- One more child is duplicated and put behind the others. -/
theorem LoopDuplicates.step {next : CJSON} {data : ItemData}
    (children : LoopDuplicates allocator borrowed tree)
    (siblings : LoopDuplicates allocator borrowed next) :
    LoopDuplicates allocator borrowed (.node next tree data) := by
  intro before middle root done pointer deep fuel grown owner mirrors shows smallDeep small
  obtain ⟨address, cell, rfl, present, legible, rfl, below, behind⟩ := shows
  rw [CJSON.nodes] at smallDeep small
  obtain ⟨fuel, rfl⟩ : ∃ less, fuel = less + 1 := ⟨fuel - 1, by omega⟩
  have grows := grown.extends
  have here := (grows.items address (present.trans_ne (Option.some_ne_none _))).trans present
  have duplicated : Completes (cJSONDuplicate allocator deep (some address) true) middle
      (Created borrowed middle ⟨cell.value.data middle.texts, tree⟩) :=
    cJSONDuplicate_completes children here (legible.keep grows.texts) (below.extend grows)
      (by omega)
  rw [legible.data_eq grows.texts] at duplicated
  obtain ⟨reply, after, ran, ending⟩ := duplicated
  refine completes_run_bind ran ?_
  rcases ending with ⟨rfl, same⟩ | ⟨child, rfl, inner, copy⟩
  · exact completes_pure (.stopped grown mirrors same)
  · rw [if_neg (Option.some_ne_none _)]
    refine grown.chainChild_completes owner mirrors inner copy fun last joined shown isBack => ?_
    have there := (joined.kept (present.trans_ne (Option.some_ne_none _))).trans present
    rw [← isBack]
    exact completes_run_bind (run_follow there) (siblings joined owner shown behind (by omega)
      (show next.nodes ≤ fuel by omega))

theorem loopDuplicates (tree : CJSON) : LoopDuplicates allocator borrowed tree := by
  induction tree with
  | null =>
    intro before middle root done pointer deep fuel grown owner mirrors shows _ _
    obtain rfl : pointer = none := shows
    exact ⟨_, middle, by cases fuel <;> rfl, .ended grown mirrors⟩
  | node next child data nextHypothesis childHypothesis =>
    exact childHypothesis.step nextHypothesis

theorem cJSONDuplicate_joins {forest : List Branch} (consistent : Consistent before borrowed forest)
    (present : before.items item = some cell) (legible : Legible borrowed before.texts cell.value)
    (shows : if recurse then Shows borrowed before cell.value.child tree else tree = .null)
    (enough : tree.nodes + 1 ≤ fuel) :
    Completes (cJSONDuplicate allocator fuel (some item) recurse) before
      (Joined borrowed forest before fuel ⟨cell.value.data before.texts, tree⟩) :=
  joined_of_created (cJSONDuplicate_completes (loopDuplicates tree) present legible shows enough)
    (cJSONDuplicate_tells allocator fuel item recurse) consistent enough

/-! ### The duplicate of a forest's item -/

/-- `cJSON_Duplicate` of an item that shows a tree adds a root that mirrors the tree, or leaves
every block as it was when a request was refused. Deleting the duplicate restores every block. -/
theorem duplicate_mirrors {forest : List Branch} (consistent : Consistent before borrowed forest)
    (present : before.items item = some cell) (legible : Legible borrowed before.texts cell.value)
    (shows : if recurse then Shows borrowed before cell.value.child tree else tree = .null)
    (enough : tree.nodes + 1 ≤ fuel) :
    ∃ reply after, (cJSONDuplicate allocator fuel (some item) recurse).run before =
        .ok (reply, after) ∧
      ((reply = none ∧ before.refusals < after.refusals ∧ SameBlocks before after ∧
          Consistent after borrowed forest) ∨
        ∃ root, reply = some root.address ∧ after.refusals = before.refusals ∧
          Extends before after ∧ Consistent after borrowed (root :: forest) ∧
          (link [root]).Mirrors borrowed after.texts
            (CJSON.root ⟨cell.value.data before.texts, tree⟩) ∧
          Shows borrowed after reply (CJSON.root ⟨cell.value.data before.texts, tree⟩) ∧
          ∃ last, (cJSONDelete fuel reply).run after = .ok (⟨⟩, last) ∧
            SameBlocks before last) :=
  cJSONDuplicate_joins consistent present legible shows enough

/-- The node of the array `[true, false]`. -/
def pairNode : Item where
  type := .array
  child := CJSON.link [{ type := .true }, { type := .false }]

theorem duplicate_mirrors_pair :
    ∃ reply after, (cJSONDuplicate countingAllocator 3 (some 0) true).run pairMemory =
        .ok (reply, after) ∧
      ((reply = none ∧ pairMemory.refusals < after.refusals ∧ SameBlocks pairMemory after ∧
          Consistent after [] pairForest) ∨
        ∃ root, reply = some root.address ∧ after.refusals = pairMemory.refusals ∧
          Extends pairMemory after ∧ Consistent after [] (root :: pairForest) ∧
          (link [root]).Mirrors [] after.texts (CJSON.root pairNode) ∧
          Shows [] after reply (CJSON.root pairNode) ∧
          ∃ last, (cJSONDelete 3 reply).run after = .ok (⟨⟩, last) ∧ SameBlocks pairMemory last) :=
  duplicate_mirrors pairMemory_consistent
    (rfl : pairMemory.items 0 = some ⟨none, none, { type := .array, child := some 1 }⟩)
    (legible_of_silent rfl rfl)
    ⟨1, _, rfl, rfl, legible_of_silent rfl rfl, rfl, rfl, 2, _, rfl, rfl, legible_of_silent rfl rfl,
      rfl, rfl, rfl⟩ (by decide)

end Children

end DiffServSimulation
