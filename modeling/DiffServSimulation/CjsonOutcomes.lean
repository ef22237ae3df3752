/-
This file proves that the editing functions of the vendored JSON library refine
their outcomes on forests.

On a memory that holds a forest and nothing else, a function ends without a fault,
on a memory that holds the forest of one of its outcomes and nothing else. Where no
memory is asked for the outcome is the one at hand; where memory is asked for the
allocator decides.
-/

import DiffServSimulation.CjsonContract
import DiffServSimulation.CjsonRefusals

namespace DiffServSimulation

open Faulting LinkedRing Layout Memory DecimalNumber

/-- A program ends with a value on a memory that holds a forest and nothing else. -/
def Yields {Value : Type} (borrowed : List Address) (program : Heaped Value) (memory : Memory)
    (value : Value) (next : List Branch) : Prop :=
  ∃ after, program.run memory = .ok (value, after) ∧ Consistent after borrowed next

/-- A program ends with an outcome, on a memory that holds a forest and nothing else. -/
def Refines {Value : Type} (borrowed : List Address) (program : Heaped Value) (memory : Memory)
    (outcome : Value → Holding → Prop) : Prop :=
  ∃ value next after, program.run memory = .ok (value, after) ∧ Consistent after borrowed next ∧
    outcome value (after.holding next)

theorem keeps_of_spares {before after : Memory} (spares : Spares before after)
    (forest next : List Branch) : Keeps (before.holding forest) (after.holding next) :=
  ⟨spares.texts, spares.refusals⟩

theorem starves_refused (memory : Memory) (forest : List Branch) :
    Starves (memory.holding forest) (memory.refused.holding forest) :=
  ⟨rfl, rfl, Nat.lt_succ_self _⟩

section Rules

variable {Value Other : Type} {borrowed : List Address} {memory : Memory} {value : Value}
  {other : Other} {forest next middle : List Branch}

theorem yields_pure (consistent : Consistent memory borrowed forest) (value : Value) :
    Yields borrowed (pure value) memory value forest := ⟨memory, rfl, consistent⟩

theorem Yields.bind {program : Heaped Value} {rest : Value → Heaped Other}
    (yields : Yields borrowed program memory value middle)
    (continues : ∀ after, Consistent after borrowed middle →
      Yields borrowed (rest value) after other next) :
    Yields borrowed (program >>= rest) memory other next := by
  obtain ⟨after, ran, consistent⟩ := yields
  obtain ⟨last, finished, final⟩ := continues after consistent
  exact ⟨last, (run_bind_ok _ _ _ _ _ ran).trans finished, final⟩

/-- The rule of sequencing after a part whose run is known. -/
theorem yields_run_bind {program : Heaped Value} {rest : Value → Heaped Other} {after : Memory}
    (ran : program.run memory = .ok (value, after))
    (continues : Yields borrowed (rest value) after other next) :
    Yields borrowed (program >>= rest) memory other next := by
  obtain ⟨last, finished, final⟩ := continues
  exact ⟨last, (run_bind_ok _ _ _ _ _ ran).trans finished, final⟩

theorem refines_pure {outcome : Value → Holding → Prop}
    (consistent : Consistent memory borrowed forest)
    (isOutcome : outcome value (memory.holding forest)) :
    Refines borrowed (pure value) memory outcome :=
  ⟨value, forest, memory, rfl, consistent, isOutcome⟩

theorem Refines.bind {program : Heaped Value} {rest : Value → Heaped Other}
    {outcome : Value → Holding → Prop} {last : Other → Holding → Prop}
    (refines : Refines borrowed program memory outcome)
    (continues : ∀ value middle after, outcome value (after.holding middle) →
      Consistent after borrowed middle → Refines borrowed (rest value) after last) :
    Refines borrowed (program >>= rest) memory last := by
  obtain ⟨value, middle, after, ran, consistent, isOutcome⟩ := refines
  obtain ⟨result, next, final, finished, kept, isLast⟩ :=
    continues value middle after isOutcome consistent
  exact ⟨result, next, final, (run_bind_ok _ _ _ _ _ ran).trans finished, kept, isLast⟩

theorem refines_run_bind {program : Heaped Value} {rest : Value → Heaped Other} {after : Memory}
    {last : Other → Holding → Prop} (ran : program.run memory = .ok (value, after))
    (continues : Refines borrowed (rest value) after last) :
    Refines borrowed (program >>= rest) memory last := by
  obtain ⟨result, next, final, finished, kept, isLast⟩ := continues
  exact ⟨result, next, final, (run_bind_ok _ _ _ _ _ ran).trans finished, kept, isLast⟩

variable (forest) in
/-- A program that asks for no memory refines what it yields. -/
theorem Yields.refines {program : Heaped Value} {outcome : Value → Holding → Prop}
    (yields : Yields borrowed program memory value next) (sparing : Sparing program)
    (isOutcome : ∀ after : Holding, after.forest = next → Keeps (memory.holding forest) after →
      outcome value after) : Refines borrowed program memory outcome := by
  obtain ⟨after, ran, consistent⟩ := yields
  exact ⟨value, next, after, ran, consistent,
    isOutcome _ rfl (keeps_of_spares (sparing _ _ _ ran) _ _)⟩

end Rules

/-! ### The functions that ask for no memory -/

section Plain

variable {memory : Memory} {borrowed : List Address} {forest next : List Branch}
  {array item newitem reply : Option Address} {done : Bool} {fuel : Nat}

/-- The items of a root are among those of the forest. -/
theorem size_le_of_perm {branch : Branch} {rest : List Branch}
    (root : forest.Perm (branch :: rest)) :
    (link [branch]).footprint.length ≤ (link forest).footprint.length := by
  have perm : (link forest).footprint.Perm (link (branch :: rest)).footprint :=
    collect_link_perm _ root
  rw [perm.length_eq, footprint_cons branch rest, List.length_append]
  exact Nat.le_add_right _ _

theorem Adds.yields (adds : Adds forest array item done next)
    (consistent : Consistent memory borrowed forest) :
    Yields borrowed (addItemToArray array item) memory done next := by
  cases adds with
  | refused void =>
    rw [addItemToArray, if_pos void]
    exact yields_pure consistent false
  | appended root container =>
    obtain ⟨after, ran, kept⟩ := (consistent.perm root).addItemToArray_run container
    exact ⟨_, ran, kept⟩

theorem Deletes.yields (deletes : Deletes forest item next)
    (consistent : Consistent memory borrowed forest)
    (enough : (link forest).footprint.length ≤ fuel) :
    Yields borrowed (cJSONDelete fuel item) memory ⟨⟩ next := by
  cases deletes with
  | null => exact ⟨memory, by cases fuel <;> rfl, consistent⟩
  | root root =>
    have ordered := consistent.perm root
    exact ⟨_, ordered.cJSONDelete_run ((size_le_of_perm root).trans enough), ordered.erase⟩

theorem Detaches.yields (detaches : Detaches forest array item reply next)
    (consistent : Consistent memory borrowed forest) :
    Yields borrowed (cJSONDetachItemViaPointer array item) memory reply next := by
  cases detaches with
  | refused void =>
    rw [cJSONDetachItemViaPointer, if_pos void]
    exact yields_pure consistent none
  | taken container =>
    obtain ⟨after, ran, kept⟩ := consistent.cJSONDetachItemViaPointer_run container
    exact ⟨_, ran, kept⟩

/-- Detaching keeps the items. -/
theorem Detaches.size_eq (detaches : Detaches forest array item reply next)
    (consistent : Consistent memory borrowed forest) :
    (link next).footprint.length = (link forest).footprint.length := by
  cases detaches with
  | refused => rfl
  | @taken target fields before behind branch container =>
    have perm : ([] ++ (before ++ branch :: behind)).Perm ([branch] ++ (before ++ behind)) :=
      List.perm_middle
    exact (container.collect_perm (fun address _ => [address]) (fun _ _ _ => rfl)
      consistent.shaped.distinct perm).length_eq

theorem Precedes.yields (precedes : Precedes forest array item newitem next)
    (consistent : Consistent memory borrowed forest) :
    Yields borrowed (linkBefore array item newitem) memory ⟨⟩ next := by
  cases precedes with
  | inserted root container =>
    obtain ⟨after, ran, kept⟩ := (consistent.perm root).linkBefore_run container
    exact ⟨_, ran, kept⟩

theorem Replaces.yields (replaces : Replaces forest array item newitem done next)
    (consistent : Consistent memory borrowed forest)
    (enough : (link forest).footprint.length ≤ fuel) :
    Yields borrowed (cJSONReplaceItemViaPointer fuel array item newitem) memory done next := by
  cases replaces with
  | refused void =>
    rw [cJSONReplaceItemViaPointer, if_pos void]
    exact yields_pure consistent false
  | same parent item =>
    rw [cJSONReplaceItemViaPointer, if_neg (by simp), if_pos rfl]
    exact yields_pure consistent true
  | replaced root container =>
    have ordered := consistent.perm root
    refine ordered.cJSONReplaceItemViaPointer_run container (le_trans ?_ enough)
    have perm : (link forest).footprint.Perm (link (_ :: _)).footprint := collect_link_perm _ root
    rw [perm.length_eq]
    exact (container.cons _).size_le ordered

theorem Sets.yields {number : Double} (sets : Sets forest number item next)
    (consistent : Consistent memory borrowed forest) :
    Yields borrowed (cJSONSetNumberHelper item number) memory number next := by
  cases sets with
  | set has defined =>
    obtain ⟨next, prev, present⟩ := (consistent.shaped.holds has).1
    rw [cJSONSetNumberHelper, defined]
    refine yields_run_bind (run_lift_ok _ _) (yields_run_bind (setFields_run (by simp [present]) _)
      (yields_pure (consistent.refill ?_ ?_ ?_ _) _))
    all_goals exact fun fields => by simp [ownedTexts, constantNames]

theorem ItemAt.run {index : Nat} (itemAt : ItemAt forest index array item)
    (consistent : Consistent memory borrowed forest) :
    (Memory.getArrayItem array index).run memory = .ok (item, memory) := by
  cases itemAt with
  | null => rfl
  | child container => exact container.getArrayItem_run consistent index

theorem ItemNamed.run {object string : Option Address} {caseSensitive : Bool}
    (itemNamed : ItemNamed memory.texts forest caseSensitive object string item)
    (consistent : Consistent memory borrowed forest)
    (enough : (link forest).footprint.length ≤ fuel) :
    (Memory.getObjectItem fuel object string caseSensitive).run memory = .ok (item, memory) := by
  cases itemNamed with
  | null void => exact getObjectItem_null void caseSensitive
  | child container isText =>
    exact container.getObjectItem_run consistent isText caseSensitive
      ((container.length_le consistent).trans enough)

end Plain

/-! ### The functions that ask for memory -/

section Allocating

variable {allocator : Allocator} {memory : Memory} {borrowed : List Address} {forest : List Branch}

/-- An item that owns nothing is created and filled in. -/
theorem createWith_refines {maker : Maker} {change : Fields → Fields}
    (consistent : Consistent memory borrowed forest) (plain : maker.source = none)
    (fields : change {} = maker.fields none) (owns : Owns (change {}) .null)
    (texts : ownedTexts (change {}) = []) (constants : constantNames (change {}) = []) :
    Refines borrowed (createWith allocator change) memory
      (Makes (memory.holding forest) maker) := by
  cases asked : allocator.item memory with
  | none =>
    refine refines_run_bind (cJSONNewItem_refused asked) ?_
    exact refines_pure consistent.refused (.starved (starves_refused memory forest))
  | some address =>
    have fresh := allocator.itemFresh memory address asked
    refine ⟨some address, _, _, createWith_run change asked,
      consistent.place fresh owns texts constants, .made address plain (fields ▸ rfl) ?_⟩
    exact ⟨fun _ => .inl rfl, rfl⟩

/-- What was live stays live when there is a further root. -/
theorem Live.cons {string : Option Address} (live : Live forest borrowed string) (branch : Branch) :
    Live (branch :: forest) borrowed string := by
  obtain ⟨text, isString, member⟩ := live
  refine ⟨text, isString, ?_⟩
  rw [texts_cons, List.append_assoc]
  exact List.mem_append_right _ member

/-- What a copy of a string leaves of the texts, when others are freed. -/
theorem copiesText_lend {source key : Address} {text : CString} (gone : List Address)
    (after : Memory) (isText : memory.texts source = some text) (fresh : memory.texts key = none)
    (live : ∀ lost ∈ gone, memory.texts lost ≠ none)
    (texts : after.texts = ((memory.lend key text).erase [] gone).texts)
    (refusals : after.refusals = memory.refusals) (forest next : List Branch) :
    CopiesText (memory.holding forest) (after.holding next) source key := by
  refine ⟨⟨text, isText, ?_⟩, fun other apart => ?_, refusals⟩
  · refine (congrFun texts key).trans ((if_neg fun isLost => ?_).trans (if_pos rfl))
    exact live key isLost fresh
  · show after.texts other = _ ∨ after.texts other = none
    rw [texts]
    by_cases isLost : other ∈ gone
    · exact .inr (if_pos isLost)
    · exact .inl ((if_neg isLost).trans (if_neg apart))

/-- A new item that gets no text is deleted again, and everything is as it was. -/
theorem dropTextless {type : ItemType} {address : Address}
    (kept : Consistent memory borrowed (⟨address, { type }, .null⟩ :: forest)) :
    ∃ middle last, (setFields (some address) fun fields =>
        { fields with valuestring := none }).run memory = .ok (⟨⟩, middle) ∧
      (cJSONDelete 1 (some address)).run middle = .ok (⟨⟩, last) ∧
      Consistent last borrowed forest ∧ last.holding forest = memory.holding forest := by
  have present := kept.shaped.loose _ List.mem_cons_self
  have emptied := Consistent.exchange [] [] (fun fields => { fields with valuestring := none })
    kept (fun _ => ⟨rfl, rfl⟩) (.refl _) kept.owned.constant (List.nil_subset _)
  rw [erase_nil] at emptied
  refine ⟨_, _, setFields_run (present.trans_ne (Option.some_ne_none _)) _,
    emptied.cJSONDelete_run (by simp [footprint, link, collect]), emptied.erase, ?_⟩
  simp [holding, erase, Layout.texts, link, collect, ownedTexts]

/-- An item with a copy of a text is created, or deleted again for want of the text. -/
theorem createWithText_refines {maker : Maker} {type : ItemType} {string : Option Address}
    (consistent : Consistent memory borrowed forest) (isText : maker.source = some string)
    (fields : ∀ copy, maker.fields (some copy) = { type, valuestring := some copy })
    (ready : string = none ∨ Live forest borrowed string) :
    Refines borrowed (createWithText allocator type string) memory
      (Makes (memory.holding forest) maker) := by
  cases asked : allocator.item memory with
  | none =>
    refine refines_run_bind (cJSONNewItem_refused asked) ?_
    exact refines_pure consistent.refused (.starved (starves_refused memory forest))
  | some address =>
    have fresh := allocator.itemFresh memory address asked
    have typed : Consistent (memory.place address { type }) borrowed
        (⟨address, { type }, .null⟩ :: forest) := consistent.place fresh rfl rfl rfl
    have present : (memory.place address {}).items address ≠ none := by simp [place_items_self]
    have isTyped := (memory.place_items_self address { type }).trans_ne (Option.some_ne_none _)
    have typing := setFields_run present fun fields => { fields with type }
    rw [place_refill] at typing
    refine refines_run_bind (cJSONNewItem_run asked) ?_
    rw [if_neg (Option.some_ne_none _)]
    refine refines_run_bind typing ?_
    cases string with
    | none =>
      obtain ⟨middle, last, silenced, deleted, kept, same⟩ := dropTextless typed
      refine refines_run_bind rfl (refines_run_bind silenced (refines_run_bind deleted ?_))
      refine refines_pure kept ?_
      rw [same]
      exact .textless isText
    | some source =>
      obtain ⟨text, isSource⟩ := (ready.resolve_left (Option.some_ne_none _)).text consistent
      cases given : allocator.text (memory.place address { type }) with
      | none =>
        obtain ⟨middle, last, silenced, deleted, kept, same⟩ := dropTextless typed.refused
        refine refines_run_bind (cJSONStrdup_refused isSource given)
          (refines_run_bind silenced (refines_run_bind deleted ?_))
        refine refines_pure kept (.starved ?_)
        rw [same]
        exact starves_refused memory forest
      | some key =>
        have unused := allocator.textFresh _ _ given
        have isLent : ((memory.place address { type }).lend key text).items address ≠ none :=
          isTyped
        refine refines_run_bind (cJSONStrdup_run isSource given)
          (refines_run_bind (setFields_run isLent _) ?_)
        have filled := Consistent.exchange [key] []
          (fun fields => { fields with valuestring := some key }) (typed.lend unused text)
          (fun _ => ⟨rfl, rfl⟩) (.refl _) typed.owned.constant (List.nil_subset _)
        rw [erase_nil] at filled
        rw [if_neg (Option.some_ne_none _)]
        have copies := copiesText_lend [] (((memory.place address { type }).lend key text).refill
          address fun fields => { fields with valuestring := some key }) isSource unused (by simp)
          (by rw [erase_nil]; rfl) rfl
        exact refines_pure filled (.copied address key isText (fields key ▸ rfl)
          (copies _ _))

theorem Maker.create_refines (maker : Maker) (consistent : Consistent memory borrowed forest)
    (ready : maker.Ready forest borrowed) :
    Refines borrowed (maker.create allocator) memory (Makes (memory.holding forest) maker) := by
  cases maker with
  | number num =>
    obtain ⟨valueint, defined⟩ := intOfDouble_ok ready
    rw [Maker.create, cJSONCreateNumber_eq defined]
    exact createWith_refines consistent rfl (by rw [Maker.fields, defined]; rfl) rfl rfl rfl
  | string text => exact createWithText_refines consistent rfl (fun _ => rfl) ready
  | raw text => exact createWithText_refines consistent rfl (fun _ => rfl) ready
  | _ => exact createWith_refines consistent rfl rfl rfl rfl rfl

/-- A reference is a new item with the fields of the one it refers to. -/
theorem createReference_run {target address : Address} {cell : Cell Address Fields}
    (present : memory.items target = some cell) (asked : allocator.item memory = some address) :
    (createReference allocator (some target)).run memory =
      .ok (some address, memory.place address (referenceTo cell.value)) := by
  have fresh := allocator.itemFresh memory address asked
  have apart : target ≠ address := fun same => by simp [same, fresh] at present
  have kept : (memory.place address {}).items target = some cell := (if_neg apart).trans present
  have isNew := (memory.place_items_self address {}).trans_ne (Option.some_ne_none _)
  have placed : (memory.place address {}).withItems ((memory.place address {}).items.alter
      address fun _ => ⟨none, none, referenceTo cell.value⟩) =
        memory.place address (referenceTo cell.value) := by
    simp only [place, withItems, Memory.mk.injEq, and_true]
    funext other
    unfold Heap.alter
    split_ifs with here <;> simp [here]
  rw [createReference, if_neg (Option.some_ne_none _),
    run_bind_ok _ _ _ _ _ (cJSONNewItem_run asked), if_neg (Option.some_ne_none _),
    run_bind_ok _ _ _ _ _ (run_follow kept), run_bind_ok _ _ _ _ _ (run_assign isNew _)]
  exact congrArg (fun last => Except.ok (some address, last)) placed

theorem createReference_refines {item : Option Address}
    (consistent : Consistent memory borrowed forest) (reaches : item = none ∨ Reaches forest item) :
    Refines borrowed (createReference allocator item) memory
      (Refers (memory.holding forest) item) := by
  rcases reaches with rfl | ⟨target, fields, children, rfl, has⟩
  · exact refines_pure consistent .null
  · cases asked : allocator.item memory with
    | none =>
      refine refines_run_bind (cJSONNewItem_refused asked) ?_
      exact refines_pure consistent.refused (.starved _ (starves_refused memory forest))
    | some address =>
      obtain ⟨next, prev, present⟩ := (consistent.shaped.holds has).1
      refine ⟨_, _, _, createReference_run present asked, consistent.place
        (allocator.itemFresh memory address asked) ?_ ?_ ?_, .made address has rfl
          ⟨fun _ => .inl rfl, rfl⟩⟩
      · simp [Owns, referenceTo]
      · exact (List.nil_append _).trans (ite_self _)
      · exact ite_self _

/-- The name an item loses. -/
def lostName (fields : Fields) : List Address :=
  if fields.stringIsConst then [] else fields.string.toList

/-- A new name that is no constant is owned, and the old one no longer is. -/
theorem takes_named (fields : Fields) (key : Address) (constantKey : Bool) :
    (ownedTexts fields ++ if constantKey then [] else [key]).Perm
      (lostName fields ++ ownedTexts (named key constantKey fields)) := by
  have old : ownedTexts fields =
      (if fields.isReference then [] else fields.valuestring.toList) ++ lostName fields := rfl
  have new : ownedTexts (named key constantKey fields) =
      (if fields.isReference then [] else fields.valuestring.toList) ++
        if constantKey then [] else [key] := rfl
  rw [old, new, ← List.append_assoc]
  exact List.perm_append_comm.append_right _

/-- What names an item loses can be read. -/
theorem Consistent.lostName_live {rest : List Branch} {branch : Branch}
    (consistent : Consistent memory borrowed (branch :: rest)) :
    ∀ text ∈ lostName branch.fields, memory.texts text ≠ none := fun text member => by
  refine (consistent.owned.allocated text).mpr (List.mem_append_left _ ?_)
  exact List.mem_append_left _ (List.mem_append_left _ (List.mem_append_right _ member))

/-- The old name of a root is freed, the new one set, and the root appended. -/
theorem addNamed_run {rest : List Branch} {branch : Branch}
    {target key : Address} {fields : Fields} {children : List Branch} {constantKey : Bool}
    (consistent : Consistent memory ((if constantKey then [] else [key]) ++ borrowed)
      (branch :: rest))
    (container : Container rest target fields children)
    (constant : (link (branch :: rest)).constants ⊆ borrowed)
    (constants : constantNames (named key constantKey branch.fields) ⊆ borrowed) :
    ∃ after, (addNamed (some target) (some branch.address) (some key) constantKey).run memory =
        .ok (true, after) ∧
      Consistent after borrowed (withChildren rest target
        (children ++ [{ branch with fields := named key constantKey branch.fields }])) ∧
      after.texts = (memory.erase [] (lostName branch.fields)).texts ∧
      after.refusals = memory.refusals := by
  have cell := consistent.shaped.loose branch List.mem_cons_self
  have present : (memory.erase [] (lostName branch.fields)).items branch.address ≠ none := by
    simp [erase, cell]
  have renamed := Consistent.exchange _ (lostName branch.fields) (named key constantKey)
    consistent (fun _ => ⟨rfl, rfl⟩) (takes_named _ _ _) constant constants
  obtain ⟨after, ran, kept⟩ := renamed.addItemToArray_run container
  refine ⟨_, ?_, kept, rfl, rfl⟩
  exact (run_bind_ok _ _ _ _ _ (run_follow cell)).trans ((run_bind_ok _ _ _ _ _
    (releaseText_run _ consistent.lostName_live)).trans ((run_bind_ok _ _ _ _ _
      (setFields_run present _)).trans ran))

variable (allocator) in
theorem addItemToObject_refines {object string item : Option Address} {constantKey : Bool}
    (consistent : Consistent memory borrowed forest)
    (allowed : Nameable forest borrowed constantKey object string item) :
    Refines borrowed (Memory.addItemToObject allocator object string item constantKey) memory
      (AddsNamed (memory.holding forest) constantKey object string item) := by
  by_cases void : object = none ∨ string = none ∨ item = none ∨ object = item
  · rw [Memory.addItemToObject, if_pos void]
    exact refines_pure consistent (.refused void)
  obtain ⟨isApart, live, isKey⟩ : Apart forest object item ∧ Live forest borrowed string ∧
      (constantKey = true → ∃ key ∈ borrowed, string = some key) := by
    unfold Nameable at allowed
    tauto
  obtain ⟨rest, branch, root, rfl, target, fields, children, rfl, container⟩ := isApart
  have ordered := consistent.perm root
  have constant := ordered.owned.constant
  rw [Memory.addItemToObject, if_neg void]
  cases constantKey with
  | true =>
    obtain ⟨key, isBorrowed, rfl⟩ := isKey rfl
    rw [if_pos rfl]
    have constants : constantNames (named key true branch.fields) ⊆ borrowed := by
      simpa [constantNames, named] using isBorrowed
    obtain ⟨after, ran, kept, -⟩ := addNamed_run ordered container constant constants
    refine ⟨true, _, after, ran, kept, .appended key root container rfl ⟨key, rfl, rfl, ?_⟩⟩
    exact keeps_of_spares (addNamed_sparing _ _ _ _ _ _ _ ran) _ _
  | false =>
    rw [if_neg Bool.false_ne_true]
    obtain ⟨source, rfl⟩ := Option.ne_none_iff_exists'.mp fun null => void (.inr (.inl null))
    obtain ⟨text, isText⟩ := live.text consistent
    cases asked : allocator.text memory with
    | none =>
      refine refines_run_bind (cJSONStrdup_refused isText asked) ?_
      rw [if_pos rfl]
      exact refines_pure consistent.refused
        (.starved _ _ _ rfl (starves_refused memory forest))
    | some key =>
      have unused := allocator.textFresh _ _ asked
      have lent : Consistent (memory.lend key text)
          ((if false = true then [] else [key]) ++ borrowed) (branch :: rest) :=
        ordered.lend unused text
      obtain ⟨after, ran, kept, texts, refusals⟩ :=
        addNamed_run lent container constant (List.nil_subset _)
      refine refines_run_bind (cJSONStrdup_run isText asked) ?_
      rw [if_neg (Option.some_ne_none _)]
      refine ⟨true, _, after, ran, kept, .appended key root container rfl ⟨source, rfl, ?_⟩⟩
      exact copiesText_lend _ after isText unused ordered.lostName_live texts refusals _ _

theorem lostName_nameless (fields : Fields) : lostName (nameless fields) = [] := ite_self _

theorem constantNames_nameless (fields : Fields) : constantNames (nameless fields) = [] :=
  ite_self _

/-- A root loses its name. -/
theorem Consistent.loseName {branch : Branch}
    (consistent : Consistent memory borrowed (branch :: forest)) :
    Consistent ((memory.erase [] (lostName branch.fields)).refill branch.address nameless) borrowed
      ({ branch with fields := nameless branch.fields } :: forest) := by
  refine Consistent.exchange [] _ _ consistent (fun _ => ⟨rfl, rfl⟩) ?_ consistent.owned.constant ?_
  · have new : ownedTexts (nameless branch.fields) =
        (if branch.fields.isReference then [] else branch.fields.valuestring.toList) ++
          lostName (nameless branch.fields) := rfl
    rw [new, lostName_nameless, List.append_nil, List.append_nil]
    exact List.perm_append_comm
  · rw [constantNames_nameless]
    exact List.nil_subset _

/-- A root gets a name of its own in the place of its old one. -/
theorem Consistent.rename {branch : Branch} {key : Address}
    (consistent : Consistent memory borrowed (branch :: forest)) (text : CString)
    (unused : (memory.erase [] (lostName branch.fields)).texts key = none) :
    Consistent (((memory.erase [] (lostName branch.fields)).lend key text).refill branch.address
        (named key false)) borrowed
      ({ branch with fields := named key false branch.fields } :: forest) := by
  have unused' : ((memory.erase [] (lostName branch.fields)).refill branch.address
      nameless).texts key = none := unused
  have renamed := Consistent.exchange [key] [] (named key false)
    (consistent.loseName.lend unused' text) (fun _ => ⟨rfl, rfl⟩) ?_
    consistent.loseName.owned.constant (List.nil_subset _)
  · have same : (((memory.erase [] (lostName branch.fields)).refill branch.address
        nameless).lend key text).refill branch.address (named key false) =
          ((memory.erase [] (lostName branch.fields)).lend key text).refill branch.address
            (named key false) :=
      refill_refill ((memory.erase [] (lostName branch.fields)).lend key text) branch.address _ _
    rw [erase_nil, same] at renamed
    exact renamed
  · have takes := takes_named (nameless branch.fields) key false
    rwa [lostName_nameless] at takes

/-- The search for the child that a named root replaces. -/
theorem searchReplaced {object : Option Address} {name : Address} {text : CString} {branch : Branch}
    {fuel : Nat} (caseSensitive : Bool) (consistent : Consistent memory borrowed (branch :: forest))
    (opens : object = none ∨ Opens forest object) (isText : memory.texts name = some text)
    (enough : (link (branch :: forest)).footprint.length ≤ fuel) :
    ∃ item done next,
      ItemNamed memory.texts (branch :: forest) caseSensitive object (some name) item ∧
      Replaces (branch :: forest) object item (some branch.address) done next ∧
      (Memory.getObjectItem fuel object (some name) caseSensitive).run memory =
        .ok (item, memory) := by
  rcases opens with rfl | ⟨target, fields, children, rfl, container⟩
  · exact ⟨none, false, _, .null (.inl rfl), .refused (.inl rfl), getObjectItem_null (.inl rfl) _⟩
  have named :
      ItemNamed memory.texts (branch :: forest) caseSensitive (some target) (some name) _ :=
    .child (container.cons branch) isText
  have ran := named.run consistent enough
  cases found : memberNamed memory.texts caseSensitive text children with
  | none =>
    rw [found] at named ran
    exact ⟨none, false, _, named, .refused (.inr (.inr rfl)), ran⟩
  | some other =>
    obtain ⟨before, behind, rfl⟩ := List.append_of_mem (memberNamed_mem found)
    rw [found] at named ran
    exact ⟨some other.address, true, _, named, .replaced (.refl _) container, ran⟩

theorem replaceItemInObject_refines {object string replacement : Option Address}
    {caseSensitive : Bool} {fuel : Nat} (consistent : Consistent memory borrowed forest)
    (enough : (link forest).footprint.length ≤ fuel)
    (allowed : replacement = none ∨ string = none ∨ ∃ rest branch, forest.Perm (branch :: rest) ∧
      replacement = some branch.address ∧ Live forest borrowed string ∧
      (branch.fields.stringIsConst = false → string ≠ branch.fields.string) ∧
      (object = none ∨ Opens rest object)) :
    Refines borrowed
      (Memory.replaceItemInObject allocator fuel object string replacement caseSensitive) memory
      (ReplacesNamed (memory.holding forest) object string replacement caseSensitive) := by
  by_cases void : replacement = none ∨ string = none
  · rw [Memory.replaceItemInObject, if_pos void]
    refine refines_pure consistent ?_
    rw [ReplacesNamed, if_pos void]
    exact ⟨rfl, rfl⟩
  obtain ⟨rest, branch, root, rfl, live, apart, opens⟩ :=
    (allowed.resolve_left fun null => void (.inl null)).resolve_left fun null => void (.inr null)
  obtain ⟨name, rfl⟩ := Option.ne_none_iff_exists'.mp fun absent => void (.inr absent)
  obtain ⟨text, isText⟩ := live.text consistent
  have ordered := consistent.perm root
  have cell := ordered.shaped.loose branch List.mem_cons_self
  have kept : name ∉ lostName branch.fields := fun isLost => by
    unfold lostName at isLost
    split_ifs at isLost with isConst
    · cases isLost
    · exact apart (by simpa using isConst) (Option.mem_toList.mp isLost).symm
  have readable := (memory.erase_texts_of_not_mem [] kept).trans isText
  have freed : ∀ other, (memory.erase [] (lostName branch.fields)).texts other =
      memory.texts other ∨ (memory.erase [] (lostName branch.fields)).texts other = none :=
    fun other => by
      by_cases isLost : other ∈ lostName branch.fields
      · exact .inr (if_pos isLost)
      · exact .inl (if_neg isLost)
  have setting (after : Memory) (change : Fields → Fields)
      (same : after.items branch.address = memory.items branch.address) :
      (setFields (some branch.address) change).run after =
        .ok (⟨⟩, after.refill branch.address change) :=
    setFields_run (same ▸ cell ▸ Option.some_ne_none _) change
  rw [Memory.replaceItemInObject, if_neg void]
  refine refines_run_bind (run_follow cell)
    (refines_run_bind (releaseText_run _ ordered.lostName_live) ?_)
  cases asked : allocator.text (memory.erase [] (lostName branch.fields)) with
  | none =>
    refine refines_run_bind (cJSONStrdup_refused readable asked)
      (refines_run_bind (setting _ _ rfl) ?_)
    rw [if_pos rfl]
    refine refines_pure ordered.loseName.refused ?_
    rw [ReplacesNamed, if_neg void]
    exact ⟨false, _, .starved name root rfl freed (Nat.lt_succ_self _), rfl, rfl⟩
  | some key =>
    have unused := allocator.textFresh _ _ asked
    have renamed := ordered.rename text unused
    have perm : (link forest).footprint.Perm (link (branch :: rest)).footprint :=
      collect_link_perm _ root
    have copies : CopiesText (memory.holding forest)
        ((((memory.erase [] (lostName branch.fields)).lend key text).refill branch.address
          (named key false)).holding
            ({ branch with fields := named key false branch.fields } :: rest)) name key := by
      refine ⟨⟨text, isText, if_pos rfl⟩, fun other isOther => ?_, rfl⟩
      exact (freed other).imp (if_neg isOther).trans (if_neg isOther).trans
    have stillText : (((memory.erase [] (lostName branch.fields)).lend key text).refill
        branch.address (named key false)).texts name = some text := by
      by_cases here : name = key
      · exact if_pos here
      · exact (if_neg here).trans readable
    obtain ⟨item, done, next, itemNamed, replaces, searched⟩ := searchReplaced caseSensitive
      renamed opens stillText (perm.length_eq ▸ enough)
    refine refines_run_bind (cJSONStrdup_run readable asked) (refines_run_bind (setting _ _ rfl) ?_)
    rw [if_neg (Option.some_ne_none _)]
    have present : ((memory.erase [] (lostName branch.fields)).lend key text).items
        branch.address ≠ none := cell.trans_ne (Option.some_ne_none _)
    refine refines_run_bind (setFields_run (Heap.alter_ne_none _ _ present) _) ?_
    rw [refill_refill]
    refine refines_run_bind searched ((replaces.yields renamed (perm.length_eq ▸ enough)).refines
      ({ branch with fields := named key false branch.fields } :: rest)
      (cJSONReplaceItemViaPointer_sparing _ _ _ _) fun after isNext keeps => ?_)
    rw [ReplacesNamed, if_neg void]
    exact ⟨true, _, .renamed key root rfl copies, item, itemNamed, isNext ▸ replaces, keeps⟩

end Allocating

end DiffServSimulation
