/-
This file proves that the vendored JSON library builds an item with a list of
children one child at a time, or gives up without a trace.

Each child is created by a program of its own, which leaves a new root that mirrors
a node, or every block as it was. The loop over the children keeps the item mirror
the nodes done so far. At its end the ring is closed, and when a child could not be
created the item is deleted again. The functions that create an array of numbers or
strings are such loops.
-/

import DiffServSimulation.CjsonGrowth
import DiffServSimulation.CjsonRefusals
import DiffServSimulation.CjsonView

namespace DiffServSimulation

open Faulting LinkedRing Layout Memory DecimalNumber

/-- What creating an item leaves: a new root that mirrors a node, or every block as it was. -/
def Created (borrowed : List Address) (before : Memory) (node : Item) (reply : Option Address)
    (after : Memory) : Prop :=
  (reply = none ∧ SameBlocks before after) ∨ ∃ root, reply = some root.address ∧
    Grown before after root (back none root.child.entries) ∧
    (link [root]).Mirrors borrowed after.texts (CJSON.root node)

/-- What creating an item leaves of a forest: the forest as it was, when a request was refused, or
the forest with a root that mirrors a node. Deleting the root restores every block. -/
def Joined (borrowed : List Address) (forest : List Branch) (before : Memory) (fuel : Nat)
    (node : Item) (reply : Option Address) (after : Memory) : Prop :=
  (reply = none ∧ before.refusals < after.refusals ∧ SameBlocks before after ∧
      Consistent after borrowed forest) ∨
    ∃ root, reply = some root.address ∧ after.refusals = before.refusals ∧ Extends before after ∧
      Consistent after borrowed (root :: forest) ∧
      (link [root]).Mirrors borrowed after.texts (CJSON.root node) ∧
      Shows borrowed after reply (CJSON.root node) ∧
      ∃ last, (cJSONDelete fuel reply).run after = .ok (⟨⟩, last) ∧ SameBlocks before last

/-- What a loop over children leaves: the root with all of them, or with some of them. -/
def Continued (borrowed : List Address) (before middle : Memory) (root : Branch) (done : List Item)
    (tree : CJSON) (reply : Option (Option Address)) (after : Memory) : Prop :=
  ∃ grown more, grown.address = root.address ∧
    (∃ child, grown.fields = { root.fields with child := child }) ∧
    Grown before after grown none ∧
    grown.child.Mirrors borrowed after.texts (CJSON.link (done ++ more)) ∧
    (∀ text, middle.texts text ≠ none → after.texts text = middle.texts text) ∧
    ((reply = some (back none grown.child.entries) ∧ more = tree.chain) ∨
      (reply = none ∧ (CJSON.link more).nodes ≤ tree.nodes))

section Creation

variable {allocator : Allocator} {borrowed : List Address} {before middle after : Memory}
  {root child : Branch} {address : Address} {fields : Fields} {node : Item} {done : List Item}
  {tree : CJSON} {fuel : Nat}

theorem Grown.extends {start : Option Address} (grown : Grown before after root start) :
    Extends before after :=
  ⟨fun _ present => grown.kept present, fun _ present => grown.keptTexts present⟩

/-- What was created joins a forest, when the program that created it tells of refused requests. -/
theorem joined_of_created {forest : List Branch} {program : Heaped (Option Address)}
    (completes : Completes program before (Created borrowed before node))
    (tells : Tells (· = none) program) (consistent : Consistent before borrowed forest)
    (enough : node.child.nodes + 1 ≤ fuel) :
    Completes program before (Joined borrowed forest before fuel node) := by
  refine (completes.and_relates tells).mono ?_
  rintro reply after ⟨⟨rfl, same⟩ | ⟨root, rfl, grown, mirrors⟩, more, told⟩
  · exact .inl ⟨rfl, told.mp rfl, same, consistent.same same⟩
  · have granted : after.refusals = before.refusals :=
      le_antisymm (not_lt.mp (mt told.mpr (Option.some_ne_none _))) more
    have bound : (link [root]).footprint.length ≤ fuel := by
      rw [mirrors.length_footprint, CJSON.root, CJSON.link, CJSON.link, CJSON.nodes, CJSON.nodes,
        Nat.zero_add]
      exact enough
    exact .inr ⟨root, rfl, granted, grown.extends,
      grown.consistent consistent mirrors.constants_subset, mirrors,
      mirrors.shows grown.segment grown.hung, grown.delete_run bound⟩

/-- A root mirrors a node if its children mirror the ones of the node. -/
theorem mirrors_root {texts others : Address → Option CString}
    (owner : fields.isReference = false) (legible : Legible borrowed texts fields)
    (kept : ∀ text, texts text ≠ none → others text = texts text)
    (same : ∃ child, root.fields = { fields with child := child })
    (children : root.child.Mirrors borrowed others tree) :
    (link [root]).Mirrors borrowed others (CJSON.root ⟨fields.data texts, tree⟩) := by
  obtain ⟨child, same⟩ := same
  rw [← legible.data_eq kept]
  obtain ⟨address, _, children⟩ := root
  obtain rfl : _ = _ := same
  exact .node owner ((legible.withChild child).keep kept) ‹_› .null

/-- An item without children that cannot be finished is given up. -/
theorem Grown.abandon_completes (grown : Grown before middle ⟨address, fields, .null⟩ none) :
    Completes (abandon (fuel + 1) (some address)) middle (Created borrowed before node) := by
  have bound : (link [⟨address, fields, .null⟩]).footprint.length ≤ fuel + 1 := by
    rw [footprint_singleton]
    exact Nat.succ_le_succ (Nat.zero_le fuel)
  obtain ⟨last, ran, restored⟩ := grown.abandon_run bound
  exact ⟨none, last, ran, .inl ⟨rfl, restored⟩⟩

/-! ### A list of children -/

/-- A loop that could not create its next child leaves what there was. -/
theorem Continued.stopped (grown : Grown before middle root none)
    (mirrors : root.child.Mirrors borrowed middle.texts (CJSON.link done))
    (same : SameBlocks middle after) :
    Continued borrowed before middle root done tree none after := by
  refine ⟨root, [], rfl, ⟨_, rfl⟩, grown.same same, ?_, fun _ _ => congrFun same.2 _,
    .inr ⟨rfl, Nat.zero_le _⟩⟩
  rw [List.append_nil, same.2]
  exact mirrors

/-- A loop without a next child ends. -/
theorem Continued.ended (grown : Grown before middle root none)
    (mirrors : root.child.Mirrors borrowed middle.texts (CJSON.link done)) :
    Continued borrowed before middle root done .null (some (back none root.child.entries))
      middle := by
  refine ⟨root, [], rfl, ⟨_, rfl⟩, grown, ?_, fun _ _ => rfl, .inl ⟨rfl, rfl⟩⟩
  rwa [List.append_nil]

/-- One more child is put behind the others, and the loop goes on. -/
theorem Grown.chainChild_completes {rest : PUnit → Heaped (Option (Option Address))}
    (grown : Grown before middle root none) (owner : root.fields.isReference = false)
    (mirrors : root.child.Mirrors borrowed middle.texts (CJSON.link done))
    (inner : Grown middle after child (back none child.child.entries))
    (copy : (link [child]).Mirrors borrowed after.texts (CJSON.root node))
    (continues : ∀ last, Grown before last (root.with child) none →
      (root.with child).child.Mirrors borrowed last.texts (CJSON.link (done ++ [node])) →
      back none (root.with child).child.entries = some child.address →
      Completes (rest ⟨⟩) last
        (Continued borrowed before last (root.with child) (done ++ [node]) tree)) :
    Completes (chainChild (some root.address) (back none root.child.entries)
        (some child.address) >>= rest) after
      (Continued borrowed before middle root done (.node tree node.child node.toItemData)) := by
  obtain ⟨last, chained, texts, joined⟩ := grown.chainChild_run inner owner
  have kept : ∀ text, middle.texts text ≠ none → last.texts text = middle.texts text :=
    fun text old => (congrFun texts text).trans (inner.keptTexts old)
  have isBack : back none (root.with child).child.entries = some child.address := by
    rw [Branch.with, entries_link_append]
    exact back_singleton none _ _ _
  have shown : (root.with child).child.Mirrors borrowed last.texts
      (CJSON.link (done ++ [node])) := by
    have both := (mirrors.keep kept).append (texts ▸ copy)
    rwa [CJSON.chain_link, CJSON.root, CJSON.chain_link, branches_link] at both
  refine completes_run_bind chained ((continues last joined shown isBack).mono ?_)
  rintro reply final ⟨grown, more, isRoot, ⟨child, fields⟩, final, mirrors, still, ending⟩
  refine ⟨grown, node :: more, isRoot, ⟨child, fields⟩, final, ?_, fun text old => ?_, ?_⟩
  · rwa [List.append_assoc] at mirrors
  · exact (still text (kept text old ▸ old)).trans (kept text old)
  · rcases ending with ⟨rfl, rfl⟩ | ⟨rfl, small⟩
    · exact .inl ⟨rfl, rfl⟩
    · exact .inr ⟨rfl, Nat.succ_le_succ (Nat.add_le_add_right small _)⟩

/-- Behind the loop the ring is closed, or the root is given up. -/
theorem Continued.finish {reply : Option (Option Address)}
    (continued : Continued borrowed before middle ⟨address, fields, .null⟩ [] tree reply after)
    (owner : fields.isReference = false) (legible : Legible borrowed middle.texts fields)
    (enough : tree.nodes ≤ fuel) :
    Completes (finishChain (fuel + 1) (some address) reply) after
      (Created borrowed before ⟨fields.data middle.texts, tree⟩) := by
  obtain ⟨root, more, rfl, same, growing, mirrors, kept, ending⟩ := continued
  rw [List.nil_append] at mirrors
  rcases ending with ⟨rfl, rfl⟩ | ⟨rfl, small⟩
  · obtain ⟨final, finished, texts, closed⟩ := growing.finishChain_run (by
      obtain ⟨child, same⟩ := same
      rw [same, owner])
    rw [CJSON.link_chain] at mirrors
    exact ⟨_, final, finished, .inr ⟨root, rfl, closed, mirrors_root owner legible (texts ▸ kept)
      same (texts ▸ mirrors)⟩⟩
  · have bound : (link [root]).footprint.length ≤ fuel + 1 := by
      rw [footprint_singleton, List.length_cons, mirrors.length_footprint]
      exact Nat.succ_le_succ (small.trans enough)
    obtain ⟨final, abandoned, restored⟩ := growing.abandon_run bound
    exact ⟨none, final, abandoned, .inl ⟨rfl, restored⟩⟩

/-! ### Strings of an unfinished item -/

variable (allocator) in
/-- A string is copied into a field of an unfinished root, or the request for it is refused. -/
theorem Grown.copyText_run (grown : Grown before middle root none) {string : Address}
    {text : CString} (present : middle.texts string = some text)
    (change : Option Address → Fields → Fields)
    (keeps : ∀ copy, (change copy root.fields).child = root.fields.child ∧
      (change copy root.fields).isReference = root.fields.isReference)
    (takes : ∀ copy, (ownedTexts (change copy root.fields)).Perm
      (copy.toList ++ ownedTexts root.fields)) :
    ∃ copy asked last, (cJSONStrdup allocator (some string)).run middle = .ok (copy, asked) ∧
      (setFields (some root.address) (change copy)).run asked = .ok (⟨⟩, last) ∧
      Grown before last { root with fields := change copy root.fields } none ∧
      (∀ other, middle.texts other ≠ none → last.texts other = middle.texts other) ∧
      ∀ new, copy = some new → last.texts new = some text := by
  have item : middle.items root.address ≠ none := grown.present List.mem_cons_self
  cases given : allocator.text middle with
  | none =>
    exact ⟨none, middle.refused, _, cJSONStrdup_refused present given,
      setFields_run (show middle.refused.items root.address ≠ none from item) _,
      grown.refill (change none) [] (keeps none) (takes none) rfl (by simp) List.nodup_nil (by simp)
        fun _ _ => rfl, fun _ _ => rfl, by simp⟩
  | some new =>
    have fresh := allocator.textFresh middle new given
    have others : ∀ other, other ≠ new →
        ((middle.lend new text).refill root.address (change (some new))).texts other =
          middle.texts other := fun other apart => if_neg apart
    have here : ((middle.lend new text).refill root.address (change (some new))).texts new =
        some text := if_pos rfl
    refine ⟨some new, middle.lend new text, _, cJSONStrdup_run present given,
      setFields_run (show (middle.lend new text).items root.address ≠ none from item) _,
      grown.refill (change (some new)) [new] (keeps (some new)) (takes (some new)) rfl ?_
        (List.nodup_singleton new) ?_ fun other absent => others other ?_, fun other old => ?_, ?_⟩
    · exact fun other member => List.mem_singleton.mp member ▸ fresh
    · exact fun other member =>
        List.mem_singleton.mp member ▸ here.trans_ne (Option.some_ne_none text)
    · exact fun same => absent (List.mem_singleton.mpr same)
    · exact others other fun same => old (same ▸ fresh)
    · exact fun other same => Option.some.inj same ▸ here

/-! ### Arrays of numbers and strings -/

/-- The node of a number. -/
def numberNode (num : Double) (valueint : Int32) : Item where
  type := .number
  valuedouble := num
  valueint := valueint

/-- The node of a string. -/
def stringNode (text : CString) : Item where
  type := .string
  valuestring := some text

/-- An item without strings is created. -/
theorem createWith_completes (change : Fields → Fields) (owner : (change {}).isReference = false)
    (child : (change {}).child = none) (valuestring : (change {}).valuestring = none)
    (string : (change {}).string = none) :
    Completes (createWith allocator change) before
      (Created borrowed before ⟨(change {}).data before.texts, .null⟩) := by
  cases given : allocator.item before with
  | none => exact ⟨none, before.refused, createWith_refused change given, .inl ⟨rfl, rfl, rfl⟩⟩
  | some address =>
    have owns : Owns (change {}) .null := by
      rw [Owns, if_neg (by simp [owner])]
      exact child
    have grown := grown_place (allocator.itemFresh before address given) owns
      (by simp [ownedTexts, valuestring, string])
    exact ⟨_, _, createWith_run change given, .inr ⟨⟨address, change {}, .null⟩, rfl, grown,
      .node owner (legible_of_silent valuestring string) .null .null⟩⟩

theorem cJSONCreateNumber_completes {num : Double} {valueint : Int32}
    (defined : intOfDouble num = .ok valueint) :
    Completes (cJSONCreateNumber allocator num) before
      (Created borrowed before (numberNode num valueint)) := by
  rw [cJSONCreateNumber_eq defined]
  exact createWith_completes _ rfl rfl rfl rfl

theorem cJSONCreateString_completes {string : Address} {text : CString}
    (present : before.texts string = some text) :
    Completes (cJSONCreateString allocator (some string)) before
      (Created borrowed before (stringNode text)) := by
  rw [cJSONCreateString, createWithText]
  cases given : allocator.item before with
  | none =>
    exact completes_run_bind (cJSONNewItem_refused given) (completes_pure (.inl ⟨rfl, rfl, rfl⟩))
  | some address =>
    have grown : Grown before (before.place address { type := .string })
        ⟨address, { type := .string }, .null⟩ none :=
      grown_place (allocator.itemFresh before address given) rfl rfl
    have placed : (before.place address {}).items address ≠ none := by simp [place_items_self]
    have typed := setFields_run placed fun fields => { fields with type := .string }
    rw [place_refill] at typed
    obtain ⟨copy, asked, last, copied, filled, final, -, isCopy⟩ := grown.copyText_run allocator
      present (fun copy fields => { fields with valuestring := copy }) (fun copy => ⟨rfl, rfl⟩)
      fun copy => by simp [ownedTexts]
    refine completes_run_bind (cJSONNewItem_run given) ?_
    rw [if_neg (Option.some_ne_none _)]
    refine completes_run_bind typed (completes_run_bind copied (completes_run_bind filled ?_))
    cases copy with
    | none => exact final.abandon_completes
    | some new =>
      have shown := isCopy new rfl
      rw [if_neg (Option.some_ne_none _)]
      refine completes_pure (.inr ⟨_, rfl, final, ?_⟩)
      have legible : Legible borrowed last.texts { type := .string, valuestring := some new } := by
        refine ⟨fun other same => ?_, by simp, by simp [constantNames]⟩
        exact Option.some.inj same ▸ shown.trans_ne (Option.some_ne_none text)
      have spells : Fields.data last.texts { type := .string, valuestring := some new } =
          (stringNode text).toItemData := by
        rw [Fields.data, Option.bind_some, shown]
        rfl
      rw [CJSON.root, CJSON.link, ← spells]
      exact .node rfl legible .null .null

/-- The loop puts the elements behind one another. -/
theorem Grown.fillLoop_completes {elements : List (Heaped (Option Address))} {nodes : List Item}
    (creates : List.Forall₂ (fun create node => ∀ memory, Extends before memory →
      Completes create memory (Created borrowed memory node)) elements nodes)
    (grown : Grown before middle root none) (owner : root.fields.isReference = false)
    (mirrors : root.child.Mirrors borrowed middle.texts (CJSON.link done)) :
    Completes (fillLoop (some root.address) elements (back none root.child.entries)) middle
      (Continued borrowed before middle root done (CJSON.link nodes)) := by
  induction creates generalizing root middle done with
  | nil => exact completes_pure (.ended grown mirrors)
  | cons create _ inductionHypothesis =>
    obtain ⟨reply, after, ran, ⟨rfl, same⟩ | ⟨child, rfl, inner, copy⟩⟩ :=
      create middle grown.extends
    · exact completes_run_bind ran (completes_pure (.stopped grown mirrors same))
    · refine completes_run_bind ran ?_
      rw [if_neg (Option.some_ne_none _)]
      refine grown.chainChild_completes owner mirrors inner copy fun last joined shown isBack => ?_
      rw [← isBack]
      exact inductionHypothesis joined owner shown

/-- An array with elements is created, or everything is given up. -/
theorem createFilledArray_completes {elements : List (Heaped (Option Address))}
    {nodes : List Item} (creates : List.Forall₂ (fun create node => ∀ memory,
      Extends before memory → Completes create memory (Created borrowed memory node))
      elements nodes)
    (enough : (CJSON.link nodes).nodes ≤ fuel) :
    Completes (createFilledArray allocator (fuel + 1) elements) before
      (Created borrowed before { type := .array, child := CJSON.link nodes }) := by
  cases given : allocator.item before with
  | none =>
    exact completes_run_bind (createWith_refused _ given) (completes_pure (.inl ⟨rfl, rfl, rfl⟩))
  | some address =>
    have grown : Grown before (before.place address { type := .array })
        ⟨address, { type := .array }, .null⟩ none :=
      grown_place (allocator.itemFresh before address given) rfl rfl
    have empty : Layout.null.Mirrors borrowed (before.place address { type := .array }).texts
        (CJSON.link []) := .null
    obtain ⟨filled, last, ran, continued⟩ := grown.fillLoop_completes creates rfl empty
    refine completes_run_bind (createWith_run _ given) ?_
    rw [if_neg (Option.some_ne_none _)]
    exact completes_run_bind ran (continued.finish rfl (legible_of_silent rfl rfl) enough)

/-- The elements that a loop creates from an array of the caller, none of them behind its end. -/
theorem createElement_completes {Value : Type} {create : Value → Heaped (Option Address)}
    {values : List Value} {nodes : List Item} {count : Nat} (inside : count ≤ values.length)
    (creates : List.Forall₂ (fun value node => ∀ memory, Extends before memory →
      Completes (create value) memory (Created borrowed memory node)) (values.take count) nodes) :
    List.Forall₂ (fun create node => ∀ memory, Extends before memory →
      Completes create memory (Created borrowed memory node))
      ((List.range count).map (createElement create values)) nodes := by
  have sameLength := creates.length_eq
  rw [List.length_take, Nat.min_eq_left inside] at sameLength
  refine List.forall₂_iff_get.mpr ⟨by simpa using sameLength, fun index low high memory grows => ?_⟩
  simp only [List.length_map, List.length_range] at low
  have pair := (List.forall₂_iff_get.mp creates).2 index (by simp; omega) (by omega) memory grows
  simpa [createElement, List.getElem?_eq_getElem (show index < values.length by omega)] using pair

/-- Nodes without children. -/
theorem size_link_leaves {nodes : List Item} (leaves : ∀ node ∈ nodes, node.child = .null) :
    (CJSON.link nodes).nodes = nodes.length := by
  induction nodes with
  | nil => rfl
  | cons node rest inductionHypothesis =>
    rw [CJSON.link, CJSON.nodes, leaves node List.mem_cons_self, CJSON.nodes, List.length_cons,
      inductionHypothesis fun other member => leaves other (List.mem_cons_of_mem _ member)]

/-- The functions that create an array of leaves from an array of the caller. -/
theorem createFrom_joins {Value : Type} {create : Value → Heaped (Option Address)}
    {values : List Value} {nodes : List Item} {count : Int32} {forest : List Branch}
    (consistent : Consistent before borrowed forest) (nonnegative : ¬ count < 0)
    (inside : count.toNatClampNeg ≤ values.length)
    (creates : List.Forall₂ (fun value node => ∀ memory, Extends before memory →
      Completes (create value) memory (Created borrowed memory node))
      (values.take count.toNatClampNeg) nodes)
    (each : ∀ value ∈ values.take count.toNatClampNeg, Tells (· = none) (create value))
    (leaves : ∀ node ∈ nodes, node.child = .null) (enough : count.toNatClampNeg + 1 ≤ fuel) :
    Completes (createFrom allocator create fuel (some values) count) before
      (Joined borrowed forest before fuel { type := .array, child := CJSON.link nodes }) := by
  have size : (CJSON.link nodes).nodes = count.toNatClampNeg := by
    rw [size_link_leaves leaves, ← creates.length_eq, List.length_take, Nat.min_eq_left inside]
  obtain ⟨fuel, rfl⟩ : ∃ less, fuel = less + 1 := ⟨fuel - 1, by omega⟩
  have tells := createFrom_tells allocator (fuel + 1) nonnegative each
  rw [createFrom, if_neg nonnegative] at tells ⊢
  exact joined_of_created (createFilledArray_completes (createElement_completes inside creates)
    (by omega)) tells consistent (size.symm ▸ enough)

/-- The `int` that goes with the double of an `int` is that `int`. -/
theorem intOfDouble_ofInt (number : Int32) : intOfDouble (Double.ofInt number) = .ok number := by
  rw [Double.ofInt_eq, intOfDouble,
    saturate_intCast _ number.le_toInt number.toInt_lt, Int32.ofInt_toInt]

theorem cJSONCreateIntArray_joins {forest : List Branch} {count : Int32} {numbers : List Int32}
    (consistent : Consistent before borrowed forest) (nonnegative : ¬ count < 0)
    (inside : count.toNatClampNeg ≤ numbers.length) (enough : count.toNatClampNeg + 1 ≤ fuel) :
    Completes (cJSONCreateIntArray allocator fuel (some numbers) count) before
      (Joined borrowed forest before fuel
        { type := .array
          child := CJSON.link ((numbers.take count.toNatClampNeg).map fun number =>
            numberNode (Double.ofInt number) number) }) := by
  refine createFrom_joins consistent nonnegative inside ?_
    (fun _ _ => cJSONCreateNumber_tells allocator _) ?_ enough
  · refine List.forall₂_map_right_iff.mpr (List.forall₂_same.mpr fun number _ memory _ => ?_)
    exact cJSONCreateNumber_completes (intOfDouble_ofInt number)
  · intro node member
    obtain ⟨number, _, rfl⟩ := List.mem_map.mp member
    rfl

theorem cJSONCreateDoubleArray_joins {forest : List Branch} {count : Int32}
    {numbers : List Double} {values : List Int32} (consistent : Consistent before borrowed forest)
    (nonnegative : ¬ count < 0) (inside : count.toNatClampNeg ≤ numbers.length)
    (defined : List.Forall₂ (fun number value => intOfDouble number = .ok value)
      (numbers.take count.toNatClampNeg) values) (enough : count.toNatClampNeg + 1 ≤ fuel) :
    Completes (cJSONCreateDoubleArray allocator fuel (some numbers) count) before
      (Joined borrowed forest before fuel
        { type := .array
          child := CJSON.link
            (List.zipWith numberNode (numbers.take count.toNatClampNeg) values) }) := by
  refine createFrom_joins consistent nonnegative inside ?_
    (fun _ _ => cJSONCreateNumber_tells allocator _) ?_ enough
  · generalize numbers.take count.toNatClampNeg = taken at defined ⊢
    induction defined with
    | nil => exact .nil
    | cons here _ inductionHypothesis =>
      exact .cons (fun memory _ => cJSONCreateNumber_completes here) inductionHypothesis
  · intro node member
    obtain ⟨index, _, rfl⟩ := List.mem_iff_getElem.mp member
    rw [List.getElem_zipWith]
    rfl

theorem cJSONCreateStringArray_joins {forest : List Branch} {count : Int32}
    {strings : List (Option Address)} {contents : List CString}
    (consistent : Consistent before borrowed forest) (nonnegative : ¬ count < 0)
    (inside : count.toNatClampNeg ≤ strings.length)
    (readable : List.Forall₂ (fun string text => string.bind before.texts = some text)
      (strings.take count.toNatClampNeg) contents) (enough : count.toNatClampNeg + 1 ≤ fuel) :
    Completes (cJSONCreateStringArray allocator fuel (some strings) count) before
      (Joined borrowed forest before fuel
        { type := .array, child := CJSON.link (contents.map stringNode) }) := by
  have named : ∀ string ∈ strings.take count.toNatClampNeg, string ≠ none := fun string member => by
    obtain ⟨index, here, rfl⟩ := List.mem_iff_getElem.mp member
    have shown := (List.forall₂_iff_get.mp readable).2 index here
      (readable.length_eq ▸ here)
    rintro isNone
    rw [List.get_eq_getElem, isNone] at shown
    cases shown
  refine createFrom_joins consistent nonnegative inside ?_ (fun string member => ?_) ?_ enough
  · refine List.forall₂_map_right_iff.mpr (readable.imp fun string text shown memory grows => ?_)
    obtain ⟨key, rfl, present⟩ := Option.bind_eq_some_iff.mp shown
    exact cJSONCreateString_completes
      ((grows.texts key (present.trans_ne (Option.some_ne_none _))).trans present)
  · obtain ⟨key, rfl⟩ := Option.ne_none_iff_exists'.mp (named string member)
    exact cJSONCreateString_tells allocator key
  · simp [stringNode]

/-- An allocator that gives out the number of the request. -/
def countingAllocator : Allocator where
  item memory := if memory.items memory.requests = none then some memory.requests else none
  text memory := if memory.texts memory.requests = none then some memory.requests else none
  itemFresh memory address given := by
    split_ifs at given with free
    exact Option.some.inj given ▸ free
  textFresh memory address given := by
    split_ifs at given with free
    exact Option.some.inj given ▸ free

/-- The memory of the array `[true, false]`. -/
def pairMemory : Memory where
  items
    | 0 => some ⟨none, none, { type := .array, child := some 1 }⟩
    | 1 => some ⟨some 2, some 2, { type := .true }⟩
    | 2 => some ⟨none, some 1, { type := .false }⟩
    | _ => none
  texts _ := none
  requests := 3

/-- The forest of the array `[true, false]`. -/
def pairForest : List Branch :=
  [⟨0, { type := .array, child := some 1 },
    .node 1 { type := .true } .null (.node 2 { type := .false } .null .null)⟩]

theorem pairMemory_consistent : Consistent pairMemory [] pairForest where
  shaped := {
    loose := fun branch member => List.mem_singleton.mp member ▸ rfl
    stored := ⟨rfl, ⟨rfl, rfl, trivial⟩, ⟨rfl, trivial, trivial, rfl, trivial, trivial, trivial⟩,
      trivial⟩
    distinct := by decide
    allocated := fun address => by
      match address with
      | 0 | 1 | 2 => decide
      | address + 3 => simp [pairMemory, pairForest, footprint, link, collect] }
  owned := ⟨by decide, fun address => by simp [pairMemory, pairForest, Layout.texts, link, collect,
    ownedTexts], by decide⟩

/-- Creating an array of the first numbers or strings of an array of the caller leaves the forest as
it was, or adds a root that mirrors them in order. -/
theorem createArray_mirrors {forest : List Branch} {count : Int32}
    (consistent : Consistent before borrowed forest) (nonnegative : ¬ count < 0)
    (enough : count.toNatClampNeg + 1 ≤ fuel) :
    (∀ numbers : List Int32, count.toNatClampNeg ≤ numbers.length →
      Completes (cJSONCreateIntArray allocator fuel (some numbers) count) before
        (Joined borrowed forest before fuel
          { type := .array
            child := CJSON.link ((numbers.take count.toNatClampNeg).map fun number =>
              numberNode (Double.ofInt number) number) })) ∧
    (∀ (numbers : List Double) (values : List Int32), count.toNatClampNeg ≤ numbers.length →
      List.Forall₂ (fun number value => intOfDouble number = .ok value)
        (numbers.take count.toNatClampNeg) values →
      Completes (cJSONCreateDoubleArray allocator fuel (some numbers) count) before
        (Joined borrowed forest before fuel
          { type := .array
            child := CJSON.link
              (List.zipWith numberNode (numbers.take count.toNatClampNeg) values) })) ∧
    ∀ (strings : List (Option Address)) (contents : List CString),
      count.toNatClampNeg ≤ strings.length →
      List.Forall₂ (fun string text => string.bind before.texts = some text)
        (strings.take count.toNatClampNeg) contents →
      Completes (cJSONCreateStringArray allocator fuel (some strings) count) before
        (Joined borrowed forest before fuel
          { type := .array, child := CJSON.link (contents.map stringNode) }) := by
  exact ⟨fun _ inside => cJSONCreateIntArray_joins consistent nonnegative inside enough,
    fun _ _ inside defined =>
      cJSONCreateDoubleArray_joins consistent nonnegative inside defined enough,
    fun _ _ inside readable =>
      cJSONCreateStringArray_joins consistent nonnegative inside readable enough⟩

theorem createArray_mirrors_pair :
    Completes (cJSONCreateIntArray countingAllocator 3 (some [7, 9]) 2) pairMemory
      (Joined [] pairForest pairMemory 3
        { type := .array
          child := CJSON.link
            [numberNode (Double.ofInt 7) 7, numberNode (Double.ofInt 9) 9] }) :=
  (createArray_mirrors pairMemory_consistent (by decide) (by decide)).1 [7, 9] (by decide)

end Creation

end DiffServSimulation
