/-
This file models the data of the vendored JSON library: `struct cJSON`, the
pointers into it, and the C strings it names its members with.

A `cJSON *` is null or points at an item, and an item is reached with the `next`
link that leads to its siblings. The chain behind a pointer is therefore finite
and null-terminated by construction, as every chain that `cJSON_Parse` builds
is. The `prev` link is left out: nothing that looks a tree up, prints it or
compares it reads it.

What the parser promises of a whole tree is `WellFormed`: every child of an
object has a name, no child of an array has one, and nothing else has children.
-/

import DiffServSimulation.DoubleNumber
import Mathlib.Algebra.Group.Nat.Defs
import Mathlib.Data.List.TakeWhile
import Mathlib.Tactic.Common

namespace DiffServSimulation

open DecimalNumber

/-! ### Faults -/

/-- The ways in which a run of the program leaves defined behaviour, or is stopped by the
allocator. -/
inductive Fault where
  /-- A null pointer was followed. -/
  | nullDereference
  /-- `new int[n]` was asked for a negative length and threw. -/
  | badArrayNewLength
  /-- A block was accessed outside its bounds. -/
  | outOfBounds
  /-- An entry of a block was read before it was written. -/
  | uninitialisedRead
  /-- The recursion of the model ran out of its bound. This is no behaviour of the program. -/
  | outOfFuel
deriving DecidableEq

/-! ### C strings -/

/-- A C string: the bytes before the terminator. -/
structure CString where
  bytes : List UInt8
  noTerminator : ∀ byte ∈ bytes, byte ≠ 0
deriving DecidableEq

/-- What a C function reads of a buffer: everything before the first terminator. -/
def CString.ofBuffer (buffer : List UInt8) : CString where
  bytes := buffer.takeWhile (· ≠ 0)
  noTerminator byte member := by simpa using List.mem_takeWhile_imp member

/-- The terminator that is written behind a string does not change it. -/
theorem ofBuffer_append_terminator (content : List UInt8) :
    CString.ofBuffer (content ++ [0]) = CString.ofBuffer content := by
  simp only [CString.ofBuffer, CString.mk.injEq]
  induction content with
  | nil => rfl
  | cons byte content inductionHypothesis =>
    rw [List.cons_append, List.takeWhile_cons, List.takeWhile_cons, inductionHypothesis]

/-- A string literal of the source. -/
def CString.literal (text : String) : CString :=
  CString.ofBuffer (text.toList.map Char.toUInt8)

/-- The loop of `strcmp`, with the terminator that ends each string read as zero. -/
def strcmpBytes : List UInt8 → List UInt8 → Int
  | [], [] => 0
  | [], second :: _ => -(second.toNat : Int)
  | first :: _, [] => first.toNat
  | first :: firstRest, second :: secondRest =>
    if first = second then strcmpBytes firstRest secondRest
    else (first.toNat : Int) - second.toNat

/-- `strcmp` of the C library. -/
def strcmp (first second : CString) : Int := strcmpBytes first.bytes second.bytes

theorem strcmpBytes_eq_zero_iff (first second : List UInt8) (firstFree : ∀ byte ∈ first, byte ≠ 0)
    (secondFree : ∀ byte ∈ second, byte ≠ 0) :
    strcmpBytes first second = 0 ↔ first = second := by
  induction first generalizing second with
  | nil =>
    cases second with
    | nil => simp [strcmpBytes]
    | cons head rest =>
      have nonzero : head.toNat ≠ 0 := fun zero =>
        secondFree head List.mem_cons_self (UInt8.toNat_inj.mp zero)
      simp [strcmpBytes, nonzero]
  | cons head rest inductionHypothesis =>
    have nonzero : head.toNat ≠ 0 := fun zero =>
      firstFree head List.mem_cons_self (UInt8.toNat_inj.mp zero)
    cases second with
    | nil => simp [strcmpBytes, nonzero]
    | cons other otherRest =>
      have smaller := inductionHypothesis otherRest
        (fun byte member => firstFree byte (List.mem_cons_of_mem _ member))
        (fun byte member => secondFree byte (List.mem_cons_of_mem _ member))
      by_cases same : head = other
      · simp [strcmpBytes, same, smaller]
      · have different : head.toNat ≠ other.toNat := fun equal => same (UInt8.toNat_inj.mp equal)
        rw [strcmpBytes, if_neg same, List.cons.injEq]
        constructor
        · intro zero
          omega
        · intro equal
          exact absurd equal.1 same

theorem strcmp_eq_zero_iff (first second : CString) : strcmp first second = 0 ↔ first = second := by
  rw [strcmp, strcmpBytes_eq_zero_iff _ _ first.noTerminator second.noTerminator]
  cases first
  cases second
  simp

/-! ### Items and pointers -/

/-- The `cJSON_*` type tags. -/
inductive ItemType where
  | invalid
  | false
  | true
  | null
  | number
  | string
  | array
  | object
  | raw
deriving DecidableEq

/-- The double zero. -/
def zeroDouble : Double := Double.ofInt 0

/-- The fields of `struct cJSON` besides its links. The defaults are those of the zeroed memory
that `cJSON_New_Item` hands out. -/
structure ItemData where
  type : ItemType := .invalid
  valuestring : Option CString := none
  valueint : Int32 := 0
  valuedouble : Double := zeroDouble
  string : Option CString := none
deriving DecidableEq

/-- A `cJSON *`. -/
inductive CJSON where
  | null
  | node (next child : CJSON) (data : ItemData)
deriving DecidableEq

/-- A `struct cJSON` without its sibling links. -/
structure Item extends ItemData where
  child : CJSON := .null
deriving DecidableEq

namespace CJSON

/-- The items a pointer leads to along `next`. -/
def chain : CJSON → List Item
  | .null => []
  | .node next child data => { data with child := child } :: next.chain

/-- Items linked by `next`, in order. -/
def link : List Item → CJSON
  | [] => .null
  | item :: rest => .node (link rest) item.child item.toItemData

/-- A pointer to one item without siblings. -/
def root (only : Item) : CJSON := link [only]

/-- The children of the item a pointer leads to. -/
def children : CJSON → List Item
  | .null => []
  | .node _ child _ => child.chain

/-- The item a pointer leads to. -/
def item? : CJSON → Option Item
  | .null => none
  | .node _ child data => some { data with child := child }

/-- Following a pointer, as `->` does. -/
def deref (pointer : CJSON) : Except Fault Item :=
  match pointer.item? with
  | none => .error .nullDereference
  | some item => .ok item

@[simp] theorem chain_null : CJSON.null.chain = [] := rfl

@[simp] theorem chain_link (items : List Item) : (link items).chain = items := by
  induction items with
  | nil => rfl
  | cons item rest inductionHypothesis => rw [link, chain, inductionHypothesis]

@[simp] theorem link_chain (pointer : CJSON) : link pointer.chain = pointer := by
  induction pointer with
  | null => rfl
  | node next child data nextHypothesis _ => rw [chain, link, nextHypothesis]

theorem item?_eq_head? (pointer : CJSON) : pointer.item? = pointer.chain.head? := by
  cases pointer <;> rfl

theorem deref_of_some {pointer : CJSON} {item : Item} (leads : pointer.item? = some item) :
    pointer.deref = .ok item := by
  rw [deref, leads]

theorem deref_of_none {pointer : CJSON} (leads : pointer.item? = none) :
    pointer.deref = .error .nullDereference := by
  rw [deref, leads]

end CJSON

/-! ### Trees -/

/-- The children an item of each type may have. -/
def ItemType.Admits : ItemType → List Item → Prop
  | .object, items => ∀ item ∈ items, item.string ≠ none
  | .array, items => ∀ item ∈ items, item.string = none
  | _, items => items = []

/-- Every item reached from the pointer, along children and siblings, has children its type
admits. -/
def CJSON.WellFormed : CJSON → Prop
  | .null => True
  | .node next child data => data.type.Admits child.chain ∧ child.WellFormed ∧ next.WellFormed

/-- The children of an item are ones its type admits, down the whole tree. -/
def Item.Shaped (item : Item) : Prop :=
  item.type.Admits item.child.chain ∧ item.child.WellFormed

theorem CJSON.wellFormed_link (items : List Item) (shaped : ∀ item ∈ items, item.Shaped) :
    (CJSON.link items).WellFormed := by
  induction items with
  | nil => trivial
  | cons item rest inductionHypothesis =>
    exact ⟨(shaped item List.mem_cons_self).1, (shaped item List.mem_cons_self).2,
      inductionHypothesis fun other member => shaped other (List.mem_cons_of_mem _ member)⟩

theorem Item.shaped_of_child_null (item : Item) (childless : item.child = .null) :
    item.Shaped := by
  refine ⟨?_, by rw [childless]; trivial⟩
  rw [childless, CJSON.chain_null]
  cases item.type <;> simp [ItemType.Admits]

/-- The number of items reached from a pointer. -/
def CJSON.nodes : CJSON → Nat
  | .null => 0
  | .node next child _ => next.nodes + child.nodes + 1

/-- How deep the items reached from a pointer nest. -/
def CJSON.height : CJSON → Nat
  | .null => 0
  | .node next child _ => max next.height (child.height + 1)

theorem CJSON.length_chain_le_nodes (pointer : CJSON) : pointer.chain.length ≤ pointer.nodes := by
  induction pointer with
  | null => exact Nat.le_refl 0
  | node next child data nextHypothesis _ =>
    rw [chain, nodes, List.length_cons]
    omega

/-- Every chain in a tree is at most as long as the tree is large. -/
theorem CJSON.nodes_child_le_of_mem (pointer : CJSON) (item : Item)
    (member : item ∈ pointer.chain) : item.child.nodes ≤ pointer.nodes := by
  induction pointer with
  | null => cases member
  | node next child data nextHypothesis _ =>
    rw [nodes]
    rcases List.mem_cons.mp member with rfl | rest
    · show child.nodes ≤ _
      omega
    · have bound := nextHypothesis rest
      omega

theorem CJSON.height_link_le (items : List Item) (bound : Nat)
    (shallow : ∀ item ∈ items, item.child.height + 1 ≤ bound) : (link items).height ≤ bound := by
  induction items with
  | nil => exact Nat.zero_le bound
  | cons first rest inductionHypothesis =>
    rw [link, height]
    exact Nat.max_le.mpr ⟨inductionHypothesis fun item member =>
      shallow item (List.mem_cons_of_mem _ member), shallow first List.mem_cons_self⟩

/-- An outcome of `cJSON_Parse`: null for malformed text, or the root of a JSON tree. -/
structure ParseResult where
  root : CJSON
  wellFormed : root.WellFormed

/-- The first child of an item that carries a given name. -/
def CJSON.firstMember (root : CJSON) (key : CString) : Option Item :=
  root.children.find? fun item => item.string = some key

/-- The children of an item are all named or all unnamed. -/
theorem ItemType.Admits.uniform {type : ItemType} {items : List Item} (admits : type.Admits items) :
    (∀ item ∈ items, item.string ≠ none) ∨ (∀ item ∈ items, item.string = none) := by
  cases type with
  | object => exact Or.inl admits
  | array => exact Or.inr admits
  | _ =>
    have empty : items = [] := admits
    exact Or.inl (by simp [empty])

end DiffServSimulation
