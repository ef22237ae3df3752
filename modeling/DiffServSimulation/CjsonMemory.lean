/-
This file models the editing half of the vendored JSON library on a heap:
creating, deleting and duplicating items, and adding, inserting, detaching and
replacing them in arrays and objects.

An address leads to an item, a `struct cJSON` with both of its sibling links, or to
a text, a C string. Following a pointer that is null or leads nowhere is a fault of
the model, and so is freeing a block twice. Which addresses the allocator hands
out, and when it refuses, is an argument. Loops and recursions that follow links
carry a bound, and running out of it is a fault as well.
-/

import DiffServSimulation.CjsonLookup
import DiffServSimulation.Faulting
import DiffServSimulation.LinkedRing

namespace DiffServSimulation

open Faulting DecimalNumber LinkedRing

/-! ### Memory -/

abbrev Address := Nat

/-- The fields of `struct cJSON` besides its sibling links, with the flags of `type` apart. The
defaults are those of zeroed memory. -/
structure Fields where
  type : ItemType := .invalid
  isReference : Bool := false
  stringIsConst : Bool := false
  child : Option Address := none
  valuestring : Option Address := none
  valueint : Int32 := 0
  valuedouble : Double := zeroDouble
  string : Option Address := none
deriving DecidableEq

/-- The blocks that are allocated, how often a block was asked for, and how often in vain. -/
structure Memory where
  items : Heap Address Fields
  texts : Address → Option CString
  requests : Nat := 0
  refusals : Nat := 0

/-- The ways in which a run on the heap leaves defined behaviour. -/
inductive MemoryFault where
  /-- A null pointer was followed. -/
  | nullDereference
  /-- A pointer that leads to no block was followed or freed. -/
  | danglingPointer
  /-- An array of the caller was read beyond its end. -/
  | outOfBounds
  /-- A double that is no number was converted to an `int`. -/
  | undefinedConversion
  /-- The run of the model ran out of its bound. This is no behaviour of the program. -/
  | outOfFuel
deriving DecidableEq

/-- `malloc` for the two kinds of blocks: a new address, or nothing for null. -/
structure Allocator where
  item : Memory → Option Address
  text : Memory → Option Address
  itemFresh : ∀ memory address, item memory = some address → memory.items address = none
  textFresh : ∀ memory address, text memory = some address → memory.texts address = none

abbrev Heaped := Program Memory MemoryFault

namespace Memory

/-- `if (condition) action;` -/
def onlyIf (condition : Prop) [Decidable condition] (action : Heaped PUnit) : Heaped PUnit :=
  if condition then action else pure ⟨⟩

/-- What a pointer leads to. -/
def follow (pointer : Option Address) : Heaped (Cell Address Fields) := do
  let memory ← get
  match pointer with
  | none => lift (.error .nullDereference)
  | some address =>
    match memory.items address with
    | none => lift (.error .danglingPointer)
    | some item => pure item

/-- An assignment to what a pointer leads to. -/
def assign (pointer : Option Address) (change : Cell Address Fields → Cell Address Fields) :
    Heaped PUnit := do
  let memory ← get
  match pointer with
  | none => lift (.error .nullDereference)
  | some address =>
    match memory.items address with
    | none => lift (.error .danglingPointer)
    | some _ => set { memory with items := memory.items.alter address change }

def setNext (pointer next : Option Address) : Heaped PUnit :=
  assign pointer fun item => { item with next := next }

def setPrev (pointer prev : Option Address) : Heaped PUnit :=
  assign pointer fun item => { item with prev := prev }

/-- An assignment to a field besides the sibling links. -/
def setFields (pointer : Option Address) (change : Fields → Fields) : Heaped PUnit :=
  assign pointer fun item => { item with value := change item.value }

def setChild (pointer child : Option Address) : Heaped PUnit :=
  setFields pointer fun fields => { fields with child := child }

/-- The string a pointer leads to. -/
def readText (pointer : Option Address) : Heaped CString := do
  let memory ← get
  match pointer with
  | none => lift (.error .nullDereference)
  | some address =>
    match memory.texts address with
    | none => lift (.error .danglingPointer)
    | some text => pure text

/-- `global_hooks.deallocate` of an item. -/
def deallocateItem (address : Address) : Heaped PUnit := do
  let memory ← get
  match memory.items address with
  | none => lift (.error .danglingPointer)
  | some _ =>
    set { memory with items := fun other => if other = address then none else memory.items other }

/-- `global_hooks.deallocate` of a text. -/
def deallocateText (address : Address) : Heaped PUnit := do
  let memory ← get
  match memory.texts address with
  | none => lift (.error .danglingPointer)
  | some _ =>
    set { memory with texts := fun other => if other = address then none else memory.texts other }

/-- The deallocation of a text that may be null or belong to somebody else. -/
def releaseText (owned : Bool) (pointer : Option Address) : Heaped PUnit :=
  match owned, pointer with
  | true, some address => deallocateText address
  | _, _ => pure ⟨⟩

/-! ### Creating items -/

section Allocation

variable (allocator : Allocator)

/-- `cJSON_New_Item`. -/
def cJSONNewItem : Heaped (Option Address) := do
  let memory ← get
  let asked := { memory with requests := memory.requests + 1 }
  match allocator.item memory with
  | none => do
    set { asked with refusals := memory.refusals + 1 }
    pure none
  | some address => do
    set { asked with
          items := fun other => if other = address then some ⟨none, none, {}⟩
            else memory.items other }
    pure (some address)

/-- `cJSON_strdup`. -/
def cJSONStrdup (string : Option Address) : Heaped (Option Address) := do
  if string = none then pure none
  else do
    let text ← readText string
    let memory ← get
    let asked := { memory with requests := memory.requests + 1 }
    match allocator.text memory with
    | none => do
      set { asked with refusals := memory.refusals + 1 }
      pure none
    | some address => do
      set { asked with
            texts := fun other => if other = address then some text else memory.texts other }
      pure (some address)

end Allocation

/-! ### Deleting items -/

/-- `cJSON_Delete`. The bound is on the nodes that are followed. -/
def cJSONDelete : Nat → Option Address → Heaped PUnit
  | _, none => pure ⟨⟩
  | 0, some _ => lift (.error .outOfFuel)
  | fuel + 1, some address => do
    let item ← follow (some address)
    onlyIf (item.value.isReference = false ∧ item.value.child ≠ none)
      (cJSONDelete fuel item.value.child)
    let emptied ← follow (some address)
    releaseText (!emptied.value.isReference) emptied.value.valuestring
    releaseText (!emptied.value.stringIsConst) emptied.value.string
    deallocateItem address
    cJSONDelete fuel item.next

/-! ### Basic types -/

section Create

variable (allocator : Allocator)

/-- A new item, filled in by an assignment. -/
def createWith (change : Fields → Fields) : Heaped (Option Address) := do
  let item ← cJSONNewItem allocator
  onlyIf (item ≠ none) (setFields item change)
  pure item

def cJSONCreateNull : Heaped (Option Address) :=
  createWith allocator fun fields => { fields with type := .null }

def cJSONCreateTrue : Heaped (Option Address) :=
  createWith allocator fun fields => { fields with type := .true }

def cJSONCreateFalse : Heaped (Option Address) :=
  createWith allocator fun fields => { fields with type := .false }

def cJSONCreateBool (boolean : Bool) : Heaped (Option Address) :=
  createWith allocator fun fields => { fields with type := if boolean then .true else .false }

def cJSONCreateArray : Heaped (Option Address) :=
  createWith allocator fun fields => { fields with type := .array }

def cJSONCreateObject : Heaped (Option Address) :=
  createWith allocator fun fields => { fields with type := .object }

/-- The `int` that goes with a double, with saturation in case of overflow. -/
def intOfDouble : Double → Except MemoryFault Int32
  | .nan => .error .undefinedConversion
  | .infinity negative => .ok (if negative then Int32.minValue else Int32.maxValue)
  | .finite value _ _ => .ok (saturate value)

def cJSONCreateNumber (num : Double) : Heaped (Option Address) := do
  let item ← cJSONNewItem allocator
  onlyIf (item ≠ none) (do
    let valueint ← lift (intOfDouble num)
    setFields item fun fields => { fields with type := .number, valuedouble := num, valueint })
  pure item

/-- A new item of a type with a copy of a string. -/
def createWithText (type : ItemType) (string : Option Address) : Heaped (Option Address) := do
  let item ← cJSONNewItem allocator
  if item = none then pure none
  else do
    setFields item fun fields => { fields with type }
    let copy ← cJSONStrdup allocator string
    setFields item fun fields => { fields with valuestring := copy }
    if copy = none then do
      cJSONDelete 1 item
      pure none
    else pure item

def cJSONCreateString (string : Option Address) : Heaped (Option Address) :=
  createWithText allocator .string string

def cJSONCreateRaw (raw : Option Address) : Heaped (Option Address) :=
  createWithText allocator .raw raw

def cJSONCreateStringReference (string : Option Address) : Heaped (Option Address) :=
  createWith allocator fun fields =>
    { fields with type := .string, isReference := true, valuestring := string }

def cJSONCreateObjectReference (child : Option Address) : Heaped (Option Address) :=
  createWith allocator fun fields => { fields with type := .object, isReference := true, child }

def cJSONCreateArrayReference (child : Option Address) : Heaped (Option Address) :=
  createWith allocator fun fields => { fields with type := .array, isReference := true, child }

end Create

/-- `cJSON_SetNumberHelper`. -/
def cJSONSetNumberHelper (object : Option Address) (number : Double) : Heaped Double := do
  let valueint ← lift (intOfDouble number)
  setFields object fun fields => { fields with valueint, valuedouble := number }
  pure number

/-! ### Looking items up -/

/-- The loop of `get_array_item`. -/
def arrayItemLoop : Nat → Option Address → Heaped (Option Address)
  | 0, current => pure current
  | _ + 1, none => pure none
  | index + 1, some current => do
    let item ← follow (some current)
    arrayItemLoop index item.next

def getArrayItem (array : Option Address) (index : Nat) : Heaped (Option Address) := do
  if array = none then pure none
  else do
    let item ← follow array
    arrayItemLoop index item.value.child

/-- The comparison of two names in the loops of `get_object_item`. -/
def namesDiffer (caseSensitive : Bool) (name string : CString) : Bool :=
  if caseSensitive then decide (strcmp name string ≠ 0)
  else decide (caseInsensitiveStrcmp (some name) (some string) ≠ 0)

/-- Both loops of `get_object_item`. At an item without a name the case-sensitive one stops, and the
other one goes on. -/
def objectItemLoop (caseSensitive : Bool) (name : Option Address) : Nat → Option Address →
    Heaped (Option Address)
  | _, none => pure none
  | 0, some _ => lift (.error .outOfFuel)
  | fuel + 1, some current => do
    let item ← follow (some current)
    match item.value.string with
    | none =>
      if caseSensitive then pure (some current)
      else objectItemLoop caseSensitive name fuel item.next
    | some string => do
      let first ← readText name
      let second ← readText (some string)
      if namesDiffer caseSensitive first second then
        objectItemLoop caseSensitive name fuel item.next
      else pure (some current)

def getObjectItem (fuel : Nat) (object name : Option Address) (caseSensitive : Bool) :
    Heaped (Option Address) := do
  if object = none ∨ name = none then pure none
  else do
    let item ← follow object
    let currentElement ← objectItemLoop caseSensitive name fuel item.value.child
    if currentElement = none then pure none
    else do
      let found ← follow currentElement
      if found.value.string = none then pure none else pure currentElement

/-! ### Adding items -/

def suffixObject (prev item : Option Address) : Heaped PUnit := do
  setNext prev item
  setPrev item prev

/-- `parent->child->prev = item` -/
def pointBack (parent item : Option Address) : Heaped PUnit := do
  let container ← follow parent
  setPrev container.value.child item

/-- The branch of `add_item_to_array` that starts a new list. -/
def startList (array item : Option Address) : Heaped PUnit := do
  setChild array item
  setPrev item item
  setNext item none

/-- The branch of `add_item_to_array` that appends to the end. -/
def appendToEnd (array child item : Option Address) : Heaped PUnit := do
  let first ← follow child
  onlyIf (first.prev ≠ none) (do
    suffixObject first.prev item
    pointBack array item)

/-- The two branches of `add_item_to_array`. -/
def linkLast (array child item : Option Address) : Heaped PUnit :=
  if child = none then startList array item else appendToEnd array child item

def addItemToArray (array item : Option Address) : Heaped Bool := do
  if item = none ∨ array = none ∨ array = item then pure false
  else do
    let parent ← follow array
    linkLast array parent.value.child item
    pure true

def cJSONAddItemToArray (array item : Option Address) : Heaped Bool := addItemToArray array item

section Add

variable (allocator : Allocator)

/-- The part of `add_item_to_object` behind the new name. -/
def addNamed (object item newKey : Option Address) (constantKey : Bool) : Heaped Bool := do
  let named ← follow item
  releaseText (!named.value.stringIsConst) named.value.string
  setFields item fun fields => { fields with string := newKey, stringIsConst := constantKey }
  addItemToArray object item

def addItemToObject (object string item : Option Address) (constantKey : Bool) : Heaped Bool := do
  if object = none ∨ string = none ∨ item = none ∨ object = item then pure false
  else if constantKey then addNamed object item string true
  else do
    let newKey ← cJSONStrdup allocator string
    if newKey = none then pure false else addNamed object item newKey false

def cJSONAddItemToObject (object string item : Option Address) : Heaped Bool :=
  addItemToObject allocator object string item false

def cJSONAddItemToObjectCS (object string item : Option Address) : Heaped Bool :=
  addItemToObject allocator object string item true

def createReference (item : Option Address) : Heaped (Option Address) := do
  if item = none then pure none
  else do
    let reference ← cJSONNewItem allocator
    if reference = none then pure none
    else do
      let original ← follow item
      assign reference fun _ =>
        ⟨none, none, { original.value with string := none, isReference := true }⟩
      pure reference

def cJSONAddItemReferenceToArray (array item : Option Address) : Heaped Bool := do
  if array = none then pure false
  else do
    let reference ← createReference allocator item
    addItemToArray array reference

def cJSONAddItemReferenceToObject (object string item : Option Address) : Heaped Bool := do
  if object = none ∨ string = none then pure false
  else do
    let reference ← createReference allocator item
    addItemToObject allocator object string reference false

/-- The shape of the functions that create an item and add it to an object. -/
def addCreated (object name : Option Address) (create : Heaped (Option Address)) :
    Heaped (Option Address) := do
  let item ← create
  let added ← addItemToObject allocator object name item false
  if added then pure item
  else do
    cJSONDelete 1 item
    pure none

def cJSONAddNullToObject (object name : Option Address) : Heaped (Option Address) :=
  addCreated allocator object name (cJSONCreateNull allocator)

def cJSONAddTrueToObject (object name : Option Address) : Heaped (Option Address) :=
  addCreated allocator object name (cJSONCreateTrue allocator)

def cJSONAddFalseToObject (object name : Option Address) : Heaped (Option Address) :=
  addCreated allocator object name (cJSONCreateFalse allocator)

def cJSONAddBoolToObject (object name : Option Address) (boolean : Bool) :
    Heaped (Option Address) :=
  addCreated allocator object name (cJSONCreateBool allocator boolean)

def cJSONAddNumberToObject (object name : Option Address) (number : Double) :
    Heaped (Option Address) :=
  addCreated allocator object name (cJSONCreateNumber allocator number)

def cJSONAddStringToObject (object name string : Option Address) : Heaped (Option Address) :=
  addCreated allocator object name (cJSONCreateString allocator string)

def cJSONAddRawToObject (object name raw : Option Address) : Heaped (Option Address) :=
  addCreated allocator object name (cJSONCreateRaw allocator raw)

def cJSONAddObjectToObject (object name : Option Address) : Heaped (Option Address) :=
  addCreated allocator object name (cJSONCreateObject allocator)

def cJSONAddArrayToObject (object name : Option Address) : Heaped (Option Address) :=
  addCreated allocator object name (cJSONCreateArray allocator)

end Add

/-! ### Detaching items -/

/-- `item->prev->next = item->next` -/
def bypass (item : Option Address) : Heaped PUnit := do
  let links ← follow item
  setNext links.prev links.next

/-- The links around an item that is to be detached. -/
def unlink (parent item : Option Address) : Heaped PUnit := do
  let container ← follow parent
  onlyIf (item ≠ container.value.child) (bypass item)
  let links ← follow item
  onlyIf (links.next ≠ none) (setPrev links.next links.prev)
  let container ← follow parent
  let links ← follow item
  if item = container.value.child then setChild parent links.next
  else onlyIf (links.next = none) (setPrev container.value.child links.prev)

def cJSONDetachItemViaPointer (parent item : Option Address) : Heaped (Option Address) := do
  if parent = none ∨ item = none then pure none
  else do
    unlink parent item
    setPrev item none
    setNext item none
    pure item

def cJSONDetachItemFromArray (array : Option Address) (which : Int32) :
    Heaped (Option Address) := do
  if which < 0 then pure none
  else do
    let item ← getArrayItem array which.toNatClampNeg
    cJSONDetachItemViaPointer array item

def cJSONDeleteItemFromArray (fuel : Nat) (array : Option Address) (which : Int32) :
    Heaped PUnit := do
  let item ← cJSONDetachItemFromArray array which
  cJSONDelete fuel item

def detachItemFromObject (fuel : Nat) (object string : Option Address) (caseSensitive : Bool) :
    Heaped (Option Address) := do
  let toDetach ← getObjectItem fuel object string caseSensitive
  cJSONDetachItemViaPointer object toDetach

def cJSONDetachItemFromObject (fuel : Nat) (object string : Option Address) :
    Heaped (Option Address) := detachItemFromObject fuel object string false

def cJSONDetachItemFromObjectCaseSensitive (fuel : Nat) (object string : Option Address) :
    Heaped (Option Address) := detachItemFromObject fuel object string true

def deleteItemFromObject (fuel : Nat) (object string : Option Address) (caseSensitive : Bool) :
    Heaped PUnit := do
  let item ← detachItemFromObject fuel object string caseSensitive
  cJSONDelete fuel item

def cJSONDeleteItemFromObject (fuel : Nat) (object string : Option Address) : Heaped PUnit :=
  deleteItemFromObject fuel object string false

def cJSONDeleteItemFromObjectCaseSensitive (fuel : Nat) (object string : Option Address) :
    Heaped PUnit := deleteItemFromObject fuel object string true

/-! ### Inserting and replacing items -/

/-- The links of a new item and around it. -/
def linkBefore (array afterInserted newitem : Option Address) : Heaped PUnit := do
  setNext newitem afterInserted
  let links ← follow afterInserted
  setPrev newitem links.prev
  setPrev afterInserted newitem
  let container ← follow array
  if afterInserted = container.value.child then setChild array newitem
  else do
    let links ← follow newitem
    setNext links.prev newitem

def cJSONInsertItemInArray (array : Option Address) (which : Int32) (newitem : Option Address) :
    Heaped Bool := do
  if which < 0 then pure false
  else do
    let afterInserted ← getArrayItem array which.toNatClampNeg
    if afterInserted = none then addItemToArray array newitem
    else do
      linkBefore array afterInserted newitem
      pure true

/-- The links of a replacement for the first child, and of its parent. -/
def relinkFirst (parent child replacement : Option Address) : Heaped PUnit := do
  let first ← follow child
  onlyIf (first.prev = child) (setPrev replacement replacement)
  setChild parent replacement

/-- The links around a replacement for another child. -/
def relinkLater (parent replacement : Option Address) : Heaped PUnit := do
  let links ← follow replacement
  onlyIf (links.prev ≠ none) (setNext links.prev replacement)
  let links ← follow replacement
  onlyIf (links.next = none) (pointBack parent replacement)

/-- The links of a replacement, and of the item behind it. -/
def takeLinks (item replacement : Option Address) : Heaped PUnit := do
  let replaced ← follow item
  setNext replacement replaced.next
  let replaced ← follow item
  setPrev replacement replaced.prev
  let links ← follow replacement
  onlyIf (links.next ≠ none) (setPrev links.next replacement)

/-- The links of a replacement and around it. -/
def relink (parent item replacement : Option Address) : Heaped PUnit := do
  takeLinks item replacement
  let container ← follow parent
  if container.value.child = item then relinkFirst parent container.value.child replacement
  else relinkLater parent replacement

def cJSONReplaceItemViaPointer (fuel : Nat) (parent item replacement : Option Address) :
    Heaped Bool := do
  if parent = none ∨ replacement = none ∨ item = none then pure false
  else if replacement = item then pure true
  else do
    relink parent item replacement
    setNext item none
    setPrev item none
    cJSONDelete fuel item
    pure true

def cJSONReplaceItemInArray (fuel : Nat) (array : Option Address) (which : Int32)
    (newitem : Option Address) : Heaped Bool := do
  if which < 0 then pure false
  else do
    let item ← getArrayItem array which.toNatClampNeg
    cJSONReplaceItemViaPointer fuel array item newitem

section Replace

variable (allocator : Allocator)

/-- `replace_item_in_object`. The old name of the replacement is freed before the new one is
copied. -/
def replaceItemInObject (fuel : Nat) (object string replacement : Option Address)
    (caseSensitive : Bool) : Heaped Bool := do
  if replacement = none ∨ string = none then pure false
  else do
    let named ← follow replacement
    releaseText (!named.value.stringIsConst) named.value.string
    let copy ← cJSONStrdup allocator string
    setFields replacement fun fields => { fields with string := copy }
    if copy = none then pure false
    else do
      setFields replacement fun fields => { fields with stringIsConst := false }
      let item ← getObjectItem fuel object string caseSensitive
      cJSONReplaceItemViaPointer fuel object item replacement

def cJSONReplaceItemInObject (fuel : Nat) (object string newitem : Option Address) : Heaped Bool :=
  replaceItemInObject allocator fuel object string newitem false

def cJSONReplaceItemInObjectCaseSensitive (fuel : Nat) (object string newitem : Option Address) :
    Heaped Bool := replaceItemInObject allocator fuel object string newitem true

end Replace

/-! ### Building lists of children -/

/-- A child behind the ones that a new item has so far. The first one has no predecessor yet. -/
def chainChild (parent last child : Option Address) : Heaped PUnit :=
  if last = none then setChild parent child else suffixObject last child

/-- `if (parent->child) parent->child->prev = last;` -/
def closeChain (parent last : Option Address) : Heaped PUnit := do
  let container ← follow parent
  onlyIf (container.value.child ≠ none) (pointBack parent last)

/-- A new item that cannot be finished is deleted. -/
def abandon (fuel : Nat) (item : Option Address) : Heaped (Option Address) := do
  cJSONDelete fuel item
  pure none

section Build

variable (allocator : Allocator)

/-- The loop of the functions that create an array with elements: the last element, or nothing if
one could not be created. -/
def fillLoop (array : Option Address) :
    List (Heaped (Option Address)) → Option Address → Heaped (Option (Option Address))
  | [], last => pure (some last)
  | create :: rest, last => do
    let element ← create
    if element = none then pure none
    else do
      chainChild array last element
      fillLoop array rest element

/-- The ring is closed behind the loop, unless it failed. -/
def finishChain (fuel : Nat) (parent : Option Address) :
    Option (Option Address) → Heaped (Option Address)
  | none => abandon fuel parent
  | some last => do
    closeChain parent last
    pure parent

/-- The shape of the functions that create an array with elements. -/
def createFilledArray (fuel : Nat) (elements : List (Heaped (Option Address))) :
    Heaped (Option Address) := do
  let array ← cJSONCreateArray allocator
  if array = none then pure none
  else do
    let filled ← fillLoop array elements none
    finishChain fuel array filled

/-- The creation of an element from what the array of the caller holds at an index. -/
def createElement {Value : Type} (create : Value → Heaped (Option Address)) (values : List Value)
    (index : Nat) : Heaped (Option Address) :=
  match values[index]? with
  | none => lift (.error .outOfBounds)
  | some value => create value

/-- The functions that create an array with elements from an array of the caller, and a count. -/
def createFrom {Value : Type} (create : Value → Heaped (Option Address)) (fuel : Nat)
    (values : Option (List Value)) (count : Int32) : Heaped (Option Address) :=
  match values with
  | none => pure none
  | some values =>
    if count < 0 then pure none
    else createFilledArray allocator fuel
      ((List.range count.toNatClampNeg).map (createElement create values))

def cJSONCreateIntArray (fuel : Nat) (numbers : Option (List Int32)) (count : Int32) :
    Heaped (Option Address) :=
  createFrom allocator (fun number => cJSONCreateNumber allocator (Double.ofInt number)) fuel
    numbers count

def cJSONCreateDoubleArray (fuel : Nat) (numbers : Option (List Double)) (count : Int32) :
    Heaped (Option Address) :=
  createFrom allocator (cJSONCreateNumber allocator) fuel numbers count

def cJSONCreateStringArray (fuel : Nat) (strings : Option (List (Option Address)))
    (count : Int32) : Heaped (Option Address) :=
  createFrom allocator (cJSONCreateString allocator) fuel strings count

/-! ### Duplicating items -/

/-- The value string of a duplicate, or a failure. -/
def duplicateValuestring (item newitem : Option Address) : Heaped Bool := do
  let original ← follow item
  if original.value.valuestring = none then pure true
  else do
    let copy ← cJSONStrdup allocator original.value.valuestring
    setFields newitem fun fields => { fields with valuestring := copy }
    pure (decide (copy ≠ none))

/-- The name of a duplicate, or a failure. A constant name is shared. -/
def duplicateString (item newitem : Option Address) : Heaped Bool := do
  let original ← follow item
  if original.value.string = none then pure true
  else if original.value.stringIsConst then do
    setFields newitem fun fields => { fields with string := original.value.string }
    pure true
  else do
    let copy ← cJSONStrdup allocator original.value.string
    setFields newitem fun fields => { fields with string := copy }
    pure (decide (copy ≠ none))

/-- The loop of `cJSON_Duplicate` along the `next` chain of the children: the last new child, or
nothing if one could not be duplicated. -/
def duplicateLoop (duplicate : Option Address → Heaped (Option Address))
    (newitem : Option Address) :
    Nat → Option Address → Option Address → Heaped (Option (Option Address))
  | _, none, next => pure (some next)
  | 0, some _, _ => lift (.error .outOfFuel)
  | fuel + 1, some child, next => do
    let newchild ← duplicate (some child)
    if newchild = none then pure none
    else do
      chainChild newitem next newchild
      let original ← follow (some child)
      duplicateLoop duplicate newitem fuel original.next newchild

/-- The part of `cJSON_Duplicate` behind the strings. -/
def duplicateChildren (duplicate : Option Address → Heaped (Option Address)) (fuel : Nat)
    (recurse : Bool) (item newitem : Option Address) : Heaped (Option Address) := do
  if recurse then do
    let original ← follow item
    let last ← duplicateLoop duplicate newitem fuel original.value.child none
    finishChain (fuel + 1) newitem last
  else pure newitem

/-- The part of `cJSON_Duplicate` that fills in the new item. -/
def duplicateFields (duplicate : Option Address → Heaped (Option Address)) (fuel : Nat)
    (recurse : Bool) (item newitem : Option Address) : Heaped (Option Address) := do
  let original ← follow item
  setFields newitem fun fields =>
    { fields with
      type := original.value.type
      isReference := false
      stringIsConst := original.value.stringIsConst
      valueint := original.value.valueint
      valuedouble := original.value.valuedouble }
  let hasValuestring ← duplicateValuestring allocator item newitem
  if hasValuestring then do
    let hasString ← duplicateString allocator item newitem
    if hasString then duplicateChildren duplicate fuel recurse item newitem
    else abandon (fuel + 1) newitem
  else abandon (fuel + 1) newitem

/-- `cJSON_Duplicate`. The bound is on the nesting, and on the items of a list. -/
def cJSONDuplicate : Nat → Option Address → Bool → Heaped (Option Address)
  | _, none, _ => pure none
  | 0, some _, _ => lift (.error .outOfFuel)
  | fuel + 1, some item, recurse => do
    let newitem ← cJSONNewItem allocator
    if newitem = none then pure none
    else
      duplicateFields allocator (fun child => cJSONDuplicate fuel child true) fuel recurse
        (some item) newitem

end Build

end Memory

end DiffServSimulation
