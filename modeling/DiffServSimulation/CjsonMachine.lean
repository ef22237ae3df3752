/-
This file says what the editing functions may be asked for and what comes of it, in
terms of forests, the texts beside them and refused requests.

A `Call` is a call of one of the functions with its arguments. Its outcomes are put
together from a few relations, the way the functions are put together from a few
others. What a function does with null pointers, indexes that lead nowhere and names
that are not there is part of its outcome. Where memory is asked for there are two
outcomes, and the one in which a function gives up says that a request was refused.
-/

import DiffServSimulation.CjsonCreation
import DiffServSimulation.CjsonSearch

namespace DiffServSimulation

open Faulting LinkedRing Layout Memory DecimalNumber

/-! ### Calls -/

/-- An item to create. -/
inductive Maker where
  | null
  | true
  | false
  | bool (boolean : Bool)
  | number (num : Double)
  | string (string : Option Address)
  | raw (raw : Option Address)
  | array
  | object
  | stringReference (string : Option Address)
  | objectReference (child : Option Address)
  | arrayReference (child : Option Address)

/-- An array of the caller to create an array from. -/
inductive Listing where
  | ints (numbers : Option (List Int32))
  | doubles (numbers : Option (List Double))
  | strings (strings : Option (List (Option Address)))

/-- A call of one of the functions that edit a forest. -/
inductive Call where
  | create (maker : Maker)
  | delete (item : Option Address)
  | setNumber (object : Option Address) (number : Double)
  | addItemToArray (array item : Option Address)
  | addItemToObject (object string item : Option Address) (constantKey : Bool)
  | addItemReferenceToArray (array item : Option Address)
  | addItemReferenceToObject (object string item : Option Address)
  | addToObject (object name : Option Address) (maker : Maker)
  | detachItemViaPointer (parent item : Option Address)
  | detachItemFromArray (array : Option Address) (which : Int32)
  | detachItemFromObject (object string : Option Address) (caseSensitive : Bool)
  | deleteItemFromArray (array : Option Address) (which : Int32)
  | deleteItemFromObject (object string : Option Address) (caseSensitive : Bool)
  | insertItemInArray (array : Option Address) (which : Int32) (newitem : Option Address)
  | replaceItemViaPointer (parent item replacement : Option Address)
  | replaceItemInArray (array : Option Address) (which : Int32) (newitem : Option Address)
  | replaceItemInObject (object string newitem : Option Address) (caseSensitive : Bool)
  | createArray (listing : Listing) (count : Int32)
  | duplicate (item : Option Address) (recurse : Bool)

/-- What a call returns. -/
inductive Reply where
  | nothing
  | flag (done : Bool)
  | pointer (item : Option Address)
  | number (number : Double)

section Run

variable (allocator : Allocator)

/-- The function that creates an item. -/
def Maker.create : Maker → Heaped (Option Address)
  | .null => cJSONCreateNull allocator
  | .true => cJSONCreateTrue allocator
  | .false => cJSONCreateFalse allocator
  | .bool boolean => cJSONCreateBool allocator boolean
  | .number num => cJSONCreateNumber allocator num
  | .string text => cJSONCreateString allocator text
  | .raw text => cJSONCreateRaw allocator text
  | .array => cJSONCreateArray allocator
  | .object => cJSONCreateObject allocator
  | .stringReference text => cJSONCreateStringReference allocator text
  | .objectReference child => cJSONCreateObjectReference allocator child
  | .arrayReference child => cJSONCreateArrayReference allocator child

/-- The function that creates an array from an array of the caller. -/
def Listing.create (count : Int32) : Listing → Heaped (Option Address)
  | .ints numbers => cJSONCreateIntArray allocator (count.toNatClampNeg + 1) numbers count
  | .doubles numbers => cJSONCreateDoubleArray allocator (count.toNatClampNeg + 1) numbers count
  | .strings pointers => cJSONCreateStringArray allocator (count.toNatClampNeg + 1) pointers count

/-- The run of a call. The bound is on the items a loop or a recursion follows. -/
def Call.run (fuel : Nat) : Call → Heaped Reply
  | .create maker => return .pointer (← maker.create allocator)
  | .delete item => do
    cJSONDelete fuel item
    return .nothing
  | .setNumber object number => return .number (← cJSONSetNumberHelper object number)
  | .addItemToArray array item => return .flag (← cJSONAddItemToArray array item)
  | .addItemToObject object string item constantKey =>
    return .flag (← Memory.addItemToObject allocator object string item constantKey)
  | .addItemReferenceToArray array item =>
    return .flag (← cJSONAddItemReferenceToArray allocator array item)
  | .addItemReferenceToObject object string item =>
    return .flag (← cJSONAddItemReferenceToObject allocator object string item)
  | .addToObject object name maker =>
    return .pointer (← addCreated allocator object name (maker.create allocator))
  | .detachItemViaPointer parent item => return .pointer (← cJSONDetachItemViaPointer parent item)
  | .detachItemFromArray array which => return .pointer (← cJSONDetachItemFromArray array which)
  | .detachItemFromObject object string caseSensitive =>
    return .pointer (← Memory.detachItemFromObject fuel object string caseSensitive)
  | .deleteItemFromArray array which => do
    cJSONDeleteItemFromArray fuel array which
    return .nothing
  | .deleteItemFromObject object string caseSensitive => do
    Memory.deleteItemFromObject fuel object string caseSensitive
    return .nothing
  | .insertItemInArray array which newitem =>
    return .flag (← cJSONInsertItemInArray array which newitem)
  | .replaceItemViaPointer parent item replacement =>
    return .flag (← cJSONReplaceItemViaPointer fuel parent item replacement)
  | .replaceItemInArray array which newitem =>
    return .flag (← cJSONReplaceItemInArray fuel array which newitem)
  | .replaceItemInObject object string newitem caseSensitive =>
    return .flag (← Memory.replaceItemInObject allocator fuel object string newitem caseSensitive)
  | .createArray listing count => return .pointer (← listing.create allocator count)
  | .duplicate item recurse => return .pointer (← cJSONDuplicate allocator fuel item recurse)

end Run

/-! ### What a memory holds -/

/-- What calls are about: the forest in a memory, its texts, and how many requests were refused. -/
structure Holding where
  forest : List Branch
  texts : Address → Option CString
  refusals : Nat

/-- A memory with a forest in it, as calls see it. -/
def Memory.holding (memory : Memory) (forest : List Branch) : Holding :=
  ⟨forest, memory.texts, memory.refusals⟩

section Texts

variable (before after : Holding)

/-- No text is new, and no request was refused. -/
structure Keeps : Prop where
  texts : ∀ address, after.texts address = before.texts address ∨ after.texts address = none
  refusals : after.refusals = before.refusals

/-- The one new text says what a string says, and no request was refused. -/
structure CopiesText (source key : Address) : Prop where
  same : ∃ text, before.texts source = some text ∧ after.texts key = some text
  others : ∀ address, address ≠ key →
    after.texts address = before.texts address ∨ after.texts address = none
  refusals : after.refusals = before.refusals

/-- A request was refused, and everything else is as it was. -/
structure Starves : Prop where
  forest : after.forest = before.forest
  texts : after.texts = before.texts
  refusals : before.refusals < after.refusals

/-- A string becomes a name, itself when it is a constant and otherwise as a copy. -/
def Names (constantKey : Bool) (string : Option Address) (key : Address) : Prop :=
  ∃ source, string = some source ∧
    if constantKey then key = source ∧ Keeps before after else CopiesText before after source key

end Texts

/-! ### Outcomes of functions that ask for no memory -/

/-- Fields with a name. -/
def named (key : Address) (constantKey : Bool) (fields : Fields) : Fields :=
  { fields with string := some key, stringIsConst := constantKey }

/-- Fields without a name. -/
def nameless (fields : Fields) : Fields := { fields with string := none }

section Plain

variable (texts : Address → Option CString) (forest : List Branch)

/-- A root is deleted. -/
inductive Deletes : Option Address → List Branch → Prop where
  | null : Deletes none forest
  | root {branch : Branch} {rest : List Branch} (root : forest.Perm (branch :: rest)) :
    Deletes (some branch.address) rest

/-- A number is set. -/
inductive Sets (number : Double) : Option Address → List Branch → Prop where
  | set {target : Address} {fields : Fields} {children : Layout} {valueint : Int32}
    (has : (link forest).Has target fields children) (defined : intOfDouble number = .ok valueint) :
    Sets number (some target)
      ((link forest).adjust target
        fun fields => { fields with valueint, valuedouble := number }).branches

/-- A root is appended to the children of an item. -/
inductive Adds : Option Address → Option Address → Bool → List Branch → Prop where
  | refused {array item : Option Address} (void : item = none ∨ array = none ∨ array = item) :
    Adds array item false forest
  | appended {rest : List Branch} {branch : Branch} {target : Address} {fields : Fields}
    {children : List Branch} (root : forest.Perm (branch :: rest))
    (container : Container rest target fields children) :
    Adds (some target) (some branch.address) true
      (withChildren rest target (children ++ [branch]))

/-- The child at an index. -/
inductive ItemAt (index : Nat) : Option Address → Option Address → Prop where
  | null : ItemAt index none none
  | child {target : Address} {fields : Fields} {children : List Branch}
    (container : Container forest target fields children) :
    ItemAt index (some target) (children[index]?.map Branch.address)

/-- The child with a name. -/
inductive ItemNamed (caseSensitive : Bool) :
    Option Address → Option Address → Option Address → Prop where
  | null {object string : Option Address} (void : object = none ∨ string = none) :
    ItemNamed caseSensitive object string none
  | child {target string : Address} {fields : Fields} {children : List Branch} {text : CString}
    (container : Container forest target fields children) (isText : texts string = some text) :
    ItemNamed caseSensitive (some target) (some string)
      ((memberNamed texts caseSensitive text children).map Branch.address)

/-- A child becomes a root. -/
inductive Detaches :
    Option Address → Option Address → Option Address → List Branch → Prop where
  | refused {parent item : Option Address} (void : parent = none ∨ item = none) :
    Detaches parent item none forest
  | taken {target : Address} {fields : Fields} {before behind : List Branch} {branch : Branch}
    (container : Container forest target fields (before ++ branch :: behind)) :
    Detaches (some target) (some branch.address) (some branch.address)
      (branch :: withChildren forest target (before ++ behind))

/-- A root is put before a child. -/
inductive Precedes :
    Option Address → Option Address → Option Address → List Branch → Prop where
  | inserted {rest : List Branch} {branch other : Branch} {target : Address} {fields : Fields}
    {before behind : List Branch} (root : forest.Perm (branch :: rest))
    (container : Container rest target fields (before ++ other :: behind)) :
    Precedes (some target) (some other.address) (some branch.address)
      (withChildren rest target (before ++ branch :: other :: behind))

/-- A root takes the place of a child, which is deleted. -/
inductive Replaces :
    Option Address → Option Address → Option Address → Bool → List Branch → Prop where
  | refused {parent item replacement : Option Address}
    (void : parent = none ∨ replacement = none ∨ item = none) :
    Replaces parent item replacement false forest
  | same (parent item : Address) : Replaces (some parent) (some item) (some item) true forest
  | replaced {rest : List Branch} {branch other : Branch} {target : Address} {fields : Fields}
    {before behind : List Branch} (root : forest.Perm (branch :: rest))
    (container : Container rest target fields (before ++ other :: behind)) :
    Replaces (some target) (some other.address) (some branch.address) true
      (withChildren rest target (before ++ branch :: behind))

/-- A child at an index becomes a root. -/
def DetachesAt (array : Option Address) (which : Int32) (reply : Option Address)
    (next : List Branch) : Prop :=
  if which < 0 then reply = none ∧ next = forest
  else ∃ item, ItemAt forest which.toNatClampNeg array item ∧ Detaches forest array item reply next

/-- A child with a name becomes a root. -/
def DetachesNamed (object string : Option Address) (caseSensitive : Bool) (reply : Option Address)
    (next : List Branch) : Prop :=
  ∃ item, ItemNamed texts forest caseSensitive object string item ∧
    Detaches forest object item reply next

/-- A root is put at an index, or behind the last child. -/
def Inserts (array : Option Address) (which : Int32) (newitem : Option Address) (done : Bool)
    (next : List Branch) : Prop :=
  if which < 0 then done = false ∧ next = forest
  else ∃ after, ItemAt forest which.toNatClampNeg array after ∧
    if after = none then Adds forest array newitem done next
    else done = true ∧ Precedes forest array after newitem next

/-- A root takes the place of the child at an index. -/
def ReplacesAt (array : Option Address) (which : Int32) (newitem : Option Address) (done : Bool)
    (next : List Branch) : Prop :=
  if which < 0 then done = false ∧ next = forest
  else ∃ item, ItemAt forest which.toNatClampNeg array item ∧
    Replaces forest array item newitem done next

end Plain

/-! ### Outcomes of functions that ask for memory -/

/-- The fields of a created item, with the copy of its text. -/
def Maker.fields (copy : Option Address) : Maker → Fields
  | .null => { type := .null }
  | .true => { type := .true }
  | .false => { type := .false }
  | .bool boolean => { type := if boolean then .true else .false }
  | .number num =>
    { type := .number, valuedouble := num, valueint := (intOfDouble num).toOption.getD 0 }
  | .string _ => { type := .string, valuestring := copy }
  | .raw _ => { type := .raw, valuestring := copy }
  | .array => { type := .array }
  | .object => { type := .object }
  | .stringReference text => { type := .string, isReference := Bool.true, valuestring := text }
  | .objectReference child => { type := .object, isReference := Bool.true, child }
  | .arrayReference child => { type := .array, isReference := Bool.true, child }

/-- The string that is copied into a created item, if there is one. It may be null. -/
def Maker.source : Maker → Option (Option Address)
  | .string text => some text
  | .raw text => some text
  | _ => none

/-- The fields of a reference to an item. -/
def referenceTo (fields : Fields) : Fields :=
  { fields with string := none, isReference := true }

section Outcomes

variable (before : Holding)

/-- An item is created. There is none when memory for it or for its text is refused, or when its
text is null. -/
inductive Makes (maker : Maker) : Option Address → Holding → Prop where
  | starved {after : Holding} (starves : Starves before after) : Makes maker none after
  | textless (silent : maker.source = some none) : Makes maker none before
  | made {after : Holding} (address : Address) (plain : maker.source = none)
    (forest : after.forest = ⟨address, maker.fields none, .null⟩ :: before.forest)
    (keeps : Keeps before after) : Makes maker (some address) after
  | copied {after : Holding} {source : Address} (address key : Address)
    (isText : maker.source = some (some source))
    (forest : after.forest = ⟨address, maker.fields (some key), .null⟩ :: before.forest)
    (copies : CopiesText before after source key) : Makes maker (some address) after

/-- A reference to an item is created, or memory for it is refused. -/
inductive Refers : Option Address → Option Address → Holding → Prop where
  | null : Refers none none before
  | starved {after : Holding} (item : Option Address) (starves : Starves before after) :
    Refers item none after
  | made {after : Holding} {target : Address} {fields : Fields} {children : Layout}
    (address : Address) (has : (link before.forest).Has target fields children)
    (forest : after.forest = ⟨address, referenceTo fields, .null⟩ :: before.forest)
    (keeps : Keeps before after) : Refers (some target) (some address) after

/-- A root is named and appended to the children of an item. -/
inductive AddsNamed (constantKey : Bool) :
    Option Address → Option Address → Option Address → Bool → Holding → Prop where
  | refused {object string item : Option Address}
    (void : object = none ∨ string = none ∨ item = none ∨ object = item) :
    AddsNamed constantKey object string item false before
  | starved {after : Holding} (object string item : Option Address) (copied : constantKey = false)
    (starves : Starves before after) : AddsNamed constantKey object string item false after
  | appended {after : Holding} {rest : List Branch} {branch : Branch} {target : Address}
    {fields : Fields} {children : List Branch} {string : Option Address} (key : Address)
    (root : before.forest.Perm (branch :: rest)) (container : Container rest target fields children)
    (forest : after.forest = withChildren rest target
      (children ++ [{ branch with fields := named key constantKey branch.fields }]))
    (names : Names before after constantKey string key) :
    AddsNamed constantKey (some target) string (some branch.address) true after

/-- A root gets a copy of a string for its name, or loses its name when the request for the copy is
refused. -/
inductive Renames : Option Address → Option Address → Bool → Holding → Prop where
  | starved {after : Holding} {rest : List Branch} {branch : Branch} (source : Address)
    (root : before.forest.Perm (branch :: rest))
    (forest : after.forest = { branch with fields := nameless branch.fields } :: rest)
    (texts : ∀ address, after.texts address = before.texts address ∨ after.texts address = none)
    (refusals : before.refusals < after.refusals) :
    Renames (some source) (some branch.address) false after
  | renamed {after : Holding} {rest : List Branch} {branch : Branch} {source : Address}
    (key : Address) (root : before.forest.Perm (branch :: rest))
    (forest : after.forest = { branch with fields := named key false branch.fields } :: rest)
    (copies : CopiesText before after source key) :
    Renames (some source) (some branch.address) true after

/-- A root takes the place of the child with a name, and that name. -/
def ReplacesNamed (object string replacement : Option Address) (caseSensitive : Bool) (done : Bool)
    (after : Holding) : Prop :=
  if replacement = none ∨ string = none then done = false ∧ after = before
  else ∃ renamed middle, Renames before string replacement renamed middle ∧
    if renamed = true then ∃ item,
      ItemNamed middle.texts middle.forest caseSensitive object string item ∧
        Replaces middle.forest object item replacement done after.forest ∧ Keeps middle after
    else done = false ∧ after = middle

/-- A reference to an item is appended to the children of another. -/
def AddsReference (array item : Option Address) (done : Bool) (after : Holding) : Prop :=
  if array = none then done = false ∧ after = before
  else ∃ reference middle, Refers before item reference middle ∧
    Adds middle.forest array reference done after.forest ∧ Keeps middle after

/-- A reference to an item is named and appended to the children of another. When there is no memory
for the name, the reference stays a root. -/
def AddsNamedReference (object string item : Option Address) (done : Bool) (after : Holding) :
    Prop :=
  if object = none ∨ string = none then done = false ∧ after = before
  else ∃ reference middle, Refers before item reference middle ∧
    AddsNamed middle false object string reference done after

/-- A new item is named and appended to the children of another, or deleted again. -/
def AddsNew (object name : Option Address) (maker : Maker) (reply : Option Address)
    (after : Holding) : Prop :=
  ∃ item middle done last, Makes before maker item middle ∧
    AddsNamed middle false object name item done last ∧
    if done = true then reply = item ∧ after = last
    else reply = none ∧ Deletes last.forest item after.forest ∧ Keeps last after

/-- A root that mirrors a node is new, or a request was refused. -/
inductive Gains (node : Item) : Option Address → Holding → Prop where
  | starved {after : Holding} (starves : Starves before after) : Gains node none after
  | gained {after : Holding} {branch : Branch} {names : List Address}
    (forest : after.forest = branch :: before.forest)
    (mirrors : (link [branch]).Mirrors names after.texts (CJSON.root node))
    (texts : ∀ address, before.texts address ≠ none → after.texts address = before.texts address)
    (refusals : after.refusals = before.refusals) : Gains node (some branch.address) after

/-- The nodes that stand for the first values of an array of the caller. -/
inductive Enumerates (texts : Address → Option CString) (count : Nat) :
    Listing → List Item → Prop where
  | ints {numbers : List Int32} (inside : count ≤ numbers.length) :
    Enumerates texts count (.ints (some numbers))
      ((numbers.take count).map fun number => numberNode (Double.ofInt number) number)
  | doubles {numbers : List Double} {values : List Int32} (inside : count ≤ numbers.length)
    (defined : List.Forall₂ (fun number value => intOfDouble number = .ok value)
      (numbers.take count) values) :
    Enumerates texts count (.doubles (some numbers))
      (List.zipWith numberNode (numbers.take count) values)
  | strings {strings : List (Option Address)} {contents : List CString}
    (inside : count ≤ strings.length)
    (readable : List.Forall₂ (fun string text => string.bind texts = some text)
      (strings.take count) contents) :
    Enumerates texts count (.strings (some strings)) (contents.map stringNode)

/-- There is no array of the caller. -/
def Listing.Null : Listing → Prop
  | .ints numbers => numbers = none
  | .doubles numbers => numbers = none
  | .strings pointers => pointers = none

/-- An array is created from an array of the caller. -/
inductive CreatesArray (listing : Listing) (count : Int32) : Option Address → Holding → Prop where
  | refused (void : count < 0 ∨ listing.Null) : CreatesArray listing count none before
  | listed {nodes : List Item} {array : Option Address} {after : Holding}
    (nonnegative : ¬ count < 0) (lists : Enumerates before.texts count.toNatClampNeg listing nodes)
    (gains : Gains before { type := .array, child := CJSON.link nodes } array after) :
    CreatesArray listing count array after

/-- An item is duplicated, with its children or without. -/
inductive Copies (recurse : Bool) : Option Address → Option Address → Holding → Prop where
  | null : Copies recurse none none before
  | copied {target : Address} {fields : Fields} {children : Layout} {tree : CJSON}
    {names : List Address} {copy : Option Address} {after : Holding}
    (has : (link before.forest).Has target fields children)
    (shown : if recurse then children.Mirrors names before.texts tree else tree = .null)
    (gains : Gains before ⟨fields.data before.texts, tree⟩ copy after) :
    Copies recurse (some target) copy after

/-- What may come of a call: its reply, and what it leaves. -/
def Call.Outcome : Call → Reply → Holding → Prop
  | .create maker, reply, after => ∃ item, reply = .pointer item ∧ Makes before maker item after
  | .delete item, reply, after =>
    reply = .nothing ∧ Deletes before.forest item after.forest ∧ Keeps before after
  | .setNumber object number, reply, after =>
    reply = .number number ∧ Sets before.forest number object after.forest ∧ Keeps before after
  | .addItemToArray array item, reply, after =>
    ∃ done, reply = .flag done ∧ Adds before.forest array item done after.forest ∧
      Keeps before after
  | .addItemToObject object string item constantKey, reply, after =>
    ∃ done, reply = .flag done ∧ AddsNamed before constantKey object string item done after
  | .addItemReferenceToArray array item, reply, after =>
    ∃ done, reply = .flag done ∧ AddsReference before array item done after
  | .addItemReferenceToObject object string item, reply, after =>
    ∃ done, reply = .flag done ∧ AddsNamedReference before object string item done after
  | .addToObject object name maker, reply, after =>
    ∃ item, reply = .pointer item ∧ AddsNew before object name maker item after
  | .detachItemViaPointer parent item, reply, after =>
    ∃ detached, reply = .pointer detached ∧
      Detaches before.forest parent item detached after.forest ∧ Keeps before after
  | .detachItemFromArray array which, reply, after =>
    ∃ detached, reply = .pointer detached ∧
      DetachesAt before.forest array which detached after.forest ∧ Keeps before after
  | .detachItemFromObject object string caseSensitive, reply, after =>
    ∃ detached, reply = .pointer detached ∧
      DetachesNamed before.texts before.forest object string caseSensitive detached after.forest ∧
        Keeps before after
  | .deleteItemFromArray array which, reply, after =>
    reply = .nothing ∧ (∃ detached middle, DetachesAt before.forest array which detached middle ∧
      Deletes middle detached after.forest) ∧ Keeps before after
  | .deleteItemFromObject object string caseSensitive, reply, after =>
    reply = .nothing ∧ (∃ detached middle,
      DetachesNamed before.texts before.forest object string caseSensitive detached middle ∧
        Deletes middle detached after.forest) ∧ Keeps before after
  | .insertItemInArray array which newitem, reply, after =>
    ∃ done, reply = .flag done ∧ Inserts before.forest array which newitem done after.forest ∧
      Keeps before after
  | .replaceItemViaPointer parent item replacement, reply, after =>
    ∃ done, reply = .flag done ∧
      Replaces before.forest parent item replacement done after.forest ∧ Keeps before after
  | .replaceItemInArray array which newitem, reply, after =>
    ∃ done, reply = .flag done ∧ ReplacesAt before.forest array which newitem done after.forest ∧
      Keeps before after
  | .replaceItemInObject object string newitem caseSensitive, reply, after =>
    ∃ done, reply = .flag done ∧
      ReplacesNamed before object string newitem caseSensitive done after
  | .createArray listing count, reply, after =>
    ∃ array, reply = .pointer array ∧ CreatesArray before listing count array after
  | .duplicate item recurse, reply, after =>
    ∃ copy, reply = .pointer copy ∧ Copies before recurse item copy after

end Outcomes

end DiffServSimulation
