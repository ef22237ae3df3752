/-
This file models what the parser and the printer of the vendored JSON library
know of the allocator: the `internal_hooks`, which grant or refuse each request
for a block.

A run is determined by the answers it gets. They are therefore a function of the
number and the size of a request, which covers allocators that go by anything
else. Each request takes the next answer, and the refused ones are counted, so a
null pointer can be traced back to a request that was refused.
-/

import Mathlib.Tactic.Common

namespace DiffServSimulation

/-- `internal_hooks`: which of the requests to come are granted, by their number and their size,
whether `reallocate` is there, and how many requests were refused so far. -/
structure Hooks where
  grants : Nat → Nat → Bool
  reallocates : Bool := true
  refusals : Nat := 0

namespace Hooks

/-- The hooks after a request for a block of some size. -/
def asked (hooks : Hooks) (size : Nat) : Hooks where
  grants request := hooks.grants (request + 1)
  reallocates := hooks.reallocates
  refusals := hooks.refusals + if hooks.grants 0 size then 0 else 1

/-- The hooks of an allocator that grants every request. -/
def granting : Hooks where
  grants _ _ := true

/-- Every request to come is granted. -/
def Granting (hooks : Hooks) : Prop := ∀ request size, hooks.grants request size = true

/-- The hooks after any number of requests. -/
inductive Reaches : Hooks → Hooks → Prop where
  | refl (hooks : Hooks) : Reaches hooks hooks
  | asked {before after : Hooks} (size : Nat) (later : Reaches (before.asked size) after) :
      Reaches before after

/-- The hooks after requests that were all granted. -/
structure Granted (before after : Hooks) : Prop where
  reaches : before.Reaches after
  refusals : after.refusals = before.refusals

/-- The hooks after requests one of which was refused. -/
structure Refused (before after : Hooks) : Prop where
  reaches : before.Reaches after
  refusals : before.refusals < after.refusals

variable {before middle after : Hooks}

/-! ### Requests -/

theorem asked_of_granted {size : Nat} (grants : before.grants 0 size = true) :
    (before.asked size).refusals = before.refusals := by
  rw [asked, grants, if_pos rfl, Nat.add_zero]

theorem asked_of_refused {size : Nat} (refuses : before.grants 0 size = false) :
    (before.asked size).refusals = before.refusals + 1 := by
  rw [asked, refuses, if_neg Bool.false_ne_true]

theorem Reaches.one (hooks : Hooks) (size : Nat) : hooks.Reaches (hooks.asked size) :=
  .asked size (.refl _)

theorem Reaches.trans (first : before.Reaches middle) (second : middle.Reaches after) :
    before.Reaches after := by
  induction first with
  | refl => exact second
  | asked size _ inductionHypothesis => exact .asked size (inductionHypothesis second)

theorem Reaches.reallocates (reaches : before.Reaches after) :
    after.reallocates = before.reallocates := by
  induction reaches with
  | refl => rfl
  | asked size _ inductionHypothesis => exact inductionHypothesis

/-- An allocator that grants every request refuses none. -/
theorem Reaches.granted (reaches : before.Reaches after) (granting : before.Granting) :
    before.Granted after := by
  refine ⟨reaches, ?_⟩
  induction reaches with
  | refl => rfl
  | asked size _ inductionHypothesis =>
    rw [inductionHypothesis fun request => granting (request + 1),
      asked_of_granted (granting 0 size)]

/-! ### Granted and refused -/

theorem Granted.refl (hooks : Hooks) : hooks.Granted hooks := ⟨.refl hooks, rfl⟩

theorem Granted.trans (first : before.Granted middle) (second : middle.Granted after) :
    before.Granted after :=
  ⟨first.reaches.trans second.reaches, second.refusals.trans first.refusals⟩

theorem Granted.asked (granted : before.Granted middle) {size : Nat}
    (grants : middle.grants 0 size = true) : before.Granted (middle.asked size) :=
  granted.trans ⟨.one middle size, asked_of_granted grants⟩

/-- Where all requests were granted and the next one is not, one was refused. -/
theorem Granted.refused (granted : before.Granted middle) {size : Nat}
    (refuses : middle.grants 0 size = false) : before.Refused (middle.asked size) := by
  refine ⟨granted.reaches.trans (.one middle size), ?_⟩
  rw [asked_of_refused refuses, granted.refusals]
  exact Nat.lt_succ_self _

theorem Granted.trans_refused (first : before.Granted middle) (second : middle.Refused after) :
    before.Refused after :=
  ⟨first.reaches.trans second.reaches, first.refusals ▸ second.refusals⟩

theorem Refused.not_granting (refused : before.Refused after) : ¬ before.Granting :=
  fun granting => Nat.ne_of_gt refused.refusals (refused.reaches.granted granting).refusals

end Hooks

end DiffServSimulation
