/-
This file is a small library for programs that carry a state and may stop with a
fault: a null pointer followed, an index outside its block, a length that cannot
be allocated. It names nothing of the simulator.

A run either ends in a value and a state or in a fault. `Completes` is the total
reading of a specification, so it excludes every fault, and the rules below take
it apart along the shape of the program. Counted loops come with their invariant
rule.
-/

import Mathlib.Tactic.Common

namespace Faulting

variable {State Fault Value Other : Type}

/-- A program over a state that may stop with a fault. -/
abbrev Program (State Fault Value : Type) := StateT State (Except Fault) Value

/-- A pure outcome as a program: its value, or its fault. -/
def lift (outcome : Except Fault Value) : Program State Fault Value := StateT.lift outcome

/-- The run ends without a fault, and its value and last state meet the postcondition. -/
def Completes (program : Program State Fault Value) (state : State)
    (post : Value → State → Prop) : Prop :=
  ∃ value next, program.run state = .ok (value, next) ∧ post value next

/-! ### Specifications -/

theorem completes_pure {post : Value → State → Prop} {value : Value} {state : State}
    (holds : post value state) :
    Completes (pure value : Program State Fault Value) state post :=
  ⟨value, state, rfl, holds⟩

/-- The rule of sequencing. -/
theorem completes_bind {first : Program State Fault Value}
    {rest : Value → Program State Fault Other} {state : State} {middle : Value → State → Prop}
    {post : Other → State → Prop} (begins : Completes first state middle)
    (continues : ∀ value next, middle value next → Completes (rest value) next post) :
    Completes (first >>= rest) state post := by
  obtain ⟨value, next, ran, holds⟩ := begins
  obtain ⟨result, last, finished, final⟩ := continues value next holds
  refine ⟨result, last, ?_, final⟩
  rw [StateT.run_bind, ran]
  exact finished

/-- The rule of sequencing after a part that leaves the state as it is. -/
theorem completes_bind_same {first : Program State Fault Value}
    {rest : Value → Program State Fault Other} {state : State} {middle : Value → Prop}
    {post : Other → State → Prop}
    (begins : Completes first state fun value next => next = state ∧ middle value)
    (continues : ∀ value, middle value → Completes (rest value) state post) :
    Completes (first >>= rest) state post :=
  completes_bind begins fun value _ ⟨same, holds⟩ => same ▸ continues value holds

/-- The rule of consequence. -/
theorem Completes.mono {program : Program State Fault Value} {state : State}
    {post weaker : Value → State → Prop} (completes : Completes program state post)
    (implies : ∀ value next, post value next → weaker value next) :
    Completes program state weaker := by
  obtain ⟨value, next, ran, holds⟩ := completes
  exact ⟨value, next, ran, implies value next holds⟩

theorem completes_get_bind {rest : State → Program State Fault Other} {state : State}
    {post : Other → State → Prop} (continues : Completes (rest state) state post) :
    Completes (get >>= rest) state post := by
  obtain ⟨result, last, finished, final⟩ := continues
  exact ⟨result, last, finished, final⟩

theorem completes_modify_bind {change : State → State} {rest : PUnit → Program State Fault Other}
    {state : State} {post : Other → State → Prop}
    (continues : Completes (rest ⟨⟩) (change state) post) :
    Completes (modify change >>= rest) state post := by
  obtain ⟨result, last, finished, final⟩ := continues
  exact ⟨result, last, finished, final⟩

theorem completes_lift_bind {outcome : Except Fault Value}
    {rest : Value → Program State Fault Other} {state : State} {value : Value}
    {post : Other → State → Prop} (succeeds : outcome = .ok value)
    (continues : Completes (rest value) state post) :
    Completes (lift outcome >>= rest) state post := by
  subst succeeds
  obtain ⟨result, last, finished, final⟩ := continues
  exact ⟨result, last, finished, final⟩

/-! ### Runs -/

theorem run_bind_ok (first : Program State Fault Value) (rest : Value → Program State Fault Other)
    (state next : State) (value : Value) (ran : first.run state = .ok (value, next)) :
    (first >>= rest).run state = (rest value).run next := by
  rw [StateT.run_bind, ran]
  rfl

theorem run_bind_error (first : Program State Fault Value)
    (rest : Value → Program State Fault Other) (state : State) (fault : Fault)
    (ran : first.run state = .error fault) :
    (first >>= rest).run state = .error fault := by
  rw [StateT.run_bind, ran]
  rfl

theorem run_get_bind (rest : State → Program State Fault Other) (state : State) :
    (get >>= rest).run state = (rest state).run state := rfl

theorem run_modify_bind (change : State → State) (rest : PUnit → Program State Fault Other)
    (state : State) : (modify change >>= rest).run state = (rest ⟨⟩).run (change state) := rfl

theorem run_lift_ok (value : Value) (state : State) :
    (lift (.ok value) : Program State Fault Value).run state = .ok (value, state) := rfl

theorem run_lift_error (fault : Fault) (state : State) :
    (lift (.error fault) : Program State Fault Value).run state = .error fault := rfl

/-- A run that completes with an exact outcome is that outcome. -/
theorem run_eq_of_completes (program : Program State Fault Value) (state next : State)
    (value : Value)
    (completes : Completes program state fun result last => result = value ∧ last = next) :
    program.run state = .ok (value, next) := by
  obtain ⟨result, last, ran, rfl, rfl⟩ := completes
  exact ran

/-- The rule of sequencing after a part whose run is known. -/
theorem completes_run_bind {first : Program State Fault Value}
    {rest : Value → Program State Fault Other} {state next : State} {value : Value}
    {post : Other → State → Prop} (ran : first.run state = .ok (value, next))
    (continues : Completes (rest value) next post) : Completes (first >>= rest) state post := by
  obtain ⟨result, last, finished, final⟩ := continues
  exact ⟨result, last, (run_bind_ok first rest state next value ran).trans finished, final⟩

/-! ### What every run that ends relates -/

/-- Every run that ends without a fault relates its first state, its value and its last state. -/
def Relates (program : Program State Fault Value) (relation : State → Value → State → Prop) :
    Prop :=
  ∀ state value next, program.run state = .ok (value, next) → relation state value next

section Relates

variable {relation : State → Value → State → Prop} {program : Program State Fault Value}

/-- A run of two parts is a run of the one and then of the other. -/
theorem run_bind_inv {first : Program State Fault Value}
    {rest : Value → Program State Fault Other} {state last : State} {result : Other}
    (ran : (first >>= rest).run state = .ok (result, last)) :
    ∃ value next, first.run state = .ok (value, next) ∧
      (rest value).run next = .ok (result, last) := by
  rw [StateT.run_bind] at ran
  cases begun : first.run state with
  | error fault =>
    rw [begun] at ran
    cases ran
  | ok reached =>
    rw [begun] at ran
    exact ⟨reached.1, reached.2, rfl, ran⟩

theorem relates_pure {value : Value} (holds : ∀ state, relation state value state) :
    Relates (pure value : Program State Fault Value) relation := by
  intro state result next ran
  cases ran
  exact holds state

theorem relates_lift {outcome : Except Fault Value}
    (holds : ∀ state value, outcome = .ok value → relation state value state) :
    Relates (lift outcome : Program State Fault Value) relation := by
  intro state result next ran
  cases outcome with
  | error fault => cases ran
  | ok value =>
    cases ran
    exact holds state _ rfl

/-- The rule of sequencing. -/
theorem Relates.bind {first : Program State Fault Value}
    {rest : Value → Program State Fault Other} {relation : State → Value → State → Prop}
    {later : Value → State → Other → State → Prop} {whole : State → Other → State → Prop}
    (begins : Relates first relation) (continues : ∀ value, Relates (rest value) (later value))
    (composes : ∀ state value next result last, relation state value next →
      later value next result last → whole state result last) :
    Relates (first >>= rest) whole := by
  intro state result last ran
  obtain ⟨value, next, begun, finished⟩ := run_bind_inv ran
  exact composes _ _ _ _ _ (begins _ _ _ begun) (continues _ _ _ _ finished)

/-- What is known of a run joins what its specification says. -/
theorem Completes.and_relates {state : State} {post : Value → State → Prop}
    (completes : Completes program state post) (relates : Relates program relation) :
    Completes program state fun value next => post value next ∧ relation state value next := by
  obtain ⟨value, next, ran, holds⟩ := completes
  exact ⟨value, next, ran, holds, relates _ _ _ ran⟩

end Relates

/-! ### Counted loops -/

/-- The loop `for (i = start; ...; ++i) body`, taken `count` times. -/
def forFrom (body : Nat → Program State Fault PUnit) : Nat → Nat → Program State Fault PUnit
  | _, 0 => pure ⟨⟩
  | start, count + 1 => do
    body start
    forFrom body (start + 1) count

/-- The loop `for (i = 0; i < bound; ++i) body`. -/
def forUpTo (bound : Nat) (body : Nat → Program State Fault PUnit) : Program State Fault PUnit :=
  forFrom body 0 bound

/-- The invariant rule of a counted loop, from any starting index. -/
theorem completes_forFrom (body : Nat → Program State Fault PUnit) (inv : Nat → State → Prop)
    (start count : Nat) (state : State) (holds : inv start state)
    (step : ∀ index current, start ≤ index → index < start + count → inv index current →
      Completes (body index) current fun _ next => inv (index + 1) next) :
    Completes (forFrom body start count) state fun _ next => inv (start + count) next := by
  induction count generalizing start state with
  | zero => exact ⟨⟨⟩, state, rfl, holds⟩
  | succ count inductionHypothesis =>
    obtain ⟨_, next, ran, kept⟩ := step start state (Nat.le_refl _) (by omega) holds
    obtain ⟨_, last, rest, final⟩ := inductionHypothesis (start + 1) next kept
      fun index current low high => step index current (by omega) (by omega)
    refine ⟨⟨⟩, last, ?_, ?_⟩
    · rw [forFrom, run_bind_ok _ _ _ _ _ ran]
      exact rest
    · rwa [Nat.add_right_comm] at final

/-- The invariant rule of a loop counted from zero. -/
theorem completes_forUpTo (bound : Nat) (body : Nat → Program State Fault PUnit)
    (inv : Nat → State → Prop) (state : State) (holds : inv 0 state)
    (step : ∀ index current, index < bound → inv index current →
      Completes (body index) current fun _ next => inv (index + 1) next) :
    Completes (forUpTo bound body) state fun _ next => inv bound next := by
  have whole := completes_forFrom body inv 0 bound state holds
    fun index current _ high => step index current (by omega)
  rwa [Nat.zero_add] at whole

end Faulting
