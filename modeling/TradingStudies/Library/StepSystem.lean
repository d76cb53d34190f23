import Mathlib

/-!
# Step systems and call systems

Two shapes of execution recur in the development.  A step system is a partial
function `step : State → Action → Option State`; an action that is not enabled
has no successor.  A call system is a total function which returns the next
state together with the result handed back to the caller.

Both come with the assumption under which an environment chooses its next
action.  The induction over runs is carried out here once, so that a protocol
only supplies a step lemma.
-/

namespace StepSystem

variable {State Action : Type*}

/-- States reached from `start` by enabled actions, each of which was allowed
in the state where it was taken. -/
inductive Reachable (step : State → Action → Option State)
    (Allowed : State → Action → Prop) (start : State) : State → Prop
  | refl : Reachable step Allowed start start
  | tail {state next : State} {action : Action}
      (hreach : Reachable step Allowed start state)
      (hallowed : Allowed state action)
      (hstep : step state action = some next) :
      Reachable step Allowed start next

/-- Safety by induction on the run: an invariant of the start state which
every allowed step preserves holds in every reachable state. -/
theorem Reachable.invariant
    {step : State → Action → Option State}
    {Allowed : State → Action → Prop} {start state : State}
    {Inv : State → Prop}
    (hreach : Reachable step Allowed start state)
    (hstart : Inv start)
    (hstep : ∀ {state next : State} {action : Action},
      Inv state → Allowed state action → step state action = some next →
        Inv next) :
    Inv state := by
  induction hreach with
  | refl => exact hstart
  | tail _ hallowed hnext ih => exact hstep ih hallowed hnext

theorem Reachable.trans
    {step : State → Action → Option State}
    {Allowed : State → Action → Prop} {start middle last : State}
    (hfirst : Reachable step Allowed start middle)
    (hsecond : Reachable step Allowed middle last) :
    Reachable step Allowed start last := by
  induction hsecond with
  | refl => exact hfirst
  | tail _ hallowed hstep ih => exact .tail ih hallowed hstep

/-- Replay a word of actions; the replay fails at the first action that is not
enabled. -/
def run (step : State → Action → Option State) :
    List Action → State → Option State
  | [], state => some state
  | action :: rest, state =>
      match step state action with
      | none => none
      | some next => run step rest next

@[simp] theorem run_nil (step : State → Action → Option State) (state : State) :
    run step [] state = some state := rfl

theorem run_cons_of_step
    {step : State → Action → Option State} {state next : State}
    {action : Action} (hstep : step state action = some next)
    (rest : List Action) :
    run step (action :: rest) state = run step rest next := by
  simp [run, hstep]

/-- Every step of a replayed word meets `Allowed`. -/
def AllAllowed (step : State → Action → Option State)
    (Allowed : State → Action → Prop) : List Action → State → Prop
  | [], _ => True
  | action :: rest, state =>
      Allowed state action ∧
        match step state action with
        | none => True
        | some next => AllAllowed step Allowed rest next

instance AllAllowed.decidable (step : State → Action → Option State)
    (Allowed : State → Action → Prop)
    [∀ state action, Decidable (Allowed state action)] :
    ∀ (actions : List Action) (state : State),
      Decidable (AllAllowed step Allowed actions state)
  | [], _ => inferInstanceAs (Decidable True)
  | action :: rest, state =>
      have : Decidable (match step state action with
          | none => True
          | some next => AllAllowed step Allowed rest next) :=
        match step state action with
        | none => inferInstanceAs (Decidable True)
        | some next => AllAllowed.decidable step Allowed rest next
      inferInstanceAs (Decidable (Allowed state action ∧ _))

theorem reachable_of_run
    {step : State → Action → Option State}
    {Allowed : State → Action → Prop}
    {actions : List Action} {state last : State}
    (hrun : run step actions state = some last)
    (hallowed : AllAllowed step Allowed actions state) :
    Reachable step Allowed state last := by
  induction actions generalizing state with
  | nil =>
      simp only [run_nil, Option.some.injEq] at hrun
      subst last
      exact .refl
  | cons action rest ih =>
      cases hstep : step state action with
      | none => simp [run, hstep] at hrun
      | some next =>
          simp only [AllAllowed, hstep] at hallowed
          rw [run_cons_of_step hstep] at hrun
          have hfirst : Reachable step Allowed state next :=
            .tail .refl hallowed.1 hstep
          exact hfirst.trans (ih hrun hallowed.2)

/-- In a word that runs to its end, a condition on the actions alone is met by
every step exactly when it is met by every action. -/
theorem allAllowed_iff_forall
    {step : State → Action → Option State} {Good : Action → Prop}
    {actions : List Action} {state last : State}
    (hrun : run step actions state = some last) :
    AllAllowed step (fun _ action => Good action) actions state ↔
      ∀ action ∈ actions, Good action := by
  induction actions generalizing state with
  | nil => simp [AllAllowed]
  | cons action rest ih =>
      cases hstep : step state action with
      | none => simp [run, hstep] at hrun
      | some next =>
          rw [run_cons_of_step hstep] at hrun
          simp only [AllAllowed, hstep, List.forall_mem_cons, ih hrun]

/-- What every step keeps is kept by a whole word. -/
theorem run_invariant
    {step : State → Action → Option State} {Inv : State → Prop}
    (hkeep : ∀ state next action, Inv state →
      step state action = some next → Inv next)
    {actions : List Action} {state last : State} (hstart : Inv state)
    (hrun : run step actions state = some last) : Inv last := by
  have hall : AllAllowed step (fun _ _ => True) actions state :=
    (allAllowed_iff_forall hrun).mpr fun _ _ => trivial
  apply (reachable_of_run hrun hall).invariant hstart
  intro state next action hinv _ hstep
  exact hkeep state next action hinv hstep

theorem AllAllowed.take
    {step : State → Action → Option State}
    {Allowed : State → Action → Prop} {actions : List Action} {state : State}
    (hallowed : AllAllowed step Allowed actions state) (n : ℕ) :
    AllAllowed step Allowed (actions.take n) state := by
  induction actions generalizing state n with
  | nil =>
      rw [List.take_nil]
      trivial
  | cons action rest ih =>
      cases n with
      | zero => trivial
      | succ n =>
          cases hstep : step state action with
          | none =>
              simp only [AllAllowed, hstep] at hallowed
              simp only [List.take_succ_cons, AllAllowed, hstep]
              exact hallowed
          | some next =>
              simp only [AllAllowed, hstep] at hallowed
              simp only [List.take_succ_cons, AllAllowed, hstep]
              exact ⟨hallowed.1, ih hallowed.2 n⟩

theorem AllAllowed.and
    {step : State → Action → Option State}
    {Allowed Allowed' : State → Action → Prop}
    {actions : List Action} {state : State}
    (hallowed : AllAllowed step Allowed actions state)
    (hallowed' : AllAllowed step Allowed' actions state) :
    AllAllowed step (fun state action => Allowed state action ∧
      Allowed' state action) actions state := by
  induction actions generalizing state with
  | nil => trivial
  | cons action rest ih =>
      cases hstep : step state action with
      | none =>
          simp only [AllAllowed, hstep] at hallowed hallowed' ⊢
          exact ⟨⟨hallowed.1, hallowed'.1⟩, trivial⟩
      | some next =>
          simp only [AllAllowed, hstep] at hallowed hallowed' ⊢
          exact ⟨⟨hallowed.1, hallowed'.1⟩, ih hallowed.2 hallowed'.2⟩

/-- A word never gets stuck while its allowed steps have a successor that is
related to what an abstract state has become. -/
theorem run_simulation
    {step : State → Action → Option State}
    {Allowed : State → Action → Prop} {Abstract : Type*}
    {record : Abstract → Action → Abstract}
    (Related : State → Abstract → Prop)
    (hstep : ∀ state abstract action, Related state abstract →
      Allowed state action → ∃ next, step state action = some next ∧
        Related next (record abstract action))
    {actions : List Action} {state : State} {abstract : Abstract}
    (hstart : Related state abstract)
    (hallowed : AllAllowed step Allowed actions state) :
    ∃ last, run step actions state = some last ∧
      Related last (actions.foldl record abstract) := by
  induction actions generalizing state abstract with
  | nil => exact ⟨state, rfl, hstart⟩
  | cons action rest ih =>
      obtain ⟨next, hnext, hrelated⟩ :=
        hstep state abstract action hstart hallowed.1
      simp only [AllAllowed, hnext] at hallowed
      rw [run_cons_of_step hnext]
      exact ih hrelated hallowed.2

/-- A word of allowed steps runs to its end and keeps an invariant. -/
theorem run_of_allAllowed
    {step : State → Action → Option State}
    {Allowed : State → Action → Prop} {Inv : State → Prop}
    (hstep : ∀ state action, Inv state → Allowed state action →
      ∃ next, step state action = some next ∧ Inv next)
    {actions : List Action} {state : State} (hstart : Inv state)
    (hallowed : AllAllowed step Allowed actions state) :
    ∃ last, run step actions state = some last ∧ Inv last := by
  have hrelated : ∀ (state : State) (_ : Unit) (action : Action), Inv state →
      Allowed state action → ∃ next, step state action = some next ∧ Inv next :=
    fun state _ action => hstep state action
  apply run_simulation (fun state _ => Inv state) hrelated hstart hallowed
  · exact fun _ _ => ()
  · exact ()

/-- An assumption that is always met. -/
theorem allAllowed_trivial (step : State → Action → Option State)
    (actions : List Action) (state : State) :
    AllAllowed step (fun _ _ => True) actions state := by
  induction actions generalizing state with
  | nil => trivial
  | cons action rest ih =>
      cases hstep : step state action with
      | none => simp [AllAllowed, hstep]
      | some next =>
          simp only [AllAllowed, hstep, true_and]
          exact ih next

/-- An invariant which allowed steps keep, and under which they are good. -/
theorem allAllowed_of_invariant
    {step : State → Action → Option State}
    {Allowed Good : State → Action → Prop} (Inv : State → Prop)
    (hstep : ∀ state action, Inv state → Allowed state action →
      Good state action ∧
        ∀ next, step state action = some next → Inv next)
    {actions : List Action} {state : State} (hstart : Inv state)
    (hallowed : AllAllowed step Allowed actions state) :
    AllAllowed step Good actions state := by
  induction actions generalizing state with
  | nil => trivial
  | cons action rest ih =>
      obtain ⟨hgood, hkeep⟩ := hstep state action hstart hallowed.1
      refine ⟨hgood, ?_⟩
      cases hnext : step state action with
      | none => trivial
      | some next =>
          have hrest := hallowed.2
          rw [hnext] at hrest
          exact ih (hkeep next hnext) hrest

/-- Every state passed through by the replay of a word satisfies `Good`. -/
def AllStates (step : State → Action → Option State) (Good : State → Prop) :
    List Action → State → Prop
  | [], state => Good state
  | action :: rest, state =>
      Good state ∧
        match step state action with
        | none => True
        | some next => AllStates step Good rest next

theorem AllStates.first
    {step : State → Action → Option State} {Good : State → Prop}
    {actions : List Action} {state : State}
    (hall : AllStates step Good actions state) : Good state := by
  cases actions with
  | nil => exact hall
  | cons action rest => exact hall.1

theorem AllStates.last
    {step : State → Action → Option State} {Good : State → Prop}
    {actions : List Action} {state last : State}
    (hall : AllStates step Good actions state)
    (hrun : run step actions state = some last) : Good last := by
  induction actions generalizing state with
  | nil =>
      cases hrun
      exact hall
  | cons action rest ih =>
      cases hstep : step state action with
      | none => simp [run, hstep] at hrun
      | some next =>
          rw [run_cons_of_step hstep] at hrun
          simp only [AllStates, hstep] at hall
          exact ih hall.2 hrun

/-- The exact condition for a property of whole runs.  Allowed steps keep an
invariant which implies the property; a step that is not allowed destroys the
property at once.  Then the property holds all along a run if and only if
every step of the run is allowed. -/
theorem allStates_iff_allAllowed
    {step : State → Action → Option State}
    {Allowed : State → Action → Prop} {Good : State → Prop}
    (Inv : State → Prop)
    (hgood : ∀ state, Inv state → Good state)
    (hkeep : ∀ state next action, Inv state → Allowed state action →
      step state action = some next → Inv next)
    (hbreak : ∀ state next action, Inv state → ¬ Allowed state action →
      step state action = some next → ¬ Good next)
    {actions : List Action} {state last : State} (hstart : Inv state)
    (hrun : run step actions state = some last) :
    AllStates step Good actions state ↔
      AllAllowed step Allowed actions state := by
  induction actions generalizing state with
  | nil =>
      constructor
      · intro _
        trivial
      · intro _
        exact hgood state hstart
  | cons action rest ih =>
      cases hstep : step state action with
      | none => simp [run, hstep] at hrun
      | some next =>
          rw [run_cons_of_step hstep] at hrun
          simp only [AllStates, AllAllowed, hstep]
          by_cases hallowed : Allowed state action
          · have hnext := hkeep state next action hstart hallowed hstep
            rw [ih hnext hrun]
            constructor
            · intro hall
              exact ⟨hallowed, hall.2⟩
            · intro hall
              exact ⟨hgood state hstart, hall.2⟩
          · constructor
            · intro hall
              have hnext := hall.2.first
              exact absurd hnext
                (hbreak state next action hstart hallowed hstep)
            · intro hall
              exact absurd hall.1 hallowed

/-- The exact condition for a property of the beginnings of a word, when a step
that is not allowed may have no successor. -/
theorem goodPrefixes_iff_allAllowed
    {step : State → Action → Option State}
    {Assumed Allowed : State → Action → Prop} {Good : State → Prop}
    (Inv : State → Prop)
    (hstep : ∀ state action, Inv state → Good state → Assumed state action →
      (step state action = none ∧ ¬ Allowed state action) ∨
        ∃ next, step state action = some next ∧ Inv next ∧
          (Good next ↔ Allowed state action))
    {actions : List Action} {state : State} (hstart : Inv state)
    (hgood : Good state) (hassumed : AllAllowed step Assumed actions state) :
    (∀ n, ∃ last, run step (actions.take n) state = some last ∧ Good last) ↔
      AllAllowed step Allowed actions state := by
  induction actions generalizing state with
  | nil =>
      constructor
      · intro _
        trivial
      · intro _ n
        exact ⟨state, by rw [List.take_nil, run_nil], hgood⟩
  | cons action rest ih =>
      obtain ⟨hnone, hnot⟩ | ⟨next, hnext, hinv, hiff⟩ :=
        hstep state action hstart hgood hassumed.1
      · constructor
        · intro hall
          obtain ⟨last, hrun, _⟩ := hall 1
          simp [run, hnone] at hrun
        · intro hall
          exact absurd hall.1 hnot
      · have hrest : AllAllowed step Assumed rest next := by
          have hboth := hassumed.2
          rwa [hnext] at hboth
        simp only [AllAllowed, hnext]
        constructor
        · intro hall
          have hgoodNext : Good next := by
            obtain ⟨last, hrun, hlast⟩ := hall 1
            rw [List.take_succ_cons, run_cons_of_step hnext, List.take_zero]
              at hrun
            cases hrun
            exact hlast
          refine ⟨hiff.mp hgoodNext, (ih hinv hgoodNext hrest).mp ?_⟩
          intro n
          have hlonger := hall (n + 1)
          rwa [List.take_succ_cons, run_cons_of_step hnext] at hlonger
        · intro hall n
          have hgoodNext := hiff.mpr hall.1
          cases n with
          | zero => exact ⟨state, rfl, hgood⟩
          | succ n =>
              rw [List.take_succ_cons, run_cons_of_step hnext]
              exact (ih hinv hgoodNext hrest).mpr hall.2 n

/-- The exact condition for a property of the last state.  Allowed steps keep
an invariant which gives the property; a step that is not allowed does damage
which no later step repairs. -/
theorem last_iff_allAllowed
    {step : State → Action → Option State}
    {Allowed : State → Action → Prop} {Good : State → Prop}
    (Inv Damaged : State → Prop)
    (hkeep : ∀ state next action, Inv state → Allowed state action →
      step state action = some next → Inv next)
    (hdamage : ∀ state next action, Inv state → ¬ Allowed state action →
      step state action = some next → Damaged next)
    (hlasting : ∀ state next action, Damaged state →
      step state action = some next → Damaged next)
    {actions : List Action} {state last : State} (hstart : Inv state)
    (hrun : run step actions state = some last)
    (hgood : Inv last → Good last) (hbad : Damaged last → ¬ Good last) :
    Good last ↔ AllAllowed step Allowed actions state := by
  induction actions generalizing state with
  | nil =>
      cases hrun
      constructor
      · intro _
        trivial
      · intro _
        exact hgood hstart
  | cons action rest ih =>
      cases hstep : step state action with
      | none => simp [run, hstep] at hrun
      | some next =>
          rw [run_cons_of_step hstep] at hrun
          simp only [AllAllowed, hstep]
          by_cases hallowed : Allowed state action
          · have hrest :=
              ih (hkeep state next action hstart hallowed hstep) hrun
            constructor
            · intro hlast
              exact ⟨hallowed, hrest.mp hlast⟩
            · intro hall
              exact hrest.mpr hall.2
          · constructor
            · intro hlast
              have hnext := hdamage state next action hstart hallowed hstep
              exact absurd hlast (hbad (run_invariant hlasting hnext hrun))
            · intro hall
              exact absurd hall.1 hallowed

/-- Progress.  Every step does a part of the work, those which `delays` marks
aside; each of these adds at most `excess`.  So a run is no longer than the
work it starts with, apart from the delays. -/
theorem length_add_work_le
    {step : State → Action → Option State} {Allowed : Action → Prop}
    (Inv : State → Prop) (work : State → ℕ) (delays : Action → Bool)
    (excess : ℕ)
    (hstep : ∀ state next action, Inv state → Allowed action →
      step state action = some next → Inv next ∧
        work next + 1 ≤ work state + if delays action then excess else 0)
    {actions : List Action} {state last : State} (hstart : Inv state)
    (hallowed : ∀ action ∈ actions, Allowed action)
    (hrun : run step actions state = some last) :
    Inv last ∧ actions.length + work last ≤
      work state + excess * actions.countP delays := by
  induction actions generalizing state with
  | nil =>
      cases hrun
      exact ⟨hstart, by simp⟩
  | cons action rest ih =>
      cases hnext : step state action with
      | none => simp [run, hnext] at hrun
      | some next =>
          rw [run_cons_of_step hnext] at hrun
          rw [List.forall_mem_cons] at hallowed
          obtain ⟨hinv, hwork⟩ := hstep _ _ _ hstart hallowed.1 hnext
          obtain ⟨hlast, hrest⟩ := ih hinv hallowed.2 hrun
          refine ⟨hlast, ?_⟩
          rw [List.length_cons, List.countP_cons]
          cases hdelays : delays action with
          | true =>
              simp only [hdelays, if_true] at hwork ⊢
              rw [Nat.mul_add]
              omega
          | false =>
              simp only [hdelays, Bool.false_eq_true, if_false,
                Nat.add_zero] at hwork ⊢
              omega

end StepSystem

namespace CallSystem

variable {State Abstract Call Result : Type*}

/-- The state after a word of calls. -/
def stateAfter (call : State → Call → State × Result) :
    State → List Call → State
  | state, [] => state
  | state, c :: rest => stateAfter call (call state c).1 rest

/-- The results handed back by a word of calls, in order. -/
def results (call : State → Call → State × Result) :
    State → List Call → List Result
  | _, [] => []
  | state, c :: rest => (call state c).2 :: results call (call state c).1 rest

/-- Every call of the word is made in a state that meets `Allowed`. -/
def AllAllowed (call : State → Call → State × Result)
    (Allowed : State → Call → Prop) : State → List Call → Prop
  | _, [] => True
  | state, c :: rest =>
      Allowed state c ∧ AllAllowed call Allowed (call state c).1 rest

instance AllAllowed.decidable (call : State → Call → State × Result)
    (Allowed : State → Call → Prop) [∀ state c, Decidable (Allowed state c)] :
    ∀ (state : State) (calls : List Call),
      Decidable (AllAllowed call Allowed state calls)
  | _, [] => inferInstanceAs (Decidable True)
  | state, c :: rest =>
      have := AllAllowed.decidable call Allowed (call state c).1 rest
      inferInstanceAs (Decidable (Allowed state c ∧
        AllAllowed call Allowed (call state c).1 rest))

/-- A condition on the calls alone may be checked on the word. -/
theorem allAllowed_of_forall
    {call : State → Call → State × Result} {state : State}
    {Good : Call → Prop} {calls : List Call} (hcalls : ∀ c ∈ calls, Good c) :
    AllAllowed call (fun _ c => Good c) state calls := by
  induction calls generalizing state with
  | nil => trivial
  | cons c rest ih =>
      exact ⟨hcalls c List.mem_cons_self,
        ih (fun other hother => hcalls other (List.mem_cons_of_mem _ hother))⟩

/-- Two conditions which agree wherever an invariant holds select the same
words among those made of `Assumed` calls.  Only calls that meet the condition
have to keep the invariant. -/
theorem allAllowed_congr
    {call : State → Call → State × Result}
    {Assumed Allowed Allowed' : State → Call → Prop} (Inv : State → Prop)
    (hcall : ∀ state c, Inv state → Assumed state c → Allowed' state c →
      Inv (call state c).1)
    (hsame : ∀ state c, Inv state → Assumed state c →
      (Allowed state c ↔ Allowed' state c))
    {state : State} {calls : List Call} (hstart : Inv state)
    (hassumed : AllAllowed call Assumed state calls) :
    AllAllowed call Allowed state calls ↔
      AllAllowed call Allowed' state calls := by
  induction calls generalizing state with
  | nil => exact Iff.rfl
  | cons c rest ih =>
      simp only [AllAllowed, hsame state c hstart hassumed.1]
      apply and_congr_right
      intro hallowed
      exact ih (hcall state c hstart hassumed.1 hallowed) hassumed.2

/-- Forward simulation for call systems.  If related states answer an allowed
call alike and stay related, then whole words are answered alike. -/
theorem simulation
    {call : State → Call → State × Result}
    {abstractCall : Abstract → Call → Abstract × Result}
    (Allowed : State → Call → Prop) (Related : State → Abstract → Prop)
    (hcall : ∀ state abstract c, Related state abstract → Allowed state c →
      (call state c).2 = (abstractCall abstract c).2 ∧
        Related (call state c).1 (abstractCall abstract c).1)
    {state : State} {abstract : Abstract} {calls : List Call}
    (hstart : Related state abstract)
    (hallowed : AllAllowed call Allowed state calls) :
    results call state calls = results abstractCall abstract calls ∧
      Related (stateAfter call state calls)
        (stateAfter abstractCall abstract calls) := by
  induction calls generalizing state abstract with
  | nil => exact ⟨rfl, hstart⟩
  | cons c rest ih =>
      obtain ⟨hresult, hrelated⟩ :=
        hcall state abstract c hstart hallowed.1
      rcases ih hrelated hallowed.2 with ⟨hrest, hfinal⟩
      exact ⟨by simp only [results, hresult, hrest], hfinal⟩

/-- What one allowed call establishes between related states holds of every
call of a word. -/
theorem allAllowed_of_simulation
    {call : State → Call → State × Result}
    {abstractCall : Abstract → Call → Abstract × Result}
    (Allowed : State → Call → Prop) (Allowed' : Abstract → Call → Prop)
    (Related : State → Abstract → Prop)
    (hcall : ∀ state abstract c, Related state abstract → Allowed state c →
      Allowed' abstract c ∧
        Related (call state c).1 (abstractCall abstract c).1)
    {state : State} {abstract : Abstract} {calls : List Call}
    (hstart : Related state abstract)
    (hallowed : AllAllowed call Allowed state calls) :
    AllAllowed abstractCall Allowed' abstract calls := by
  induction calls generalizing state abstract with
  | nil => trivial
  | cons c rest ih =>
      obtain ⟨hfirst, hrelated⟩ := hcall state abstract c hstart hallowed.1
      exact ⟨hfirst, ih hrelated hallowed.2⟩

theorem AllAllowed.and
    {call : State → Call → State × Result} {Allowed Allowed' : State → Call → Prop}
    {state : State} {calls : List Call}
    (hallowed : AllAllowed call Allowed state calls)
    (hallowed' : AllAllowed call Allowed' state calls) :
    AllAllowed call (fun state c => Allowed state c ∧ Allowed' state c) state
      calls := by
  induction calls generalizing state with
  | nil => trivial
  | cons c rest ih =>
      exact ⟨⟨hallowed.1, hallowed'.1⟩, ih hallowed.2 hallowed'.2⟩

/-- An invariant which allowed calls keep, and under which they are good. -/
theorem allAllowed_of_invariant
    {call : State → Call → State × Result} {Allowed : State → Call → Prop}
    {Good : State → Call → Prop} (Inv : State → Prop)
    (hcall : ∀ state c, Inv state → Allowed state c →
      Good state c ∧ Inv (call state c).1)
    {state : State} {calls : List Call} (hstart : Inv state)
    (hallowed : AllAllowed call Allowed state calls) :
    AllAllowed call Good state calls := by
  induction calls generalizing state with
  | nil => trivial
  | cons c rest ih =>
      rcases hcall state c hstart hallowed.1 with ⟨hgood, hnext⟩
      exact ⟨hgood, ih hnext hallowed.2⟩

/-- Every state passed through by a word of calls satisfies `Good`. -/
def AllStates (call : State → Call → State × Result) (Good : State → Prop) :
    State → List Call → Prop
  | state, [] => Good state
  | state, c :: rest => Good state ∧ AllStates call Good (call state c).1 rest

theorem AllStates.first
    {call : State → Call → State × Result} {Good : State → Prop}
    {state : State} {calls : List Call}
    (hall : AllStates call Good state calls) : Good state := by
  cases calls with
  | nil => exact hall
  | cons c rest => exact hall.1

/-- The exact condition for a simulation.  Related states satisfy `Good`, and
a call that is not allowed destroys `Good` at once.  Then a word is answered
like the abstract one and keeps `Good` all along if and only if each of its
calls is allowed. -/
theorem simulation_iff_allAllowed
    {call : State → Call → State × Result}
    {abstractCall : Abstract → Call → Abstract × Result}
    (Allowed : State → Call → Prop) (Related : State → Abstract → Prop)
    {Good : State → Prop}
    (hgood : ∀ state abstract, Related state abstract → Good state)
    (hcall : ∀ state abstract c, Related state abstract → Allowed state c →
      (call state c).2 = (abstractCall abstract c).2 ∧
        Related (call state c).1 (abstractCall abstract c).1)
    (hbreak : ∀ state abstract c, Related state abstract →
      ¬ Allowed state c → ¬ Good (call state c).1)
    {state : State} {abstract : Abstract} {calls : List Call}
    (hstart : Related state abstract) :
    (results call state calls = results abstractCall abstract calls ∧
        AllStates call Good state calls) ↔
      AllAllowed call Allowed state calls := by
  induction calls generalizing state abstract with
  | nil =>
      constructor
      · intro _
        trivial
      · intro _
        exact ⟨rfl, hgood state abstract hstart⟩
  | cons c rest ih =>
      simp only [results, AllStates, AllAllowed, List.cons.injEq]
      constructor
      · intro hrun
        rcases hrun with ⟨⟨_, hresults⟩, _, hstates⟩
        have hallowed : Allowed state c := by
          apply Classical.byContradiction
          intro hnot
          exact hbreak state abstract c hstart hnot hstates.first
        rcases hcall state abstract c hstart hallowed with ⟨_, hrelated⟩
        exact ⟨hallowed, (ih hrelated).mp ⟨hresults, hstates⟩⟩
      · intro hall
        rcases hcall state abstract c hstart hall.1 with ⟨hresult, hrelated⟩
        rcases (ih hrelated).mpr hall.2 with ⟨hresults, hstates⟩
        exact ⟨⟨hresult, hresults⟩, hgood state abstract hstart, hstates⟩

/-- Two call systems side by side.  An allowed call is answered alike and keeps
them related, any other call separates them at once.  Then they agree all along
a word, its beginnings included, if and only if each call is allowed. -/
theorem agree_iff_allAllowed
    {call : State → Call → State × Result}
    {otherCall : Abstract → Call → Abstract × Result}
    (Allowed : State → Call → Prop) (Related : State → Abstract → Prop)
    (hcall : ∀ state other c, Related state other → Allowed state c →
      (call state c).2 = (otherCall other c).2 ∧
        Related (call state c).1 (otherCall other c).1)
    (hbreak : ∀ state other c, Related state other → ¬ Allowed state c →
      ¬ Related (call state c).1 (otherCall other c).1)
    {state : State} {other : Abstract} {calls : List Call}
    (hstart : Related state other) :
    (∀ n, results call state (calls.take n) =
          results otherCall other (calls.take n) ∧
        Related (stateAfter call state (calls.take n))
          (stateAfter otherCall other (calls.take n))) ↔
      AllAllowed call Allowed state calls := by
  induction calls generalizing state other with
  | nil =>
      constructor
      · intro _
        trivial
      · intro _ n
        rw [List.take_nil]
        exact ⟨rfl, hstart⟩
  | cons c rest ih =>
      constructor
      · intro hagree
        have hfirst : Related (call state c).1 (otherCall other c).1 := by
          simpa [stateAfter] using (hagree 1).2
        have hallowed : Allowed state c := by
          apply Classical.byContradiction
          intro hnot
          exact hbreak state other c hstart hnot hfirst
        have hrest : AllAllowed call Allowed (call state c).1 rest := by
          apply (ih hfirst).mp
          intro n
          have hnext := hagree (n + 1)
          simp only [List.take_succ_cons, results, stateAfter,
            List.cons.injEq] at hnext
          exact ⟨hnext.1.2, hnext.2⟩
        exact ⟨hallowed, hrest⟩
      · intro hall n
        rcases hcall state other c hstart hall.1 with ⟨hresult, hrelated⟩
        cases n with
        | zero => exact ⟨rfl, hstart⟩
        | succ n =>
            rcases (ih hrelated).mpr hall.2 n with ⟨hresults, hlast⟩
            simp only [List.take_succ_cons, results, stateAfter,
              List.cons.injEq]
            exact ⟨⟨hresult, hresults⟩, hlast⟩

/-- A simulation when the environment's promise is about the abstract
state. -/
theorem simulation_of_abstract
    {call : State → Call → State × Result}
    {abstractCall : Abstract → Call → Abstract × Result}
    (Allowed : Abstract → Call → Prop) (Related : State → Abstract → Prop)
    (hcall : ∀ state abstract c, Related state abstract →
      Allowed abstract c →
      (call state c).2 = (abstractCall abstract c).2 ∧
        Related (call state c).1 (abstractCall abstract c).1)
    {state : State} {abstract : Abstract} {calls : List Call}
    (hstart : Related state abstract)
    (hallowed : AllAllowed abstractCall Allowed abstract calls) :
    results call state calls = results abstractCall abstract calls ∧
      Related (stateAfter call state calls)
        (stateAfter abstractCall abstract calls) := by
  induction calls generalizing state abstract with
  | nil => exact ⟨rfl, hstart⟩
  | cons c rest ih =>
      obtain ⟨hresult, hrelated⟩ :=
        hcall state abstract c hstart hallowed.1
      rcases ih hrelated hallowed.2 with ⟨hrest, hfinal⟩
      exact ⟨by simp only [results, hresult, hrest], hfinal⟩

/-- What every call keeps is kept by a word. -/
theorem stateAfter_invariant
    {call : State → Call → State × Result} {Inv : State → Prop}
    (hcall : ∀ state c, Inv state → Inv (call state c).1)
    {state : State} (hstart : Inv state) (calls : List Call) :
    Inv (stateAfter call state calls) := by
  induction calls generalizing state with
  | nil => exact hstart
  | cons c rest ih => exact ih (hcall state c hstart)

theorem stateAfter_append (call : State → Call → State × Result)
    (state : State) (calls more : List Call) :
    stateAfter call state (calls ++ more) =
      stateAfter call (stateAfter call state calls) more := by
  induction calls generalizing state with
  | nil => rfl
  | cons c rest ih => exact ih (call state c).1

theorem stateAfter_snoc (call : State → Call → State × Result)
    (state : State) (calls : List Call) (c : Call) :
    stateAfter call state (calls ++ [c]) =
      (call (stateAfter call state calls) c).1 :=
  stateAfter_append call state calls [c]

theorem results_snoc (call : State → Call → State × Result)
    (state : State) (calls : List Call) (c : Call) :
    results call state (calls ++ [c]) =
      results call state calls ++ [(call (stateAfter call state calls) c).2] := by
  induction calls generalizing state with
  | nil => rfl
  | cons first rest ih => exact congrArg (_ :: ·) (ih (call state first).1)

/-- The exact condition for a property of the states: allowed calls keep an
invariant that gives it, any other call destroys it at once. -/
theorem allStates_iff_allAllowed
    {call : State → Call → State × Result} {Allowed : State → Call → Prop}
    {Good : State → Prop} (Inv : State → Prop)
    (hgood : ∀ state, Inv state → Good state)
    (hkeep : ∀ state c, Inv state → Allowed state c → Inv (call state c).1)
    (hbreak : ∀ state c, Inv state → ¬ Allowed state c →
      ¬ Good (call state c).1)
    {state : State} {calls : List Call} (hstart : Inv state) :
    AllStates call Good state calls ↔ AllAllowed call Allowed state calls := by
  induction calls generalizing state with
  | nil =>
      constructor
      · intro _
        trivial
      · intro _
        exact hgood state hstart
  | cons c rest ih =>
      simp only [AllStates, AllAllowed]
      constructor
      · intro hall
        have hallowed : Allowed state c := by
          apply Classical.byContradiction
          intro hnot
          exact hbreak state c hstart hnot hall.2.first
        exact ⟨hallowed, (ih (hkeep state c hstart hallowed)).mp hall.2⟩
      · intro hall
        exact ⟨hgood state hstart,
          (ih (hkeep state c hstart hall.1)).mpr hall.2⟩

/-- The exact condition for equal answers, when a call that is not allowed is
answered differently. -/
theorem results_iff_allAllowed
    {call : State → Call → State × Result}
    {abstractCall : Abstract → Call → Abstract × Result}
    (Allowed : Abstract → Call → Prop) (Related : State → Abstract → Prop)
    (hcall : ∀ state abstract c, Related state abstract →
      Allowed abstract c →
      (call state c).2 = (abstractCall abstract c).2 ∧
        Related (call state c).1 (abstractCall abstract c).1)
    (hbreak : ∀ state abstract c, Related state abstract →
      ¬ Allowed abstract c → (call state c).2 ≠ (abstractCall abstract c).2)
    {state : State} {abstract : Abstract} {calls : List Call}
    (hstart : Related state abstract) :
    results call state calls = results abstractCall abstract calls ↔
      AllAllowed abstractCall Allowed abstract calls := by
  induction calls generalizing state abstract with
  | nil =>
      constructor
      · intro _
        trivial
      · intro _
        rfl
  | cons c rest ih =>
      simp only [results, AllAllowed, List.cons.injEq]
      constructor
      · rintro ⟨hresult, hresults⟩
        have hallowed : Allowed abstract c := by
          apply Classical.byContradiction
          intro hnot
          exact hbreak state abstract c hstart hnot hresult
        obtain ⟨-, hrelated⟩ := hcall state abstract c hstart hallowed
        exact ⟨hallowed, (ih hrelated).mp hresults⟩
      · rintro ⟨hallowed, hrest⟩
        obtain ⟨hresult, hrelated⟩ := hcall state abstract c hstart hallowed
        exact ⟨hresult, (ih hrelated).mpr hrest⟩

end CallSystem
