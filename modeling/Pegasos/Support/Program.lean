import Mathlib.Tactic.Common

/-!
# Programs with errors

A program runs on a state.  It returns a value, or an error code as soon as one of its
parts does; it may also leave its memory (`fault`) or not end (`hang`).  `Gives` says
that a program that is started in a state returns a value, with a condition on the value
and on the state that it leaves.
-/

namespace Pegasos.Support

/-- How a program ends. -/
inductive Result (State α : Type) where
  | ok (value : α) (state : State)
  | err (code : Int) (state : State)
  | fault
  | hang

/-- A program on a state. -/
def Program (State α : Type) := State → Result State α

namespace Program

variable {State α β : Type}

instance : Monad (Program State) where
  pure value := fun state => .ok value state
  bind program next := fun state =>
    match program state with
    | .ok value state => next value state
    | .err code state => .err code state
    | .fault => .fault
    | .hang => .hang

/-- End with an error code. -/
def throw (code : Int) : Program State α := fun state => .err code state

/-- Leave the memory. -/
def fault : Program State α := fun _ => .fault

/-- Do not end. -/
def hang : Program State α := fun _ => .hang

/-- Look at the state. -/
def peek (look : State → α) : Program State α := fun state => .ok (look state) state

/-- Change the state. -/
def change (edit : State → State) : Program State Unit := fun state => .ok () (edit state)

/-- The error code of a program as a value. -/
def attempt (program : Program State α) : Program State (Except Int α) := fun state =>
  match program state with
  | .ok value state => .ok (.ok value) state
  | .err code state => .ok (.error code) state
  | .fault => .fault
  | .hang => .hang

/-- Turn after turn until one of them ends the loop with a result. -/
def loop (turn : α → Program State (α ⊕ β)) : Nat → α → Program State β
  | 0, _ => hang
  | fuel + 1, value => do
      match ← turn value with
      | .inl value => loop turn fuel value
      | .inr result => return result

/-- The program returns a value that meets the condition. -/
def Gives (program : Program State α) (state : State) (post : α → State → Prop) : Prop :=
  ∃ value state', program state = .ok value state' ∧ post value state'

/-- The program returns a value or an error code, with a condition on either. -/
def Ends (program : Program State α) (state : State) (post : α → State → Prop)
    (failed : Int → State → Prop) : Prop :=
  match program state with
  | .ok value after => post value after
  | .err code after => failed code after
  | .fault => False
  | .hang => False

variable {program : Program State α} {next : α → Program State β} {state state' : State}
variable {value : α} {code : Int} {post stronger : α → State → Prop}
variable {failed : Int → State → Prop}

@[simp] theorem pure_apply : (pure value : Program State α) state = .ok value state := rfl

@[simp] theorem peek_apply {look : State → α} : peek look state = .ok (look state) state := rfl

@[simp] theorem change_apply {edit : State → State} :
    change edit state = .ok () (edit state) := rfl

@[simp] theorem throw_apply : (throw code : Program State α) state = .err code state := rfl

@[simp] theorem pure_bind : ((pure value : Program State α) >>= next) = next value := rfl

theorem bind_ok (ran : program state = .ok value state') :
    (program >>= next) state = next value state' := by
  change (match program state with
    | .ok value state => next value state
    | .err code state => .err code state
    | .fault => .fault
    | .hang => .hang) = _
  rw [ran]

theorem bind_err (ran : program state = .err code state') :
    (program >>= next) state = .err code state' := by
  change (match program state with
    | .ok value state => next value state
    | .err code state => .err code state
    | .fault => .fault
    | .hang => .hang) = _
  rw [ran]

theorem bind_fault (ran : program state = .fault) : (program >>= next) state = .fault := by
  change (match program state with
    | .ok value state => next value state
    | .err code state => .err code state
    | .fault => .fault
    | .hang => .hang) = _
  rw [ran]

theorem bind_hang (ran : program state = .hang) : (program >>= next) state = .hang := by
  change (match program state with
    | .ok value state => next value state
    | .err code state => .err code state
    | .fault => .fault
    | .hang => .hang) = _
  rw [ran]

/-- A program that returns has come through its first part. -/
theorem of_bind_ok {result : β} (ran : (program >>= next) state = .ok result state') :
    ∃ value middle, program state = .ok value middle ∧ next value middle = .ok result state' := by
  cases first : program state with
  | ok value middle => exact ⟨value, middle, rfl, (bind_ok first).symm.trans ran⟩
  | err code middle => exact nomatch (bind_err first).symm.trans ran
  | fault => exact nomatch (bind_fault first).symm.trans ran
  | hang => exact nomatch (bind_hang first).symm.trans ran

theorem attempt_ok (ran : program state = .ok value state') :
    attempt program state = .ok (.ok value) state' := by
  simp only [attempt, ran]

theorem attempt_err (ran : program state = .err code state') :
    attempt program state = .ok (.error code) state' := by
  simp only [attempt, ran]

theorem attempt_hang (ran : program state = .hang) : attempt program state = .hang := by
  simp only [attempt, ran]

theorem attempt_fault (ran : program state = .fault) : attempt program state = .fault := by
  simp only [attempt, ran]

theorem of_attempt_ok (ran : attempt program state = .ok (.ok value) state') :
    program state = .ok value state' := by
  cases result : program state with
  | ok value' after =>
      obtain ⟨same, rfl⟩ := Result.ok.inj ((attempt_ok result).symm.trans ran)
      obtain rfl := Except.ok.inj same
      rfl
  | err code after => exact nomatch (Result.ok.inj ((attempt_err result).symm.trans ran)).1
  | fault => exact nomatch (attempt_fault result).symm.trans ran
  | hang => exact nomatch (attempt_hang result).symm.trans ran

theorem of_attempt_error (ran : attempt program state = .ok (.error code) state') :
    program state = .err code state' := by
  cases result : program state with
  | ok value' after => exact nomatch (Result.ok.inj ((attempt_ok result).symm.trans ran)).1
  | err code' after =>
      obtain ⟨same, rfl⟩ := Result.ok.inj ((attempt_err result).symm.trans ran)
      obtain rfl := Except.error.inj same
      rfl
  | fault => exact nomatch (attempt_fault result).symm.trans ran
  | hang => exact nomatch (attempt_hang result).symm.trans ran

/-- What a loop returns, from what each of its turns keeps. -/
theorem loop_ok {turn : α → Program State (α ⊕ β)} {inv : α → Prop} {good : β → Prop}
    (keeps : ∀ value state result after, inv value → turn value state = .ok result after →
      result.elim inv good) {fuel : Nat} {result : β} (holds : inv value)
    (ran : loop turn fuel value state = .ok result state') : good result := by
  induction fuel generalizing value state with
  | zero => exact nomatch ran
  | succ fuel ih =>
      obtain ⟨turned, middle, ran1, ran⟩ := of_bind_ok ran
      have kept := keeps _ _ _ _ holds ran1
      cases turned with
      | inl next => exact ih kept ran
      | inr last =>
          obtain ⟨rfl, -⟩ := Result.ok.inj ran
          exact kept

theorem Gives.pure (holds : post value state) : Gives (Pure.pure value) state post :=
  ⟨value, state, rfl, holds⟩

theorem Gives.bind {after : β → State → Prop}
    (first : Gives program state fun value state => Gives (next value) state after) :
    Gives (program >>= next) state after := by
  obtain ⟨value, middle, ran, result, last, rest, holds⟩ := first
  exact ⟨result, last, (bind_ok ran).trans rest, holds⟩

theorem Gives.mono (gives : Gives program state stronger)
    (weaken : ∀ value state, stronger value state → post value state) :
    Gives program state post := by
  obtain ⟨value, state', ran, holds⟩ := gives
  exact ⟨value, state', ran, weaken value state' holds⟩

/-- A program returns one value only. -/
theorem Gives.and {other : α → State → Prop} (first : Gives program state post)
    (second : Gives program state other) :
    Gives program state fun value after => post value after ∧ other value after := by
  obtain ⟨value, after, ran, holds⟩ := first
  obtain ⟨value', after', ran', holds'⟩ := second
  cases ran.symm.trans ran'
  exact ⟨value, after, ran, holds, holds'⟩

/-- A part that returns, and then the rest of the program. -/
theorem Gives.seq {after : β → State → Prop} (first : Gives program state stronger)
    (rest : ∀ value state, stronger value state → Gives (next value) state after) :
    Gives (program >>= next) state after :=
  (first.mono rest).bind

theorem Gives.attempt (gives : Gives program state post) : Gives (attempt program) state
    fun result state => ∃ value, result = .ok value ∧ post value state := by
  obtain ⟨value, state', ran, holds⟩ := gives
  exact ⟨.ok value, state', attempt_ok ran, value, rfl, holds⟩

theorem Ends.of_ok (ran : program state = .ok value state') (holds : post value state') :
    Ends program state post failed := by
  rw [Ends, ran]
  exact holds

theorem Ends.of_err (ran : program state = .err code state') (holds : failed code state') :
    Ends program state post failed := by
  rw [Ends, ran]
  exact holds

theorem not_ends_of_fault (ran : program state = .fault) : ¬Ends program state post failed := by
  rw [Ends, ran]
  exact id

/-- A program that ends without an error returns a value. -/
theorem Ends.gives (ends : Ends program state post fun _ _ => False) :
    Gives program state post := by
  unfold Ends at ends
  split at ends
  · next value state' ran => exact ⟨value, state', ran, ends⟩
  · exact ends.elim
  · exact ends.elim
  · exact ends.elim

theorem not_gives_of_fault (ran : program state = .fault) : ¬Gives program state post := by
  rintro ⟨value, state', ran', -⟩
  simp [ran] at ran'

theorem Ends.congr {other : Program State α} (same : program state = other state')
    (ends : Ends other state' post failed) : Ends program state post failed := by
  unfold Ends
  rw [same]
  exact ends

theorem Ends.pure (holds : post value state) :
    Ends (Pure.pure value : Program State α) state post failed := holds

/-- A part that ends, and then the rest of the program. -/
theorem Ends.seq {after : β → State → Prop} (first : Ends program state stronger failed)
    (rest : ∀ value state, stronger value state → Ends (next value) state after failed) :
    Ends (program >>= next) state after failed := by
  unfold Ends at first
  split at first
  · next value middle ran =>
      have ends : Ends (next value) middle after failed := rest value middle first
      unfold Ends at ends ⊢
      rwa [bind_ok ran]
  · next code middle ran => exact .of_err (bind_err ran) first
  · exact first.elim
  · exact first.elim

theorem Ends.mono {weaker : Int → State → Prop} (ends : Ends program state stronger failed)
    (weaken : ∀ value state, stronger value state → post value state)
    (weaken' : ∀ code state, failed code state → weaker code state) :
    Ends program state post weaker := by
  unfold Ends at ends ⊢
  split at ends
  · exact weaken _ _ ends
  · exact weaken' _ _ ends
  · exact ends
  · exact ends

theorem Ends.attempt (ends : Ends program state post failed) : Ends (attempt program) state
    (fun result after =>
      (∃ value, result = .ok value ∧ post value after) ∨
        ∃ code, result = .error code ∧ failed code after)
    fun _ _ => False := by
  unfold Ends at ends
  split at ends
  · next value middle ran => exact .of_ok (attempt_ok ran) (.inl ⟨value, rfl, ends⟩)
  · next code middle ran => exact .of_ok (attempt_err ran) (.inr ⟨code, rfl, ends⟩)
  · exact ends.elim
  · exact ends.elim

end Program

end Pegasos.Support
