import Mathlib.Tactic.Common

/-! Computations over a state that may stop with an error. The state that they
have reached is kept.
-/

set_option autoImplicit false

namespace Stateful

abbrev Action (Error State : Type) : Type → Type := ExceptT Error (StateM State)

variable {Error State α β : Type}

/-- The result of an action, and the state after it. -/
def perform (action : Action Error State α) (before : State) : Except Error α × State := action.run.run before

theorem perform_bind_ok {before after : State} {first : Action Error State α} {next : α → Action Error State β} {value : α}
    (ended : perform first before = (.ok value, after)) : perform (first >>= next) before = perform (next value) after := by
  unfold perform at *
  rw [ExceptT.run_bind, StateT.run_bind, ended]
  rfl

theorem perform_bind_error {before after : State} {first : Action Error State α} {next : α → Action Error State β}
    {error : Error} (ended : perform first before = (.error error, after)) :
    perform (first >>= next) before = (.error error, after) := by
  unfold perform at *
  rw [ExceptT.run_bind, StateT.run_bind, ended]
  rfl

@[simp] theorem perform_pure (value : α) (before : State) :
    perform (pure value : Action Error State α) before = (.ok value, before) := rfl

@[simp] theorem perform_modify (change : State → State) (before : State) :
    perform (modify change : Action Error State PUnit) before = (.ok ⟨⟩, change before) := rfl

theorem perform_modify_bind (change : State → State) (next : PUnit → Action Error State β) (before : State) :
    perform (modify change >>= next) before = perform (next ⟨⟩) (change before) :=
  perform_bind_ok (perform_modify change before)

theorem perform_forM_modify (items : List α) (change : α → State → State) (before : State) :
    perform (items.forM fun item => modify (change item) : Action Error State PUnit) before =
      (.ok ⟨⟩, items.foldl (fun state item => change item state) before) := by
  induction items generalizing before with
  | nil => rfl
  | cons item rest ih =>
    exact (perform_modify_bind (change item) _ before).trans (ih (change item before))

/-- A sequence succeeds if its parts do, one from where the other ended. -/
theorem perform_bind_eq_ok {before final : State} {first : Action Error State α} {next : α → Action Error State β} {value : β} :
    perform (first >>= next) before = (.ok value, final) ↔
      ∃ middle after, perform first before = (.ok middle, after) ∧ perform (next middle) after = (.ok value, final) := by
  rcases ended : perform first before with ⟨result, after⟩
  cases result with
  | error error => simp [perform_bind_error ended]
  | ok middle =>
    rw [perform_bind_ok ended]
    constructor
    · exact fun rest => ⟨middle, after, rfl, rest⟩
    · rintro ⟨_, _, same, rest⟩
      cases same
      exact rest

/-- A computation that reads no state. -/
def check (result : Except Error α) : Action Error State α := ExceptT.mk (pure result)

@[simp] theorem perform_check (result : Except Error α) (before : State) : perform (check result) before = (result, before) :=
  rfl

theorem perform_get_bind (next : State → Action Error State β) (before : State) :
    perform (get >>= next) before = perform (next before) before :=
  perform_bind_ok (show perform get before = (.ok before, before) from rfl)

theorem perform_check_bind_eq_ok {before final : State} {result : Except Error α} {next : α → Action Error State β} {value : β} :
    perform (check result >>= next) before = (.ok value, final) ↔
      ∃ middle, result = .ok middle ∧ perform (next middle) before = (.ok value, final) := by
  simp [perform_bind_eq_ok]

@[simp] theorem check_ok_bind (value : α) (next : α → Action Error State β) : check (.ok value) >>= next = next value := rfl

/-- An operation on a part of the state. -/
def zoom {Part : Type} (view : State → Part) (replace : Part → State → State) (action : Action Error Part α) :
    Action Error State α :=
  ExceptT.mk fun state => ((perform action (view state)).1, replace (perform action (view state)).2 state)

/-- The same computation under other errors. -/
def wrap {Other : Type} (rename : Error → Other) (action : Action Error State α) : Action Other State α :=
  ExceptT.mk fun state => ((perform action state).1.mapError rename, (perform action state).2)

@[simp] theorem perform_wrap {Other : Type} (rename : Error → Other) (action : Action Error State α) (before : State) :
    perform (wrap rename action) before = ((perform action before).1.mapError rename, (perform action before).2) := rfl

@[simp] theorem perform_zoom {Part : Type} (view : State → Part) (replace : Part → State → State)
    (action : Action Error Part α) (before : State) : perform (zoom view replace action) before =
      ((perform action (view before)).1, replace (perform action (view before)).2 before) := rfl

section

variable (action : β → Action Error State PUnit)

theorem forM_append (first second : List β) :
    (first ++ second).forM action = first.forM action >>= fun _ => second.forM action :=
  List.forM_append

theorem forM_map (items : List α) (part : α → β) : (items.map part).forM action = items.forM fun item => action (part item) := by
  induction items with
  | nil => rfl
  | cons item rest ih =>
    rw [List.map_cons]
    exact congrArg (fun next => action (part item) >>= fun _ => next) ih

theorem forM_flatMap (items : List α) (parts : α → List β) :
    (items.flatMap parts).forM action = items.forM fun item => (parts item).forM action := by
  induction items with
  | nil => rfl
  | cons item rest ih =>
    rw [List.flatMap_cons, forM_append, ih]
    rfl

end

/-- From the state before, the action ends as the condition says. -/
def Ends (before : State) (action : Action Error State α) (post : Except Error α → State → Prop) : Prop :=
  post (perform action before).1 (perform action before).2

namespace Ends

variable {before : State} {post : Except Error α → State → Prop}

theorem pure {value : α} (holds : post (.ok value) before) : Ends before (pure value) post := holds

theorem throw {error : Error} (holds : post (.error error) before) : Ends before (throw error) post := holds

theorem check {result : Except Error α} (holds : post result before) : Ends before (check result) post := holds

/-- Reading the state first changes nothing. -/
theorem get_bind {post : Except Error β → State → Prop} {next : State → Action Error State β}
    (ends : Ends before (next before) post) : Ends before (get >>= next) post := by
  unfold Ends
  rw [perform_get_bind]
  exact ends

theorem modify_bind {post : Except Error β → State → Prop} {change : State → State} {next : PUnit → Action Error State β}
    (ends : Ends (change before) (next ⟨⟩) post) : Ends before (modify change >>= next) post := by
  unfold Ends
  rw [perform_modify_bind]
  exact ends

theorem modify {post : Except Error PUnit → State → Prop} {change : State → State} (holds : post (.ok ⟨⟩) (change before)) :
    Ends before (modify change) post := holds

theorem get {post : Except Error State → State → Prop} (holds : post (.ok before) before) :
    Ends before get post := holds

theorem set {post : Except Error PUnit → State → Prop} {after : State} (holds : post (.ok ⟨⟩) after) :
    Ends before (set after) post := holds

theorem mono {strong : Except Error α → State → Prop} {action : Action Error State α} (ends : Ends before action strong)
    (weaken : ∀ result after, strong result after → post result after) : Ends before action post :=
  weaken _ _ ends

theorem of_perform {result : Except Error α} {after : State} {action : Action Error State α} (ends : Ends before action post)
    (ended : perform action before = (result, after)) : post result after := by
  rw [Ends, ended] at ends
  exact ends

/-- One action after another: the second starts where the first has ended. -/
theorem bind {post : Except Error β → State → Prop} {mid : Except Error α → State → Prop} {first : Action Error State α}
    {next : α → Action Error State β} (ends : Ends before first mid)
    (stop : ∀ error after, mid (.error error) after → post (.error error) after)
    (go : ∀ value after, mid (.ok value) after → Ends after (next value) post) : Ends before (first >>= next) post := by
  unfold Ends at ends ⊢
  rcases ended : perform first before with ⟨result, after⟩
  rw [ended] at ends
  cases result with
  | error error =>
    rw [perform_bind_error ended]
    exact stop error after ends
  | ok value =>
    rw [perform_bind_ok ended]
    exact go value after ends

/-- A check that fails ends the sequence where it is. -/
theorem check_bind {post : Except Error β → State → Prop} {result : Except Error α} {next : α → Action Error State β}
    (stop : ∀ error, result = .error error → post (.error error) before)
    (go : ∀ value, result = .ok value → Ends before (next value) post) :
    Ends before (Stateful.check result >>= next) post := by
  cases result with
  | error error => exact stop error rfl
  | ok value => exact go value rfl

theorem wrap {Other : Type} {rename : Error → Other} {post : Except Other α → State → Prop} {action : Action Error State α}
    (ends : Ends before action fun result after => post (result.mapError rename) after) : Ends before (wrap rename action) post :=
  ends

theorem zoom {Part : Type} {view : State → Part} {replace : Part → State → State} {action : Action Error Part α}
    (holds : post (perform action (view before)).1 (replace (perform action (view before)).2 before)) :
    Ends before (zoom view replace action) post := holds

end Ends

/-! ## Actions that move the state along a relation -/

/-- Wherever the action starts, the state it reaches is related to that state. -/
def Moves (related : State → State → Prop) (action : Action Error State α) : Prop :=
  ∀ before, Ends before action fun _ after => related before after

namespace Moves

variable {related : State → State → Prop}

theorem pure (refl : ∀ state, related state state) (value : α) : Moves related (pure value : Action Error State α) :=
  fun before => Ends.pure (refl before)

theorem throw (refl : ∀ state, related state state) (error : Error) :
    Moves related (throw error : Action Error State α) :=
  fun before => Ends.throw (refl before)

theorem check (refl : ∀ state, related state state) (result : Except Error α) : Moves related (check result) :=
  fun before => Ends.check (refl before)

theorem get (refl : ∀ state, related state state) : Moves related (get : Action Error State State) :=
  fun before => Ends.get (refl before)

theorem bind (trans : ∀ first second third, related first second → related second third → related first third)
    {first : Action Error State α} {next : α → Action Error State β} (moves : Moves related first)
    (go : ∀ value, Moves related (next value)) : Moves related (first >>= next) :=
  fun before => Ends.bind (moves before) (fun _ _ moved => moved)
    fun value after moved => (go value after).mono fun _ last => trans before after last moved

theorem modify {change : State → State} (changes : ∀ state, related state (change state)) :
    Moves related (modify change : Action Error State PUnit) :=
  fun before => changes before

theorem forM (refl : ∀ state, related state state)
    (trans : ∀ first second third, related first second → related second third → related first third) {items : List α}
    {action : α → Action Error State PUnit} (moves : ∀ item ∈ items, Moves related (action item)) :
    Moves related (items.forM action) := by
  induction items with
  | nil => exact .pure refl PUnit.unit
  | cons item rest ih =>
    exact .bind trans (moves item (List.mem_cons_self ..)) fun _ => ih fun item member => moves item (List.mem_cons_of_mem _ member)

theorem wrap {Other : Type} {rename : Error → Other} {action : Action Error State α} (moves : Moves related action) :
    Moves related (wrap rename action) :=
  fun before => moves before

theorem mono {weaker : State → State → Prop} {action : Action Error State α} (moves : Moves related action)
    (weaken : ∀ first second, related first second → weaker first second) : Moves weaker action :=
  fun before => (moves before).mono fun _ after => weaken before after

end Moves

/-! ## Actions on states of two kinds -/

/-- From related states the two actions give one result and reach related states. -/
def Mirrors {Other : Type} (related : State → Other → Prop) (action : Action Error State α)
    (mirror : Action Error Other α) : Prop :=
  ∀ before image, related before image → (perform action before).1 = (perform mirror image).1 ∧
    related (perform action before).2 (perform mirror image).2

namespace Mirrors

variable {Other : Type} {related : State → Other → Prop}

theorem pure (value : α) : Mirrors related (pure value : Action Error State α) (pure value) :=
  fun _ _ holds => ⟨rfl, holds⟩

theorem check (result : Except Error α) : Mirrors related (check result) (check result) :=
  fun _ _ holds => ⟨rfl, holds⟩

theorem modify {change : State → State} {image : Other → Other}
    (changes : ∀ state other, related state other → related (change state) (image other)) :
    Mirrors related (modify change : Action Error State PUnit) (modify image) :=
  fun state other holds => ⟨rfl, changes state other holds⟩

theorem bind {first : Action Error State α} {mirror : Action Error Other α} {next : α → Action Error State β}
    {mirrorNext : α → Action Error Other β} (mirrors : Mirrors related first mirror)
    (go : ∀ value, Mirrors related (next value) (mirrorNext value)) : Mirrors related (first >>= next) (mirror >>= mirrorNext) := by
  intro before image holds
  obtain ⟨same, holds⟩ := mirrors before image holds
  rcases ended : perform first before with ⟨result, after⟩
  rcases imaged : perform mirror image with ⟨result', after'⟩
  rw [ended, imaged] at same holds
  cases same
  cases result with
  | error error =>
    rw [perform_bind_error ended, perform_bind_error imaged]
    exact ⟨rfl, holds⟩
  | ok value =>
    rw [perform_bind_ok ended, perform_bind_ok imaged]
    exact go value after after' holds

theorem forM {items : List α} {action : α → Action Error State PUnit} {mirror : α → Action Error Other PUnit}
    (mirrors : ∀ item ∈ items, Mirrors related (action item) (mirror item)) :
    Mirrors related (items.forM action) (items.forM mirror) := by
  induction items with
  | nil => exact .pure PUnit.unit
  | cons item rest ih =>
    exact .bind (mirrors item (List.mem_cons_self ..)) fun _ => ih fun item member => mirrors item (List.mem_cons_of_mem _ member)

theorem wrap {Renamed : Type} {rename : Error → Renamed} {action : Action Error State α} {mirror : Action Error Other α}
    (mirrors : Mirrors related action mirror) : Mirrors related (wrap rename action) (wrap rename mirror) := by
  intro before image holds
  obtain ⟨same, holds⟩ := mirrors before image holds
  exact ⟨congrArg (Except.mapError rename) same, holds⟩

end Mirrors

end Stateful
