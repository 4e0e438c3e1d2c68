import Snowside.Api.Tables

/-! The two updates of the federation as the API carries them out: the body is read by a
schema, its keys by a list of columns, and times are added by status.
-/

set_option autoImplicit false

namespace Snowside.Api

/-! ## Bodies -/

/-- The names of columns and of the keys of a body. -/
abbrev Key : Type := String

inductive Value where
  | null
  | text (text : Text)
  | number (number : Int)
  deriving DecidableEq, Repr

inductive Kind where
  | string
  | number
  deriving DecidableEq, Repr

def Kind.admits : Kind → Value → Bool
  | .string, .text _ => true
  | .number, .number _ => true
  | _, _ => false

/-- An object, its keys in order. -/
abbrev Body : Type := List (Key × Value)

inductive PatchError where
  | invalidBody (key : Key)
  | noValidFields
  deriving DecidableEq, Repr

/-- `z.object`, of optional keys: others are stripped. -/
def parse (schema : List (Key × Kind)) (body : Body) : Except PatchError Body :=
  schema.foldr
    (fun field rest =>
      match body.lookup field.1 with
      | none => rest
      | some value => if field.2.admits value then rest.map ((field.1, value) :: ·) else .error (.invalidBody field.1))
    (.ok [])

/-! ## Routes -/

/-- A route for updates, with the times that follow a status. -/
structure Route where
  schema : List (Key × Kind)
  allowed : List Key
  stamps : List (Text × Key)

/-- A row by its id. -/
structure Row where
  id : Nat
  columns : Key → Value

namespace Route

/-- `PATCH /v1/fed/deposit/{id}`. -/
def deposit : Route where
  schema := [("ecash_address", .string), ("derivation_index", .number), ("amount_sats", .number), ("amount_ecx", .number),
    ("ecash_tx_hash", .string), ("mint_tx_hash", .string), ("status", .string)]
  allowed := ["ecash_address", "derivation_index", "amount_sats", "amount_ecx", "ecash_tx_hash", "mint_tx_hash", "status"]
  stamps := [("confirmed".toList, "confirmed_at"), ("minted".toList, "minted_at")]

/-- `PATCH /v1/fed/withdraw/{id}`. -/
def withdraw : Route where
  schema := [("amount_sats", .number), ("ecash_tx_hash", .string), ("status", .string)]
  allowed := ["amount_sats", "ecash_tx_hash", "status"]
  stamps := [("completed".toList, "completed_at")]

variable (route : Route)

/-- The times of a status. -/
def stamped (body : Body) (now : Nat) : Body :=
  (route.stamps.filter fun stamp => body.lookup "status" = some (.text stamp.1)).map fun stamp => (stamp.2, .number now)

/-- The SET list. -/
def updates (body : Body) (now : Nat) : Body := body.filter (fun entry => entry.1 ∈ route.allowed) ++ route.stamped body now

/-- `UPDATE ... SET ... WHERE id = ?`, of one row. -/
def set (updates : Body) (row : Row) : Row :=
  { row with columns := updates.foldl (fun columns entry => Function.update columns entry.1 entry.2) row.columns }

def patch (now id : Nat) (body : Body) (rows : List Row) : Except PatchError (List Row) := do
  let body ← parse route.schema body
  let updates := route.updates body now
  if updates = [] then throw .noValidFields
  return rows.map fun row => if row.id = id then set updates row else row

/-- The table after a request, whatever the answer. -/
def after (now id : Nat) (body : Body) (rows : List Row) : List Row := (route.patch now id body rows).toOption.getD rows

end Route

/-! ## What the federation sends -/

inductive FederationPatch where
  | assignAddress (address : Text) (index : Nat)
  | confirm (amount : Nat) (txHash : Text)
  | mint (ecxAmount : Nat) (mintTxHash : Text)
  | complete (l1TxHash : Text) (amountSats : Int) (completedAt : Nat)
  | timeOut (completedAt : Nat)
  deriving DecidableEq, Repr

namespace FederationPatch

def route : FederationPatch → Route
  | assignAddress _ _ => .deposit
  | confirm _ _ => .deposit
  | mint _ _ => .deposit
  | complete _ _ _ => .withdraw
  | timeOut _ => .withdraw

def body : FederationPatch → Body
  | assignAddress address index => [("ecash_address", .text address), ("derivation_index", .number index)]
  | confirm amount txHash =>
      [("status", .text "confirmed".toList), ("amount_sats", .number amount), ("ecash_tx_hash", .text txHash)]
  | mint ecxAmount mintTxHash =>
      [("status", .text "minted".toList), ("amount_ecx", .number ecxAmount), ("mint_tx_hash", .text mintTxHash)]
  | complete l1TxHash amountSats completedAt =>
      [("status", .text "completed".toList), ("ecash_tx_hash", .text l1TxHash), ("amount_sats", .number amountSats),
        ("completed_at", .number completedAt)]
  | timeOut completedAt => [("status", .text "failed".toList), ("completed_at", .number completedAt)]

end FederationPatch

/-! ## One column at a time -/

theorem set_columns {updates : Body} (distinct : (updates.map Prod.fst).Nodup) (row : Row) (key : Key) :
    (Route.set updates row).columns key = (updates.lookup key).getD (row.columns key) := by
  obtain ⟨id, columns⟩ := row
  change updates.foldl (fun columns entry => Function.update columns entry.1 entry.2) columns key = _
  induction updates generalizing columns with
  | nil => rfl
  | cons entry rest ih =>
    obtain ⟨name, value⟩ := entry
    obtain ⟨fresh, distinct⟩ := List.nodup_cons.mp distinct
    rw [List.foldl_cons, ih distinct]
    by_cases same : key = name
    · subst same
      have absent : rest.lookup key = none := by
        refine List.lookup_eq_none_iff.mpr fun entry member => ?_
        rw [bne_iff_ne]
        exact fun same => fresh (List.mem_map.mpr ⟨entry, member, same.symm⟩)
      simp [absent]
    · have differs : (key == name) = false := beq_false_of_ne same
      simp [List.lookup_cons, differs, Function.update_of_ne same]

section

variable {route : Route} {now id : Nat} {body : Body} {rows after : List Row}

theorem patch_eq_ok : route.patch now id body rows = .ok after ↔ ∃ parsed, parse route.schema body = .ok parsed ∧
    route.updates parsed now ≠ [] ∧
    after = rows.map fun row => if row.id = id then Route.set (route.updates parsed now) row else row := by
  unfold Route.patch
  cases parse route.schema body with
  | error cause => simp [bind, Except.bind]
  | ok parsed =>
    by_cases none : route.updates parsed now = []
    · simp [bind, Except.bind, none, throw, throwThe, MonadExceptOf.throw]
    · simp only [bind, Except.bind, none, pure, Except.pure, if_false, Except.ok.injEq]
      constructor
      · rintro rfl
        exact ⟨parsed, rfl, none, rfl⟩
      · rintro ⟨_, rfl, -, rfl⟩
        rfl

/-- A row that the request does not name is as before, and so is every other table. -/
theorem row_kept (answered : route.patch now id body rows = .ok after) (index : Nat) (row : Row) (found : rows[index]? = some row)
    (other : row.id ≠ id) : after[index]? = some row := by
  obtain ⟨parsed, -, -, rfl⟩ := patch_eq_ok.mp answered
  rw [List.getElem?_map, found, Option.map_some, if_neg other]

end

/-! ## What is stored -/

/-- A row after an update of the federation: what was sent is stored, or the server's time for
the event, and the rest is as before. -/
structure Stores (route : Route) (body : Body) (now : Nat) (before after : Row) : Prop where
  id : after.id = before.id
  named : ∀ entry ∈ body, after.columns entry.1 = entry.2 ∨
    (entry.1 ∈ (route.stamped body now).map Prod.fst ∧ after.columns entry.1 = .number now)
  others : ∀ key, key ∉ body.map Prod.fst → key ∉ (route.stamped body now).map Prod.fst →
    after.columns key = before.columns key

namespace FederationPatch

/-- What the schema leaves of a body, in its own order. -/
def accepted : FederationPatch → Body
  | assignAddress address index => [("ecash_address", .text address), ("derivation_index", .number index)]
  | confirm amount txHash =>
      [("amount_sats", .number amount), ("ecash_tx_hash", .text txHash), ("status", .text "confirmed".toList)]
  | mint ecxAmount mintTxHash =>
      [("amount_ecx", .number ecxAmount), ("mint_tx_hash", .text mintTxHash), ("status", .text "minted".toList)]
  | complete l1TxHash amountSats _ =>
      [("amount_sats", .number amountSats), ("ecash_tx_hash", .text l1TxHash), ("status", .text "completed".toList)]
  | timeOut _ => [("status", .text "failed".toList)]

/-- The times that follow. -/
def times (now : Nat) : FederationPatch → Body
  | assignAddress _ _ => []
  | confirm _ _ => [("confirmed_at", .number now)]
  | mint _ _ => [("minted_at", .number now)]
  | complete _ _ _ => [("completed_at", .number now)]
  | timeOut _ => []

theorem parse_body (patch : FederationPatch) : parse patch.route.schema patch.body = .ok patch.accepted := by
  cases patch <;> rfl

theorem stamped_body (patch : FederationPatch) (now : Nat) : patch.route.stamped patch.body now = patch.times now := by
  cases patch <;> rfl

theorem updates_accepted (patch : FederationPatch) (now : Nat) :
    patch.route.updates patch.accepted now = patch.accepted ++ patch.times now := by
  cases patch <;> rfl

theorem updates_distinct (patch : FederationPatch) (now : Nat) : ((patch.accepted ++ patch.times now).map Prod.fst).Nodup := by
  cases patch <;> simp [accepted, times]

/-- The row of the answer, column by column. -/
theorem answered_eq {patch : FederationPatch} {now id : Nat} {rows after : List Row}
    (answered : patch.route.patch now id patch.body rows = .ok after) : after = rows.map fun row =>
      if row.id = id then Route.set (patch.accepted ++ patch.times now) row else row := by
  obtain ⟨parsed, read, -, rfl⟩ := patch_eq_ok.mp answered
  cases patch.parse_body.symm.trans read
  rw [updates_accepted]

/-- Every key of a body is a column of the update but the end of a withdrawal that times out. -/
theorem stores_iff (patch : FederationPatch) (now : Nat) (row : Row) :
    Stores patch.route patch.body now row (Route.set (patch.accepted ++ patch.times now) row) ↔
      ∀ completedAt, patch = .timeOut completedAt → row.columns "completed_at" = .number completedAt := by
  constructor
  · rintro stores completedAt rfl
    obtain stored | ⟨timed, -⟩ := stores.named ("completed_at", .number completedAt) (by simp [body])
    · exact stored
    · rw [stamped_body] at timed
      cases timed
  · intro settled
    refine ⟨rfl, fun entry member => ?_, fun key absent untimed => ?_⟩
    · rw [stamped_body, set_columns (patch.updates_distinct now)]
      cases patch with
      | assignAddress address index =>
        simp only [body, List.mem_cons, List.not_mem_nil, or_false] at member
        obtain rfl | rfl := member <;> exact .inl rfl
      | confirm amount txHash =>
        simp only [body, List.mem_cons, List.not_mem_nil, or_false] at member
        obtain rfl | rfl | rfl := member <;> exact .inl rfl
      | mint ecxAmount mintTxHash =>
        simp only [body, List.mem_cons, List.not_mem_nil, or_false] at member
        obtain rfl | rfl | rfl := member <;> exact .inl rfl
      | complete l1TxHash amountSats completedAt =>
        simp only [body, List.mem_cons, List.not_mem_nil, or_false] at member
        obtain rfl | rfl | rfl | rfl := member
        · exact .inl rfl
        · exact .inl rfl
        · exact .inl rfl
        -- The server's own time stands for the one that was sent.
        · exact .inr ⟨List.mem_singleton_self _, rfl⟩
      | timeOut completedAt =>
        simp only [body, List.mem_cons, List.not_mem_nil, or_false] at member
        obtain rfl | rfl := member
        · exact .inl rfl
        · exact .inl (settled completedAt rfl)
    · rw [stamped_body] at untimed
      rw [set_columns (patch.updates_distinct now)]
      have unnamed : key ∉ (patch.accepted ++ patch.times now).map Prod.fst := by
        rw [List.map_append, List.mem_append, not_or]
        refine ⟨fun member => absent ?_, untimed⟩
        cases patch <;> simp only [accepted, body, List.map_cons, List.map_nil, List.mem_cons, List.not_mem_nil, or_false] at * <;>
          tauto
      have missing : (patch.accepted ++ patch.times now).lookup key = none := by
        refine List.lookup_eq_none_iff.mpr fun entry member => ?_
        rw [bne_iff_ne]
        exact fun same => unnamed (List.mem_map.mpr ⟨entry, member, same.symm⟩)
      rw [missing, Option.getD_none]

end FederationPatch

theorem parse_unaccepted {schema : List (Key × Kind)} {body : Body}
    (absent : ∀ field ∈ schema, body.lookup field.1 = none) : parse schema body = .ok [] := by
  induction schema with
  | nil => rfl
  | cons field rest ih =>
    have stripped : parse rest body = .ok [] := ih fun field member => absent field (List.mem_cons_of_mem _ member)
    unfold parse at stripped ⊢
    rw [List.foldr_cons, stripped, absent field (List.mem_cons_self ..)]

/-- A body of none of the keys is refused. -/
theorem refused_unaccepted {route : Route} (listed : ∀ field ∈ route.schema, field.1 ∈ route.allowed) (now id : Nat) {body : Body}
    (rows : List Row) (unaccepted : ∀ entry ∈ body, entry.1 ∉ route.allowed) :
    route.patch now id body rows = .error .noValidFields := by
  have empty : parse route.schema body = .ok [] := by
    refine parse_unaccepted fun field member => List.lookup_eq_none_iff.mpr fun entry inside => ?_
    rw [bne_iff_ne]
    intro same
    exact unaccepted entry inside (same ▸ listed field member)
  have untimed : route.updates [] now = [] := by
    simp [Route.updates, Route.stamped]
  unfold Route.patch
  rw [empty]
  exact if_pos untimed

/-- After an update that the API answers, what the federation sent is stored exactly when it
did not time out a withdrawal: the time that it sends then is stripped. A body without any
accepted column is refused. -/
theorem federation_patch_stored_iff (patch : FederationPatch) (now id : Nat) {rows after : List Row}
    (distinct : (rows.map Row.id).Nodup) {row : Row} (known : row ∈ rows) (named : row.id = id)
    (answered : patch.route.patch now id patch.body rows = .ok after) :
    ((∃ stored, (∀ other, other ∈ after ↔ other = stored ∨ (other ∈ rows ∧ other.id ≠ id)) ∧
        Stores patch.route patch.body now row stored) ↔
      ∀ completedAt, patch = .timeOut completedAt → row.columns "completed_at" = .number completedAt) ∧
    ∀ body, (∀ entry ∈ body, entry.1 ∉ patch.route.allowed) → patch.route.after now id body rows = rows := by
  subst named
  refine ⟨?_, fun body unaccepted => ?_⟩
  · have same := FederationPatch.answered_eq answered
    have members (other : Row) : other ∈ after ↔ other = Route.set (patch.accepted ++ patch.times now) row ∨
        (other ∈ rows ∧ other.id ≠ row.id) := by
      rw [same]
      exact mem_update distinct known _ other
    rw [← patch.stores_iff now row]
    constructor
    · rintro ⟨stored, unique, stores⟩
      -- The row is known by its id.
      obtain rfl | ⟨-, other⟩ := (members stored).mp ((unique stored).mpr (.inl rfl))
      · exact stores
      · exact absurd stores.id other
    · exact fun stores => ⟨_, members, stores⟩
  · have refused : patch.route.patch now row.id body rows = .error .noValidFields := by
      refine refused_unaccepted ?_ now row.id rows unaccepted
      cases patch <;> simp [FederationPatch.route, Route.deposit, Route.withdraw]
    rw [Route.after, refused]
    rfl

/-! ## Samples -/

def pendingRow : Row where
  id := 7
  columns key := if key = "status" then .text "pending".toList else .null

theorem federation_patch_stored_iff_sample : ∃ after stored,
    Route.withdraw.patch 1000 7 (FederationPatch.complete ['f'] 1800 990).body [pendingRow] = .ok after ∧
      (∀ other, other ∈ after ↔ other = stored ∨ (other ∈ [pendingRow] ∧ other.id ≠ 7)) ∧
      Stores .withdraw (FederationPatch.complete ['f'] 1800 990).body 1000 pendingRow stored := by
  have answered : (FederationPatch.complete ['f'] 1800 990).route.patch 1000 7 (FederationPatch.complete ['f'] 1800 990).body
      [pendingRow] = .ok [Route.set ((FederationPatch.complete ['f'] 1800 990).accepted ++
        (FederationPatch.complete ['f'] 1800 990).times 1000) pendingRow] := rfl
  obtain ⟨stored, members, stores⟩ := (federation_patch_stored_iff (.complete ['f'] 1800 990) 1000 7
    (show ([pendingRow].map Row.id).Nodup by decide) (List.mem_singleton_self pendingRow) rfl answered).1.mpr fun _ other => by cases other
  exact ⟨_, stored, answered, members, stores⟩

/-- The API answers ok to a time-out, and the time that it names is not stored. -/
theorem timeOut_unstored : ∃ after,
    Route.withdraw.patch 1000 7 (FederationPatch.timeOut 990).body [pendingRow] = .ok after ∧
      ∀ row ∈ after, row.columns "status" = .text "failed".toList ∧ row.columns "completed_at" = .null := by
  refine ⟨_, rfl, fun row member => ?_⟩
  obtain rfl := List.mem_singleton.mp member
  exact ⟨rfl, rfl⟩

end Snowside.Api
