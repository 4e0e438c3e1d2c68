import Snowside.Bridge.Calls
import Snowside.Interaction.Outline

/-! How the outline of a turn is built: one rule for a call, and the rows that a
loop has read and not yet handled. -/

set_option autoImplicit false

namespace Snowside

open Interaction

section
variable (config : Config) (excuse : Excuse)

/-- The program keeps the invariant in every permitted run from the world on. -/
abbrev Keeps {α : Type} (program : Fed α) (post : α → World → Prop) (world : World) : Prop :=
  Outline (federation config) (excuse.permits config) (Invariant config excuse) program post world

/-- A fact that no permitted event falsifies. -/
def Kept (fact : World → Prop) : Prop :=
  ∀ before event after, (excuse.permits config).event before event →
    World.happen config event before = some after → before.Grows after → fact before → fact after

end

variable {config : Config} {excuse : Excuse} {world : World} {α : Type}

namespace Kept

variable {first second : World → Prop}

theorem of_grows (lasting : ∀ before after, before.Grows after → first before → first after) :
    Kept config excuse first :=
  fun before _ after _ _ grows => lasting before after grows

theorem and (left : Kept config excuse first) (right : Kept config excuse second) :
    Kept config excuse fun world => first world ∧ second world :=
  fun before event after allowed happened grows both =>
    ⟨left before event after allowed happened grows both.1, right before event after allowed happened grows both.2⟩

theorem trivially : Kept config excuse fun _ => True := fun _ _ _ _ _ _ holds => holds

end Kept

/-- A call may be made with its books in order, its guard known and each
permitted answer provided for. -/
theorem Keeps.ask {call : Call} {next : Reply call → Fed α} {post : α → World → Prop} {phase : Phase}
    (facts : World → Prop) (books : Books config excuse phase world) (here : phaseOf (some call) = phase)
    (holds : facts world) (kept : Kept config excuse facts)
    (guard : ∀ world, Books config excuse phase world → facts world → Guard config excuse world call)
    (answers : ∀ world fate reply after, Books config excuse phase world → facts world →
      Guard config excuse world call → (excuse.permits config).answer world call fate →
      World.perform config call fate world = some (reply, after) →
      Keeps config excuse (next reply) post after) :
    Keeps config excuse (.ask call next) post world := by
  refine ⟨fun world => Books config excuse phase world ∧ facts world, ⟨books, holds⟩, ?_, ?_, ?_⟩
  · rintro before event after ⟨books, holds⟩ allowed happened
    obtain ⟨books, grows⟩ := books.happen happened
    exact ⟨books, kept before event after allowed happened grows holds⟩
  · rintro world ⟨books, holds⟩
    refine ⟨here ▸ books, fun other same => ?_⟩
    cases same
    exact guard world books holds
  · rintro world fate reply after ⟨books, holds⟩ allowed performed
    exact answers world fate reply after books holds (guard world books holds) allowed performed

/-! ## Rows still to come -/

/-- Rows as the table had them when it was read, and still has them. -/
structure Listed {Row : Type} (key : Row → Nat) (rows table : List Row) : Prop where
  ids : (rows.map key).Nodup
  known : rows ⊆ table

namespace Listed

variable {Row : Type} {key : Row → Nat} {row : Row} {rows rest table after : List Row}

theorem mono (listed : Listed key rows table) (more : table ⊆ after) : Listed key rows after :=
  ⟨listed.ids, fun _ member => more (listed.known member)⟩

theorem tail (listed : Listed key (row :: rest) table) : Listed key rest table :=
  ⟨(List.nodup_cons.mp listed.ids).2, fun _ member => listed.known (List.mem_cons_of_mem _ member)⟩

theorem head (listed : Listed key (row :: rest) table) : row ∈ table := listed.known List.mem_cons_self

theorem apart (listed : Listed key (row :: rest) table) : key row ∉ rest.map key :=
  (List.nodup_cons.mp listed.ids).1

/-- An update of another row leaves these as they were read. -/
theorem update (listed : Listed key rest table) {id : Nat} (apart : id ∉ rest.map key) (edit : Row → Row) :
    Listed key rest (table.map fun other => if key other = id then edit other else other) where
  ids := listed.ids
  known other member := List.mem_map.mpr ⟨other, listed.known member,
    if_neg fun same => apart (List.mem_map.mpr ⟨other, member, same⟩)⟩

/-- A sorted selection of a table with distinct keys. -/
theorem of_sorted (distinct : (table.map key).Nodup) (chosen : Row → Bool) (order : Row → Row → Prop)
    [DecidableRel order] : Listed key ((table.filter chosen).insertionSort order) table := by
  have same := List.perm_insertionSort order (table.filter chosen)
  refine ⟨?_, fun row member => List.mem_of_mem_filter (same.mem_iff.mp member)⟩
  rw [(same.map key).nodup_iff]
  exact distinct.sublist (List.filter_sublist.map key)

end Listed

end Snowside
