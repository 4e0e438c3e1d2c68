import Snowside.Numeral.BigEndian

/-! Streams of bits cut into groups of one width, the most significant bit first. -/

set_option autoImplicit false

namespace Numeral

/-- The bits of the groups, one group after the other. -/
def bits (width : Nat) (groups : List Nat) : List Nat := groups.flatMap (spellFixed 2 width)

section

variable {width : Nat} {groups : List Nat}

theorem length_bits (width : Nat) (groups : List Nat) : (bits width groups).length = width * groups.length := by
  induction groups with
  | nil => rfl
  | cons group groups ih =>
    rw [bits, List.flatMap_cons, List.length_append, length_spellFixed, ← bits, ih, List.length_cons]
    ring

theorem bits_lt (width : Nat) (groups : List Nat) : ∀ bit ∈ bits width groups, bit < 2 := by
  intro bit member
  obtain ⟨group, -, inside⟩ := List.mem_flatMap.mp member
  exact spellFixed_lt (by decide) width group bit inside

theorem value_bits (small : ∀ group ∈ groups, group < 2 ^ width) : value 2 (bits width groups) = value (2 ^ width) groups := by
  induction groups with
  | nil => rfl
  | cons group groups ih =>
    obtain ⟨here, later⟩ := List.forall_mem_cons.mp small
    rw [bits, List.flatMap_cons, ← bits, value_append, value_cons, ih later, value_spellFixed, Nat.mod_eq_of_lt here,
      length_bits, pow_mul]

/-- Two cuts of one number: the bits are the same but for the zeros behind them. -/
theorem bits_eq_append_zeros {wide : Nat} {digits : List Nat} {zeros : Nat} (small : ∀ group ∈ groups, group < 2 ^ width)
    (bounded : ∀ digit ∈ digits, digit < 2 ^ wide) (length : width * groups.length = wide * digits.length + zeros)
    (same : value (2 ^ width) groups = value (2 ^ wide) digits * 2 ^ zeros) :
    bits width groups = bits wide digits ++ List.replicate zeros 0 := by
  refine value_injective (by decide) (bits_lt width groups) ?_ ?_ ?_
  · intro bit member
    rcases List.mem_append.mp member with member | member
    · exact bits_lt wide digits bit member
    · rw [(List.mem_replicate.mp member).2]
      decide
  · rw [List.length_append, length_bits, length_bits, List.length_replicate, length]
  · rw [value_append, value_bits small, value_bits bounded, value_zeros, List.length_replicate, same, Nat.add_zero]

end

/-! ## The leading bits of a number -/

/-- The groups are the number without its last bits, of which so many are left. -/
structure Groups (width total left : Nat) (groups : List Nat) : Prop where
  value : Numeral.value (2 ^ width) groups = total / 2 ^ left
  small : ∀ group ∈ groups, group < 2 ^ width

variable {width total left : Nat} {groups : List Nat}

theorem groups_nil (width : Nat) : Groups width 0 0 [] where
  value := rfl
  small _ member := absurd member List.not_mem_nil

/-- One more group. -/
theorem Groups.concat (cut : Groups width total (left + width) groups) :
    Groups width total left (groups ++ [total / 2 ^ left % 2 ^ width]) where
  value := by
    rw [value_append, value_singleton, cut.value, List.length_singleton, pow_one, pow_add, ← Nat.div_div_eq_div_mul]
    exact Nat.div_add_mod' _ _
  small group member := by
    rcases List.mem_append.mp member with member | member
    · exact cut.small group member
    · rw [List.mem_singleton.mp member]
      exact Nat.mod_lt _ (by positivity)

/-- More bits behind the number. -/
theorem Groups.extend (cut : Groups width total left groups) {count digit : Nat} (small : digit < 2 ^ count) :
    Groups width (total * 2 ^ count + digit) (left + count) groups where
  value := by
    rw [cut.value, Nat.add_comm left, pow_add, ← Nat.div_div_eq_div_mul, Nat.add_comm, Nat.add_mul_div_right _ _ (by positivity),
      Nat.div_eq_of_lt small, Nat.zero_add]
  small := cut.small

/-- A group of a number can be read from its last bits alone. -/
theorem group_of_masked {kept : Nat} (enough : left + width ≤ kept) :
    total % 2 ^ kept / 2 ^ left % 2 ^ width = total / 2 ^ left % 2 ^ width := by
  have parts : 2 ^ kept = 2 ^ left * (2 ^ width * 2 ^ (kept - (left + width))) := by
    rw [← mul_assoc, ← pow_add, ← pow_add, Nat.add_sub_cancel' enough]
  rw [parts, Nat.mod_mul_right_div_self, Nat.mod_mul_right_mod]

/-- So can the group that is filled up with zeros. -/
theorem filled_of_masked {kept count : Nat} (enough : width ≤ kept + count) :
    total % 2 ^ kept * 2 ^ count % 2 ^ width = total * 2 ^ count % 2 ^ width := by
  have divides : 2 ^ width ∣ 2 ^ kept * 2 ^ count := by
    rw [← pow_add]
    exact pow_dvd_pow 2 enough
  exact ((Nat.mod_modEq total (2 ^ kept)).mul_right' (2 ^ count)).of_dvd divides

end Numeral
