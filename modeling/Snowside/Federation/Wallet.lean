import Snowside.Api.Tables
import Snowside.Federation.Regrouping

/-! Address derivation of the federation wallet: the bytes of a key hash in groups of
five bits, segwit addresses, and one key for each network and index. -/

set_option autoImplicit false

namespace Snowside

open Numeral

/-! ## Groups of five bits -/

/-- What the groups so far say about the bits read: `total` is the number those
bits spell, of which `bits` are still in the accumulator. -/
structure Grouped (total bits : Nat) (ret : List Nat) : Prop where
  value : Numeral.value 32 ret = total / 2 ^ bits
  small : ∀ group ∈ ret, group < 32

/-- The loop invariant: the accumulator is the last twelve bits read, of which
fewer than five are not yet in a group. -/
structure Regrouped (data : List Nat) (state : Nat × Nat × List Nat) : Prop where
  acc : state.1 = value 256 data % 2 ^ 12
  bits : state.2.1 = 8 * data.length % 5
  length : state.2.2.length = 8 * data.length / 5
  groups : Grouped (value 256 data) (8 * data.length % 5) state.2.2

/-- Of bytes the mask leaves the last twelve bits. -/
theorem regroup_regrouped {data : List Nat} (small : ∀ byte ∈ data, byte < 256) :
    Regrouped data (regroup 8 5 data (0, 0, [])) := by
  have reading : Regrouping 8 5 data (regroup 8 5 data (0, 0, [])) := regroup_regrouping (by decide) small
  exact ⟨reading.acc, reading.bits, reading.length, ⟨reading.groups.value, reading.groups.small⟩⟩

theorem convertBits_small {data : List Nat} (bytes : ∀ byte ∈ data, byte < 256) :
    ∀ group ∈ convertBits data 8 5 true, group < 32 := by
  have small : ∀ byte ∈ data, byte < 2 ^ 8 := bytes
  exact (convertBits_padded (by decide) small).2.small

/-- The bytes can be had back from their groups. -/
theorem convertBits_injective {first second : List Nat} (left : ∀ byte ∈ first, byte < 256)
    (right : ∀ byte ∈ second, byte < 256)
    (same : convertBits first 8 5 true = convertBits second 8 5 true) : first = second := by
  have back {data : List Nat} (small : ∀ byte ∈ data, byte < 2 ^ 8) : convertBits (convertBits data 8 5 true) 5 8 false = data :=
    convertBits_convertBits (by decide) (by decide) small
  rw [← back left, same, back right]

/-! ## Addresses -/

def derivationPath : Network → Text
  | .mainnet => "m/84'/0'/0'/0/".toList
  | .testnet => "m/84'/0'/0'/0/".toList
  | .signet => "m/44'/1'/0'/0/".toList

def keyPath (network : Network) (index : Nat) : Text :=
  derivationPath network ++ Text.toRadix 10 index

/-- Derivation indices are a clock in seconds modulo this. -/
def indexLimit : Nat := 1000000

/-- The mnemonic's keys and the two encodings around them, all third-party code:
the child public key at a path, RIPEMD-160 of SHA-256, and bech32. The indices
in use have distinct key hashes, and bech32 can be read back. -/
structure HDWallet where
  publicKey : Text → List Nat
  hash160 : List Nat → List Nat
  bech32 : Text → List Nat → Text
  hash160_bytes : ∀ key, ∀ byte ∈ hash160 key, byte < 256
  hash160_distinct : ∀ network first second, first < indexLimit → second < indexLimit →
    hash160 (publicKey (keyPath network first)) = hash160 (publicKey (keyPath network second)) → first = second
  bech32_injective : ∀ hrp first second, (∀ word ∈ first, word < 32) → (∀ word ∈ second, word < 32) →
    bech32 hrp first = bech32 hrp second → first = second
  bech32_charset : ∀ hrp words, ':' ∉ hrp → ':' ∉ bech32 hrp words

namespace HDWallet

variable (wallet : HDWallet)

def encodeSegwitAddress (hrp : Text) (version : Nat) (program : List Nat) : Text :=
  wallet.bech32 hrp (version :: convertBits program 8 5 true)

def hrp : Network → Text
  | .signet => "tb".toList
  | .mainnet => "bc".toList
  | .testnet => "bc".toList

/-- Also the address that the script of `deriveKeyPair` pays: both hash the same key. -/
def deriveDepositAddress (network : Network) (index : Nat) : Text :=
  wallet.encodeSegwitAddress (hrp network) 0 (wallet.hash160 (wallet.publicKey (keyPath network index)))

theorem deriveDepositAddress_injective {network : Network} {first second : Nat}
    (left : first < indexLimit) (right : second < indexLimit)
    (same : wallet.deriveDepositAddress network first = wallet.deriveDepositAddress network second) :
    first = second := by
  have small (index : Nat) : ∀ word ∈ 0 :: convertBits
      (wallet.hash160 (wallet.publicKey (keyPath network index))) 8 5 true, word < 32 := by
    intro word member
    rcases List.mem_cons.mp member with rfl | member
    · decide
    · exact convertBits_small (wallet.hash160_bytes _) word member
  have words := wallet.bech32_injective _ _ _ (small first) (small second) same
  exact wallet.hash160_distinct network first second left right
    (convertBits_injective (wallet.hash160_bytes _) (wallet.hash160_bytes _) (List.cons.inj words).2)

theorem colon_not_mem_deriveDepositAddress (network : Network) (index : Nat) :
    ':' ∉ wallet.deriveDepositAddress network index :=
  wallet.bech32_charset _ _ (by cases network <;> decide)

theorem ofNat_toNat_mod {text : Text} (ascii : ∀ char ∈ text, char.toNat < 128) :
    ((text.map Char.toNat).map (· % 256)).map Char.ofNat = text := by
  rw [List.map_map, List.map_map]
  refine (List.map_congr_left fun char member => ?_).trans (List.map_id text)
  have small := ascii char member
  simp only [Function.comp_apply, id_eq, Nat.mod_eq_of_lt (by omega : char.toNat < 256), Char.ofNat_toNat]

/-- A readable letter for each word. -/
def letter (word : Nat) : Char := Char.ofNat (64 + word % 32)

theorem letter_toNat : ∀ word < 32, (letter word).toNat - 64 = word := by decide

theorem letter_ne_colon (word : Nat) : letter word ≠ ':' := by
  have all : ∀ word < 32, Char.ofNat (64 + word) ≠ ':' := by decide
  exact all _ (Nat.mod_lt _ (by decide))

theorem letters_toNat {words : List Nat} (small : ∀ word ∈ words, word < 32) :
    (words.map letter).map (fun char => char.toNat - 64) = words := by
  rw [List.map_map]
  exact (List.map_congr_left fun word member => letter_toNat word (small word member)).trans
    (List.map_id words)

/-- A wallet that can be computed with: keys and hashes are the path itself. -/
def transparent : HDWallet where
  publicKey path := path.map Char.toNat
  hash160 key := key.map (· % 256)
  bech32 hrp words := hrp ++ '1' :: words.map letter
  hash160_bytes key byte member := by
    obtain ⟨other, -, rfl⟩ := List.mem_map.mp member
    exact Nat.mod_lt _ (by decide)
  hash160_distinct network first second _ _ same := by
    have digits (number : Nat) : ∀ char ∈ Text.toRadix 10 number, char.toNat < 128 := by
      intro char member
      obtain ⟨digit, read⟩ := Option.isSome_iff_exists.mp (Text.hexValues_isSome.mp
        (by rw [Text.hexValues_toRadix (by decide) (by decide)]; rfl) char member)
      exact (Text.hexValue_bounds read).1
    simp only [keyPath, List.map_append, List.append_cancel_left_eq] at same
    have texts := congrArg (List.map Char.ofNat) same
    rw [ofNat_toNat_mod (digits first), ofNat_toNat_mod (digits second)] at texts
    exact Text.toRadix_injective (by decide) (by decide) texts
  bech32_injective hrp first second left right same := by
    have words := congrArg (List.map fun char => char.toNat - 64)
      (List.cons.inj (List.append_cancel_left same)).2
    rwa [letters_toNat left, letters_toNat right] at words
  bech32_charset hrp words absent := by
    intro member
    rcases List.mem_append.mp member with member | member
    · exact absent member
    · rcases List.mem_cons.mp member with same | member
      · exact absurd same (by decide)
      · obtain ⟨word, -, same⟩ := List.mem_map.mp member
        exact letter_ne_colon word same

end HDWallet

end Snowside
