import Mathlib.Logic.Function.Basic
import Mathlib.Order.Lattice
import Snowside.Partial.Maps

/-! The snapshot tree: one disk layer, the diff layers over it, and what inserts, flattens and discards them. -/

set_option autoImplicit false

namespace Snowside.Snapshot

open Maps (Map)

/-- Nothing and the empty value are one. -/
abbrev Bytes : Type := List UInt8

/-- An account by its hash, or a slot of an account. -/
inductive Item (Key : Type) where
  | account (accountHash : Key)
  | slot (accountHash storageHash : Key)
  deriving DecidableEq

def Item.accountHash {Key : Type} : Item Key → Key
  | .account accountHash => accountHash
  | .slot accountHash _ => accountHash

/-- What a block changes: accounts that are gone are in the first set, also when they come again. -/
structure Diff (Key : Type) where
  destructSet : List Key
  accountData : Map Key Bytes
  storageData : Map Key (Map Key Bytes)

/-! ## Bloom filters -/

/-- A filter that has every hash that was added to it. -/
class BloomFilter (Filter : Type) where
  new : Filter
  addHash : Filter → UInt64 → Filter
  containsHash : Filter → UInt64 → Bool
  contains_added : ∀ filter added, containsHash (addHash filter added) added = true
  contains_kept : ∀ filter added other, containsHash filter other = true → containsHash (addHash filter added) other = true

/-- The offsets of the hashers are drawn at the start. -/
structure Hashers (Key : Type) where
  destructBloomHash : Key → UInt64
  accountBloomHash : Key → UInt64
  storageBloomHash : Key → Key → UInt64

section

variable {Key : Type} (hashers : Hashers Key)

def Hashers.itemBloomHash : Item Key → UInt64
  | .account accountHash => hashers.accountBloomHash accountHash
  | .slot accountHash storageHash => hashers.storageBloomHash accountHash storageHash

/-- The hashes of a diff that go into the filter. -/
def Diff.bloomHashes (diff : Diff Key) : List UInt64 :=
  diff.destructSet.map hashers.destructBloomHash ++
    diff.accountData.entries.map (fun entry => hashers.accountBloomHash entry.1) ++
    diff.storageData.entries.flatMap fun entry => entry.2.entries.map fun slot => hashers.storageBloomHash entry.1 slot.1

end

/-! ## Layers -/

/-- How far the generator is: nowhere, at an account, or at a slot of one. -/
inductive Marker (Key : Type) where
  | start
  | account (accountHash : Key)
  | slot (accountHash storageHash : Key)

inductive Ref where
  | disk (id : Nat)
  | diff (id : Nat)
  deriving DecidableEq

structure DiskLayer (ID Root Key : Type) where
  root : Root
  blockHash : ID
  stale : Bool
  /-- Nothing when the snapshot is generated. -/
  genMarker : Option (Marker Key)

/-- Only Rebuild makes a diff layer stale, and it leaves none in the tree. -/
structure DiffLayer (ID Root Key Filter : Type) where
  origin : Nat
  parent : Ref
  blockHash : ID
  root : Root
  diff : Diff Key
  diffed : Filter

/-- The layers there have ever been, by id, and those that are listed. -/
structure Tree (ID Root Key Filter : Type) where
  disks : Nat → Option (DiskLayer ID Root Key)
  diffs : Nat → Option (DiffLayer ID Root Key Filter)
  next : Nat
  diskdb : Item Key → Bytes
  cache : Item Key → Option Bytes
  blockLayers : Map ID Ref
  stateLayers : Map Root (Map ID Ref)

inductive ReadError where
  | stale
  | notCoveredYet
  | missingLayer

inductive UpdateError (ID : Type) where
  | parentMissing (parentBlockHash : ID)
  | missingLayer

inductive DiscardError (ID Root : Type) where
  | missing (blockHash : ID)
  | disk (blockHash : ID)
  | missingState (blockHash : ID) (root : Root)
  | missingLayer

inductive FlattenError (ID Root : Type) where
  | missing (blockHash : ID)
  | disk (blockHash : ID) (root : Root)
  | diffParent (blockHash : ID) (root : Root) (parentHash : ID) (parentRoot : Root)
  | missingParent (parentHash : ID)
  | staleParent
  | discard (cause : DiscardError ID Root)
  | missingLayer

section

variable {ID Root Key Filter : Type} [DecidableEq ID] [DecidableEq Root] [LinearOrder Key]

/-! ## Coverage -/

/-- bytes.Compare with the marker: an account comes before its slots. -/
def coversAccount (genMarker : Option (Marker Key)) (accountHash : Key) : Bool :=
  match genMarker with
  | none => true
  | some .start => false
  | some (.account marker) => accountHash ≤ marker
  | some (.slot marker _) => accountHash ≤ marker

def covers (genMarker : Option (Marker Key)) : Item Key → Bool
  | .account accountHash => coversAccount genMarker accountHash
  | .slot accountHash storageHash =>
      match genMarker with
      | none => true
      | some .start => false
      | some (.account marker) => accountHash < marker
      | some (.slot marker slotMarker) => accountHash < marker || accountHash = marker && storageHash ≤ slotMarker

/-- The check of diffToDisk for a slot: its account is covered, and when the generator is at that account, so is the slot. -/
def coversStorage (genMarker : Option (Marker Key)) (accountHash storageHash : Key) : Bool :=
  coversAccount genMarker accountHash &&
    match genMarker with
    | none => true
    | some .start => true
    | some (.account marker) => accountHash ≠ marker
    | some (.slot marker slotMarker) => accountHash ≠ marker || storageHash ≤ slotMarker

/-! ## Reads -/

/-- What the layer itself says about an item. -/
def Diff.find (diff : Diff Key) : Item Key → Option Bytes
  | .account accountHash =>
      match diff.accountData.lookup accountHash with
      | some data => some data
      | none => if accountHash ∈ diff.destructSet then some [] else none
  | .slot accountHash storageHash =>
      match (diff.storageData.lookup accountHash).bind fun storage => storage.lookup storageHash with
      | some data => some data
      | none => if accountHash ∈ diff.destructSet then some [] else none

/-- The accounts and slots of a state. -/
abbrev FlatState (Key : Type) : Type := Item Key → Bytes

/-- What a block writes wins, and what it destructs is gone otherwise. -/
def Diff.apply (diff : Diff Key) (state : FlatState Key) : FlatState Key
  | .account accountHash =>
      (diff.accountData.lookup accountHash).getD
        (if accountHash ∈ diff.destructSet then [] else state (.account accountHash))
  | .slot accountHash storageHash =>
      ((diff.storageData.lookup accountHash).bind fun storage => storage.lookup storageHash).getD
        (if accountHash ∈ diff.destructSet then [] else state (.slot accountHash storageHash))

namespace Tree

variable (tree : Tree ID Root Key Filter)

/-- AccountRLP and Storage of a disk layer: what is read from the disk goes into the cache. -/
def readDisk (id : Nat) (item : Item Key) : Except ReadError Bytes × Tree ID Root Key Filter :=
  match tree.disks id with
  | none => (.error .missingLayer, tree)
  | some layer =>
    if layer.stale then (.error .stale, tree)
    else if covers layer.genMarker item = false then (.error .notCoveredYet, tree)
    else
      match tree.cache item with
      | some blob => (.ok blob, tree)
      | none => (.ok (tree.diskdb item), { tree with cache := Function.update tree.cache item (some (tree.diskdb item)) })

/-- accountRLP and storage of a diff layer: the maps, layer by layer. -/
def readMaps : Nat → Nat → Item Key → Except ReadError Bytes × Tree ID Root Key Filter
  | 0, _, _ => (.error .missingLayer, tree)
  | fuel + 1, id, item =>
      match tree.diffs id with
      | none => (.error .missingLayer, tree)
      | some layer =>
        match layer.diff.find item with
        | some data => (.ok data, tree)
        | none =>
          match layer.parent with
          | .diff parent => readMaps fuel parent item
          | .disk parent => tree.readDisk parent item

variable [BloomFilter Filter] (hashers : Hashers Key)

/-- AccountRLP and Storage of a diff layer: the origin, if the filter misses. -/
def readDiff (id : Nat) (item : Item Key) : Except ReadError Bytes × Tree ID Root Key Filter :=
  match tree.diffs id with
  | none => (.error .missingLayer, tree)
  | some layer =>
    if BloomFilter.containsHash layer.diffed (hashers.itemBloomHash item) ||
        BloomFilter.containsHash layer.diffed (hashers.destructBloomHash item.accountHash) then
      tree.readMaps (id + 1) id item
    else tree.readDisk layer.origin item

def read (ref : Ref) (item : Item Key) : Except ReadError Bytes × Tree ID Root Key Filter :=
  match ref with
  | .disk id => tree.readDisk id item
  | .diff id => tree.readDiff hashers id item

/-! ## Updates -/

def blockHashOf : Ref → Option ID
  | .disk id => (tree.disks id).map DiskLayer.blockHash
  | .diff id => (tree.diffs id).map DiffLayer.blockHash

def rootOf : Ref → Option Root
  | .disk id => (tree.disks id).map DiskLayer.root
  | .diff id => (tree.diffs id).map DiffLayer.root

/-- The filter of a layer: that of its parent, if it is a diff layer, and its own changes. -/
def bloom (parent : Ref) (diff : Diff Key) : Filter :=
  let below := match parent with
    | .disk _ => none
    | .diff id => (tree.diffs id).map DiffLayer.diffed
  (diff.bloomHashes hashers).foldl BloomFilter.addHash (below.getD BloomFilter.new)

/-- The origin of a new layer over a layer. -/
def originOver : Ref → Option Nat
  | .disk id => some id
  | .diff id => (tree.diffs id).map DiffLayer.origin

def insertSnap (ref : Ref) (blockHash : ID) (root : Root) : Tree ID Root Key Filter :=
  { tree with
    blockLayers := tree.blockLayers.insert blockHash ref
    stateLayers := tree.stateLayers.insert root (((tree.stateLayers.lookup root).getD ∅).insert blockHash ref) }

/-- The tree with a layer that is not listed. -/
def grow (layer : DiffLayer ID Root Key Filter) : Tree ID Root Key Filter :=
  { tree with diffs := Function.update tree.diffs tree.next (some layer), next := tree.next + 1 }

def updateWithBlockHashes (blockHash : ID) (blockRoot : Root) (parentBlockHash : ID) (diff : Diff Key) :
    Except (UpdateError ID) (Tree ID Root Key Filter) :=
  match tree.blockLayers.lookup parentBlockHash with
  | none => .error (.parentMissing parentBlockHash)
  | some parent =>
    match tree.originOver parent with
    | none => .error .missingLayer
    | some origin =>
      let layer : DiffLayer ID Root Key Filter := ⟨origin, parent, blockHash, blockRoot, diff, tree.bloom hashers parent diff⟩
      .ok ((tree.grow layer).insertSnap (.diff tree.next) blockHash blockRoot)

/-- Only a flattening forces the disk layer out. -/
def discard (blockHash : ID) (force : Bool) : Except (DiscardError ID Root) (Tree ID Root Key Filter) :=
  match tree.blockLayers.lookup blockHash with
  | none => .error (.missing blockHash)
  | some snap =>
    match snap, force with
    | .disk _, false => .error (.disk blockHash)
    | _, _ =>
      match tree.rootOf snap with
      | none => .error .missingLayer
      | some root =>
        match tree.stateLayers.lookup root with
        | none => .error (.missingState blockHash root)
        | some snaps =>
          .ok { tree with
            blockLayers := tree.blockLayers.erase blockHash
            stateLayers :=
              if (snaps.erase blockHash).entries.isEmpty then tree.stateLayers.erase root
              else tree.stateLayers.insert root (snaps.erase blockHash) }

end Tree

/-! ## Flattening -/

/-- The disk after the loops of diffToDisk. No key is met twice in a map, so their order does not matter. -/
def Diff.push (diff : Diff Key) (genMarker : Option (Marker Key)) (diskdb : Item Key → Bytes) : Item Key → Bytes
  | .account accountHash =>
      if coversAccount genMarker accountHash then
        match diff.accountData.lookup accountHash with
        | some data => data
        | none => if accountHash ∈ diff.destructSet then [] else diskdb (.account accountHash)
      else diskdb (.account accountHash)
  | .slot accountHash storageHash =>
      -- A destructed account that is covered loses every slot on the disk.
      let destroyed := if accountHash ∈ diff.destructSet ∧ coversAccount genMarker accountHash then []
        else diskdb (.slot accountHash storageHash)
      match (diff.storageData.lookup accountHash).bind fun storage => storage.lookup storageHash with
      | some data => if coversStorage genMarker accountHash storageHash then data else destroyed
      | none => destroyed

/-- The cache after them: a slot that is destroyed on the disk is dropped from the cache. -/
def Diff.pushCache (diff : Diff Key) (genMarker : Option (Marker Key)) (diskdb : Item Key → Bytes)
    (cache : Item Key → Option Bytes) : Item Key → Option Bytes
  | .account accountHash =>
      if coversAccount genMarker accountHash then
        match diff.accountData.lookup accountHash with
        | some data => some data
        | none => if accountHash ∈ diff.destructSet then some [] else cache (.account accountHash)
      else cache (.account accountHash)
  | .slot accountHash storageHash =>
      let destroyed := if accountHash ∈ diff.destructSet ∧ coversAccount genMarker accountHash ∧
          diskdb (.slot accountHash storageHash) ≠ [] then none
        else cache (.slot accountHash storageHash)
      match (diff.storageData.lookup accountHash).bind fun storage => storage.lookup storageHash with
      | some data => if coversStorage genMarker accountHash storageHash then some data else destroyed
      | none => destroyed

namespace Tree

variable (tree : Tree ID Root Key Filter)

/-- The bottom layer becomes the disk layer, and the old one is stale. -/
def pushed (bottom : DiffLayer ID Root Key Filter) (baseId : Nat) (base : DiskLayer ID Root Key) : Tree ID Root Key Filter :=
  { tree with
    disks := Function.update (Function.update tree.disks baseId (some { base with stale := true })) tree.next
      (some ⟨bottom.root, bottom.blockHash, false, base.genMarker⟩)
    next := tree.next + 1
    diskdb := bottom.diff.push base.genMarker tree.diskdb
    cache := bottom.diff.pushCache base.genMarker tree.diskdb tree.cache }

def diffToDisk (bottom : DiffLayer ID Root Key Filter) (baseId : Nat) (base : DiskLayer ID Root Key) :
    Except (FlattenError ID Root) (Tree ID Root Key Filter) :=
  if base.stale then .error .staleParent else .ok (tree.pushed bottom baseId base)

def listed (id : Nat) : Bool := tree.blockLayers.entries.any fun entry => entry.2 = .diff id

/-- Replace the parent pointers of the listed layers that referenced the replaced layer. -/
def relink (blockHash : ID) (base : Nat) : Tree ID Root Key Filter :=
  { tree with
    diffs := fun id => (tree.diffs id).map fun layer =>
      if tree.listed id ∧ tree.blockHashOf layer.parent = some blockHash then { layer with parent := .disk base } else layer }

/-- The listed blocks over a block. -/
def children (blockHash : ID) : List ID :=
  (tree.blockLayers.entries.filter fun entry =>
    match entry.2 with
    | .disk _ => false
    | .diff id => ((tree.diffs id).bind fun layer => tree.blockHashOf layer.parent) = some blockHash).map fun entry => entry.1

variable [BloomFilter Filter] (hashers : Hashers Key)

/-- rebloom of a layer. -/
def rebloomLayer (origin id : Nat) : Tree ID Root Key Filter :=
  match tree.diffs id with
  | none => tree
  | some layer =>
      let bloomed := { layer with origin := origin, diffed := tree.bloom hashers layer.parent layer.diff }
      { tree with diffs := Function.update tree.diffs id (some bloomed) }

/-- rebloom of a block and of what is over it. A layer comes after its parent, so there are at most as many levels as layers. -/
def rebloom (children : ID → List ID) (origin : Nat) : Nat → ID → Tree ID Root Key Filter → Tree ID Root Key Filter
  | 0, _, tree => tree
  | fuel + 1, blockHash, tree =>
      let own := match tree.blockLayers.lookup blockHash with
        | some (.diff id) => tree.rebloomLayer hashers origin id
        | _ => tree
      (children blockHash).foldl (fun tree child => rebloom children origin fuel child tree) own

/-- Flatten, up to the check of the integrity of a generated snapshot, which changes no layer. No listed layer is stale after
the parent has gone, so none is removed. -/
def flatten (blockHash : ID) : Except (FlattenError ID Root) (Tree ID Root Key Filter) :=
  match tree.blockLayers.lookup blockHash with
  | none => .error (.missing blockHash)
  | some (.disk id) =>
    match tree.disks id with
    | none => .error .missingLayer
    | some disk => .error (.disk blockHash disk.root)
  | some (.diff id) =>
    match tree.diffs id with
    | none => .error .missingLayer
    | some diff =>
      match diff.parent with
      | .diff parentId =>
        match tree.diffs parentId with
        | none => .error .missingLayer
        | some parentDiff => .error (.diffParent blockHash diff.root parentDiff.blockHash parentDiff.root)
      | .disk baseId =>
        match tree.disks baseId with
        | none => .error .missingLayer
        | some base =>
          if tree.blockLayers.lookup base.blockHash = none then .error (.missingParent base.blockHash)
          else do
            let merged ← tree.diffToDisk diff baseId base
            let bare ← (merged.discard base.blockHash true).mapError .discard
            let linked := (bare.insertSnap (.disk tree.next) diff.blockHash diff.root).relink diff.blockHash tree.next
            return rebloom hashers linked.children tree.next (linked.next + 1) diff.blockHash linked

end Tree

end

end Snowside.Snapshot
