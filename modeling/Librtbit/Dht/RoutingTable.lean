import Librtbit.Core.HashId

/-!
# Dht/RoutingTable — the nodes the DHT knows

The nodes are kept in buckets of at most eight, one for each leaf of a binary tree over the ids.
The tree is kept in a vector whose elements name each other by their index.  A full bucket is split
in two halves if our own id is in it; otherwise it takes a new node only in the place of a bad one.

A call that does not come back (an index that is out of bounds, an `unreachable!`, an assertion that
fails, a search that runs in circles) is `none`.
-/

namespace Librtbit.Dht

open Net

/-- A reading of the clock, in nanoseconds. -/
abbrev Instant : Type := ℕ

/-- `INACTIVITY_TIMEOUT` -/
def inactivityTimeout : ℕ := 15 * 60 * 10 ^ 9

/-! ## Nodes -/

inductive NodeStatus where
  | good
  | questionable
  | bad
  | unknown
  deriving DecidableEq

structure RoutingTableNode where
  id : Id20
  addr : SocketAddr
  lastRequest : Option Instant := none
  lastResponse : Option Instant := none
  lastQuery : Option Instant := none
  errorsInARow : ℕ := 0
  deriving DecidableEq

namespace RoutingTableNode

variable (node : RoutingTableNode)

/-- Instants are subtracted as natural numbers are: a later one leaves zero. -/
def status (now : Instant) : NodeStatus :=
  let recent : Option Instant → Bool := Option.any fun t => now - t < inactivityTimeout
  let stale : Option Instant → Bool := Option.any fun t => now - t > inactivityTimeout
  if node.lastRequest.isSome && node.errorsInARow ≥ 2 then .bad
  else if node.lastRequest.isSome && node.lastResponse.isSome &&
      (recent node.lastResponse || recent node.lastQuery) then .good
  else if (stale node.lastQuery || stale node.lastResponse) &&
      (node.lastRequest.isNone || stale node.lastRequest) then .questionable
  else .unknown

def markOutgoingRequest (now : Instant) : RoutingTableNode := { node with lastRequest := some now }

def markLastQuery (now : Instant) : RoutingTableNode := { node with lastQuery := some now }

def markResponse (now : Instant) : RoutingTableNode :=
  { node with
    lastResponse := some now
    lastRequest := some (node.lastRequest.getD now)
    errorsInARow := 0 }

def markError : RoutingTableNode := { node with errorsInARow := node.errorsInARow + 1 }

end RoutingTableNode

/-! ## Buckets -/

structure LeafBucket where
  nodes : List RoutingTableNode
  lastRefreshed : Instant
  deriving DecidableEq

/-- `sort_by_key(|n| n.id)` -/
def sortById (nodes : List RoutingTableNode) : List RoutingTableNode :=
  nodes.mergeSort fun a b => decide (a.id ≤ b.id)

namespace LeafBucket

variable (bucket : LeafBucket)

/-- The first bad node makes place for the new one. -/
def replaceBad (new : RoutingTableNode) (now : Instant) : Option (LeafBucket × RoutingTableNode) :=
  do
  let i ← bucket.nodes.findIdx? fun r => r.status now = .bad
  let bad ← bucket.nodes[i]?
  return (⟨sortById (bucket.nodes.set i new), now⟩, bad)

def push (new : RoutingTableNode) (now : Instant) : LeafBucket :=
  ⟨sortById (bucket.nodes ++ [new]), now⟩

end LeafBucket

inductive BucketTreeNodeData where
  | leaf (bucket : LeafBucket)
  | leftRight (left right : ℕ)
  deriving DecidableEq

structure BucketTreeNode where
  bits : ℕ
  start : Id20
  endInclusive : Id20
  data : BucketTreeNodeData
  deriving DecidableEq

structure BucketTree where
  data : List BucketTreeNode
  size : ℕ
  maxSize : ℕ
  deriving DecidableEq

structure BucketTreeIteratorItem where
  bits : ℕ
  start : Id20
  endInclusive : Id20
  leaf : LeafBucket
  deriving DecidableEq

inductive InsertResult where
  | wasExisting
  | replacedBad (node : RoutingTableNode)
  | added
  | ignored
  deriving DecidableEq

/-- The two halves of a range of ids.  The assertions are those of a debug build. -/
def computeSplitStartEnd (start endInclusive : Id20) (bits : ℕ) :
    Option ((Id20 × Id20) × Id20 × Id20) := do
  guard (bits ≤ 160)
  let changingBit := 160 - bits
  let newLeftEnd ← endInclusive.setBit changingBit false
  let newRightStart ← start.setBit changingBit true
  guard (start < newLeftEnd)
  guard (newLeftEnd < newRightStart)
  guard (newRightStart < endInclusive)
  return ((start, newLeftEnd), newRightStart, endInclusive)

namespace BucketTree

/-- An empty bucket for all ids. -/
def new (maxSize : ℕ) (now : Instant) : BucketTree where
  data := [{
    bits := 160
    start := ⟨List.replicate 20 0, List.length_replicate⟩
    endInclusive := ⟨List.replicate 20 0xff, List.length_replicate⟩
    data := .leaf ⟨[], now⟩ }]
  size := 0
  maxSize

variable (tree : BucketTree)

/-! ### Walks -/

/-- `BucketTreeIterator`: the leaves below the nodes in the queue, the next of which comes first
here.  It takes at most `fuel` nodes from the queue. -/
def iterLeavesFrom : (fuel : ℕ) → (queue : List ℕ) → Option (List BucketTreeIteratorItem)
  | _, [] => some []
  | 0, _ :: _ => none
  | fuel + 1, idx :: queue =>
    match tree.data[idx]? with
    | some node =>
      match node.data with
      | .leaf leaf =>
        (iterLeavesFrom fuel queue).map
          (⟨node.bits, node.start, node.endInclusive, leaf⟩ :: ·)
      | .leftRight left right => iterLeavesFrom fuel (left :: right :: queue)
    | none => iterLeavesFrom fuel queue

/-- A walk through a tree does not come to more nodes than the vector has. -/
def iterLeaves : Option (List BucketTreeIteratorItem) := tree.iterLeavesFrom tree.data.length [0]

def iter : Option (List RoutingTableNode) :=
  tree.iterLeaves.map fun leaves => leaves.flatMap fun l => l.leaf.nodes

/-- The loop of `get_leaf`; one that passes more nodes than there are does not end. -/
def getLeafFrom (id : Id20) : (fuel : ℕ) → (idx : ℕ) → Option ℕ
  | 0, _ => none
  | fuel + 1, idx => do
    let node ← tree.data[idx]?
    match node.data with
    | .leaf _ => return idx
    | .leftRight leftIdx rightIdx =>
      let left ← tree.data[leftIdx]?
      if left.start ≤ id ∧ id ≤ left.endInclusive then getLeafFrom id fuel leftIdx
      else getLeafFrom id fuel rightIdx

def getLeaf (id : Id20) : Option ℕ := tree.getLeafFrom id tree.data.length 0

/-! ### Updates -/

/-- What a node of the tree is. -/
def setData (idx : ℕ) (data : BucketTreeNodeData) : BucketTree :=
  { tree with data := tree.data.modify idx fun node => { node with data } }

/-- `get_mut`, and what is done to the node that is found. -/
def getMut (id : Id20) (refresh : Option Instant) (f : RoutingTableNode → RoutingTableNode) :
    Option (BucketTree × Bool) := do
  let idx ← tree.getLeaf id
  let node ← tree.data[idx]?
  match node.data with
  | .leaf leaf =>
    match leaf.nodes.findIdx? fun b => b.id = id with
    | some i =>
      let lastRefreshed := refresh.getD leaf.lastRefreshed
      return (tree.setData idx (.leaf ⟨leaf.nodes.modify i f, lastRefreshed⟩), true)
    | none => return (tree, false)
  | .leftRight _ _ => none

/-- A leaf becomes a node with two leaves at the end of the vector; the index of the leaf for `id`
comes with the tree. -/
def split (idx : ℕ) (leaf : BucketTreeNode) (nodes : List RoutingTableNode) (id : Id20)
    (clock : ℕ → Instant) : Option (BucketTree × ℕ) := do
  let ((ls, le), rs, re) ← computeSplitStartEnd leaf.start leaf.endInclusive leaf.bits
  let (ld, rd) := nodes.partition fun node => node.id < rs
  let left : BucketTreeNode := ⟨leaf.bits - 1, ls, le, .leaf ⟨ld, clock 0⟩⟩
  let right : BucketTreeNode := ⟨leaf.bits - 1, rs, re, .leaf ⟨rd, clock 1⟩⟩
  let leftIdx := tree.data.length
  let rightIdx := tree.data.length + 1
  let tree' : BucketTree := { tree with data := tree.data ++ [left, right] }
  return (tree'.setData idx (.leftRight leftIdx rightIdx), if id < rs then leftIdx else rightIdx)

/-- How a round of the loop of `insert_into_leaf` ends. -/
inductive Round where
  | done (tree : BucketTree) (result : InsertResult)
  /-- The leaf was split, and the node goes on into a half. -/
  | next (tree : BucketTree) (idx : ℕ)

/-- The body of the loop of `insert_into_leaf`. -/
def insertRound (selfId id : Id20) (addr : SocketAddr) (now : Instant) (clock : ℕ → Instant)
    (idx : ℕ) : Option Round := do
  let leaf ← tree.data[idx]?
  match leaf.data with
  | .leftRight _ _ => none
  | .leaf bucket =>
    let newNode : RoutingTableNode := { id, addr }
    if bucket.nodes.any fun r => r.id = id then return .done tree .wasExisting
    else
      match bucket.replaceBad newNode now with
      | some (bucket', bad) => return .done (tree.setData idx (.leaf bucket')) (.replacedBad bad)
      | none =>
        if tree.size = tree.maxSize then return .done tree .ignored
        else if bucket.nodes.length < 8 then
          let tree' := tree.setData idx (.leaf (bucket.push newNode now))
          return .done { tree' with size := tree.size + 1 } .added
        else if selfId < leaf.start ∨ leaf.endInclusive < selfId then return .done tree .ignored
        else
          let (tree', idx') ← tree.split idx leaf bucket.nodes id clock
          return .next tree' idx'

/-- `insert_into_leaf`.  The clock is read again for the two leaves of each split. -/
def insertIntoLeaf (selfId id : Id20) (addr : SocketAddr) (now : Instant) :
    (fuel : ℕ) → (clock : ℕ → Instant) → BucketTree → (idx : ℕ) →
      Option (BucketTree × InsertResult)
  | 0, _, _, _ => none
  | fuel + 1, clock, tree, idx => do
    match ← tree.insertRound selfId id addr now clock idx with
    | .done tree' result => return (tree', result)
    | .next tree' idx' => insertIntoLeaf selfId id addr now fuel (fun i => clock (i + 2)) tree' idx'

/-- A split takes one from the bits of the leaf, which are a `u8`. -/
def addNode (selfId id : Id20) (addr : SocketAddr) (clock : ℕ → Instant) :
    Option (BucketTree × InsertResult) := do
  let idx ← tree.getLeaf id
  insertIntoLeaf selfId id addr (clock 0) 256 (fun i => clock (i + 1)) tree idx

end BucketTree

/-! ## The table -/

structure RoutingTable where
  id : Id20
  size : ℕ
  buckets : BucketTree
  deriving DecidableEq

namespace RoutingTable

/-- `DEFAULT_MAX_SIZE` -/
def defaultMaxSize : ℕ := 512

def new (id : Id20) (maxSize : Option ℕ) (now : Instant) : RoutingTable where
  id
  buckets := .new (maxSize.getD defaultMaxSize) now
  size := 0

variable (table : RoutingTable)

def addNode (id : Id20) (addr : SocketAddr) (clock : ℕ → Instant) :
    Option (RoutingTable × InsertResult) := do
  let (buckets, res) ← table.buckets.addNode table.id id addr clock
  let replaced :=
    match res with
    | .wasExisting | .ignored => false
    | .replacedBad _ | .added => true
  return ({ table with buckets, size := if replaced then table.size + 1 else table.size }, res)

/-- A node is looked up and marked; whether it was there. -/
def mark (id : Id20) (refresh : Option Instant) (f : RoutingTableNode → RoutingTableNode) :
    Option (RoutingTable × Bool) :=
  (table.buckets.getMut id refresh f).map fun (buckets, found) => ({ table with buckets }, found)

def markOutgoingRequest (id : Id20) (now : Instant) : Option (RoutingTable × Bool) :=
  table.mark id none fun r => r.markOutgoingRequest now

def markResponse (id : Id20) (now : Instant) : Option (RoutingTable × Bool) :=
  table.mark id (some now) fun r => r.markResponse now

def markError (id : Id20) : Option (RoutingTable × Bool) := table.mark id none fun r => r.markError

def markLastQuery (id : Id20) (now : Instant) : Option (RoutingTable × Bool) :=
  table.mark id none fun r => r.markLastQuery now

/-- A call that changes the table. -/
inductive Call where
  | addNode (id : Id20) (addr : SocketAddr) (clock : ℕ → Instant)
  | markOutgoingRequest (id : Id20) (now : Instant)
  | markResponse (id : Id20) (now : Instant)
  | markError (id : Id20)
  | markLastQuery (id : Id20) (now : Instant)

def step (table : RoutingTable) : Call → Option RoutingTable
  | .addNode id addr clock => (table.addNode id addr clock).map Prod.fst
  | .markOutgoingRequest id now => (table.markOutgoingRequest id now).map Prod.fst
  | .markResponse id now => (table.markResponse id now).map Prod.fst
  | .markError id => (table.markError id).map Prod.fst
  | .markLastQuery id now => (table.markLastQuery id now).map Prod.fst

end RoutingTable

end Librtbit.Dht
