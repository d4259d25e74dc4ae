import Librtbit.Dht.Inflight
import Librtbit.Dht.PeerStore
import Librtbit.Dht.RoutingTable
import Librtbit.Machinery.Pool

/-!
# Dht/Lookup — queries that lead to further nodes

A lookup asks the nodes it takes as roots, and then those that their answers name, as far as it has
not asked them recently and they are among the most useful ones that it has heard of.  Every node
that is let in gets a `request_one`; many of them run at once and share the list of useful nodes.

`request_one` sends its query, records the outcome, and then sends the query again: it is the second
answer that it goes on with.  So a node whose `request_one` has come to its end was asked twice,
whatever the network does, and what is recorded for it is the outcome of the first query.  When that
is right all the same is `answersAgree`.  What is said about the list of useful nodes and about the
depth holds in any case.
-/

namespace Librtbit.Dht

open Machinery Net List Option

structure MaybeUsefulNode where
  id : Id20
  addr : SocketAddr
  lastRequest : Instant
  lastResponse : Option Instant := none
  errorsInARow : ℕ := 0
  returnedPeers : Bool := false

/-- `Duration::MAX` -/
def durationMax : ℕ := (2 ^ 64 - 1) * 10 ^ 9 + 999999999

/-- The order of useful nodes: those that returned peers first, then those that have responded, then
those that are closer, then those whose response is fresher. -/
def MaybeUsefulNode.sortsBefore (infoHash : Id20) (now : Instant) (a b : MaybeUsefulNode) : Bool :=
  let freshestResponse (n : MaybeUsefulNode) : ℕ := (n.lastResponse.map (now - ·)).getD durationMax
  if a.returnedPeers ≠ b.returnedPeers then a.returnedPeers
  else if a.lastResponse.isSome ≠ b.lastResponse.isSome then a.lastResponse.isSome
  else if a.id.distance infoHash ≠ b.id.distance infoHash then
    a.id.distance infoHash < b.id.distance infoHash
  else freshestResponse a ≤ freshestResponse b

inductive RecursiveRequestCallbacks where
  | getPeers (minDistanceToAnnounce : Id20)
  | findNodes

inductive RequestOnePhase where
  | start
  /-- It waits for the rate limiter, to ask for the first time or again. -/
  | limited (again : Bool)
  /-- It has sent its query. -/
  | asked (again : Bool)
  /-- It goes through the nodes that it was told of. -/
  | nodes (nodes : List (Node SocketAddr)) (now : Instant)
  | over (ok : Bool)

/-- How many queries were sent and how many answers have come by the time it is in a phase. -/
def RequestOnePhase.counts : RequestOnePhase → ℕ × ℕ
  | .start | .limited false => (0, 0)
  | .asked false => (1, 0)
  | .limited true => (1, 1)
  | .asked true => (2, 1)
  | .nodes _ _ | .over _ => (2, 2)

structure RequestOne where
  id : Option Id20
  addr : SocketAddr
  depth : ℕ
  phase : RequestOnePhase := .start
  /-- The number of queries that it has sent. -/
  queries : ℕ := 0
  /-- The outcomes of its queries. -/
  answers : List (Except RequestError ResponseOrError) := []
  /-- The query whose answer it goes on with. -/
  used : Option ℕ := none

/-- No answer is used before the second one. -/
def RequestOne.Counts (t : RequestOne) : Prop :=
  (t.queries, t.answers.length) = t.phase.counts ∧ (t.answers.length < 2 → t.used = none)

/-- What was recorded for a node: the outcome of a query of a `request_one`. -/
structure Record where
  node : Id20
  task : ℕ
  query : ℕ
  ok : Bool

/-- `RecursiveRequest` -/
structure Lookup where
  maxDepth : ℕ
  usefulNodesLimit : ℕ
  infoHash : Id20
  callbacks : RecursiveRequestCallbacks
  routingTableV4 : RoutingTable
  routingTableV6 : RoutingTable
  usefulNodes : List MaybeUsefulNode := []
  /-- What is in the channel of nodes to ask. -/
  nodes : List (Option Id20 × SocketAddr × ℕ) := []
  tasks : List RequestOne := []
  peers : List SocketAddr := []
  announced : List (Request × SocketAddr) := []
  records : List Record := []

inductive LookupStep where
  /-- A node is taken as a root. -/
  | root (id : Option Id20) (addr : SocketAddr)
  | recv
  | start (i : ℕ) (clock : ℕ → Instant)
  | ask (i : ℕ)
  | answer (i : ℕ) (outcome : Except RequestError ResponseOrError) (clock : ℕ → Instant)
      (announcePort : Option UInt16)
  | visit (i : ℕ)
  /-- Others change the routing tables. -/
  | tables (v4 v6 : RoutingTable)

namespace Lookup

variable (s : Lookup)

def record (r : Record) : Lookup := { s with records := r :: s.records }

def setTask (i : ℕ) (t : RequestOne) : Lookup := { s with tasks := s.tasks.set i t }

/-! ## Useful nodes -/

/-- The id of the first useful node with an address. -/
def usefulAt (addr : SocketAddr) : Option Id20 :=
  (s.usefulNodes.find? fun n => n.addr = addr).map MaybeUsefulNode.id

/-- The first node with an address is marked, and the outcome is recorded for it. -/
def markNode (addr : SocketAddr) (f : MaybeUsefulNode → MaybeUsefulNode) (r : Id20 → Record) :
    Lookup :=
  { s with
    usefulNodes :=
      match s.usefulNodes.findIdx? fun n => n.addr = addr with
      | some i => s.usefulNodes.modify i f
      | none => s.usefulNodes
    records := ((s.usefulAt addr).map r).toList ++ s.records }

def markNodeError (i query : ℕ) (addr : SocketAddr) : Lookup :=
  s.markNode addr (fun n => { n with errorsInARow := n.errorsInARow + 1 }) (⟨·, i, query, false⟩)

def markNodeResponded (i query : ℕ) (addr : SocketAddr) (response : ResponseOrError)
    (now : Instant) : Lookup :=
  let returnedPeers : Bool :=
    match response with
    | .response r => r.values.any fun c => !c.isEmpty
    | .error _ => false
  s.markNode addr
    (fun n => { n with lastResponse := some now, errorsInARow := 0, returnedPeers })
    (⟨·, i, query, true⟩)

/-- A response is marked, and an error is not. -/
def inspect (i query : ℕ) (addr : SocketAddr) (outcome : Except RequestError ResponseOrError)
    (now : Instant) : Lookup :=
  match outcome with
  | .ok r => s.markNodeResponded i query addr r now
  | .error _ => s

/-- Whether a node is let in, and the list of useful nodes from then on. -/
def shouldRequestNode (nodeId : Id20) (addr : SocketAddr) (depth : ℕ) (now : Instant) :
    Bool × List MaybeUsefulNode :=
  if depth ≥ s.maxDepth then (false, s.usefulNodes)
  else
    match s.usefulNodes.findIdx? fun n => n.id = nodeId with
    | some i =>
      if (s.usefulNodes[i]?).any fun existing => now - existing.lastRequest > 60 * 10 ^ 9 then
        (true, s.usefulNodes.modify i fun n => { n with lastRequest := now })
      else (false, s.usefulNodes)
    | none =>
      let new : MaybeUsefulNode := { id := nodeId, addr, lastRequest := now }
      let closest := (s.usefulNodes ++ [new]).mergeSort (MaybeUsefulNode.sortsBefore s.infoHash now)
      if closest.length > s.usefulNodesLimit then
        (closest.getLast?.all fun popped => popped.id ≠ nodeId, closest.dropLast)
      else (true, closest)

/-! ## The callbacks -/

/-- `get_table_for_addr` -/
def tableForAddr (addr : SocketAddr) : RoutingTable :=
  if addr.isIpv6 then s.routingTableV6 else s.routingTableV4

def setTable (addr : SocketAddr) (table : RoutingTable) : Lookup :=
  if addr.isIpv6 then { s with routingTableV6 := table } else { s with routingTableV4 := table }

def onRequestStart (targetNode : Id20) (addr : SocketAddr) (clock : ℕ → Instant) : Option Lookup :=
  match s.callbacks with
  | .getPeers _ => some s
  | .findNodes => do
    let (table, res) ← (s.tableForAddr addr).addNode targetNode addr (fun i => clock (i + 1))
    match res with
    | .ignored => return s.setTable addr table
    | _ =>
      let (table, _) ← table.markOutgoingRequest targetNode (clock 0)
      return s.setTable addr table

def onRequestEnd (i query : ℕ) (targetNode : Id20) (addr : SocketAddr)
    (resp : Except RequestError ResponseOrError) (now : Instant) (announcePort : Option UInt16) :
    Option Lookup :=
  match s.callbacks with
  | .getPeers minDistanceToAnnounce =>
    match announcePort, resp with
    | some port, .ok (.response resp) =>
      match resp.token with
      | some token =>
        if s.infoHash.distance targetNode > minDistanceToAnnounce then some s
        else some { s with announced := s.announced ++ [(.announce s.infoHash token port, addr)] }
      | none => some s
    | _, _ => some s
  | .findNodes =>
    let table := s.tableForAddr addr
    let marked :=
      if resp.isOk then table.markResponse targetNode now else table.markError targetNode
    marked.map fun (table, found) =>
      let s := s.setTable addr table
      if found then s.record ⟨targetNode, i, query, resp.isOk⟩ else s

/-! ## `request_one` -/

/-- The nodes of a response that are of the same kind as the one that was asked. -/
def nodesOf (addr : SocketAddr) (response : Response) : List (Node SocketAddr) :=
  let v4 := (response.nodes.map fun n => n.iter).getD []
  let v6 := (response.nodes6.map fun n => n.iter).getD []
  let nodes : List (Node SocketAddr) :=
    v4.map (fun n => ⟨n.id, .v4 n.addr⟩) ++ v6.map (fun n => ⟨n.id, .v6 n.addr⟩)
  nodes.filter fun node => addr.isIpv6 = node.addr.isIpv6

/-- Nobody receives the peers that a lookup for nodes is told of. -/
def peerRxDead : Bool :=
  match s.callbacks with
  | .getPeers _ => false
  | .findNodes => true

/-- The first outcome is recorded. -/
def firstAnswer (i : ℕ) (t : RequestOne) (outcome : Except RequestError ResponseOrError)
    (clock : ℕ → Instant) (announcePort : Option UInt16) : Option Lookup :=
  let query := t.answers.length
  let s := s.setTask i { t with phase := .limited true, answers := t.answers ++ [outcome] }
  let s := s.inspect i query t.addr outcome (clock 0)
  match t.id with
  | some id => s.onRequestEnd i query id t.addr outcome (clock 1) announcePort
  | none => some s

/-- The second outcome is what `request_one` goes on with. -/
def secondAnswer (i : ℕ) (t : RequestOne) (outcome : Except RequestError ResponseOrError)
    (now : Instant) : Lookup :=
  let query := t.answers.length
  let t := { t with answers := t.answers ++ [outcome] }
  match outcome with
  | .ok (.response response) =>
    let t := { t with used := some query }
    let peers := response.values.getD []
    if s.peerRxDead && !peers.isEmpty then s.setTask i { t with phase := .over false }
    else
      let s := { s with peers := s.peers ++ peers }
      s.setTask i { t with phase := .nodes (nodesOf t.addr response) now }
  | .ok (.error _) => s.setTask i { t with phase := .over false }
  | .error _ => (s.setTask i { t with phase := .over false }).markNodeError i query t.addr

def visit (i : ℕ) (t : RequestOne) (node : Node SocketAddr) (rest : List (Node SocketAddr))
    (now : Instant) : Lookup :=
  let should := s.shouldRequestNode node.id node.addr t.depth now
  let new := if should.1 then [(some node.id, node.addr, t.depth + 1)] else []
  let s := { s with usefulNodes := should.2, nodes := s.nodes ++ new }
  s.setTask i { t with phase := .nodes rest now }

def step : LookupStep → Option Lookup
  | .root id addr => some { s with nodes := s.nodes ++ [(id, addr, 0)] }
  | .recv =>
    match s.nodes with
    | [] => none
    | (id, addr, depth) :: nodes =>
      some { s with nodes, tasks := s.tasks ++ [{ id, addr, depth }] }
  | .start i clock =>
    (s.tasks[i]?).bind fun t =>
      match t.phase with
      | .start =>
        let s := s.setTask i { t with phase := .limited false }
        match t.id with
        | some id => s.onRequestStart id t.addr clock
        | none => some s
      | _ => none
  | .ask i =>
    (s.tasks[i]?).bind fun t =>
      match t.phase with
      | .limited again =>
        some (s.setTask i { t with phase := .asked again, queries := t.queries + 1 })
      | _ => none
  | .answer i outcome clock announcePort =>
    (s.tasks[i]?).bind fun t =>
      match t.phase with
      | .asked false => s.firstAnswer i t outcome clock announcePort
      | .asked true => some (s.secondAnswer i t outcome (clock 0))
      | _ => none
  | .visit i =>
    (s.tasks[i]?).bind fun t =>
      match t.phase with
      | .nodes [] _ => some (s.setTask i { t with phase := .over true })
      | .nodes (node :: rest) now => some (s.visit i t node rest now)
      | _ => none
  | .tables v4 v6 => some { s with routingTableV4 := v4, routingTableV6 := v6 }

/-! ## What a step does -/

variable {s} {s' : Lookup} {a : LookupStep}

/-- The ids of the useful nodes. -/
def usefulIds (s : Lookup) : List Id20 := s.usefulNodes.map MaybeUsefulNode.id

/-- The tables, the marks and what goes out may differ, and `new` is recorded. -/
structure Marked (s s' : Lookup) (new : List Record) : Prop where
  maxDepth_eq : s'.maxDepth = s.maxDepth
  limit_eq : s'.usefulNodesLimit = s.usefulNodesLimit
  usefulIds_eq : s'.usefulIds = s.usefulIds
  nodes_eq : s'.nodes = s.nodes
  tasks_eq : s'.tasks = s.tasks
  records_eq : s'.records = new ++ s.records

lemma Marked.refl (s : Lookup) : Marked s s [] := ⟨rfl, rfl, rfl, rfl, rfl, rfl⟩

lemma Marked.trans {s'' new more} (h : Marked s s' new) (h' : Marked s' s'' more) :
    Marked s s'' (more ++ new) :=
  ⟨h'.1.trans h.1, h'.2.trans h.2, h'.3.trans h.3, h'.4.trans h.4, h'.5.trans h.5,
    by rw [h'.6, h.6, append_assoc]⟩

variable (addr : SocketAddr)

lemma marked_setTable (table : RoutingTable) : Marked s (s.setTable addr table) [] := by
  rw [setTable]
  split <;> exact ⟨rfl, rfl, rfl, rfl, rfl, rfl⟩

variable {clock : ℕ → Instant} {targetNode : Id20}

lemma marked_onRequestStart {addr} (h : s.onRequestStart targetNode addr clock = some s') :
    Marked s s' [] := by
  rw [onRequestStart] at h
  split at h
  · cases h
    exact .refl s
  obtain ⟨⟨table, res⟩, -, h⟩ := bind_eq_some_iff.mp h
  dsimp only at h
  split at h
  · cases h
    exact marked_setTable addr table
  · obtain ⟨⟨table', found⟩, -, h⟩ := bind_eq_some_iff.mp h
    cases h
    exact marked_setTable addr table'

variable {announcePort : Option UInt16}

lemma marked_onRequestEnd {i query addr resp now}
    (h : s.onRequestEnd i query targetNode addr resp now announcePort = some s') :
    ∃ new, Marked s s' new ∧ ∀ r ∈ new, r = ⟨targetNode, i, query, resp.isOk⟩ := by
  rw [onRequestEnd] at h
  split at h
  · refine ⟨[], ?_, forall_mem_nil _⟩
    split at h
    · split at h
      · split at h <;> cases h <;> exact ⟨rfl, rfl, rfl, rfl, rfl, rfl⟩
      · cases h
        exact .refl s
    · cases h
      exact .refl s
  · obtain ⟨⟨table, found⟩, -, rfl⟩ := map_eq_some_iff.mp h
    have htable := marked_setTable (s := s) addr table
    cases found with
    | false => exact ⟨[], htable, forall_mem_nil _⟩
    | true =>
      obtain ⟨hmax, hlimit, hids, hnodes, htasks, hrecords⟩ := htable
      exact ⟨[_], ⟨hmax, hlimit, hids, hnodes, htasks, congrArg _ hrecords⟩,
        forall_mem_singleton.mpr rfl⟩

lemma marked_markNode {f} (hf : ∀ n, (f n).id = n.id) (r : Id20 → Record) :
    Marked s (s.markNode addr f r) ((s.usefulAt addr).map r).toList := by
  refine ⟨rfl, rfl, ?_, rfl, rfl, rfl⟩
  rw [markNode, usefulIds]
  dsimp only
  split
  · exact map_modify_of_forall _ _ hf
  · rfl

/-- What is recorded for the useful node with the address that was asked. -/
def marks (s : Lookup) (i : ℕ) (t : RequestOne) (ok : Bool) : List Record :=
  ((s.usefulAt t.addr).map (⟨·, i, t.answers.length, ok⟩)).toList

lemma marked_inspect (i : ℕ) (t : RequestOne) (outcome : Except RequestError ResponseOrError)
    (now : Instant) : Marked s (s.inspect i t.answers.length t.addr outcome now)
      (if outcome.isOk then s.marks i t true else []) := by
  cases outcome with
  | ok r =>
    unfold inspect markNodeResponded
    refine marked_markNode t.addr ?_ _
    exact fun _ => rfl
  | error e => exact ⟨rfl, rfl, rfl, rfl, rfl, rfl⟩

/-- **Whether a node is let in**: only above the depth bound; the list of useful nodes has every id
once and stays within its limit. -/
theorem shouldRequestNode_spec (hnodup : s.usefulIds.Nodup)
    (hle : s.usefulNodes.length ≤ s.usefulNodesLimit) (nodeId : Id20) (addr : SocketAddr)
    (depth : ℕ) (now : Instant) :
    (((s.shouldRequestNode nodeId addr depth now).2.map MaybeUsefulNode.id).Nodup ∧
      (s.shouldRequestNode nodeId addr depth now).2.length ≤ s.usefulNodesLimit) ∧
      ((s.shouldRequestNode nodeId addr depth now).1 = true → depth < s.maxDepth) := by
  rw [shouldRequestNode]
  split
  · exact ⟨⟨hnodup, hle⟩, nofun⟩
  next hdepth =>
  refine ⟨?_, fun _ => Nat.not_le.mp hdepth⟩
  split
  · split
    · refine ⟨?_, (length_modify ..).trans_le hle⟩
      rw [map_modify_of_forall]
      · exact hnodup
      · exact fun _ => rfl
    · exact ⟨hnodup, hle⟩
  · next hnone =>
    have hnew : nodeId ∉ s.usefulIds := by
      intro hmem
      obtain ⟨n, hn, rfl⟩ := mem_map.mp hmem
      have hne := findIdx?_eq_none_iff.mp hnone n hn
      simp at hne
    have hperm := mergeSort_perm
      (s.usefulNodes ++ [({ id := nodeId, addr, lastRequest := now } : MaybeUsefulNode)])
      (MaybeUsefulNode.sortsBefore s.infoHash now)
    have hids : (((s.usefulNodes ++
        [({ id := nodeId, addr, lastRequest := now } : MaybeUsefulNode)]).mergeSort
          (MaybeUsefulNode.sortsBefore s.infoHash now)).map MaybeUsefulNode.id).Nodup := by
      rw [(hperm.map MaybeUsefulNode.id).nodup_iff, map_append, map_singleton, ← concat_eq_append]
      exact hnodup.concat hnew
    have hlength := hperm.length_eq
    rw [length_append] at hlength
    dsimp only
    split
    · refine ⟨hids.sublist ((dropLast_sublist _).map _), ?_⟩
      rw [length_dropLast, hlength]
      exact hle
    · next hroom => exact ⟨hids, Nat.not_lt.mp hroom⟩

/-- Whether the answer to the second query is used. -/
def isResponse : Except RequestError ResponseOrError → Bool
  | .ok (.response _) => true
  | _ => false

/-- What a step makes of a `request_one`, and what it records. -/
inductive Advance (s : Lookup) (t : RequestOne) (i : ℕ) :
    LookupStep → RequestOne → List Record → Prop
  | start {clock : ℕ → Instant} (hphase : t.phase = .start) :
      Advance s t i (.start i clock) { t with phase := .limited false } []
  | ask {again} (hphase : t.phase = .limited again) :
      Advance s t i (.ask i) { t with phase := .asked again, queries := t.queries + 1 } []
  | first {outcome clock announcePort new} (hphase : t.phase = .asked false)
      (hnew : ∀ r ∈ new, ∃ id, t.id = some id ∧ r = ⟨id, i, t.answers.length, outcome.isOk⟩) :
      Advance s t i (.answer i outcome clock announcePort)
        { t with phase := .limited true, answers := t.answers ++ [outcome] }
        (new ++ if outcome.isOk then s.marks i t true else [])
  | second {outcome clock announcePort phase} (hphase : t.phase = .asked true)
      (hover : phase.counts = (2, 2)) :
      Advance s t i (.answer i outcome clock announcePort)
        { t with
          phase
          answers := t.answers ++ [outcome]
          used := if isResponse outcome then some t.answers.length else t.used }
        (if outcome.isOk then [] else s.marks i t false)
  | visit {phase} (hphase : t.phase.counts = (2, 2)) (hphase' : phase.counts = (2, 2)) :
      Advance s t i (.visit i) { t with phase } []

/-- What a step does to the nodes, the tasks and the records. -/
inductive Effect (s s' : Lookup) : LookupStep → Prop
  | root {id addr} (hids : s'.usefulIds = s.usefulIds)
      (hnodes : s'.nodes = s.nodes ++ [(id, addr, 0)]) (htasks : s'.tasks = s.tasks)
      (hrecords : s'.records = s.records) : Effect s s' (.root id addr)
  | tables {v4 v6} (hids : s'.usefulIds = s.usefulIds) (hnodes : s'.nodes = s.nodes)
      (htasks : s'.tasks = s.tasks) (hrecords : s'.records = s.records) :
      Effect s s' (.tables v4 v6)
  | recv {id addr depth} (hids : s'.usefulIds = s.usefulIds)
      (hnodes : s.nodes = (id, addr, depth) :: s'.nodes)
      (htasks : s'.tasks = s.tasks ++ [{ id := id, addr, depth }])
      (hrecords : s'.records = s.records) :
      Effect s s' .recv
  | task {act i t t' new} (htask : s.tasks[i]? = some t) (hadvance : Advance s t i act t' new)
      (htasks : s'.tasks = s.tasks.set i t') (hrecords : s'.records = new ++ s.records)
      (hids : s'.usefulIds = s.usefulIds ∨ ∃ nodeId addr depth now,
        s'.usefulNodes = (s.shouldRequestNode nodeId addr depth now).2)
      (hnodes : ∀ e ∈ s'.nodes, e ∈ s.nodes ∨ (e.2.2 = t.depth + 1 ∧ ∃ nodeId addr now,
        (s.shouldRequestNode nodeId addr t.depth now).1 = true)) : Effect s s' act

/-- The bounds of a lookup stay as they are. -/
structure Steady (s s' : Lookup) : Prop where
  maxDepth_eq : s'.maxDepth = s.maxDepth
  limit_eq : s'.usefulNodesLimit = s.usefulNodesLimit

variable {outcome : Except RequestError ResponseOrError} {i : ℕ}

lemma effect_of_marked {t t' new} (htask : s.tasks[i]? = some t) (hadvance : Advance s t i a t' new)
    (h : Marked (s.setTask i t') s' new) : Steady s s' ∧ Effect s s' a :=
  ⟨⟨h.maxDepth_eq, h.limit_eq⟩, .task htask hadvance h.tasks_eq h.records_eq (.inl h.usefulIds_eq)
    fun _ he => .inl (h.nodes_eq ▸ he)⟩

lemma effect_of_firstAnswer {t} (htask : s.tasks[i]? = some t) (hphase : t.phase = .asked false)
    (h : s.firstAnswer i t outcome clock announcePort = some s') :
    Steady s s' ∧ Effect s s' (.answer i outcome clock announcePort) := by
  rw [firstAnswer.eq_def] at h
  have hmarked := marked_inspect (s := s.setTask i
    { t with phase := .limited true, answers := t.answers ++ [outcome] }) i t outcome (clock 0)
  dsimp only at h
  split at h
  · next id hid =>
    obtain ⟨new, hend, hnew⟩ := marked_onRequestEnd h
    exact effect_of_marked htask (.first hphase fun r hr => ⟨id, hid, hnew r hr⟩)
      (hmarked.trans hend)
  · cases h
    exact effect_of_marked htask (.first hphase (forall_mem_nil _)) hmarked

lemma effect_of_secondAnswer {t} (htask : s.tasks[i]? = some t) (hphase : t.phase = .asked true) :
    Steady s (s.secondAnswer i t outcome (clock 0)) ∧
      Effect s (s.secondAnswer i t outcome (clock 0)) (.answer i outcome clock announcePort) := by
  rw [secondAnswer.eq_def]
  dsimp only
  split
  · split
    · exact effect_of_marked htask (.second hphase rfl) (.refl _)
    · exact effect_of_marked htask (.second hphase rfl) ⟨rfl, rfl, rfl, rfl, rfl, rfl⟩
  · exact effect_of_marked htask (.second hphase rfl) (.refl _)
  · exact effect_of_marked htask (.second hphase rfl)
      (marked_markNode t.addr (f := fun n => { n with errorsInARow := n.errorsInARow + 1 })
        (fun _ => rfl) _)

lemma effect_of_step (h : s.step a = some s') : Steady s s' ∧ Effect s s' a := by
  cases a with
  | root id addr =>
    cases h
    exact ⟨⟨rfl, rfl⟩, .root rfl rfl rfl rfl⟩
  | recv =>
    rw [step] at h
    split at h
    · cases h
    · next id addr depth nodes hnodes =>
      cases h
      exact ⟨⟨rfl, rfl⟩, .recv rfl hnodes rfl rfl⟩
  | start i clock =>
    obtain ⟨t, htask, h⟩ := bind_eq_some_iff.mp h
    split at h
    · next hphase =>
      split at h
      · exact effect_of_marked htask (.start hphase) (marked_onRequestStart h)
      · cases h
        exact effect_of_marked htask (.start hphase) (.refl _)
    · cases h
  | ask i =>
    obtain ⟨t, htask, h⟩ := bind_eq_some_iff.mp h
    split at h
    · next again hphase =>
      cases h
      exact effect_of_marked htask (.ask hphase) (.refl _)
    · cases h
  | answer i outcome clock announcePort =>
    obtain ⟨t, htask, h⟩ := bind_eq_some_iff.mp h
    split at h
    · next hphase => exact effect_of_firstAnswer htask hphase h
    · next hphase =>
      cases h
      exact effect_of_secondAnswer htask hphase
    · cases h
  | visit i =>
    obtain ⟨t, htask, h⟩ := bind_eq_some_iff.mp h
    split at h
    · next hphase =>
      cases h
      exact effect_of_marked htask (.visit (by rw [hphase]; rfl) rfl) (.refl _)
    · next node rest now hphase =>
      cases h
      refine ⟨⟨rfl, rfl⟩, .task htask (.visit (by rw [hphase]; rfl) rfl) rfl rfl
        (.inr ⟨node.id, node.addr, t.depth, now, rfl⟩) fun e he => ?_⟩
      rcases mem_append.mp he with he | he
      · exact .inl he
      by_cases hshould : (s.shouldRequestNode node.id node.addr t.depth now).1
      · rw [if_pos hshould] at he
        obtain rfl := mem_singleton.mp he
        exact .inr ⟨rfl, node.id, node.addr, now, hshould⟩
      · rw [if_neg hshould] at he
        cases he
    · cases h
  | tables v4 v6 =>
    cases h
    exact ⟨⟨rfl, rfl⟩, .tables rfl rfl rfl rfl⟩

/-! ## Invariants -/

/-- **The list of useful nodes has every id once and is within its limit, and no node is asked that
is deeper than the bound.** -/
structure Bounded (s : Lookup) : Prop where
  ids_nodup : s.usefulIds.Nodup
  length_le : s.usefulNodes.length ≤ s.usefulNodesLimit
  depth_le : ∀ t ∈ s.tasks, t.depth ≤ s.maxDepth

/-- **Who has come to its end, or uses an answer, has asked twice.** -/
def AsksTwice (s : Lookup) : Prop :=
  ∀ t ∈ s.tasks, t.used.isSome = true ∨ (∃ ok, t.phase = .over ok) → t.queries = 2

/-- What every step keeps. -/
structure Inv (s : Lookup) : Prop where
  bounded : Bounded s
  nodes_le : ∀ e ∈ s.nodes, e.2.2 ≤ s.maxDepth
  counts : ∀ t ∈ s.tasks, t.Counts

variable {t t' : RequestOne} {rs : List Record}

lemma Inv.asksTwice (hi : Inv s) : AsksTwice s := by
  intro t ht hend
  obtain ⟨id, addr, depth, phase, queries, answers, used⟩ := t
  obtain ⟨hcounts, hused⟩ := hi.counts _ ht
  rcases hend with hsome | ⟨ok, rfl⟩
  · have hlen : ¬ answers.length < 2 := fun hlt => by
      rw [hused hlt] at hsome
      cases hsome
    match phase with
    | .start | .limited false | .asked false | .limited true | .asked true =>
      have := congrArg Prod.snd hcounts
      simp only [RequestOnePhase.counts] at this
      omega
    | .nodes _ _ | .over _ => exact congrArg Prod.fst hcounts
  · exact congrArg Prod.fst hcounts

lemma Advance.depth_eq (h : Advance s t i a t' rs) : t'.depth = t.depth ∧ t'.id = t.id := by
  cases h <;> exact ⟨rfl, rfl⟩

lemma Advance.counts (h : Advance s t i a t' rs) (ht : t.Counts) : t'.Counts := by
  obtain ⟨id, addr, depth, phase, queries, answers, used⟩ := t
  obtain ⟨hcounts, hused⟩ := ht
  dsimp only at hcounts hused
  cases h with
  | start hphase =>
    cases hphase
    exact ⟨hcounts, hused⟩
  | @ask again hphase =>
    cases hphase
    refine ⟨?_, hused⟩
    cases again with
    | false | true =>
      have hfst := congrArg Prod.fst hcounts
      have hsnd := congrArg Prod.snd hcounts
      exact Prod.ext (congrArg (· + 1) hfst) hsnd
  | first hphase =>
    cases hphase
    have hfst := congrArg Prod.fst hcounts
    have hsnd : answers.length = 0 := congrArg Prod.snd hcounts
    exact ⟨Prod.ext hfst (by simp [hsnd, RequestOnePhase.counts]), fun _ => hused (by omega)⟩
  | second hphase hover =>
    cases hphase
    have hfst : queries = 2 := congrArg Prod.fst hcounts
    have hsnd : answers.length = 1 := congrArg Prod.snd hcounts
    refine ⟨?_, fun hlt => ?_⟩
    · rw [hover, hfst, length_append, hsnd]
      rfl
    · rw [length_append, hsnd] at hlt
      cases (Nat.lt_irrefl _ hlt)
  | visit hphase hphase' => exact ⟨hphase'.symm ▸ hphase ▸ hcounts, hused⟩

lemma length_usefulIds (s : Lookup) : s.usefulIds.length = s.usefulNodes.length :=
  length_map _

lemma Bounded.of_ids_eq (hb : Bounded s) (hst : Steady s s') (hids : s'.usefulIds = s.usefulIds)
    (hdepth : ∀ t ∈ s'.tasks, t.depth ≤ s.maxDepth) : Bounded s' := by
  refine ⟨hids ▸ hb.ids_nodup, ?_, hst.maxDepth_eq ▸ hdepth⟩
  rw [← length_usefulIds, hids, hst.limit_eq, length_usefulIds]
  exact hb.length_le

/-- **Every step keeps the bounds.** -/
theorem Inv.step (hi : Inv s) (h : s.step a = some s') : Inv s' := by
  obtain ⟨hst, heff⟩ := effect_of_step h
  obtain ⟨hb, hnodes_le, hcounts⟩ := hi
  cases heff with
  | root hids hnodes htasks _ =>
    refine ⟨hb.of_ids_eq hst hids (htasks ▸ hb.depth_le), fun e he => ?_, htasks ▸ hcounts⟩
    rw [hst.maxDepth_eq]
    rcases mem_append.mp (hnodes ▸ he) with he | he
    · exact hnodes_le e he
    · obtain rfl := mem_singleton.mp he
      exact Nat.zero_le _
  | tables hids hnodes htasks _ =>
    refine ⟨hb.of_ids_eq hst hids (htasks ▸ hb.depth_le), fun e he => ?_, htasks ▸ hcounts⟩
    rw [hst.maxDepth_eq]
    exact hnodes_le e (hnodes ▸ he)
  | @recv id addr depth hids hnodes htasks _ =>
    have hmem : ∀ t ∈ s'.tasks, t ∈ s.tasks ∨ t = { id := id, addr, depth } := by
      intro t ht
      exact (mem_append.mp (htasks ▸ ht)).imp_right mem_singleton.mp
    refine ⟨hb.of_ids_eq hst hids fun t ht => ?_, fun e he => ?_, fun t ht => ?_⟩
    · rcases hmem t ht with ht | rfl
      · exact hb.depth_le t ht
      · exact hnodes_le _ (hnodes ▸ mem_cons_self)
    · rw [hst.maxDepth_eq]
      exact hnodes_le e (hnodes ▸ mem_cons_of_mem _ he)
    · rcases hmem t ht with ht | rfl
      · exact hcounts t ht
      · exact ⟨rfl, fun _ => rfl⟩
  | @task _ i t t' new htask hadvance htasks _ hids hnodes =>
    have hmem := mem_of_getElem? htask
    have hdepth_le : ∀ x ∈ s'.tasks, x.depth ≤ s.maxDepth := by
      intro x hx
      rcases mem_or_eq_of_mem_set (htasks ▸ hx) with hx | rfl
      · exact hb.depth_le x hx
      · exact hadvance.depth_eq.1.trans_le (hb.depth_le t hmem)
    refine ⟨?_, fun e he => ?_, fun x hx => ?_⟩
    · rcases hids with hids | ⟨nodeId, addr, depth, now, husefulNodes⟩
      · exact hb.of_ids_eq hst hids hdepth_le
      obtain ⟨⟨hnodup, hlength⟩, -⟩ :=
        shouldRequestNode_spec hb.ids_nodup hb.length_le nodeId addr depth now
      refine ⟨?_, ?_, hst.maxDepth_eq ▸ hdepth_le⟩
      · rw [usefulIds, husefulNodes]
        exact hnodup
      · rw [husefulNodes, hst.limit_eq]
        exact hlength
    · rw [hst.maxDepth_eq]
      rcases hnodes e he with he | ⟨hdepth, nodeId, addr, now, hshould⟩
      · exact hnodes_le e he
      · rw [hdepth]
        exact (shouldRequestNode_spec hb.ids_nodup hb.length_le nodeId addr t.depth now).2 hshould
    · rcases mem_or_eq_of_mem_set (htasks ▸ hx) with hx | rfl
      · exact hcounts x hx
      · exact hadvance.counts (hcounts t hmem)

/-! ## What is recorded -/

/-- An outcome is recorded for the node that was asked, it is that of a query of a `request_one`,
and also that of the query whose answer this goes on to use. -/
def IsOutcome (tasks : List RequestOne) (r : Record) : Prop :=
  ∃ t, tasks[r.task]? = some t ∧ (∀ id, t.id = some id → r.node = id) ∧
    (t.answers[r.query]?).map Except.isOk = some r.ok ∧
    ∀ q, t.used = some q → (t.answers[q]?).map Except.isOk = some r.ok

/-- **What is recorded is the outcome of the query whose answer is used.** -/
def Recorded (s : Lookup) : Prop := ∀ r ∈ s.records, IsOutcome s.tasks r

/-- **When that is right**: a mark is put on a useful node only if it is the node that was asked and
not another one with its address, and a second query is answered by a response only if the first one
was answered too, or its failure was recorded nowhere. -/
def answersAgree (s : Lookup) : LookupStep → Bool
  | .answer i outcome _ _ =>
    (s.tasks[i]?).all fun t =>
      match t.phase, outcome with
      | .asked false, .ok _ | .asked true, .error _ =>
        (s.usefulAt t.addr).all fun id => t.id.all (· = id)
      | .asked true, .ok (.response _) =>
        t.answers.all Except.isOk || s.records.all fun r => r.task ≠ i
      | _, _ => true
  | _ => true

variable {tasks : List RequestOne} {r : Record}

/-- A record stays right while no further answer is used. -/
lemma IsOutcome.set {l} (htask : tasks[i]? = some t) (hid : t'.id = t.id)
    (hanswers : t'.answers = t.answers ++ l) (hused : t'.used = t.used) (h : IsOutcome tasks r) :
    IsOutcome (tasks.set i t') r := by
  obtain ⟨x, hx, hnode, hanswer, hx_used⟩ := h
  by_cases hij : i = r.task
  · subst hij
    cases htask.symm.trans hx
    have hkeep : ∀ q : ℕ, (t.answers[q]?).map Except.isOk = some r.ok →
        (t'.answers[q]?).map Except.isOk = some r.ok := by
      intro q hq
      obtain ⟨outcome, houtcome, hok⟩ := map_eq_some_iff.mp hq
      rw [hanswers, getElem?_append_left (List.getElem?_eq_some_iff.mp houtcome).1, hq]
    exact ⟨t', getElem?_set_of_some htask t', hid ▸ hnode, hkeep _ hanswer,
      fun q hq => hkeep q (hx_used q (hused ▸ hq))⟩
  · exact ⟨x, (getElem?_set_ne hij).trans hx, hnode, hanswer, hx_used⟩

/-- A new record is right if it is for the node that was asked. -/
lemma isOutcome_set_iff {node} (htask : tasks[i]? = some t) (hid : t'.id = t.id)
    (hanswers : t'.answers = t.answers ++ [outcome]) (hused : t'.used = none) :
    IsOutcome (tasks.set i t') ⟨node, i, t.answers.length, outcome.isOk⟩ ↔
      ∀ id, t.id = some id → node = id := by
  have hset := getElem?_set_of_some htask t'
  constructor
  · rintro ⟨x, hx, hnode, -⟩
    cases hset.symm.trans hx
    exact hid ▸ hnode
  · intro hnode
    refine ⟨t', hset, hid ▸ hnode, ?_, fun q hq => ?_⟩
    · rw [hanswers, getElem?_concat_length, map_some]
    · rw [hused] at hq
      cases hq

lemma forall_marks_iff {ok} (htask : tasks[i]? = some t) (hid : t'.id = t.id)
    (hanswers : t'.answers = t.answers ++ [outcome]) (hused : t'.used = none)
    (hok : outcome.isOk = ok) : (∀ r ∈ s.marks i t ok, IsOutcome (tasks.set i t') r) ↔
      (s.usefulAt t.addr).all fun id => t.id.all (· = id) := by
  subst hok
  rw [marks]
  cases s.usefulAt t.addr with
  | none => exact iff_of_true (forall_mem_nil _) rfl
  | some node =>
    rw [map_some, toList_some, forall_mem_singleton, isOutcome_set_iff htask hid hanswers hused]
    cases t.id with
    | none => simp
    | some id => simp [eq_comm]

/-- Once an answer is used, an error must not be on record. -/
lemma recorded_used_iff (htask : s.tasks[i]? = some t) (hid : t'.id = t.id)
    (hlen : t.answers.length = 1) (hanswers : t'.answers = t.answers ++ [outcome])
    (hok : outcome.isOk) (hused : t'.used = some 1) (hs : Recorded s) :
    (∀ r ∈ s.records, IsOutcome (s.tasks.set i t') r) ↔
      t.answers.all Except.isOk || s.records.all fun r => r.task ≠ i := by
  obtain ⟨x, hx⟩ := length_eq_one_iff.mp hlen
  have hset := getElem?_set_of_some htask t'
  have hsecond : (t'.answers[1]?).map Except.isOk = some true := by
    rw [hanswers, hx]
    exact congrArg some hok
  -- the only answer so far is the one that was recorded
  have hfirst : ∀ r ∈ s.records, r.task = i → r.query = 0 ∧ x.isOk = r.ok ∧
      ∀ id, t.id = some id → r.node = id := by
    rintro r hr rfl
    obtain ⟨t₀, ht₀, hnode, hanswer, -⟩ := hs r hr
    cases htask.symm.trans ht₀
    rw [hx] at hanswer
    cases hq : r.query with
    | zero =>
      rw [hq] at hanswer
      exact ⟨rfl, Option.some.inj hanswer, hnode⟩
    | succ q =>
      rw [hq] at hanswer
      cases hanswer
  rw [Bool.or_eq_true, hx, all_cons, all_nil, Bool.and_true, List.all_eq_true]
  constructor
  · intro h
    by_cases hany : ∃ r ∈ s.records, r.task = i
    · obtain ⟨r, hr, rfl⟩ := hany
      obtain ⟨t₀, ht₀, -, -, hall⟩ := h r hr
      cases hset.symm.trans ht₀
      have := (hall 1 hused).symm.trans hsecond
      exact .inl ((hfirst r hr rfl).2.1.trans (Option.some.inj this))
    · exact .inr fun r hr => decide_eq_true fun hri => hany ⟨r, hr, hri⟩
  · intro h r hr
    by_cases hri : r.task = i
    · obtain ⟨hq, hrok, hnode⟩ := hfirst r hr hri
      have htrue : r.ok = true := by
        rcases h with h | h
        · exact hrok.symm.trans h
        · exact absurd hri (of_decide_eq_true (h r hr))
      refine ⟨t', hri ▸ hset, hid ▸ hnode, ?_, fun q hq' => ?_⟩
      · rw [hanswers, hx, hq]
        exact congrArg some hrok
      · cases hused.symm.trans hq'
        rw [hsecond, htrue]
    · obtain ⟨t₀, ht₀, hrest⟩ := hs r hr
      exact ⟨t₀, (getElem?_set_ne (Ne.symm hri)).trans ht₀, hrest⟩

/-- **A step keeps the records right exactly if the answers agree.** -/
theorem recorded_step_iff (hi : Inv s) (hs : Recorded s) (h : s.step a = some s') :
    Recorded s' ↔ s.answersAgree a := by
  obtain ⟨-, heff⟩ := effect_of_step h
  cases heff with
  | root _ _ htasks hrecords | tables _ _ htasks hrecords =>
    refine iff_of_true ?_ rfl
    rw [Recorded, htasks, hrecords]
    exact hs
  | recv _ _ htasks hrecords =>
    refine iff_of_true (fun r hr => ?_) rfl
    obtain ⟨t, ht, hrest⟩ := hs r (hrecords ▸ hr)
    exact ⟨t, htasks ▸ getElem?_concat_of_some ht _, hrest⟩
  | @task _ i t t' new htask hadvance htasks hrecords _ _ =>
    rw [Recorded, hrecords, htasks, forall_mem_append]
    have hcounts := hi.counts t (mem_of_getElem? htask)
    obtain ⟨hcounts, hnone⟩ := hcounts
    cases hadvance with
    | start hphase | ask hphase | visit hphase _ =>
      refine iff_of_true ⟨forall_mem_nil _, fun r hr => ?_⟩ rfl
      exact (hs r hr).set htask rfl (append_nil _).symm rfl
    | @first outcome _ _ new hphase hnew =>
      rw [hphase] at hcounts
      have hlen : t.answers.length = 0 := congrArg Prod.snd hcounts
      have hnone := hnone (by rw [hlen]; exact Nat.zero_lt_two)
      have hkeep : ∀ r ∈ s.records, IsOutcome (s.tasks.set i
          { t with phase := .limited true, answers := t.answers ++ [outcome] }) r :=
        fun r hr => (hs r hr).set htask rfl rfl rfl
      rw [and_iff_left hkeep, forall_mem_append, and_iff_right fun r hr => ?_]
      · rw [answersAgree, htask, Option.all_some, hphase]
        cases outcome with
        | ok => exact forall_marks_iff htask rfl rfl hnone rfl
        | error => exact iff_of_true (forall_mem_nil _) rfl
      · obtain ⟨id, hid, rfl⟩ := hnew r hr
        refine (isOutcome_set_iff htask (by rfl) (by rfl) (by exact hnone)).mpr fun id' hid' => ?_
        exact Option.some.inj (hid.symm.trans hid')
    | @second outcome _ _ phase hphase _ =>
      rw [hphase] at hcounts
      have hlen : t.answers.length = 1 := congrArg Prod.snd hcounts
      have hnone := hnone (by rw [hlen]; exact Nat.one_lt_two)
      rw [answersAgree, htask, Option.all_some, hphase]
      match outcome with
      | .ok (.response _) =>
        refine (and_iff_right (forall_mem_nil _)).trans ?_
        exact recorded_used_iff htask rfl hlen rfl rfl (congrArg some hlen) hs
      | .ok (.error _) =>
        refine iff_of_true ⟨forall_mem_nil _, fun r hr => ?_⟩ rfl
        exact (hs r hr).set htask rfl rfl rfl
      | .error _ =>
        refine (and_iff_left ?_).trans ?_
        · exact fun r hr => (hs r hr).set htask rfl rfl rfl
        · exact forall_marks_iff htask rfl rfl hnone rfl

/-! ## Runs -/

/-- **The lookup is sound**: the bounds hold, every node that is let in is asked at most once, and
what is recorded for it is the outcome of the query whose answer is used. -/
structure Sound (s : Lookup) : Prop where
  bounded : Bounded s
  single : ∀ t ∈ s.tasks, t.queries ≤ 1
  recorded : Recorded s

/-- A lookup begins. -/
def new (maxDepth usefulNodesLimit : ℕ) (infoHash : Id20) (callbacks : RecursiveRequestCallbacks)
    (routingTableV4 routingTableV6 : RoutingTable) : Lookup where
  maxDepth
  usefulNodesLimit
  infoHash
  callbacks
  routingTableV4
  routingTableV6

/-- A node, and what it answers. -/
def someNode : SocketAddr := .v4 ⟨.new 127 0 0 1, 6881⟩

@[inherit_doc someNode]
def someAnswer : Except RequestError ResponseOrError := .ok (.response { id := .ofNat 20 7 })

/-- A lookup with a root whose first query has the given outcome, before it is asked again. -/
def askRoot (outcome : Except RequestError ResponseOrError) : List LookupStep :=
  [.root (some (.ofNat 20 7)) someNode, .recv, .start 0 fun _ => 0, .ask 0,
    .answer 0 outcome (fun _ => 0) none]

/-- A lookup for nodes that begins with an empty routing table. -/
def someLookup : Lookup :=
  new 4 256 (.ofNat 20 1) .findNodes (.new (.ofNat 20 2) none 0) (.new (.ofNat 20 2) none 0)

end Lookup

end Librtbit.Dht
