import Mochi.ForMathlib.Finmap
import Mochi.Native.Basic

/-!
# The in-memory peer store

A model of `storage/memory/storage.go`. A `peerStore` is a slice of `2 * ShardCount`
shards; a shard maps an info-hash to its swarm and caches two `uint64` counters; a swarm
is two Go maps from a peer's compact key to the clock reading of its last announce.

Each mutating operation runs whole under its shard's exclusive lock, so it is one function
from store to store. A Go runtime panic (the closed-store check, `x % 0` in `shardIndex`, a
slice index out of range) is the `Except.error` of the outer `Except String`; the errors the
functions return are `StorageError`s. The clock `getClock()` reads is an argument.

`PutSeeder` and `PutLeecher` differ only in the map and the counter they touch, and so do
`DeleteSeeder` and `DeleteLeecher`: each pair is one definition over a `Role`.
`GraduateLeecher` keeps its own body.

Go map iteration order is unspecified. `AnnouncePeers`, whose result depends on it, takes
the order in which each map is ranged over as an argument; the garbage collector, whose
result does not, is in `Mochi.Native.GC`.

The `bittorrent` package is not part of the modelled sources: the peer API the store uses
is the parameter `PeerCodec`. The store's `DataStorage` and `WaitGroup` are not modelled.
-/

namespace Mochi.Memory

/-! ## Configuration -/

/-- `defaultShardCount`. -/
def defaultShardCount : Int := 1024

/-- `math.MaxInt` on a 64-bit platform. -/
def maxInt : Int := 2 ^ 63 - 1

/-- `Config`: the number of shards per address family. -/
structure Config where
  shardCount : Int
  deriving DecidableEq, Repr

/-- `Config.Validate`: a shard count outside `(0, MaxInt/2]` falls back to the default
(the warning it logs is not modelled). -/
def Config.validate (cfg : Config) : Config :=
  if cfg.shardCount ≤ 0 ∨ cfg.shardCount > maxInt / 2 then
    { cfg with shardCount := defaultShardCount }
  else cfg

/-! ## Swarms and shards -/

/-- A `map[string]int64` from a peer's compact key to its last clock reading. -/
abbrev PeerMap (K : Type) := Finmap fun _ : K => Int

/-- `swarm`: the seeders and the leechers of one torrent. -/
@[ext] structure Swarm (K : Type) where
  seeders : PeerMap K
  leechers : PeerMap K

/-- `swarm{seeders: make(...), leechers: make(...)}`. -/
def Swarm.empty {K : Type} : Swarm K := ⟨∅, ∅⟩

@[simp] theorem Swarm.empty_seeders {K : Type} : (Swarm.empty : Swarm K).seeders = ∅ := rfl

@[simp] theorem Swarm.empty_leechers {K : Type} : (Swarm.empty : Swarm K).leechers = ∅ := rfl

/-- Which of a swarm's maps, and which of a shard's counters, an operation works on. -/
inductive Role where
  | seeder
  | leecher
  deriving DecidableEq, Repr

/-- The other role. -/
def Role.other : Role → Role
  | .seeder => .leecher
  | .leecher => .seeder

/-- The map of a role. -/
def Swarm.peers {K : Type} (sw : Swarm K) : Role → PeerMap K
  | .seeder => sw.seeders
  | .leecher => sw.leechers

/-- Replace the map of a role. -/
def Swarm.setPeers {K : Type} (sw : Swarm K) : Role → PeerMap K → Swarm K
  | .seeder, m => { sw with seeders := m }
  | .leecher, m => { sw with leechers := m }

/-- `len(seeders)|len(leechers) == 0`. -/
def Swarm.isEmpty {K : Type} (sw : Swarm K) : Bool :=
  (sw.seeders.keys.card ||| sw.leechers.keys.card) == 0

@[simp] theorem Role.other_ne (r : Role) : r.other ≠ r := by cases r <;> simp [Role.other]

@[simp] theorem Role.ne_other (r : Role) : r ≠ r.other := (Role.other_ne r).symm

theorem Role.eq_or_eq_other (r r' : Role) : r' = r ∨ r' = r.other := by
  cases r <;> cases r' <;> simp [Role.other]

section SwarmLemmas

variable {K : Type} (sw : Swarm K) (r : Role) (m : PeerMap K)

@[simp] theorem Swarm.peers_seeder : sw.peers .seeder = sw.seeders := rfl

@[simp] theorem Swarm.peers_leecher : sw.peers .leecher = sw.leechers := rfl

@[simp] theorem Swarm.peers_setPeers_self : (sw.setPeers r m).peers r = m := by
  cases r <;> rfl

@[simp] theorem Swarm.peers_setPeers_other : (sw.setPeers r m).peers r.other = sw.peers r.other := by
  cases r <;> rfl

@[simp] theorem Swarm.peers_empty : (Swarm.empty : Swarm K).peers r = ∅ := by
  cases r <;> rfl

@[simp] theorem Swarm.setPeers_setPeers (m' : PeerMap K) :
    (sw.setPeers r m).setPeers r m' = sw.setPeers r m' := by
  cases r <;> rfl

@[simp] theorem Swarm.setPeers_peers : sw.setPeers r (sw.peers r) = sw := by
  cases r <;> rfl

theorem lor_eq_zero_iff (a b : ℕ) : a ||| b = 0 ↔ a = 0 ∧ b = 0 := by
  constructor
  · intro h
    have hb : ∀ i, a.testBit i = false ∧ b.testBit i = false := fun i => by
      simpa [Nat.testBit_or] using congrArg (Nat.testBit · i) h
    exact ⟨Nat.eq_of_testBit_eq fun i => by simp [(hb i).1],
      Nat.eq_of_testBit_eq fun i => by simp [(hb i).2]⟩
  · rintro ⟨rfl, rfl⟩; rfl

/-- A swarm is empty exactly when neither map has a key, whatever the role. -/
theorem Swarm.isEmpty_iff : sw.isEmpty ↔ ∀ r, (sw.peers r).keys.card = 0 := by
  simp only [Swarm.isEmpty, beq_iff_eq, lor_eq_zero_iff]
  exact ⟨fun h r => by cases r <;> simp [h], fun h => ⟨h .seeder, h .leecher⟩⟩

end SwarmLemmas

/-- `peerShard`: the swarms of one bucket and its two cached counters. -/
@[ext] structure PeerShard (K : Type) where
  swarms : Finmap fun _ : InfoHash => Swarm K
  numSeeders : UInt64
  numLeechers : UInt64

/-- `&peerShard{swarms: make(map[bittorrent.InfoHash]swarm)}`. -/
def PeerShard.empty {K : Type} : PeerShard K := ⟨∅, 0, 0⟩

/-- The counter of a role. -/
def PeerShard.num {K : Type} (sh : PeerShard K) : Role → UInt64
  | .seeder => sh.numSeeders
  | .leecher => sh.numLeechers

/-- Replace the counter of a role. -/
def PeerShard.setNum {K : Type} (sh : PeerShard K) : Role → UInt64 → PeerShard K
  | .seeder, n => { sh with numSeeders := n }
  | .leecher, n => { sh with numLeechers := n }

section ShardLemmas

variable {K : Type} (sh : PeerShard K) (r : Role) (n : UInt64)

@[simp] theorem PeerShard.num_seeder : sh.num .seeder = sh.numSeeders := rfl

@[simp] theorem PeerShard.num_leecher : sh.num .leecher = sh.numLeechers := rfl

@[simp] theorem PeerShard.num_setNum_self : (sh.setNum r n).num r = n := by cases r <;> rfl

@[simp] theorem PeerShard.num_setNum_other : (sh.setNum r n).num r.other = sh.num r.other := by
  cases r <;> rfl

@[simp] theorem PeerShard.swarms_setNum : (sh.setNum r n).swarms = sh.swarms := by
  cases r <;> rfl

@[simp] theorem PeerShard.num_withSwarms (m : Finmap fun _ : InfoHash => Swarm K) :
    ({ sh with swarms := m } : PeerShard K).num r = sh.num r := by
  cases r <;> rfl

end ShardLemmas

/-- `storage.ErrResourceDoesNotExist`. -/
inductive StorageError where
  | resourceDoesNotExist
  deriving DecidableEq, Repr

/-! ## Operations under one shard's lock -/

section Shard

variable {K : Type} [DecidableEq K]

/-- The body of `PutSeeder`/`PutLeecher` under the lock: create the swarm if it is absent
(`getD` reads it as the fresh empty swarm), count `pk` if the role's map lacks it, and
write the clock reading. -/
def PeerShard.putPeer (r : Role) (ih : InfoHash) (pk : K) (clock : Int) (sh : PeerShard K) :
    PeerShard K :=
  let sw := (sh.swarms.lookup ih).getD .empty
  let sh := if pk ∈ sw.peers r then sh else sh.setNum r (sh.num r + 1)
  { sh with swarms := sh.swarms.insert ih (sw.setPeers r ((sw.peers r).insert pk clock)) }

/-- The body of `DeleteSeeder`/`DeleteLeecher` under the lock: fail when the swarm or the
peer is absent, otherwise decrement the counter, delete the peer, and delete the swarm
when both maps are then empty. -/
def PeerShard.deletePeer (r : Role) (ih : InfoHash) (pk : K) (sh : PeerShard K) :
    Option StorageError × PeerShard K :=
  match sh.swarms.lookup ih with
  | none => (some .resourceDoesNotExist, sh)
  | some sw =>
    if pk ∉ sw.peers r then (some .resourceDoesNotExist, sh) else
    let sw := sw.setPeers r ((sw.peers r).erase pk)
    let sh := sh.setNum r (sh.num r - 1)
    (none, { sh with
      swarms := if sw.isEmpty then sh.swarms.erase ih else sh.swarms.insert ih sw })

/-- The body of `GraduateLeecher` under the lock: create the swarm if it is absent; if
`pk` is a leecher, decrement `numLeechers` and delete it; if it is not a seeder, increment
`numSeeders`; write the clock reading into the seeders. -/
def PeerShard.graduateLeecher (ih : InfoHash) (pk : K) (clock : Int) (sh : PeerShard K) :
    PeerShard K :=
  let sw := (sh.swarms.lookup ih).getD .empty
  let wasLeecher := pk ∈ sw.leechers
  let sw := if wasLeecher then { sw with leechers := sw.leechers.erase pk } else sw
  { swarms := sh.swarms.insert ih { sw with seeders := sw.seeders.insert pk clock }
    numSeeders := if pk ∈ sw.seeders then sh.numSeeders else sh.numSeeders + 1
    numLeechers := if wasLeecher then sh.numLeechers - 1 else sh.numLeechers }

end Shard

/-! ## The store -/

/-- The `bittorrent.Peer` API the store uses, a parameter of the model: the compact key
`RawString`, the address `Addr`, and `NewPeer`, which decodes a key (its error ignored, as
the store ignores it). -/
structure PeerCodec (Peer K : Type) where
  rawString : Peer → K
  addr : Peer → Addr
  newPeer : K → Peer

/-- `peerStore`: the validated configuration, the shards, and whether `closed` is closed. -/
structure PeerStore (K : Type) where
  cfg : Config
  shards : List (PeerShard K)
  closed : Bool

/-- `NewPeerStorage`: `2 * ShardCount` empty shards of the validated configuration. -/
def newPeerStorage {K : Type} (provided : Config) : PeerStore K :=
  let cfg := provided.validate
  { cfg, shards := List.replicate (cfg.shardCount * 2).toNat .empty, closed := false }

/-- The panic of an operation on a stopped store. -/
def stoppedMsg : String := "attempted to interact with stopped memory store"

/-- The runtime panic of `x % 0`. -/
def divideByZeroMsg : String := "runtime error: integer divide by zero"

/-- The runtime panic of a slice index out of range. -/
def indexOutOfRangeMsg : String := "runtime error: index out of range"

section Store

variable {Peer K : Type} [DecidableEq K] (codec : PeerCodec Peer K)

/-- `shardIndex`: the first half of the shards serves IPv4, the second half IPv6. The
`uint32` conversions of `len(ps.shards)` keep its low 32 bits. -/
def PeerStore.shardIndex (ps : PeerStore K) (ih : InfoHash) (addr : Addr) :
    Except String UInt32 :=
  let d := UInt32.ofNat ps.shards.length / 2
  if d = 0 then .error divideByZeroMsg else
  let idx := bigEndianUint32 (ih.toList.take 4) % d
  .ok (if addr.is6 then idx + UInt32.ofNat (ps.shards.length / 2) else idx)

/-- What every operation does before taking a lock: panic on a closed store, compute the
shard index, and read the shard (`ps.shards[idx]`). -/
def PeerStore.shardOf (ps : PeerStore K) (ih : InfoHash) (addr : Addr) :
    Except String (ℕ × PeerShard K) :=
  if ps.closed then .error stoppedMsg else
  match ps.shardIndex ih addr with
  | .error e => .error e
  | .ok idx =>
    match ps.shards[idx.toNat]? with
    | none => .error indexOutOfRangeMsg
    | some sh => .ok (idx.toNat, sh)

/-- `PutSeeder` (`r = .seeder`) and `PutLeecher` (`r = .leecher`) at clock `clock`. -/
def PeerStore.putPeer (r : Role) (ps : PeerStore K) (ih : InfoHash) (p : Peer) (clock : Int) :
    Except String (PeerStore K) :=
  match ps.shardOf ih (codec.addr p) with
  | .error e => .error e
  | .ok (i, sh) =>
    .ok { ps with shards := ps.shards.set i (sh.putPeer r ih (codec.rawString p) clock) }

/-- `DeleteSeeder` (`r = .seeder`) and `DeleteLeecher` (`r = .leecher`). -/
def PeerStore.deletePeer (r : Role) (ps : PeerStore K) (ih : InfoHash) (p : Peer) :
    Except String (Option StorageError × PeerStore K) :=
  match ps.shardOf ih (codec.addr p) with
  | .error e => .error e
  | .ok (i, sh) =>
    let (err, sh) := sh.deletePeer r ih (codec.rawString p)
    .ok (err, { ps with shards := ps.shards.set i sh })

/-- `PutSeeder`. -/
def PeerStore.putSeeder (ps : PeerStore K) (ih : InfoHash) (p : Peer) (clock : Int) :
    Except String (PeerStore K) :=
  ps.putPeer codec .seeder ih p clock

/-- `PutLeecher`. -/
def PeerStore.putLeecher (ps : PeerStore K) (ih : InfoHash) (p : Peer) (clock : Int) :
    Except String (PeerStore K) :=
  ps.putPeer codec .leecher ih p clock

/-- `DeleteSeeder`. -/
def PeerStore.deleteSeeder (ps : PeerStore K) (ih : InfoHash) (p : Peer) :
    Except String (Option StorageError × PeerStore K) :=
  ps.deletePeer codec .seeder ih p

/-- `DeleteLeecher`. -/
def PeerStore.deleteLeecher (ps : PeerStore K) (ih : InfoHash) (p : Peer) :
    Except String (Option StorageError × PeerStore K) :=
  ps.deletePeer codec .leecher ih p

/-- `GraduateLeecher` at clock `clock`. -/
def PeerStore.graduateLeecher (ps : PeerStore K) (ih : InfoHash) (p : Peer) (clock : Int) :
    Except String (PeerStore K) :=
  match ps.shardOf ih (codec.addr p) with
  | .error e => .error e
  | .ok (i, sh) =>
    .ok { ps with shards := ps.shards.set i (sh.graduateLeecher ih (codec.rawString p) clock) }

/-! ## Reads -/

/-- `math.MinInt` on a 64-bit platform. -/
def minInt : Int := -2 ^ 63

/-- `numWant--` on a Go `int`: from `math.MinInt` it wraps to `math.MaxInt`. -/
def decInt (n : Int) : Int := if n = minInt then maxInt else n - 1

/-- One of `AnnouncePeers`' loops over a map, its keys given in iteration order: skip the
keys `skip` holds (`continue`), stop once `numWant` is zero (`break`), otherwise take the
key and decrement `numWant`. Returns the keys taken and what is left of `numWant`. -/
def selectKeys (skip : K → Bool) : List K → Int → List K × Int
  | [], numWant => ([], numWant)
  | pk :: pks, numWant =>
    if skip pk then selectKeys skip pks numWant
    else if numWant = 0 then ([], numWant)
    else
      let (taken, left) := selectKeys skip pks (decInt numWant)
      (pk :: taken, left)

/-- The keys `AnnouncePeers` decodes into its reply: up to `numWant` leechers for a
seeder; for a leecher, up to `numWant` seeders, then, while `numWant` is positive,
leechers other than the announcer's own key `announcerPK`. -/
def announceKeys (seeder : Bool) (numWant : Int) (announcerPK : K)
    (seederOrder leecherOrder : List K) : List K :=
  if seeder then (selectKeys (fun _ => false) leecherOrder numWant).1
  else
    let (seeders, left) := selectKeys (fun _ => false) seederOrder numWant
    if left > 0 then seeders ++ (selectKeys (· = announcerPK) leecherOrder left).1
    else seeders

/-- `AnnouncePeers`, the swarm's seeders ranged over in the order `seederOrder` and its
leechers in the order `leecherOrder` (each a listing of the map's keys, which the theorems
assume where they need it); `ErrResourceDoesNotExist` when the swarm is absent. -/
def PeerStore.announcePeers (ps : PeerStore K) (ih : InfoHash) (seeder : Bool) (numWant : Int)
    (peer : Peer) (seederOrder leecherOrder : List K) :
    Except String (Except StorageError (List Peer)) :=
  match ps.shardOf ih (codec.addr peer) with
  | .error e => .error e
  | .ok (_, sh) =>
    match sh.swarms.lookup ih with
    | none => .ok (.error .resourceDoesNotExist)
    | some _ =>
      .ok (.ok ((announceKeys seeder numWant (codec.rawString peer) seederOrder
        leecherOrder).map codec.newPeer))

/-- `bittorrent.Scrape`, as `ScrapeSwarm` fills it. -/
structure Scrape where
  infoHash : InfoHash
  complete : UInt32
  incomplete : UInt32
  deriving DecidableEq

/-- `ScrapeSwarm`: the sizes of the swarm's maps (as `uint32`), zeros when it is absent. -/
def PeerStore.scrapeSwarm (ps : PeerStore K) (ih : InfoHash) (peer : Peer) :
    Except String Scrape :=
  match ps.shardOf ih (codec.addr peer) with
  | .error e => .error e
  | .ok (_, sh) =>
    match sh.swarms.lookup ih with
    | none => .ok ⟨ih, 0, 0⟩
    | some sw =>
      .ok ⟨ih, UInt32.ofNat sw.seeders.keys.card, UInt32.ofNat sw.leechers.keys.card⟩

end Store

end Mochi.Memory
