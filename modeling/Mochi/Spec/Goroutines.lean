import Mochi.Spec.Lifecycle

/-!
# The store's goroutines, step by step

`Mochi.Spec.Reachable` takes each operation of the store as one atomic step. In Go an
operation is several steps, and other goroutines run between them:

- a request handler first checks `ps.closed` (`select { case <-ps.closed: panic(...) }`),
  then reads the shard pointer `ps.shards[ps.shardIndex(ih, p.Addr())]`, and then runs its
  locked section between `shard.Lock()` and `shard.Unlock()`;
- the GC goroutine waits in its `select`; on its clock it runs `gc(cutoff)`, which checks
  `ps.closed` and then, shard by shard, snapshots the info-hashes under the read lock and
  sweeps each of them under the write lock;
- the statistics goroutine waits in its `select`; on its clock it reads the shards one by
  one under their read locks, adding up three `uint64` sums, and sets its gauges;
- `Stop`'s goroutine closes `ps.closed`, waits (`ps.wg.Wait()`) for the GC and statistics
  goroutines to return, and then replaces `ps.shards` by a new slice of empty shards.

A state (`StoreSys`) is the shared memory (the configuration, the current slice of shards,
the slice `Stop` replaced, into which handlers that read a shard pointer before the
replacement still write, and `closed`) and every goroutine with its program point. A run is
any sequence of events: a goroutine starts, one takes its next step, or `Stop` takes its
next step. A step is what runs under one lock, or touches nothing shared. `Stop` writes
`ps.shards` without a lock while handlers read it; both slices have the same length, so a
handler's read sees one of the two, as `StoreSys.pointer` has it.

The clocks are left out: a goroutine's `select` may take its clock's case at any moment, and
`gc` may get any cutoff. So the runs here include every run of the program (that the GC
timer sends only once is `Mochi.Spec.ScheduleRuns`). `AnnouncePeers` and `ScrapeSwarm` take
a shard's read lock and write nothing, and are left out. A second `Stop` panics closing
`closed` again (`closeOfClosedMsg`), so `closed` is closed once. The gauges are kept as the
`uint64` sums before their `float64` conversion; each report also carries, as a ghost not in
the code, the exact counts of the shards the loop read, each at the moment it read it.
-/

namespace Mochi.Memory

/-! ## The statistics gauges -/

/-- The three values the statistics goroutine sums over the shards and sets on its gauges:
`numInfohashes`, `numSeeders` and `numLeechers`. -/
structure Gauges (α : Type) where
  infoHashes : α
  seeders : α
  leechers : α
  deriving DecidableEq, Repr

/-- `var numInfohashes, numSeeders, numLeechers uint64`. -/
def Gauges.zero {α : Type} [OfNat α 0] : Gauges α := ⟨0, 0, 0⟩

def Gauges.add {α : Type} [Add α] (a b : Gauges α) : Gauges α :=
  ⟨a.infoHashes + b.infoHashes, a.seeders + b.seeders, a.leechers + b.leechers⟩

def Gauges.map {α β : Type} (f : α → β) (g : Gauges α) : Gauges β :=
  ⟨f g.infoHashes, f g.seeders, f g.leechers⟩

/-- A report: the values set on the gauges, and the ghost counts they stand for. -/
structure Report where
  values : Gauges UInt64
  counted : Gauges ℕ
  deriving DecidableEq, Repr

variable {Peer K : Type} [DecidableEq K]

/-- What the statistics loop adds for one shard, under its read lock:
`uint64(len(s.swarms))`, `s.numSeeders` and `s.numLeechers`. -/
def PeerShard.gauges (sh : PeerShard K) : Gauges UInt64 :=
  ⟨UInt64.ofNat sh.swarms.keys.card, sh.numSeeders, sh.numLeechers⟩

/-- Ghost: how many swarms, seeder entries and leecher entries the shard holds. -/
def PeerShard.counts (sh : PeerShard K) : Gauges ℕ :=
  ⟨sh.swarms.keys.card, sh.total .seeder, sh.total .leecher⟩

/-! ## Goroutines -/

/-- A mutation a request handler calls: `PutSeeder` and `PutLeecher` (`put`), `DeleteSeeder`
and `DeleteLeecher` (`delete`), or `GraduateLeecher`. The clock is what `ps.getClock()`
reads in the locked section. -/
inductive Request (Peer : Type) where
  | put (r : Role) (ih : InfoHash) (p : Peer) (clock : Int)
  | delete (r : Role) (ih : InfoHash) (p : Peer)
  | graduateLeecher (ih : InfoHash) (p : Peer) (clock : Int)
  deriving DecidableEq

/-- The info-hash a call names. -/
def Request.infoHash : Request Peer → InfoHash
  | .put _ ih _ _ | .delete _ ih _ | .graduateLeecher ih _ _ => ih

/-- The peer a call names. -/
def Request.peer : Request Peer → Peer
  | .put _ _ p _ | .delete _ _ p | .graduateLeecher _ p _ => p

/-- The call as one atomic step of `Mochi.Spec.Reachable`. -/
def Request.action : Request Peer → Action Peer
  | .put r ih p clock => .put r ih p clock
  | .delete r ih p => .delete r ih p
  | .graduateLeecher ih p clock => .graduateLeecher ih p clock

section Codec

variable (codec : PeerCodec Peer K)

/-- The locked section: what the call returns and the shard it leaves. -/
def Request.locked (sh : PeerShard K) : Request Peer → Option StorageError × PeerShard K
  | .put r ih p clock => (none, sh.putPeer r ih (codec.rawString p) clock)
  | .delete r ih p => sh.deletePeer r ih (codec.rawString p)
  | .graduateLeecher ih p clock => (none, sh.graduateLeecher ih (codec.rawString p) clock)

end Codec

/-- Where a request handler is. -/
inductive HandlerPc where
  /-- At the `select` on `ps.closed`. -/
  | start
  /-- Past it, at `ps.shards[ps.shardIndex(ih, p.Addr())]`. -/
  | checked
  /-- Holding a pointer to shard `i`, read from the slice `Stop` installs when `replaced`,
  from the slice it replaces otherwise; next, the locked section. -/
  | holds (replaced : Bool) (i : ℕ)
  /-- Returned the error in `result`, or panicked with its message. -/
  | done (result : Except String (Option StorageError))

/-- Where the GC goroutine is. -/
inductive GcPc where
  /-- In its `select`. -/
  | idle
  /-- In `gc(cutoff)`, at shard `i` of `range ps.shards`: next, the snapshot of its
  info-hashes under the read lock, or the end of the loop. -/
  | scan (cutoff : Int) (i : ℕ)
  /-- In `gc(cutoff)`, with the info-hashes `ihs` of shard `i`'s snapshot still to sweep. -/
  | sweep (cutoff : Int) (i : ℕ) (ihs : List InfoHash)
  | returned
  deriving DecidableEq

/-- Where the statistics goroutine is. -/
inductive StatsPc where
  /-- In its `select`. -/
  | idle
  /-- At shard `i` of `range ps.shards`, with the sums `acc` of the shards before it and the
  ghost counts `counted` they stand for. -/
  | reading (i : ℕ) (acc : Gauges UInt64) (counted : Gauges ℕ)
  | returned
  deriving DecidableEq

inductive Goroutine (Peer : Type) where
  | handler (req : Request Peer) (pc : HandlerPc)
  | gc (pc : GcPc)
  | stats (pc : StatsPc)

/-- A handler past its `closed` check that has not returned: it may still write. -/
def HandlerPc.inFlight : HandlerPc → Bool
  | .checked | .holds .. => true
  | _ => false

def Goroutine.inFlight : Goroutine Peer → Bool
  | .handler _ pc => pc.inFlight
  | _ => false

/-- A goroutine `ps.wg` counts and `Stop` waits for: a GC or statistics goroutine that has
not returned. -/
def Goroutine.waitedFor : Goroutine Peer → Bool
  | .handler .. | .gc .returned | .stats .returned => false
  | _ => true

/-- A GC goroutine inside `gc`, past its `closed` check: it may still write. -/
def Goroutine.sweeping : Goroutine Peer → Bool
  | .gc (.scan ..) | .gc (.sweep ..) => true
  | _ => false

/-! ## The system -/

/-- The store's memory and its goroutines. -/
structure StoreSys (Peer K : Type) where
  cfg : Config
  /-- `ps.shards`. -/
  shards : List (PeerShard K)
  /-- The slice `Stop` replaced (empty before). -/
  retired : List (PeerShard K)
  /-- Whether `ps.closed` is closed. -/
  closed : Bool
  /-- Whether `Stop` has replaced `ps.shards`. -/
  replaced : Bool
  goroutines : List (Goroutine Peer)
  /-- The reports set on the gauges, in order. -/
  published : List Report

/-- `NewPeerStorage(provided)`, before any goroutine runs. -/
def StoreSys.init (provided : Config) : StoreSys Peer K :=
  let ps : PeerStore K := newPeerStorage provided
  ⟨ps.cfg, ps.shards, [], false, false, [], []⟩

/-- A slice of shards as an open store of `Mochi.Spec.Reachable`. -/
def StoreSys.atomic (sys : StoreSys Peer K) (shards : List (PeerShard K)) : PeerStore K :=
  ⟨sys.cfg, shards, false⟩

/-- Goroutine `j` moves to `g`. -/
def StoreSys.setGoroutine (sys : StoreSys Peer K) (j : ℕ) (g : Goroutine Peer) : StoreSys Peer K :=
  { sys with goroutines := sys.goroutines.set j g }

/-- A step a goroutine takes. -/
inductive Move where
  /-- Its `select` takes its clock's case; the GC goroutine then calls `gc(cutoff)`. -/
  | tick (cutoff : Int)
  /-- The GC goroutine snapshots its shard's info-hashes, listed in `ihs` in the order
  `range` meets them. -/
  | snapshot (ihs : List InfoHash)
  /-- The step after, which needs no choice. -/
  | next
  /-- Its `select` takes `<-ps.closed`, and it returns. -/
  | leave

/-- An event of a run. -/
inductive Event (Peer : Type) where
  /-- A request handler calls the store. -/
  | call (req : Request Peer)
  /-- `ScheduleGC` starts the GC goroutine. -/
  | scheduleGC
  /-- `ScheduleStatisticsCollection` starts the statistics goroutine. -/
  | scheduleStats
  /-- Goroutine `j` moves. -/
  | move (j : ℕ) (m : Move)
  /-- `Stop`'s goroutine closes `ps.closed`. -/
  | close
  /-- `Stop`'s goroutine, past `ps.wg.Wait()`, replaces the shards. -/
  | replace

section Step

variable (codec : PeerCodec Peer K) (metricsEnabled : Bool)

/-- `ps.shards[ps.shardIndex(ih, p.Addr())]`: the pointer the handler reads, or its panic. -/
def StoreSys.pointer (sys : StoreSys Peer K) (req : Request Peer) : HandlerPc :=
  match (sys.atomic sys.shards).shardIndex req.infoHash (codec.addr req.peer) with
  | .error e => .done (.error e)
  | .ok idx =>
    if idx.toNat < sys.shards.length then .holds sys.replaced idx.toNat
    else .done (.error indexOutOfRangeMsg)

/-- Handler `j`'s locked section on shard `i` of the slice its pointer points into. -/
def StoreSys.lockedSection (sys : StoreSys Peer K) (j : ℕ) (req : Request Peer) (rep : Bool)
    (i : ℕ) : StoreSys Peer K :=
  if rep = sys.replaced then
    let r := req.locked codec (sys.shards.getD i .empty)
    { sys with shards := sys.shards.set i r.2 }.setGoroutine j (.handler req (.done (.ok r.1)))
  else
    let r := req.locked codec (sys.retired.getD i .empty)
    { sys with retired := sys.retired.set i r.2 }.setGoroutine j (.handler req (.done (.ok r.1)))

/-- Goroutine `j`, which is `g`, takes the step `m`, or `none` when it cannot. -/
def StoreSys.move (sys : StoreSys Peer K) (j : ℕ) : Goroutine Peer → Move → Option (StoreSys Peer K)
  | .handler req .start, .next =>
    some (sys.setGoroutine j
      (.handler req (if sys.closed then .done (.error stoppedMsg) else .checked)))
  | .handler req .checked, .next => some (sys.setGoroutine j (.handler req (sys.pointer codec req)))
  | .handler req (.holds rep i), .next => some (sys.lockedSection codec j req rep i)
  | .gc .idle, .tick cutoff =>
    some (sys.setGoroutine j (.gc (if sys.closed then .idle else .scan cutoff 0)))
  | .gc (.scan cutoff i), .snapshot ihs =>
    match sys.shards[i]? with
    | some sh =>
      if (ihs : Multiset InfoHash) = sh.swarms.keys.val then
        some (sys.setGoroutine j (.gc (.sweep cutoff i ihs)))
      else none
    | none => none
  | .gc (.scan _ i), .next =>
    if i < sys.shards.length then none else some (sys.setGoroutine j (.gc .idle))
  | .gc (.sweep cutoff i (ih :: ihs)), .next =>
    some ({ sys with shards := sys.shards.modify (PeerShard.sweepSwarm cutoff ih) i }.setGoroutine
      j (.gc (.sweep cutoff i ihs)))
  | .gc (.sweep cutoff i []), .next => some (sys.setGoroutine j (.gc (.scan cutoff (i + 1))))
  | .gc .idle, .leave => if sys.closed then some (sys.setGoroutine j (.gc .returned)) else none
  | .stats .idle, .tick _ =>
    some (sys.setGoroutine j
      (.stats (if metricsEnabled then .reading 0 .zero .zero else .idle)))
  | .stats (.reading i acc counted), .next =>
    match sys.shards[i]? with
    | some sh =>
      some (sys.setGoroutine j (.stats (.reading (i + 1) (acc.add sh.gauges) (counted.add sh.counts))))
    | none =>
      some ({ sys with published := sys.published ++ [Report.mk acc counted] }.setGoroutine j
        (.stats .idle))
  | .stats .idle, .leave =>
    if sys.closed then some (sys.setGoroutine j (.stats .returned)) else none
  | _, _ => none

/-- One event, or `none` when it cannot happen. -/
def StoreSys.step (sys : StoreSys Peer K) : Event Peer → Option (StoreSys Peer K)
  | .call req => some { sys with goroutines := sys.goroutines ++ [.handler req .start] }
  | .scheduleGC => some { sys with goroutines := sys.goroutines ++ [.gc .idle] }
  | .scheduleStats => some { sys with goroutines := sys.goroutines ++ [.stats .idle] }
  | .move j m => sys.goroutines[j]?.bind fun g => sys.move codec metricsEnabled j g m
  | .close => if sys.closed then none else some { sys with closed := true }
  | .replace =>
    if sys.closed && !sys.replaced && sys.goroutines.all (!·.waitedFor) then
      some { sys with shards := List.replicate sys.shards.length .empty, retired := sys.shards,
                      replaced := true }
    else none

/-- The events in turn, or `none` when one of them cannot happen. -/
def StoreSys.run (sys : StoreSys Peer K) : List (Event Peer) → Option (StoreSys Peer K)
  | [] => some sys
  | e :: es => (sys.step codec metricsEnabled e).bind (·.run es)

/-- The states the runs from `NewPeerStorage` reach. -/
inductive StoreSys.Reachable : StoreSys Peer K → Prop
  | init (cfg : Config) : StoreSys.Reachable (.init cfg)
  | step {sys sys' : StoreSys Peer K} (e : Event Peer) : StoreSys.Reachable sys →
      sys.step codec metricsEnabled e = some sys' → StoreSys.Reachable sys'

variable {codec metricsEnabled} in
theorem StoreSys.Reachable.run {sys sys' : StoreSys Peer K} {es : List (Event Peer)}
    (hr : sys.Reachable codec metricsEnabled) (h : sys.run codec metricsEnabled es = some sys') :
    sys'.Reachable codec metricsEnabled := by
  induction es generalizing sys with
  | nil => cases h; exact hr
  | cons e es ih =>
    obtain ⟨sys₁, h₁, h⟩ := Option.bind_eq_some.mp h
    exact ih (.step e hr h₁) h

end Step

end Mochi.Memory
