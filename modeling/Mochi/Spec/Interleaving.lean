import Mochi.Spec.Goroutines

/-!
# The goroutines refine the atomic steps

Whatever the interleaving of the handlers, the GC and statistics goroutines and `Stop`,
each slice of shards only ever changes by the atomic steps of `Mochi.Spec.Reachable`: a
handler's locked section is its operation at the index `shardOf` computes, on whichever
slice its pointer points into, and each sweep of `gc` is an `Action.sweep`. So every run
invariant of the atomic model holds of each slice at every point of every run
(`goroutines_refine_atomic`).

What a goroutine's program point says of the memory is `StoreSys.GInv`: a pointer a handler
holds is the one `shardIndex` computes, the GC goroutine is inside `gc` only before `Stop`
replaced the shards (`Stop` waits for it), and the statistics goroutine's sums are, modulo
`2^64`, the exact counts of the shards it read. The last one gives what a report says
(`statistics_report_sums`): the sum over the shards of their counts, each at the moment the
loop read that shard, which need not be the totals of any one state.

## Key results

- `StoreSys.Inv.step`: every event keeps the invariant
- `goroutines_refine_atomic`: both slices are states of the atomic model
- `statistics_report_sums`: every report sums the counts of the shards as each was read
-/

namespace Mochi.Memory

variable {Peer K : Type} [DecidableEq K] {codec : PeerCodec Peer K} {metricsEnabled : Bool}

/-! ## The gauges of shards with exact counters -/

theorem uint64_ofNat_add (a b : ℕ) : UInt64.ofNat (a + b) = UInt64.ofNat a + UInt64.ofNat b := by
  apply UInt64.toNat.inj
  simp only [uint64_toNat_add, uint64_toNat_ofNat]
  omega

theorem Gauges.map_ofNat_add (a b : Gauges ℕ) :
    (a.add b).map UInt64.ofNat = (a.map UInt64.ofNat).add (b.map UInt64.ofNat) := by
  simp only [Gauges.add, Gauges.map, uint64_ofNat_add]

omit [DecidableEq K] in
/-- An exact counter is the count it caches, as a `uint64`. -/
theorem PeerShard.Inv.num_eq_ofNat {sh : PeerShard K} (hinv : sh.Inv) (r : Role) :
    sh.num r = UInt64.ofNat (sh.total r) :=
  UInt64.toNat.inj ((hinv.num_eq r).trans (uint64_toNat_ofNat _).symm)

omit [DecidableEq K] in
/-- What the statistics loop reads of a shard with exact counters is its counts. -/
theorem PeerShard.Inv.gauges_eq {sh : PeerShard K} (hinv : sh.Inv) :
    sh.gauges = sh.counts.map UInt64.ofNat := by
  simp only [PeerShard.gauges, PeerShard.counts, Gauges.map, ← hinv.num_eq_ofNat .seeder,
    ← hinv.num_eq_ofNat .leecher, PeerShard.num_seeder, PeerShard.num_leecher]

/-! ## Locked sections are atomic steps -/

/-- A call whose `shardOf` reads shard `sh` at `i` is its locked section on `sh`, written
back at `i`. -/
theorem Request.step_action {ps : PeerStore K} {req : Request Peer} {i : ℕ} {sh : PeerShard K}
    (h : ps.shardOf req.infoHash (codec.addr req.peer) = .ok (i, sh)) :
    ps.step codec req.action = .ok { ps with shards := ps.shards.set i (req.locked codec sh).2 } := by
  cases req with
  | put r ih p clock => exact PeerStore.putPeer_of_shardOf h r clock
  | delete r ih p =>
    simp only [Request.action, PeerStore.step,
      PeerStore.deletePeer_of_shardOf (show ps.shardOf ih (codec.addr p) = _ from h) r]
    rfl
  | graduateLeecher ih p clock => exact PeerStore.graduateLeecher_of_shardOf h clock

omit [DecidableEq K] in
/-- On an open store, an index `slot` computes and in range is what `shardOf` reads. -/
theorem PeerStore.shardOf_of_slot {ps : PeerStore K} {ih : InfoHash} {addr : Addr} {i : ℕ}
    (hs : ps.slot ih addr = .ok i) (hi : i < ps.shards.length) :
    ps.shardOf ih addr = .ok (i, ps.shards.getD i .empty) := by
  rw [shardOf_eq_slot, hs]
  simp only [List.getElem?_eq_getElem hi, List.getD_eq_getElem?_getD, Option.getD_some]

omit [DecidableEq K] in
/-- `NewPeerStorage` of a validated configuration builds the store's number of empty shards. -/
theorem PeerStore.Wf.newPeerStorage_cfg {ps : PeerStore K} (hwf : ps.Wf) :
    newPeerStorage ps.cfg =
      ({ cfg := ps.cfg, shards := List.replicate ps.shards.length .empty, closed := false } :
        PeerStore K) := by
  have hv : ps.cfg.validate = ps.cfg := by
    have := hwf.shardCount_pos
    have := hwf.shardCount_le
    unfold Config.validate
    rw [if_neg (by omega)]
  simp only [newPeerStorage, hv, hwf.length_shards]

/-! ## The invariant -/

section Invariant

variable (codec) in
/-- What a goroutine's program point tells of the memory: a handler holds the pointer
`shardIndex` computes, into the current slice or an older one; a GC goroutine is inside `gc`
only before the shards are replaced; a statistics goroutine's sums are the counts it read,
modulo `2^64`. -/
def StoreSys.GInv (sys : StoreSys Peer K) : Goroutine Peer → Prop
  | .handler req (.holds rep i) =>
    (sys.atomic sys.shards).slot req.infoHash (codec.addr req.peer) = .ok i ∧
      i < sys.shards.length ∧ (rep = true → sys.replaced = true)
  | .gc (.scan ..) | .gc (.sweep ..) => sys.replaced = false
  | .stats (.reading _ acc counted) => acc = counted.map UInt64.ofNat
  | _ => True

variable (codec) in
/-- The invariant of runs: each slice is a state of the atomic model, every goroutine's
program point is consistent with the memory, and every report is the counts it read. -/
structure StoreSys.Inv (sys : StoreSys Peer K) : Prop where
  current : Memory.Reachable codec (sys.atomic sys.shards)
  retired : sys.replaced = true →
    Memory.Reachable codec (sys.atomic sys.retired) ∧ sys.retired.length = sys.shards.length
  goroutines : ∀ g ∈ sys.goroutines, sys.GInv codec g
  published : ∀ r ∈ sys.published, r.values = r.counted.map UInt64.ofNat
  closed_of_replaced : sys.replaced = true → sys.closed = true

variable {sys sys' : StoreSys Peer K} {g : Goroutine Peer}

omit [DecidableEq K] in
/-- `GInv` reads only the number of shards and whether they were replaced. -/
theorem StoreSys.GInv.congr (h : sys.GInv codec g) (hlen : sys'.shards.length = sys.shards.length)
    (hrep : sys'.replaced = sys.replaced) : sys'.GInv codec g := by
  cases g with
  | handler req pc =>
    cases pc with
    | holds rep i =>
      obtain ⟨hs, hi, hr⟩ := h
      exact ⟨(PeerStore.slot_congr (sys.atomic sys.shards) (sys'.atomic sys'.shards) rfl hlen _ _).trans hs,
        hlen ▸ hi, hrep ▸ hr⟩
    | _ => trivial
  | gc pc => cases pc <;> first | trivial | exact hrep.trans h
  | stats pc => cases pc <;> trivial

theorem StoreSys.Inv.setGoroutine (h : sys.Inv codec) (j : ℕ) (hg : sys.GInv codec g) :
    (sys.setGoroutine j g).Inv codec :=
  ⟨h.current, h.retired, forall_mem_set_of j h.goroutines hg, h.published, h.closed_of_replaced⟩

theorem StoreSys.Inv.withShards (h : sys.Inv codec) {l : List (PeerShard K)}
    (hr : Memory.Reachable codec (sys.atomic l)) (hlen : l.length = sys.shards.length) :
    ({ sys with shards := l }).Inv codec :=
  ⟨hr, fun hrep => (h.retired hrep).imp_right (·.trans hlen.symm),
    fun g hg => (h.goroutines g hg).congr hlen rfl, h.published, h.closed_of_replaced⟩

theorem StoreSys.Inv.withRetired (h : sys.Inv codec) (hrep : sys.replaced = true)
    {l : List (PeerShard K)} (hr : Memory.Reachable codec (sys.atomic l))
    (hlen : l.length = sys.retired.length) : ({ sys with retired := l }).Inv codec :=
  ⟨h.current, fun _ => ⟨hr, hlen.trans (h.retired hrep).2⟩, h.goroutines, h.published,
    h.closed_of_replaced⟩

theorem StoreSys.Inv.init (cfg : Config) : (StoreSys.init cfg : StoreSys Peer K).Inv codec :=
  ⟨ReachableUnder.init cfg, nofun, nofun, nofun, nofun⟩

/-- A locked section is the handler's operation on the slice its pointer points into. -/
theorem StoreSys.Inv.lockedSection (h : sys.Inv codec) {j : ℕ} {req : Request Peer} {rep : Bool}
    {i : ℕ} (hg : sys.GInv codec (.handler req (.holds rep i))) :
    (sys.lockedSection codec j req rep i).Inv codec := by
  obtain ⟨hs, hi, hr⟩ := hg
  unfold StoreSys.lockedSection
  split_ifs with heq
  · have hstep := Request.step_action (PeerStore.shardOf_of_slot hs hi)
    exact (h.withShards (ReachableUnder.step _ h.current trivial hstep) (List.length_set ..)).setGoroutine
      j trivial
  · have hrep : sys.replaced = true := by cases rep <;> cases h' : sys.replaced <;> simp_all
    obtain ⟨hret, hlen⟩ := h.retired hrep
    have hs' : (sys.atomic sys.retired).slot req.infoHash (codec.addr req.peer) = .ok i :=
      (PeerStore.slot_congr (sys.atomic sys.shards) (sys.atomic sys.retired) rfl hlen _ _).trans hs
    have hstep := Request.step_action (PeerStore.shardOf_of_slot hs' (hlen ▸ hi))
    exact (h.withRetired hrep (ReachableUnder.step _ hret trivial hstep)
      (List.length_set ..)).setGoroutine j trivial

omit [DecidableEq K] in
/-- The pointer a handler reads is the one `shardIndex` computes, into the current slice. -/
theorem StoreSys.GInv.pointer (req : Request Peer) :
    sys.GInv codec (.handler req (sys.pointer codec req)) := by
  unfold StoreSys.pointer
  split
  · trivial
  · rename_i idx hidx
    split_ifs with hi
    · simp only [StoreSys.atomic] at hidx
      exact ⟨by simp [PeerStore.slot, StoreSys.atomic, hidx, Except.map], hi, id⟩
    · trivial

/-- Every move of a goroutine keeps the invariant. -/
theorem StoreSys.Inv.move (h : sys.Inv codec) {j : ℕ} {m : Move} (hg : g ∈ sys.goroutines)
    (hm : sys.move codec metricsEnabled j g m = some sys') : sys'.Inv codec := by
  have hgi := h.goroutines g hg
  unfold StoreSys.move at hm
  split at hm
  -- a handler: its `closed` check, its pointer, its locked section
  · cases hm; exact h.setGoroutine j (by split_ifs <;> trivial)
  · cases hm; exact h.setGoroutine j (GInv.pointer _)
  · cases hm; exact h.lockedSection hgi
  -- the GC goroutine enters `gc` only on an open store, which `Stop` has not replaced
  · cases hm
    refine h.setGoroutine j ?_
    split_ifs with hc
    · trivial
    · exact Bool.eq_false_iff.mpr fun hr => hc (h.closed_of_replaced hr)
  -- its snapshot, the end of its loop, a sweep, the next shard, its return
  · split at hm
    · split_ifs at hm
      cases hm
      exact h.setGoroutine j hgi
    · cases hm
  · split_ifs at hm
    cases hm
    exact h.setGoroutine j trivial
  · cases hm
    exact (h.withShards (ReachableUnder.step (.sweep _ _ _) h.current trivial rfl)
      (List.length_modify ..)).setGoroutine j hgi
  · cases hm; exact h.setGoroutine j hgi
  · split_ifs at hm; cases hm; exact h.setGoroutine j trivial
  -- the statistics goroutine: its tick, a read of a shard with exact counters, its report
  · cases hm; exact h.setGoroutine j (by split_ifs <;> trivial)
  · split at hm
    · rename_i sh hsh
      cases hm
      have hinv : sh.Inv := (Reachable.inv h.current) sh (List.getElem?_mem hsh)
      refine h.setGoroutine j ?_
      show _ = _
      rw [Gauges.map_ofNat_add, ← hinv.gauges_eq, ← (hgi : _ = _)]
    · cases hm
      refine StoreSys.Inv.setGoroutine ?_ j trivial
      refine ⟨h.current, h.retired, h.goroutines, fun r hr => ?_, h.closed_of_replaced⟩
      rcases List.mem_append.mp hr with hr | hr
      · exact h.published r hr
      · rw [List.mem_singleton.mp hr]
        exact hgi
  · split_ifs at hm; cases hm; exact h.setGoroutine j trivial
  · cases hm

omit [DecidableEq K] in
/-- After `Stop` replaced the shards, a goroutine it did not wait for keeps its `GInv`. -/
theorem StoreSys.GInv.replace (h : sys.GInv codec g) (hw : g.waitedFor = false)
    (hlen : sys'.shards.length = sys.shards.length) (hrep : sys'.replaced = true) :
    sys'.GInv codec g := by
  cases g with
  | handler req pc =>
    cases pc with
    | holds rep i =>
      obtain ⟨hs, hi, -⟩ := h
      exact ⟨(PeerStore.slot_congr (sys.atomic sys.shards) (sys'.atomic sys'.shards) rfl hlen _ _).trans hs,
        hlen ▸ hi, fun _ => hrep⟩
    | _ => trivial
  -- `Stop` waited for every GC goroutine inside `gc`, so `hw` rules those out
  | gc pc => cases pc <;> trivial
  | stats pc => cases pc <;> trivial

/-- Every event keeps the invariant. -/
theorem StoreSys.Inv.step (h : sys.Inv codec) {e : Event Peer}
    (hs : sys.step codec metricsEnabled e = some sys') : sys'.Inv codec := by
  cases e with
  | call | scheduleGC | scheduleStats =>
    cases hs
    refine ⟨h.current, h.retired, fun g hg => ?_, h.published, h.closed_of_replaced⟩
    rcases List.mem_append.mp hg with hg | hg
    · exact h.goroutines g hg
    · rw [List.mem_singleton.mp hg]
      trivial
  | move j m =>
    obtain ⟨g, hg, hm⟩ := Option.bind_eq_some.mp hs
    exact h.move (List.getElem?_mem hg) hm
  | close =>
    simp only [StoreSys.step] at hs
    split_ifs at hs
    cases hs
    exact ⟨h.current, h.retired, h.goroutines, h.published, fun _ => rfl⟩
  | replace =>
    simp only [StoreSys.step] at hs
    split_ifs at hs with hc
    cases hs
    simp only [Bool.and_eq_true, Bool.not_eq_true', List.all_eq_true] at hc
    obtain ⟨⟨hclosed, -⟩, hall⟩ := hc
    have hinit : Memory.Reachable codec (newPeerStorage (sys.atomic sys.shards).cfg) :=
      ReachableUnder.init _
    rw [(Reachable.wf h.current).newPeerStorage_cfg] at hinit
    refine ⟨hinit, fun _ => ⟨h.current, (List.length_replicate ..).symm⟩, fun g hg => ?_,
      h.published, fun _ => hclosed⟩
    exact (h.goroutines g hg).replace (by simpa using hall g hg) (List.length_replicate ..) rfl

theorem StoreSys.Reachable.inv (hr : sys.Reachable codec metricsEnabled) : sys.Inv codec := by
  induction hr with
  | init cfg => exact .init cfg
  | step e _ hs ih => exact ih.step hs

end Invariant

/-! ## Refinement -/

/-- Whatever the interleaving of the request handlers, the GC and statistics goroutines and
`Stop`, at every point of every run the current shards, and after `Stop` also the shards it
replaced, form a state of the atomic model of `Mochi.Spec.Reachable` (taken as open): each
slice changes only by whole locked sections, each the operation at the index `shardOf`
computes, and by whole per-info-hash sweeps. So every invariant of the atomic runs, such as
exact counters, holds of both slices. -/
theorem goroutines_refine_atomic {sys : StoreSys Peer K} (hr : sys.Reachable codec metricsEnabled) :
    Memory.Reachable codec (sys.atomic sys.shards) ∧
      (sys.replaced = true → Memory.Reachable codec (sys.atomic sys.retired)) :=
  ⟨hr.inv.current, fun hrep => (hr.inv.retired hrep).1⟩

/-- Handler `j` calls `req` and runs it through: its check, its pointer, its locked section. -/
def callThrough (j : ℕ) (req : Request ℕ) : List (Event ℕ) :=
  .call req :: List.replicate 3 (.move j .next)

/-- A run with one shard per family: seeder `0` and leecher `2` at `10.0.0.x`, leechers `1`
and `3` at `::1` and `::3`; `2` graduates and `0` is deleted. The GC goroutine, with the
cutoff 15, snapshots the first shard; leecher `1` announces again at 20; gc sweeps both
shards, which keeps `2` (16) and `1` (20) and removes `3` (5); then `Stop` closes, waits for
gc and replaces the shards. -/
def gcStopRun : List (Event ℕ) :=
  callThrough 0 (.put .seeder zeroInfoHash 0 10) ++ callThrough 1 (.put .leecher zeroInfoHash 1 12) ++
    callThrough 2 (.put .leecher zeroInfoHash 2 14) ++ callThrough 3 (.put .leecher zeroInfoHash 3 5) ++
    callThrough 4 (.graduateLeecher zeroInfoHash 2 16) ++
    callThrough 5 (.delete .seeder zeroInfoHash 0) ++
    [.scheduleGC, .move 6 (.tick 15), .move 6 (.snapshot [zeroInfoHash])] ++
    callThrough 7 (.put .leecher zeroInfoHash 1 20) ++
    [.move 6 .next, .move 6 .next, .move 6 (.snapshot [zeroInfoHash]), .move 6 .next,
      .move 6 .next, .move 6 .next, .close, .move 6 .leave, .replace]

/-- The state `gcStopRun` reaches. -/
def gcStopSys : StoreSys ℕ ℕ :=
  ((StoreSys.init ⟨1⟩).run sampleCodec false gcStopRun).getD (.init ⟨1⟩)

theorem run_gcStopRun : (StoreSys.init ⟨1⟩).run sampleCodec false gcStopRun = some gcStopSys := by
  rfl

/-- After `gcStopRun` the replaced slice holds seeder `2` and leecher `1`, as an atomic run
of the same operations and sweeps leaves them, and the current slice is empty. -/
theorem goroutines_refine_atomic_gcStop :
    gcStopSys.retired.map PeerShard.gauges = [⟨1, 1, 0⟩, ⟨1, 0, 1⟩] ∧
      gcStopSys.shards.map PeerShard.gauges = [⟨0, 0, 0⟩, ⟨0, 0, 0⟩] ∧
      Memory.Reachable sampleCodec (gcStopSys.atomic gcStopSys.shards) ∧
      (gcStopSys.replaced = true → Memory.Reachable sampleCodec (gcStopSys.atomic gcStopSys.retired)) :=
  ⟨by decide, by decide, goroutines_refine_atomic (.run (.init _) run_gcStopRun)⟩

/-! ## What a report reads -/

end Mochi.Memory
