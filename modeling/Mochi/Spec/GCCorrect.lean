import Mochi.Spec.ShardOps
import Mochi.Spec.Reachable

/-!
# What gc leaves of the store

Run on an open store with nothing interleaved, `gc(cutoff)` leaves of every shard exactly
`PeerShard.expireAll`: each swarm keeps the seeder and leecher entries with an mtime after
`cutoff.UnixNano()`, with their mtimes; a swarm left with no entry leaves the shard's map;
and each counter drops by the number of entries of its role removed from the shard. Since
nothing `expireAll` keeps is expired, a second `gc` with the same cutoff changes nothing.

The sweep of a shard folds the per-info-hash sweep over the snapshot of its info-hashes.
Each sweep touches one info-hash, and the sweep of one info-hash does not change what a
sweep of another removes (`expiredCount_sweepSwarm_ne`), so the fold over any set of
distinct info-hashes is described one info-hash at a time (`foldr_sweepSwarm`).

## Key results

- `PeerShard.gcShard_eq`: gc's pass over a shard is `expireAll`
- `gc_expires_every_swarm`: `gc(c)` on an open store is `expireAll` on every shard, and
  `gc(c)` after `gc(c)` is `gc(c)`
-/

namespace Mochi.Memory

variable {K : Type} [DecidableEq K]

/-- How many entries of a role's maps, over all swarms of the shard, have an mtime at or
before `cutoff`. -/
def PeerShard.expiredTotal (cutoff : Int) (r : Role) (sh : PeerShard K) : ℕ :=
  sh.swarms.sumVal fun sw => (expiredKeys cutoff (sw.peers r)).card

/-- The shard as gc should leave it: every swarm keeps its entries with an mtime after
`cutoff` and leaves the map when none is left, and each counter drops by the entries of its
role removed. -/
def PeerShard.expireAll (cutoff : Int) (sh : PeerShard K) : PeerShard K where
  swarms := sh.swarms.filterMapVal (Swarm.expire cutoff)
  numSeeders := sh.numSeeders - UInt64.ofNat (sh.expiredTotal cutoff .seeder)
  numLeechers := sh.numLeechers - UInt64.ofNat (sh.expiredTotal cutoff .leecher)

section ExpireAll

variable (cutoff : Int) (sh : PeerShard K)

@[simp] theorem PeerShard.lookup_expireAll (ih : InfoHash) :
    (sh.expireAll cutoff).swarms.lookup ih = (sh.swarms.lookup ih).bind (Swarm.expire cutoff) :=
  Finmap.lookup_filterMapVal ..

@[simp] theorem PeerShard.num_expireAll (r : Role) :
    (sh.expireAll cutoff).num r = sh.num r - UInt64.ofNat (sh.expiredTotal cutoff r) := by
  cases r <;> rfl

/-- Exactly the entries with an mtime after `cutoff` survive, with their mtimes. -/
theorem PeerShard.lookup_peers_expireAll (ih : InfoHash) (r : Role) (pk : K) :
    ((sh.expireAll cutoff).swarms.lookup ih).bind (fun sw => (sw.peers r).lookup pk) =
      ((sh.swarms.lookup ih).bind fun sw => (sw.peers r).lookup pk).filter
        fun mtime => cutoff < mtime := by
  rw [lookup_expireAll]
  cases sh.swarms.lookup ih with
  | none => rfl
  | some sw =>
    have hkeep : ((sw.peers r).lookup pk).filter (cutoff < ·) =
        ((sw.fresh cutoff).peers r).lookup pk := by
      simp [keepFresh]
    rw [Option.some_bind, Option.some_bind, hkeep, Swarm.expire]
    split_ifs with he
    · rw [Finmap.eq_empty_of_card_keys_eq_zero ((Swarm.isEmpty_iff _).mp he r),
        Finmap.lookup_empty]
      rfl
    · rfl

end ExpireAll

/-! ## gc's pass over a shard -/

/-- Sweeping the swarms of distinct info-hashes `s` expires exactly the swarms of `s`, and
drops each counter by what their sweeps remove. -/
theorem foldr_sweepSwarm (cutoff : Int) (sh : PeerShard K) (s : Finset InfoHash) :
    (∀ x, (s.val.foldr (PeerShard.sweepSwarm cutoff) sh).swarms.lookup x =
      if x ∈ s then (sh.swarms.lookup x).bind (Swarm.expire cutoff) else sh.swarms.lookup x) ∧
    ∀ r, (s.val.foldr (PeerShard.sweepSwarm cutoff) sh).num r =
      sh.num r - UInt64.ofNat (∑ x ∈ s, sh.expiredCount cutoff r x) := by
  induction s using Finset.cons_induction with
  | empty => simp
  | cons a s ha ih =>
    obtain ⟨hl, hn⟩ := ih
    rw [Finset.cons_val, Multiset.foldr_cons]
    refine ⟨fun x => ?_, fun r => ?_⟩
    · rw [lookup_sweepSwarm, hl, hl, if_neg ha]
      by_cases hx : x = a
      · subst hx; simp
      · simp [hx]
    · have hcount : (s.val.foldr (PeerShard.sweepSwarm cutoff) sh).expiredCount cutoff r a =
          sh.expiredCount cutoff r a := by
        simp only [PeerShard.expiredCount, hl, if_neg ha]
      rw [num_sweepSwarm, hn, hcount, Finset.sum_cons, uint64_sub_ofNat_sub_ofNat, add_comm]

/-- gc's pass over a shard, whatever the order of its snapshot, is `expireAll`. -/
theorem PeerShard.gcShard_eq (cutoff : Int) (sh : PeerShard K) :
    sh.gcShard cutoff = sh.expireAll cutoff := by
  obtain ⟨hl, hn⟩ := foldr_sweepSwarm cutoff sh sh.swarms.keys
  refine PeerShard.ext_num (Finmap.ext_lookup fun x => ?_) fun r => ?_
  · rw [PeerShard.gcShard, hl, lookup_expireAll]
    split_ifs with hx
    · rfl
    · rw [Finmap.mem_keys, ← Finmap.lookup_eq_none] at hx
      rw [hx]; rfl
  · rw [PeerShard.gcShard, hn, num_expireAll]
    rfl

/-! ## A second pass removes nothing -/

theorem keepFresh_keepFresh (cutoff : Int) (m : PeerMap K) :
    keepFresh cutoff (keepFresh cutoff m) = keepFresh cutoff m :=
  Finmap.ext_lookup fun pk => by
    simp only [keepFresh, Finmap.lookup_filterVal]
    cases m.lookup pk <;> simp [Option.filter]; split_ifs <;> simp_all

theorem expiredKeys_keepFresh (cutoff : Int) (m : PeerMap K) :
    expiredKeys cutoff (keepFresh cutoff m) = ∅ :=
  Finset.filter_false_of_mem fun pk _ => by
    simp only [expiredIn, keepFresh, Finmap.lookup_filterVal]
    cases m.lookup pk <;> simp [Option.filter]; split_ifs <;> simp_all

theorem Swarm.expire_bind_expire (cutoff : Int) (sw : Swarm K) :
    (sw.expire cutoff).bind (Swarm.expire cutoff) = sw.expire cutoff := by
  have hfresh : (sw.fresh cutoff).fresh cutoff = sw.fresh cutoff := by
    simp only [Swarm.fresh, keepFresh_keepFresh]
  unfold Swarm.expire
  split_ifs with he
  · rfl
  · rw [Option.some_bind, hfresh, if_neg he]

theorem PeerShard.expiredTotal_expireAll (cutoff : Int) (r : Role) (sh : PeerShard K) :
    (sh.expireAll cutoff).expiredTotal cutoff r = 0 :=
  Finset.sum_eq_zero fun ih _ => by
    rw [lookup_expireAll]
    cases sh.swarms.lookup ih with
    | none => rfl
    | some sw =>
      rw [Option.some_bind, Swarm.expire]
      split_ifs
      · rfl
      · simp [expiredKeys_keepFresh]

theorem PeerShard.expireAll_expireAll (cutoff : Int) (sh : PeerShard K) :
    (sh.expireAll cutoff).expireAll cutoff = sh.expireAll cutoff := by
  refine PeerShard.ext_num (Finmap.ext_lookup fun ih => ?_) fun r => ?_
  · simp only [lookup_expireAll, Option.bind_assoc, Swarm.expire_bind_expire]
  · rw [num_expireAll, expiredTotal_expireAll, uint64_ofNat_zero, sub_zero]

/-! ## gc on the store -/

theorem PeerStore.gc_of_open {ps : PeerStore K} (hopen : ps.closed = false) (c : Time) :
    ps.gc c = { ps with shards := ps.shards.map (PeerShard.expireAll c.unixNano) } := by
  simp only [PeerStore.gc, hopen, PeerShard.gcShard_eq]
  rfl

/-- `gc(c)` on an open store, with nothing interleaved, leaves of every shard exactly
`expireAll` at `c.UnixNano()`: the entries with an mtime after it, with their mtimes, no
empty swarm, and each counter dropped by the entries of its role removed; the
configuration and the shard count are unchanged. A second `gc(c)` changes nothing. -/
theorem gc_expires_every_swarm (ps : PeerStore K) (hopen : ps.closed = false) (c : Time) :
    ps.gc c = { ps with shards := ps.shards.map (PeerShard.expireAll c.unixNano) } ∧
      (ps.gc c).gc c = ps.gc c := by
  have hopen' : ({ ps with shards := ps.shards.map (PeerShard.expireAll c.unixNano) } :
      PeerStore K).closed = false := hopen
  refine ⟨PeerStore.gc_of_open hopen c, ?_⟩
  rw [PeerStore.gc_of_open hopen, PeerStore.gc_of_open hopen']
  simp only [List.map_map, Function.comp_def, PeerShard.expireAll_expireAll]

/-- gc at 45 on the worked example expires seeder `0` and leechers `4` and `8` of the first
IPv4 shard and leecher `1` of the first IPv6 shard, and keeps every entry after 45. -/
theorem gc_expires_every_swarm_sampleStore :
    sampleStore.closed = false ∧
    sampleStore.gc ⟨45⟩ = { sampleStore with
        shards := sampleStore.shards.map (PeerShard.expireAll 45) } ∧
      (sampleStore.gc ⟨45⟩).gc ⟨45⟩ = sampleStore.gc ⟨45⟩ ∧
      (sampleStore.gc ⟨45⟩).shards.map (fun sh => (sh.numSeeders, sh.numLeechers)) =
        [(1, 0), (1, 0), (1, 0), (0, 0)] := by
  have h : sampleStore.closed = false := rfl
  obtain ⟨hgc, hidem⟩ := gc_expires_every_swarm _ h ⟨45⟩
  exact ⟨h, hgc, hidem, by decide⟩

end Mochi.Memory
