import Mochi.Native.Storage
import Mathlib.Data.UInt

/-!
# The garbage collector and `Stop`

`peerStore.gc` snapshots the info-hashes of each shard, then sweeps every swarm of the
snapshot under the shard's exclusive lock: it ranges over the leechers and then the
seeders, deletes each entry whose mtime is at or before the cutoff and decrements the
shard's counter for it, and deletes the swarm when both maps are then empty.

Go ranges over a map in an unspecified order, and deleting the entry just visited does not
disturb the rest of the range. The model folds the loop body over the multiset of the
map's keys (`Multiset.foldr`), which is defined because the body commutes with itself on
any two keys: the `LeftCommutative` instances below. The same holds of the per-swarm sweep
over a shard's snapshot. So the sweep has one result whatever the order, and that result
is characterised here (`sweepPeers_eq`, `lookup_sweepSwarm`, `num_sweepSwarm`).
-/

namespace Mochi.Memory

variable {K : Type} [DecidableEq K]

/-! ## The sweep of one map -/

/-- Whether the entry of `pk` in `m` has an mtime at or before `cutoff`. -/
def expiredIn (cutoff : Int) (m : PeerMap K) (pk : K) : Bool :=
  (m.lookup pk).any (· ≤ cutoff)

/-- The body of `for pk, mtime := range m { if mtime <= cutoffUnix { n--; delete(m, pk) } }`,
on the map and the counter as they stand when `pk` is visited. -/
def sweepStep (cutoff : Int) (pk : K) (acc : PeerMap K × UInt64) : PeerMap K × UInt64 :=
  match acc.1.lookup pk with
  | some mtime => if mtime ≤ cutoff then (acc.1.erase pk, acc.2 - 1) else acc
  | none => acc

theorem sweepStep_eq (cutoff : Int) (pk : K) (m : PeerMap K) (n : UInt64) :
    sweepStep cutoff pk (m, n) = if expiredIn cutoff m pk then (m.erase pk, n - 1) else (m, n) := by
  unfold sweepStep expiredIn
  cases m.lookup pk <;> simp

theorem expiredIn_erase_ne {cutoff : Int} {m : PeerMap K} {a b : K} (h : a ≠ b) :
    expiredIn cutoff (m.erase b) a = expiredIn cutoff m a := by
  simp only [expiredIn, Finmap.lookup_erase_ne h]

instance (cutoff : Int) : LeftCommutative (sweepStep (K := K) cutoff) where
  left_comm a b acc := by
    obtain ⟨m, n⟩ := acc
    by_cases hab : a = b
    · rw [hab]
    have hba : b ≠ a := Ne.symm hab
    by_cases ha : expiredIn cutoff m a <;> by_cases hb : expiredIn cutoff m b <;>
      simp [sweepStep_eq, ha, hb, expiredIn_erase_ne hab, expiredIn_erase_ne hba,
        Finmap.erase_erase]

/-- gc's range over one peer map, with the counter it decrements: every key of `m` is
visited once. -/
def sweepPeers (cutoff : Int) (m : PeerMap K) (n : UInt64) : PeerMap K × UInt64 :=
  m.keys.val.foldr (sweepStep cutoff) (m, n)

/-- The keys of `m` whose mtime is at or before `cutoff`. -/
def expiredKeys (cutoff : Int) (m : PeerMap K) : Finset K :=
  m.keys.filter fun pk => expiredIn cutoff m pk

/-- What a sweep keeps of `m`: the entries with an mtime after `cutoff`. -/
def keepFresh (cutoff : Int) (m : PeerMap K) : PeerMap K :=
  m.filterVal fun mtime => cutoff < mtime

@[simp] theorem keepFresh_empty (cutoff : Int) : keepFresh cutoff (∅ : PeerMap K) = ∅ :=
  Finmap.ext_lookup fun _ => by simp [keepFresh, Finmap.lookup_empty]

/-- Folding the sweep over distinct keys `s` deletes exactly the expired entries among
them and decrements the counter once for each. -/
private theorem foldr_sweepStep (cutoff : Int) (m : PeerMap K) (n : UInt64) (s : Multiset K)
    (hs : s.Nodup) :
    (∀ k, (s.foldr (sweepStep cutoff) (m, n)).1.lookup k =
      if k ∈ s ∧ expiredIn cutoff m k then none else m.lookup k) ∧
    (s.foldr (sweepStep cutoff) (m, n)).2 =
      n - UInt64.ofNat (s.filter (expiredIn cutoff m ·)).card := by
  induction s using Multiset.induction_on with
  | empty => simp
  | cons a t ih =>
    obtain ⟨hat, ht⟩ := Multiset.nodup_cons.mp hs
    obtain ⟨hl, hn⟩ := ih ht
    rw [Multiset.foldr_cons]
    generalize t.foldr (sweepStep cutoff) (m, n) = r at hl hn
    obtain ⟨m', n'⟩ := r
    dsimp only at hl hn
    have hra : expiredIn cutoff m' a = expiredIn cutoff m a := by
      simp only [expiredIn, hl, hat, false_and, if_false]
    rw [sweepStep_eq, hra]
    by_cases ha : expiredIn cutoff m a
    · rw [if_pos ha]
      refine ⟨fun k => ?_, ?_⟩
      · by_cases hk : k = a
        · subst hk; simp [ha]
        · rw [Finmap.lookup_erase_ne hk, hl]; simp [hk]
      · rw [Multiset.filter_cons_of_pos (p := (expiredIn cutoff m · = true)) t ha,
          Multiset.card_cons, ← uint64_sub_ofNat_sub_ofNat, hn]
        rfl
    · rw [if_neg ha]
      refine ⟨fun k => ?_, ?_⟩
      · rw [hl]
        by_cases hk : k = a
        · subst hk; simp [ha, hat]
        · simp [hk]
      · rw [Multiset.filter_cons_of_neg (p := (expiredIn cutoff m · = true)) t ha, hn]

theorem sweepPeers_eq (cutoff : Int) (m : PeerMap K) (n : UInt64) :
    sweepPeers cutoff m n =
      (keepFresh cutoff m, n - UInt64.ofNat (expiredKeys cutoff m).card) := by
  obtain ⟨hl, hn⟩ := foldr_sweepStep cutoff m n m.keys.val m.keys.nodup
  refine Prod.ext (Finmap.ext_lookup fun k => ?_) hn
  rw [sweepPeers, hl, keepFresh, Finmap.lookup_filterVal]
  cases h : m.lookup k with
  | none => simp
  | some t =>
    have hk : k ∈ m.keys.val := Finmap.mem_keys.mpr (Finmap.mem_of_lookup_eq_some h)
    by_cases ht : t ≤ cutoff
    · simp [expiredIn, h, hk, ht, Option.filter, not_lt.mpr ht]
    · simp [expiredIn, h, hk, ht, Option.filter, lt_of_not_le ht]

/-! ## The sweep of one swarm -/

/-- The entries of a swarm with an mtime after `cutoff`. -/
def Swarm.fresh (cutoff : Int) (sw : Swarm K) : Swarm K :=
  ⟨keepFresh cutoff sw.seeders, keepFresh cutoff sw.leechers⟩

@[simp] theorem Swarm.peers_fresh (cutoff : Int) (sw : Swarm K) (r : Role) :
    (sw.fresh cutoff).peers r = keepFresh cutoff (sw.peers r) := by
  cases r <;> rfl

/-- What a sweep leaves of a swarm: its entries with an mtime after `cutoff`, or no swarm
if none is left. -/
def Swarm.expire (cutoff : Int) (sw : Swarm K) : Option (Swarm K) :=
  if (sw.fresh cutoff).isEmpty then none else some (sw.fresh cutoff)

/-- The body of gc's pass over one info-hash of the snapshot, under the shard's exclusive
lock: nothing if the swarm is gone; otherwise sweep the leechers, then the seeders, and
delete the swarm if both maps are then empty. -/
def PeerShard.sweepSwarm (cutoff : Int) (ih : InfoHash) (sh : PeerShard K) : PeerShard K :=
  match sh.swarms.lookup ih with
  | none => sh
  | some sw =>
    let (leechers, numLeechers) := sweepPeers cutoff sw.leechers sh.numLeechers
    let (seeders, numSeeders) := sweepPeers cutoff sw.seeders sh.numSeeders
    let sw : Swarm K := { seeders, leechers }
    { swarms := if sw.isEmpty then sh.swarms.erase ih else sh.swarms.insert ih sw
      numSeeders, numLeechers }

/-- How many entries of a role's map a sweep of the swarm at `ih` removes (none if the
swarm is absent). -/
def PeerShard.expiredCount (cutoff : Int) (r : Role) (ih : InfoHash) (sh : PeerShard K) : ℕ :=
  ((sh.swarms.lookup ih).map fun sw => (expiredKeys cutoff (sw.peers r)).card).getD 0

theorem lookup_sweepSwarm (cutoff : Int) (ih x : InfoHash) (sh : PeerShard K) :
    (sh.sweepSwarm cutoff ih).swarms.lookup x =
      if x = ih then (sh.swarms.lookup ih).bind (Swarm.expire cutoff)
      else sh.swarms.lookup x := by
  unfold PeerShard.sweepSwarm
  by_cases hx : x = ih
  · subst hx
    cases h : sh.swarms.lookup x with
    | none => simp [h]
    | some sw =>
      simp only [sweepPeers_eq, Option.some_bind, Swarm.expire, Swarm.fresh, if_true]
      split_ifs with he <;> simp [he, Finmap.lookup_erase, Finmap.lookup_insert]
  · cases sh.swarms.lookup ih with
    | none => simp [hx]
    | some sw =>
      simp only [sweepPeers_eq, hx, if_false]
      split_ifs <;> simp [Finmap.lookup_erase_ne hx, Finmap.lookup_insert_of_ne _ hx]

theorem num_sweepSwarm (cutoff : Int) (ih : InfoHash) (sh : PeerShard K) (r : Role) :
    (sh.sweepSwarm cutoff ih).num r = sh.num r - UInt64.ofNat (sh.expiredCount cutoff r ih) := by
  unfold PeerShard.sweepSwarm PeerShard.expiredCount
  cases h : sh.swarms.lookup ih with
  | none => simp [h, uint64_ofNat_zero]
  | some sw => cases r <;> simp [h, sweepPeers_eq, PeerShard.num, Swarm.peers]

theorem expiredCount_sweepSwarm_ne {cutoff : Int} {a b : InfoHash} (h : a ≠ b)
    (sh : PeerShard K) (r : Role) :
    (sh.sweepSwarm cutoff b).expiredCount cutoff r a = sh.expiredCount cutoff r a := by
  simp only [PeerShard.expiredCount, lookup_sweepSwarm, h, if_false]

instance (cutoff : Int) : LeftCommutative (PeerShard.sweepSwarm (K := K) cutoff) where
  left_comm a b sh := by
    by_cases hab : a = b
    · rw [hab]
    have hnum : ∀ r, ((sh.sweepSwarm cutoff b).sweepSwarm cutoff a).num r =
        ((sh.sweepSwarm cutoff a).sweepSwarm cutoff b).num r := fun r => by
      rw [num_sweepSwarm, num_sweepSwarm, num_sweepSwarm, num_sweepSwarm,
        expiredCount_sweepSwarm_ne hab, expiredCount_sweepSwarm_ne (Ne.symm hab),
        sub_right_comm]
    refine PeerShard.ext (Finmap.ext_lookup fun x => ?_) (hnum .seeder) (hnum .leecher)
    simp only [lookup_sweepSwarm]
    by_cases hxa : x = a <;> by_cases hxb : x = b <;> simp_all

/-! ## gc and Stop -/

/-- gc's pass over one shard: snapshot the info-hashes, then sweep the swarm of each. -/
def PeerShard.gcShard (cutoff : Int) (sh : PeerShard K) : PeerShard K :=
  sh.swarms.keys.val.foldr (PeerShard.sweepSwarm cutoff) sh

/-- `peerStore.gc`: nothing on a closed store, otherwise a pass over every shard with the
cutoff `cutoff.UnixNano()`. -/
def PeerStore.gc (ps : PeerStore K) (cutoff : Time) : PeerStore K :=
  if ps.closed then ps else { ps with shards := ps.shards.map (·.gcShard cutoff.unixNano) }

theorem PeerStore.closed_gc (ps : PeerStore K) (c : Time) : (ps.gc c).closed = ps.closed := by
  unfold PeerStore.gc
  split_ifs <;> rfl

/-- The runtime panic of closing a closed channel. -/
def closeOfClosedMsg : String := "close of closed channel"

/-- `Stop`: close `closed` (a second `Stop` panics closing it again), wait for the
background tasks, and replace the shards by as many empty ones. -/
def PeerStore.stop (ps : PeerStore K) : Except String (PeerStore K) :=
  if ps.closed then .error closeOfClosedMsg
  else .ok { ps with closed := true, shards := List.replicate ps.shards.length .empty }

end Mochi.Memory
