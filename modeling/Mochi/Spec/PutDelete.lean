import Mochi.Spec.Reachable
import Mochi.Spec.ShardIndex

/-!
# Puts, deletes and their errors

The laws of the mutations on one peer, and what their errors say.

A second put of a peer overwrites the first's clock reading and counts the peer once. A put
of a peer that is not yet in its role's map, followed by a delete of it, takes the store
back exactly: the counter goes up and down again, and the swarm the put created, or the
swarm it added the key to, is what the delete leaves. The latter needs the swarm that was
there, if any, to be non-empty; every reachable state has that invariant.

A delete returns `ErrResourceDoesNotExist` exactly when the peer is not in its role's map of
the swarm, which is the case when the swarm is absent. The store is then unchanged.
`AnnouncePeers` returns that error exactly when the swarm is absent, and it never writes.

None of these operations returns when it panics. They panic on a stopped store, and
otherwise exactly when the shard index cannot be computed (`PeerStore.shardOf_eq_error_iff`).
A stopped store is reachable, so the laws and the errors hold of the calls that return: on the
worked example after `Stop`, a put followed by a delete panics, and a delete of a peer in no
swarm panics instead of returning the error.

## Key results

- `PeerShard.putPeer_putPeer`, `PeerShard.deletePeer_putPeer`: the two laws on one shard
- `put_delete_algebra`: the two laws on every reachable state, the panics included
- `deletePeer_announcePeers_errors`: when each call panics, when it returns the error, and
  that an error leaves the store as it was
-/

namespace Mochi.Memory

variable {Peer K : Type} [DecidableEq K]

/-! ## One shard -/

section Shard

variable (r : Role) (ih : InfoHash) (pk : K) (sh : PeerShard K)

theorem PeerShard.swarmOrEmpty_putPeer (clock : Int) :
    (sh.putPeer r ih pk clock).swarmOrEmpty ih = sh.putSwarm r ih pk clock :=
  swarmOrEmpty_of_swarms (swarms_putPeer ..)

theorem PeerShard.mem_swarmOrEmpty_putPeer (clock : Int) :
    pk ∈ ((sh.putPeer r ih pk clock).swarmOrEmpty ih).peers r := by
  simp [swarmOrEmpty_putPeer, putSwarm, Finmap.mem_insert]

theorem PeerShard.putSwarm_putPeer (t₁ t₂ : Int) :
    (sh.putPeer r ih pk t₁).putSwarm r ih pk t₂ = sh.putSwarm r ih pk t₂ := by
  simp only [putSwarm, swarmOrEmpty_putPeer, Swarm.peers_setPeers_self, Swarm.setPeers_setPeers,
    Finmap.insert_insert]

/-- A second put of the same key at `t₂` leaves what a put at `t₂` alone leaves. -/
theorem PeerShard.putPeer_putPeer (t₁ t₂ : Int) :
    (sh.putPeer r ih pk t₁).putPeer r ih pk t₂ = sh.putPeer r ih pk t₂ := by
  refine ext_num ?_ fun r' => ?_
  · rw [swarms_putPeer, swarms_putPeer, swarms_putPeer, storeSwarm_storeSwarm,
      putSwarm_putPeer]
  · rw [num_putPeer r ih pk t₂ (sh.putPeer r ih pk t₁),
      if_neg fun h => h.2 (mem_swarmOrEmpty_putPeer r ih pk sh t₁), num_putPeer, num_putPeer]

omit [DecidableEq K] in
/-- Storing back the swarm an operation found leaves the swarms as they were, when the swarm
there, if any, is not empty. -/
theorem PeerShard.storeSwarm_swarmOrEmpty
    (hne : ∀ sw, sh.swarms.lookup ih = some sw → sw.isEmpty = false) :
    storeSwarm ih (sh.swarmOrEmpty ih) sh.swarms = sh.swarms := by
  unfold swarmOrEmpty
  cases hl : sh.swarms.lookup ih with
  | none => simp [storeSwarm, Swarm.isEmpty, Finmap.erase_of_not_mem (Finmap.lookup_eq_none.mp hl)]
  | some sw => rw [Option.getD_some, storeSwarm_of_not_isEmpty (hne sw hl), Finmap.insert_of_lookup hl]

/-- Deleting a key that a put added takes the shard back, when the swarm at `ih`, if any,
is not empty. -/
theorem PeerShard.deletePeer_putPeer (clock : Int) (hpk : pk ∉ (sh.swarmOrEmpty ih).peers r)
    (hne : ∀ sw, sh.swarms.lookup ih = some sw → sw.isEmpty = false) :
    (sh.putPeer r ih pk clock).deletePeer r ih pk = (none, sh) := by
  have hdel : (sh.putPeer r ih pk clock).deleteSwarm r ih pk = sh.swarmOrEmpty ih := by
    simp only [deleteSwarm, swarmOrEmpty_putPeer, putSwarm, Swarm.peers_setPeers_self,
      Swarm.setPeers_setPeers, Finmap.erase_insert_self, Finmap.erase_of_not_mem hpk,
      Swarm.setPeers_peers]
  rw [deletePeer_of_mem _ _ _ _ (mem_swarmOrEmpty_putPeer r ih pk sh clock)]
  refine congrArg _ (ext_num ?_ fun r' => ?_)
  · rw [hdel, swarms_putPeer, storeSwarm_storeSwarm, storeSwarm_swarmOrEmpty ih sh hne]
  · rw [num_withSwarms]
    rcases Role.eq_or_eq_other r r' with rfl | rfl
    · rw [num_setNum_self, num_putPeer, if_pos ⟨rfl, hpk⟩, add_sub_cancel_right]
    · rw [num_setNum_other, num_putPeer, if_neg fun h => Role.ne_other r h.1.symm]

end Shard

/-! ## The store -/

variable {codec : PeerCodec Peer K}

theorem PeerStore.putPeer_putPeer (ps : PeerStore K) (r : Role) (ih : InfoHash) (p : Peer)
    (t₁ t₂ : Int) :
    (ps.putPeer codec r ih p t₁).bind (·.putPeer codec r ih p t₂) = ps.putPeer codec r ih p t₂ := by
  cases hsh : ps.shardOf ih (codec.addr p) with
  | error e => rw [putPeer_of_shardOf_error hsh, putPeer_of_shardOf_error hsh]; rfl
  | ok x =>
    obtain ⟨i, sh⟩ := x
    rw [putPeer_of_shardOf hsh, putPeer_of_shardOf hsh]
    show PeerStore.putPeer codec r _ ih p t₂ = _
    rw [putPeer_of_shardOf (shardOf_set hsh _), List.set_set, PeerShard.putPeer_putPeer]

/-- Put then delete, from a state whose shards hold no empty swarm. -/
theorem PeerStore.putPeer_deletePeer {ps : PeerStore K} (hinv : ps.Inv) (r : Role)
    (ih : InfoHash) (p : Peer) (clock : Int)
    (hpk : codec.rawString p ∉ ((ps.swarmAt ih (codec.addr p)).getD .empty).peers r) :
    (ps.putPeer codec r ih p clock).bind (·.deletePeer codec r ih p) =
      (ps.putPeer codec r ih p clock).map fun _ => (none, ps) := by
  cases hsh : ps.shardOf ih (codec.addr p) with
  | error e => rw [putPeer_of_shardOf_error hsh]; rfl
  | ok x =>
    obtain ⟨i, sh⟩ := x
    have hne : ∀ sw, sh.swarms.lookup ih = some sw → sw.isEmpty = false := fun sw hl =>
      (Swarm.isEmpty_eq_false_iff sw).mpr ((hinv sh (shardOf_mem hsh)).nonempty ih sw hl)
    rw [swarmAt_of_shardOf hsh] at hpk
    rw [putPeer_of_shardOf hsh]
    show PeerStore.deletePeer codec r _ ih p = _
    rw [deletePeer_of_shardOf (shardOf_set hsh _), List.set_set,
      PeerShard.deletePeer_putPeer r ih _ sh clock hpk hne, set_of_shardOf hsh]
    rfl

/-- On every reachable state, for both roles: a put at `t₁` followed by a put at `t₂` is a
put at `t₂`; and when the peer's key is not in its role's map of the swarm, a put followed
by a delete returns nil and the state it started from, or panics as the put alone does. -/
theorem put_delete_algebra {ps : PeerStore K} (hr : Reachable codec ps) (r : Role)
    (ih : InfoHash) (p : Peer) (t₁ t₂ : Int) :
    (ps.putPeer codec r ih p t₁).bind (·.putPeer codec r ih p t₂) = ps.putPeer codec r ih p t₂ ∧
      (codec.rawString p ∉ ((ps.swarmAt ih (codec.addr p)).getD .empty).peers r →
        (ps.putPeer codec r ih p t₁).bind (·.deletePeer codec r ih p) =
          (ps.putPeer codec r ih p t₁).map fun _ => (none, ps)) :=
  ⟨ps.putPeer_putPeer r ih p t₁ t₂, PeerStore.putPeer_deletePeer hr.inv r ih p t₁⟩

set_option maxRecDepth 2000 in
/-- On the worked example, leecher `6` of `zeroInfoHash` at `10.0.0.6`, not yet in the swarm's
leechers `4` and `8`: two puts are the second, and a put then a delete give the store back. -/
theorem put_delete_algebra_sampleStore :
    Reachable sampleCodec sampleStore ∧
      sampleCodec.rawString 6 ∉
        ((sampleStore.swarmAt zeroInfoHash (sampleCodec.addr 6)).getD .empty).peers .leecher ∧
      (sampleStore.putPeer sampleCodec .leecher zeroInfoHash 6 90).bind
          (·.putPeer sampleCodec .leecher zeroInfoHash 6 95) =
        sampleStore.putPeer sampleCodec .leecher zeroInfoHash 6 95 ∧
      (sampleStore.putPeer sampleCodec .leecher zeroInfoHash 6 90).bind
          (·.deletePeer sampleCodec .leecher zeroInfoHash 6) =
        (sampleStore.putPeer sampleCodec .leecher zeroInfoHash 6 90).map
          fun _ => (none, sampleStore) := by
  have hpk : sampleCodec.rawString 6 ∉
      ((sampleStore.swarmAt zeroInfoHash (sampleCodec.addr 6)).getD .empty).peers .leecher := by
    decide
  obtain ⟨hput, hdel⟩ := put_delete_algebra reachable_sampleStore .leecher zeroInfoHash 6 90 95
  exact ⟨reachable_sampleStore, hpk, hput, hdel hpk⟩

/-- The worked example after `Stop`: closed, its shards replaced by empty ones. -/
def stoppedStore : PeerStore ℕ :=
  { sampleStore with closed := true, shards := List.replicate sampleStore.shards.length .empty }

set_option maxRecDepth 2000 in
theorem reachable_stoppedStore : Reachable sampleCodec stoppedStore :=
  ReachableUnder.step .stop reachable_sampleStore trivial (by rfl)

/-- After `Stop`, which is reachable, peer `6` is in no swarm, and yet `PutSeeder` followed by
`DeleteSeeder` panics instead of returning nil: every operation on a stopped store panics. -/
theorem putSeeder_deleteSeeder_stopped :
    Reachable sampleCodec stoppedStore ∧ stoppedStore.closed = true ∧
      stoppedStore.swarmAt zeroInfoHash (sampleCodec.addr 6) = none ∧
      (stoppedStore.putSeeder sampleCodec zeroInfoHash 6 90).bind
          (·.deleteSeeder sampleCodec zeroInfoHash 6) = .error stoppedMsg :=
  ⟨reachable_stoppedStore, rfl, rfl, rfl⟩

/-! ## Errors -/

theorem PeerStore.deletePeer_eq_error_iff {ps : PeerStore K} {r : Role} {ih : InfoHash}
    {p : Peer} :
    (∃ e, ps.deletePeer codec r ih p = .error e) ↔ ∃ e, ps.shardOf ih (codec.addr p) = .error e := by
  cases hsh : ps.shardOf ih (codec.addr p) with
  | error e => simp [deletePeer_of_shardOf_error hsh]
  | ok x => simp [PeerStore.deletePeer, hsh]

/-- On every state: `DeleteSeeder`/`DeleteLeecher` and `AnnouncePeers` panic exactly when the
store is closed or `shardIndex` divides by zero. When the delete returns, it returns
`ErrResourceDoesNotExist` exactly when the peer's key is not in its role's map of the swarm
(in particular when the swarm is absent), and after an error the store is unchanged. When
`AnnouncePeers` returns, it returns that error exactly when the swarm is absent. -/
theorem deletePeer_announcePeers_errors (ps : PeerStore K) (r : Role) (ih : InfoHash)
    (p a : Peer) (seeder : Bool) (numWant : Int) (so lo : List K) :
    ((∃ e, ps.deletePeer codec r ih p = .error e) ↔
        ps.closed = true ∨ ∃ e, ps.shardIndex ih (codec.addr p) = .error e) ∧
      (∀ err ps', ps.deletePeer codec r ih p = .ok (err, ps') →
        (err = some .resourceDoesNotExist ↔
          codec.rawString p ∉ ((ps.swarmAt ih (codec.addr p)).getD .empty).peers r) ∧
        (err ≠ none → ps' = ps)) ∧
      ((∃ e, ps.announcePeers codec ih seeder numWant a so lo = .error e) ↔
        ps.closed = true ∨ ∃ e, ps.shardIndex ih (codec.addr a) = .error e) ∧
      ∀ res, ps.announcePeers codec ih seeder numWant a so lo = .ok res →
        (res = .error .resourceDoesNotExist ↔ ps.swarmAt ih (codec.addr a) = none) := by
  refine ⟨PeerStore.deletePeer_eq_error_iff.trans PeerStore.shardOf_eq_error_iff, fun err ps' h => ?_,
    Iff.trans ?_ PeerStore.shardOf_eq_error_iff, fun res h => ?_⟩
  · obtain ⟨i, sh, hsh, rfl, rfl⟩ := PeerStore.deletePeer_eq_ok h
    rw [PeerStore.swarmAt_of_shardOf hsh]
    by_cases hpk : codec.rawString p ∈ (sh.swarmOrEmpty ih).peers r
    · rw [sh.deletePeer_of_mem r ih _ hpk]
      simp [PeerShard.swarmOrEmpty] at hpk
      simp [hpk]
    · rw [sh.deletePeer_of_not_mem r ih _ hpk, PeerStore.set_of_shardOf hsh]
      simp only [PeerShard.swarmOrEmpty] at hpk
      simp [hpk]
  · cases hsh : ps.shardOf ih (codec.addr a) with
    | error e => simp [PeerStore.announcePeers, hsh]
    | ok x => simp only [PeerStore.announcePeers, hsh]; split <;> simp
  · cases hsh : ps.shardOf ih (codec.addr a) with
    | error e => simp [PeerStore.announcePeers, hsh] at h
    | ok x =>
      rw [PeerStore.swarmAt_of_shardOf hsh]
      simp only [PeerStore.announcePeers, hsh] at h
      split at h <;> cases h <;> simp_all

/-- After `Stop`, which is reachable, the swarm of `zeroInfoHash` in peer `6`'s family is
absent, and yet `DeleteSeeder` panics instead of returning `ErrResourceDoesNotExist`. -/
theorem deleteSeeder_stopped :
    Reachable sampleCodec stoppedStore ∧ stoppedStore.closed = true ∧
      stoppedStore.swarmAt zeroInfoHash (sampleCodec.addr 6) = none ∧
      stoppedStore.deleteSeeder sampleCodec zeroInfoHash 6 = .error stoppedMsg :=
  ⟨reachable_stoppedStore, rfl, rfl, rfl⟩

end Mochi.Memory
