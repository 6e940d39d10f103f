import Mochi.Spec.StoreOps

/-!
# `GraduateLeecher` is `DeleteLeecher` then `PutSeeder`

`GraduateLeecher` does in one critical section what `DeleteLeecher` followed by
`PutSeeder` does in two: it drops the peer from the leechers (decrementing
`numLeechers` if it was there) and upserts it into the seeders (incrementing
`numSeeders` if it was not). The two agree on every state, including when
`DeleteLeecher` fails with `ErrResourceDoesNotExist` (the swarm or the leecher is absent)
and when it deletes the swarm, which `PutSeeder` then re-creates: an empty swarm is the
fresh one `PutSeeder` would create (`Swarm.eq_empty_of_isEmpty`).
-/

namespace Mochi.Memory

variable {Peer K : Type} [DecidableEq K]

section Shard

variable (ih : InfoHash) (pk : K) (clock : Int) (sh : PeerShard K)

/-- Under the lock, `GraduateLeecher` is `DeleteLeecher` followed by `PutSeeder`. -/
theorem PeerShard.putPeer_deletePeer_leecher :
    (sh.deletePeer .leecher ih pk).2.putPeer .seeder ih pk clock =
      sh.graduateLeecher ih pk clock := by
  by_cases hpk : pk ∈ (sh.swarmOrEmpty ih).leechers
  · rw [sh.deletePeer_of_mem .leecher ih pk hpk]
    have hsw : PeerShard.swarmOrEmpty { sh.setNum .leecher (sh.num .leecher - 1) with
        swarms := storeSwarm ih (sh.deleteSwarm .leecher ih pk) sh.swarms } ih =
        sh.deleteSwarm .leecher ih pk :=
      PeerShard.swarmOrEmpty_of_swarms rfl
    refine PeerShard.ext_num ?_ fun r => ?_
    · rw [swarms_putPeer, swarms_graduateLeecher, putSwarm, hsw]
      exact storeSwarm_storeSwarm ..
    · rw [num_putPeer, num_graduateLeecher, hsw]
      cases r <;> simp [deleteSwarm, hpk, PeerShard.setNum, Swarm.setPeers]
  · rw [sh.deletePeer_of_not_mem .leecher ih pk hpk]
    refine PeerShard.ext_num ?_ fun r => ?_
    · rw [swarms_putPeer, swarms_graduateLeecher, putSwarm, graduateSwarm,
        Finmap.erase_of_not_mem hpk]
      rfl
    · rw [num_putPeer, num_graduateLeecher]
      cases r <;> simp [hpk]

theorem PeerShard.lookup_graduateLeecher :
    (sh.graduateLeecher ih pk clock).swarms.lookup ih = some (sh.graduateSwarm ih pk clock) := by
  rw [swarms_graduateLeecher, storeSwarm_of_not_isEmpty (graduateSwarm_isEmpty ..),
    Finmap.lookup_insert]

end Shard

variable {codec : PeerCodec Peer K}

/-- `GraduateLeecher(ih, p)` at `t` is `DeleteLeecher(ih, p)`, its result ignored, followed
by `PutSeeder(ih, p)` at `t`: the same state, or the same panic. Afterwards `p` is a seeder
and not a leecher of its swarm, whatever it was before. -/
theorem graduateLeecher_eq_deleteLeecher_putSeeder (ps : PeerStore K) (ih : InfoHash)
    (p : Peer) (t : Int) :
    ps.graduateLeecher codec ih p t =
        (ps.deleteLeecher codec ih p).bind (fun r => r.2.putSeeder codec ih p t) ∧
      ∀ ps', ps.graduateLeecher codec ih p t = .ok ps' →
        ∃ i sh, ps'.shardOf ih (codec.addr p) = .ok (i, sh) ∧
          ∃ sw, sh.swarms.lookup ih = some sw ∧
            codec.rawString p ∈ sw.seeders ∧ codec.rawString p ∉ sw.leechers := by
  cases h : ps.shardOf ih (codec.addr p) with
  | error e =>
    rw [PeerStore.graduateLeecher_of_shardOf_error h, PeerStore.deleteLeecher,
      PeerStore.deletePeer_of_shardOf_error h]
    exact ⟨rfl, fun _ h' => by cases h'⟩
  | ok x =>
    obtain ⟨i, sh⟩ := x
    rw [PeerStore.graduateLeecher_of_shardOf h]
    refine ⟨?_, ?_⟩
    · rw [PeerStore.deleteLeecher, PeerStore.deletePeer_of_shardOf h]
      show _ = PeerStore.putPeer codec .seeder _ ih p t
      rw [PeerStore.putPeer_of_shardOf (PeerStore.shardOf_set h _), List.set_set,
        PeerShard.putPeer_deletePeer_leecher]
    · rintro ps' ⟨⟩
      exact ⟨i, _, PeerStore.shardOf_set h _, _, PeerShard.lookup_graduateLeecher ..,
        by simp [PeerShard.graduateSwarm, Finmap.mem_insert, Finmap.mem_erase]⟩

end Mochi.Memory
