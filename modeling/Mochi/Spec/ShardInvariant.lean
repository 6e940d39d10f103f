import Mochi.Spec.ShardOps

/-!
# The shard invariant

A shard's two `uint64` counters cache the number of seeder and of leecher entries over all
of its swarms, and no swarm in its map is empty (`PeerShard.Inv`). The counters are
`uint64`, so the cached value is the sum modulo `2^64`: the two agree exactly while a shard
holds fewer than `2^64` entries of a role.

Every mutation under the lock stores one swarm at one info-hash and moves the counters by
the change in that swarm's sizes (`Inv.update`); each operation is one instance of that.
-/

namespace Mochi.Memory

variable {K : Type} [DecidableEq K]

/-- The sum over a shard's swarms of the size of a role's map. -/
def PeerShard.total (r : Role) (sh : PeerShard K) : ℕ :=
  sh.swarms.sumVal fun sw => (sw.peers r).keys.card

/-- The shard invariant: each counter is the sum it caches, in `uint64` arithmetic, and
every swarm in the map has an entry. -/
structure PeerShard.Inv (sh : PeerShard K) : Prop where
  num_eq : ∀ r, (sh.num r).toNat = sh.total r % 2 ^ 64
  nonempty : ∀ ih sw, sh.swarms.lookup ih = some sw →
    0 < sw.seeders.keys.card + sw.leechers.keys.card

omit [DecidableEq K] in
theorem Swarm.isEmpty_eq_false_iff (sw : Swarm K) :
    sw.isEmpty = false ↔ 0 < sw.seeders.keys.card + sw.leechers.keys.card := by
  simp only [Swarm.isEmpty, beq_eq_false_iff_ne, ne_eq, lor_eq_zero_iff]
  omega

omit [DecidableEq K] in
theorem PeerShard.empty_inv : (PeerShard.empty : PeerShard K).Inv where
  num_eq r := by cases r <;> simp [PeerShard.empty, total]
  nonempty ih sw h := by simp [PeerShard.empty, Finmap.lookup_empty] at h

omit [DecidableEq K] in
/-- Storing `sw'` at `ih` trades the size of the swarm there for that of `sw'`. -/
theorem total_storeSwarm (r : Role) (ih : InfoHash) (sw' : Swarm K) (sh : PeerShard K) :
    ({ sh with swarms := storeSwarm ih sw' sh.swarms } : PeerShard K).total r +
        ((sh.swarmOrEmpty ih).peers r).keys.card =
      sh.total r + (sw'.peers r).keys.card := by
  have hold : ((sh.swarms.lookup ih).map fun sw => (sw.peers r).keys.card).getD 0 =
      ((sh.swarmOrEmpty ih).peers r).keys.card := by
    unfold PeerShard.swarmOrEmpty
    cases sh.swarms.lookup ih <;> simp
  unfold PeerShard.total storeSwarm
  rw [← hold]
  split_ifs with he
  · rw [Finmap.sumVal_erase, (Swarm.isEmpty_iff sw').mp he r]; rfl
  · exact Finmap.sumVal_insert _ _ _ _

omit [DecidableEq K] in
/-- The one step every mutation under a shard lock takes: store `sw'` at `ih`, and move
each counter by the change in size of that role's map at `ih`. -/
theorem PeerShard.Inv.update {sh sh' : PeerShard K} {ih : InfoHash} {sw' : Swarm K}
    (hinv : sh.Inv) (hswarms : sh'.swarms = storeSwarm ih sw' sh.swarms)
    (hnum : ∀ r, ((sh'.num r).toNat + ((sh.swarmOrEmpty ih).peers r).keys.card) % 2 ^ 64 =
      ((sh.num r).toNat + (sw'.peers r).keys.card) % 2 ^ 64) : sh'.Inv where
  num_eq r := by
    have htot := total_storeSwarm r ih sw' sh
    have hlt := (sh'.num r).toNat_lt_size
    have := hinv.num_eq r
    have := hnum r
    have htot' : sh'.total r = ({ sh with swarms := storeSwarm ih sw' sh.swarms } : PeerShard K).total r := by
      simp only [PeerShard.total, hswarms]
    change _ < 2 ^ 64 at hlt
    omega
  nonempty x sw h := by
    rw [hswarms, lookup_storeSwarm] at h
    split_ifs at h with hx he
    · cases h
      exact (Swarm.isEmpty_eq_false_iff _).mp (by simpa using he)
    · exact hinv.nonempty x sw h

/-! ## Each operation keeps the invariant -/

theorem PeerShard.Inv.putPeer {sh : PeerShard K} (hinv : sh.Inv) (r : Role) (ih : InfoHash)
    (pk : K) (clock : Int) : (sh.putPeer r ih pk clock).Inv := by
  refine hinv.update (sh.swarms_putPeer r ih pk clock) fun r' => ?_
  rw [PeerShard.num_putPeer]
  rcases Role.eq_or_eq_other r r' with rfl | rfl
  · by_cases hpk : pk ∈ (sh.swarmOrEmpty ih).peers r'
    · simp [hpk, PeerShard.putSwarm, Finmap.card_keys_insert]
    · simp [hpk, PeerShard.putSwarm, Finmap.card_keys_insert, uint64_toNat_add]; omega
  · simp [PeerShard.putSwarm]

theorem PeerShard.Inv.deletePeer {sh : PeerShard K} (hinv : sh.Inv) (r : Role) (ih : InfoHash)
    (pk : K) : (sh.deletePeer r ih pk).2.Inv := by
  by_cases hpk : pk ∈ (sh.swarmOrEmpty ih).peers r
  · rw [sh.deletePeer_of_mem r ih pk hpk]
    refine hinv.update rfl fun r' => ?_
    have hpos : 0 < ((sh.swarmOrEmpty ih).peers r).keys.card :=
      Finset.card_pos.mpr ⟨pk, Finmap.mem_keys.mpr hpk⟩
    rcases Role.eq_or_eq_other r r' with rfl | rfl
    · simp only [PeerShard.deleteSwarm, PeerShard.num_withSwarms, PeerShard.num_setNum_self,
        Swarm.peers_setPeers_self, Finmap.card_keys_erase, hpk, if_true, uint64_toNat_sub,
        uint64_toNat_one]
      omega
    · simp [PeerShard.deleteSwarm]
  · rw [sh.deletePeer_of_not_mem r ih pk hpk]
    exact hinv

theorem PeerShard.Inv.graduateLeecher {sh : PeerShard K} (hinv : sh.Inv) (ih : InfoHash)
    (pk : K) (clock : Int) : (sh.graduateLeecher ih pk clock).Inv := by
  refine hinv.update (sh.swarms_graduateLeecher ih pk clock) fun r => ?_
  rw [PeerShard.num_graduateLeecher]
  cases r
  · by_cases hpk : pk ∈ (sh.swarmOrEmpty ih).seeders
    · simp [hpk, PeerShard.graduateSwarm, Finmap.card_keys_insert]
    · simp [hpk, PeerShard.graduateSwarm, Finmap.card_keys_insert, uint64_toNat_add]; omega
  · by_cases hpk : pk ∈ (sh.swarmOrEmpty ih).leechers
    · have hpos : 0 < (sh.swarmOrEmpty ih).leechers.keys.card :=
        Finset.card_pos.mpr ⟨pk, Finmap.mem_keys.mpr hpk⟩
      simp only [hpk, if_true, PeerShard.graduateSwarm, Swarm.peers_leecher, PeerShard.num_leecher,
        Finmap.card_keys_erase, uint64_toNat_sub, uint64_toNat_one]
      omega
    · simp [hpk, PeerShard.graduateSwarm, Finmap.erase_of_not_mem hpk]

/-- The keys a sweep keeps are the keys it does not find expired. -/
theorem keys_keepFresh (cutoff : Int) (m : PeerMap K) :
    (keepFresh cutoff m).keys = m.keys.filter fun pk => ¬expiredIn cutoff m pk := by
  ext pk
  simp only [Finmap.mem_keys, Finset.mem_filter, ← Finmap.lookup_isSome, keepFresh,
    Finmap.lookup_filterVal, expiredIn]
  cases m.lookup pk <;> simp [Option.filter]

theorem card_keepFresh_add (cutoff : Int) (m : PeerMap K) :
    (keepFresh cutoff m).keys.card + (expiredKeys cutoff m).card = m.keys.card := by
  rw [keys_keepFresh, expiredKeys, add_comm]
  exact Finset.filter_card_add_filter_neg_card_eq_card _

theorem PeerShard.expiredCount_eq (cutoff : Int) (r : Role) (ih : InfoHash) (sh : PeerShard K) :
    sh.expiredCount cutoff r ih = (expiredKeys cutoff ((sh.swarmOrEmpty ih).peers r)).card := by
  unfold PeerShard.expiredCount PeerShard.swarmOrEmpty
  cases sh.swarms.lookup ih <;> simp [expiredKeys]

theorem PeerShard.Inv.sweepSwarm {sh : PeerShard K} (hinv : sh.Inv) (cutoff : Int)
    (ih : InfoHash) : (sh.sweepSwarm cutoff ih).Inv := by
  refine hinv.update (sh.swarms_sweepSwarm cutoff ih) fun r => ?_
  have hcard := card_keepFresh_add cutoff ((sh.swarmOrEmpty ih).peers r)
  rw [num_sweepSwarm, PeerShard.expiredCount_eq, Swarm.peers_fresh, uint64_toNat_sub,
    uint64_toNat_ofNat]
  omega

end Mochi.Memory
