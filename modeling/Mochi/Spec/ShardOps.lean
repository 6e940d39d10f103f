import Mochi.Native.GC

/-!
# What each operation does to its shard

One lemma per operation under a shard lock, stated over the swarm the operation finds at
`ih` (`swarmOrEmpty`, the fresh empty swarm when there is none) and the swarm it leaves
there. Every later proof about a shard cites these and never unfolds the operations.

Each mutation stores one swarm at `ih` and deletes the entry when that swarm is empty
(`storeSwarm`): `PutSeeder`, `PutLeecher` and `GraduateLeecher` always leave a non-empty
swarm, `DeleteSeeder`, `DeleteLeecher` and gc's sweep may not.
-/

namespace Mochi.Memory

variable {K : Type} [DecidableEq K]

/-- The swarm at `ih`, read as the fresh empty swarm when there is none. -/
def PeerShard.swarmOrEmpty (sh : PeerShard K) (ih : InfoHash) : Swarm K :=
  (sh.swarms.lookup ih).getD .empty

/-- Store `sw` at `ih`, or delete the entry when `sw` is empty. -/
def storeSwarm (ih : InfoHash) (sw : Swarm K) (m : Finmap fun _ : InfoHash => Swarm K) :
    Finmap fun _ : InfoHash => Swarm K :=
  if sw.isEmpty then m.erase ih else m.insert ih sw

omit [DecidableEq K] in
theorem lookup_storeSwarm (ih x : InfoHash) (sw : Swarm K) (m : Finmap fun _ : InfoHash => Swarm K) :
    (storeSwarm ih sw m).lookup x =
      if x = ih then (if sw.isEmpty then none else some sw) else m.lookup x := by
  unfold storeSwarm
  by_cases hx : x = ih
  · subst hx
    rw [if_pos rfl]
    split_ifs <;> simp [Finmap.lookup_erase, Finmap.lookup_insert]
  · rw [if_neg hx]
    split_ifs <;> simp [Finmap.lookup_erase_ne hx, Finmap.lookup_insert_of_ne _ hx]

omit [DecidableEq K] in
theorem storeSwarm_of_not_isEmpty {ih : InfoHash} {sw : Swarm K}
    (h : sw.isEmpty = false) (m : Finmap fun _ : InfoHash => Swarm K) :
    storeSwarm ih sw m = m.insert ih sw := by
  simp [storeSwarm, h]

/-- An empty swarm is the fresh empty swarm. -/
theorem Swarm.eq_empty_of_isEmpty {sw : Swarm K} (h : sw.isEmpty = true) : sw = .empty := by
  have hc := (Swarm.isEmpty_iff sw).mp h
  ext1
  · exact Finmap.eq_empty_of_card_keys_eq_zero (hc .seeder)
  · exact Finmap.eq_empty_of_card_keys_eq_zero (hc .leecher)

/-- Storing `sw` at `ih` is what the next operation on `ih` finds there. -/
theorem PeerShard.swarmOrEmpty_of_swarms {sh : PeerShard K} {ih : InfoHash} {sw : Swarm K}
    {m : Finmap fun _ : InfoHash => Swarm K} (h : sh.swarms = storeSwarm ih sw m) :
    sh.swarmOrEmpty ih = sw := by
  simp only [PeerShard.swarmOrEmpty, h, lookup_storeSwarm, if_true]
  split_ifs with he
  · exact (Swarm.eq_empty_of_isEmpty he).symm
  · rfl

omit [DecidableEq K] in
theorem storeSwarm_storeSwarm (ih : InfoHash) (sw sw' : Swarm K)
    (m : Finmap fun _ : InfoHash => Swarm K) :
    storeSwarm ih sw (storeSwarm ih sw' m) = storeSwarm ih sw m :=
  Finmap.ext_lookup fun x => by
    simp only [lookup_storeSwarm]
    split_ifs <;> rfl

omit [DecidableEq K] in
/-- A swarm one of whose maps has a key is not empty. -/
theorem Swarm.isEmpty_eq_false_of_mem {sw : Swarm K} {r : Role} {pk : K}
    (h : pk ∈ sw.peers r) : sw.isEmpty = false := by
  have hpos : 0 < (sw.peers r).keys.card :=
    Finset.card_pos.mpr ⟨pk, Finmap.mem_keys.mpr h⟩
  cases he : sw.isEmpty
  · rfl
  · exact absurd ((Swarm.isEmpty_iff sw).mp he r) hpos.ne'

omit [DecidableEq K] in
/-- Shards with the same swarms and the same counters are equal. -/
theorem PeerShard.ext_num {sh sh' : PeerShard K} (hs : sh.swarms = sh'.swarms)
    (hn : ∀ r, sh.num r = sh'.num r) : sh = sh' :=
  PeerShard.ext hs (hn .seeder) (hn .leecher)

/-! ## `PutSeeder` and `PutLeecher` -/

section Put

variable (r : Role) (ih : InfoHash) (pk : K) (clock : Int) (sh : PeerShard K)

/-- The swarm `PutSeeder`/`PutLeecher` leaves at `ih`. -/
def PeerShard.putSwarm : Swarm K :=
  (sh.swarmOrEmpty ih).setPeers r (((sh.swarmOrEmpty ih).peers r).insert pk clock)

theorem PeerShard.putSwarm_isEmpty : (sh.putSwarm r ih pk clock).isEmpty = false :=
  Swarm.isEmpty_eq_false_of_mem
    (show pk ∈ (sh.putSwarm r ih pk clock).peers r by simp [putSwarm, Finmap.mem_insert])

theorem PeerShard.swarms_putPeer :
    (sh.putPeer r ih pk clock).swarms = storeSwarm ih (sh.putSwarm r ih pk clock) sh.swarms := by
  rw [storeSwarm_of_not_isEmpty (putSwarm_isEmpty r ih pk clock sh)]
  unfold PeerShard.putPeer putSwarm swarmOrEmpty
  dsimp only
  split_ifs <;> simp

theorem PeerShard.num_putPeer (r' : Role) :
    (sh.putPeer r ih pk clock).num r' =
      if r' = r ∧ pk ∉ (sh.swarmOrEmpty ih).peers r then sh.num r + 1 else sh.num r' := by
  unfold PeerShard.putPeer
  by_cases hpk : pk ∈ (sh.swarmOrEmpty ih).peers r <;>
    cases r <;> cases r' <;> simp_all [swarmOrEmpty, PeerShard.num, PeerShard.setNum]

end Put

/-! ## `DeleteSeeder` and `DeleteLeecher` -/

section Delete

variable (r : Role) (ih : InfoHash) (pk : K) (sh : PeerShard K)

/-- The swarm `DeleteSeeder`/`DeleteLeecher` leaves at `ih` before the emptiness check. -/
def PeerShard.deleteSwarm : Swarm K :=
  (sh.swarmOrEmpty ih).setPeers r (((sh.swarmOrEmpty ih).peers r).erase pk)

/-- The error case: the swarm is absent, or `pk` is not in the role's map. -/
theorem PeerShard.deletePeer_of_not_mem (h : pk ∉ (sh.swarmOrEmpty ih).peers r) :
    sh.deletePeer r ih pk = (some .resourceDoesNotExist, sh) := by
  unfold PeerShard.deletePeer
  cases hl : sh.swarms.lookup ih with
  | none => rfl
  | some sw => simp_all [swarmOrEmpty]

/-- The success case: decrement the counter and store the swarm without `pk`. -/
theorem PeerShard.deletePeer_of_mem (h : pk ∈ (sh.swarmOrEmpty ih).peers r) :
    sh.deletePeer r ih pk = (none, { sh.setNum r (sh.num r - 1) with
      swarms := storeSwarm ih (sh.deleteSwarm r ih pk) sh.swarms }) := by
  unfold PeerShard.deletePeer
  cases hl : sh.swarms.lookup ih with
  | none => simp [swarmOrEmpty, hl, Finmap.not_mem_empty] at h
  | some sw => simp_all [swarmOrEmpty, deleteSwarm, storeSwarm]

end Delete

/-! ## `GraduateLeecher` -/

section Graduate

variable (ih : InfoHash) (pk : K) (clock : Int) (sh : PeerShard K)

/-- The swarm `GraduateLeecher` leaves at `ih`. -/
def PeerShard.graduateSwarm : Swarm K :=
  let sw := sh.swarmOrEmpty ih
  { seeders := sw.seeders.insert pk clock, leechers := sw.leechers.erase pk }

theorem PeerShard.graduateSwarm_isEmpty : (sh.graduateSwarm ih pk clock).isEmpty = false :=
  Swarm.isEmpty_eq_false_of_mem
    (show pk ∈ (sh.graduateSwarm ih pk clock).peers .seeder by
      simp [graduateSwarm, Finmap.mem_insert])

theorem PeerShard.swarms_graduateLeecher :
    (sh.graduateLeecher ih pk clock).swarms =
      storeSwarm ih (sh.graduateSwarm ih pk clock) sh.swarms := by
  rw [storeSwarm_of_not_isEmpty (graduateSwarm_isEmpty ih pk clock sh)]
  unfold PeerShard.graduateLeecher graduateSwarm
  by_cases h : pk ∈ (sh.swarmOrEmpty ih).leechers
  · simp [swarmOrEmpty] at h ⊢; simp [h]
  · simp only [swarmOrEmpty] at h ⊢
    simp [h, Finmap.erase_of_not_mem h]

theorem PeerShard.num_graduateLeecher (r : Role) :
    (sh.graduateLeecher ih pk clock).num r =
      match r with
      | .seeder => if pk ∈ (sh.swarmOrEmpty ih).seeders then sh.numSeeders else sh.numSeeders + 1
      | .leecher =>
        if pk ∈ (sh.swarmOrEmpty ih).leechers then sh.numLeechers - 1 else sh.numLeechers := by
  unfold PeerShard.graduateLeecher
  cases r <;> by_cases h : pk ∈ (sh.swarmOrEmpty ih).leechers <;> simp_all [swarmOrEmpty]

end Graduate

/-! ## gc's sweep of one swarm -/

theorem PeerShard.swarms_sweepSwarm (cutoff : Int) (ih : InfoHash) (sh : PeerShard K) :
    (sh.sweepSwarm cutoff ih).swarms =
      storeSwarm ih ((sh.swarmOrEmpty ih).fresh cutoff) sh.swarms :=
  Finmap.ext_lookup fun x => by
    rw [lookup_sweepSwarm, lookup_storeSwarm]
    by_cases hx : x = ih
    · subst hx
      cases h : sh.swarms.lookup x with
      | none => simp [swarmOrEmpty, h, Swarm.isEmpty, Swarm.fresh]
      | some sw => simp [swarmOrEmpty, h, Swarm.expire]
    · simp [hx]

end Mochi.Memory
