import Mochi.Spec.ShardOps

/-!
# What each operation does to the store

Every operation first reads its shard (`shardOf`): it panics on a closed store, and
otherwise computes the index from the info-hash, the address and the number of shards
alone. A mutation then writes one shard back at that index. The lemmas here say so once
per operation, in the success and in the panic case, so that later proofs about the store
cite them and never unfold an operation.

## Key results

- `PeerStore.shardOf_set`: after a shard is written back, the next operation on the same
  info-hash and address reads the written shard at the same index
- `PeerStore.putPeer_of_shardOf`, `deletePeer_of_shardOf`, `graduateLeecher_of_shardOf`:
  each mutation is its shard-level body applied at `shardOf`'s index
- `PeerStore.swarmAt`: the swarm an operation on an info-hash and an address reads
-/

namespace Mochi.Memory

variable {Peer K : Type} [DecidableEq K] {codec : PeerCodec Peer K}

theorem Except.map_eq_ok {ε α β : Type} {f : α → β} {x : Except ε α} {b : β} :
    x.map f = .ok b ↔ ∃ a, x = .ok a ∧ f a = b := by
  cases x <;> simp [Except.map]

/-! ## Reading the shard -/

section ShardOf

variable {ps : PeerStore K} {ih : InfoHash} {addr : Addr} {i : ℕ} {sh : PeerShard K}

omit [DecidableEq K] in
/-- `shardIndex` reads nothing of the shards but their number. -/
theorem PeerStore.shardIndex_congr (ps ps' : PeerStore K) (ih : InfoHash) (addr : Addr)
    (h : ps'.shards.length = ps.shards.length) :
    ps'.shardIndex ih addr = ps.shardIndex ih addr := by
  simp only [PeerStore.shardIndex, h]

omit [DecidableEq K] in
theorem PeerStore.getElem?_of_shardOf (h : ps.shardOf ih addr = .ok (i, sh)) :
    ps.shards[i]? = some sh := by
  unfold PeerStore.shardOf at h
  split_ifs at h
  split at h
  · cases h
  · split at h
    · cases h
    · cases h; assumption

omit [DecidableEq K] in
/-- The shard `shardOf` reads is in the store. -/
theorem PeerStore.shardOf_mem (h : ps.shardOf ih addr = .ok (i, sh)) : sh ∈ ps.shards :=
  List.getElem?_mem (getElem?_of_shardOf h)

omit [DecidableEq K] in
/-- Writing back the shard `shardOf` read leaves the store as it was. -/
theorem PeerStore.set_of_shardOf (h : ps.shardOf ih addr = .ok (i, sh)) :
    ({ ps with shards := ps.shards.set i sh } : PeerStore K) = ps := by
  have hi := getElem?_of_shardOf h
  have hlen : i < ps.shards.length := (List.getElem?_eq_some_iff.mp hi).1
  refine congrArg (fun l => ({ ps with shards := l } : PeerStore K)) (List.ext_getElem? fun j => ?_)
  by_cases hj : i = j
  · subst hj; rw [List.getElem?_set_self hlen, hi]
  · rw [List.getElem?_set_ne hj]

end ShardOf

/-- The index `shardOf` reads at, or its panic: `shardOf` without the read. -/
def PeerStore.slot (ps : PeerStore K) (ih : InfoHash) (addr : Addr) : Except String ℕ :=
  if ps.closed then .error stoppedMsg else (ps.shardIndex ih addr).map UInt32.toNat

omit [DecidableEq K] in
theorem PeerStore.shardOf_eq_slot (ps : PeerStore K) (ih : InfoHash) (addr : Addr) :
    ps.shardOf ih addr =
      match ps.slot ih addr with
      | .error e => .error e
      | .ok i =>
        match ps.shards[i]? with
        | none => .error indexOutOfRangeMsg
        | some sh => .ok (i, sh) := by
  unfold PeerStore.shardOf PeerStore.slot
  split_ifs
  · rfl
  · cases ps.shardIndex ih addr <;> rfl

omit [DecidableEq K] in
theorem PeerStore.slot_eq_ok {ps : PeerStore K} {ih : InfoHash} {addr : Addr} {i : ℕ} :
    ps.slot ih addr = .ok i ↔
      ps.closed = false ∧ ∃ idx, ps.shardIndex ih addr = .ok idx ∧ idx.toNat = i := by
  unfold PeerStore.slot
  cases ps.closed <;> cases ps.shardIndex ih addr <;> simp [Except.map]

omit [DecidableEq K] in
theorem PeerStore.slot_of_shardOf {ps : PeerStore K} {ih : InfoHash} {addr : Addr} {i : ℕ}
    {sh : PeerShard K} (h : ps.shardOf ih addr = .ok (i, sh)) : ps.slot ih addr = .ok i := by
  rw [shardOf_eq_slot] at h
  cases hs : ps.slot ih addr with
  | error e => rw [hs] at h; cases h
  | ok j =>
    rw [hs] at h
    dsimp only at h
    split at h
    · cases h
    · cases h; rfl

omit [DecidableEq K] in
/-- `slot` reads nothing of the shards but their number. -/
theorem PeerStore.slot_congr (ps ps' : PeerStore K) (hc : ps'.closed = ps.closed)
    (hl : ps'.shards.length = ps.shards.length) (ih : InfoHash) (addr : Addr) :
    ps'.slot ih addr = ps.slot ih addr := by
  simp only [PeerStore.slot, hc, PeerStore.shardIndex_congr ps ps' ih addr hl]

omit [DecidableEq K] in
/-- After the shard at `shardOf`'s index is replaced, `shardOf` reads the new shard. -/
theorem PeerStore.shardOf_set {ps : PeerStore K} {ih : InfoHash} {addr : Addr} {i : ℕ}
    {sh : PeerShard K} (h : ps.shardOf ih addr = .ok (i, sh)) (sh' : PeerShard K) :
    ({ ps with shards := ps.shards.set i sh' } : PeerStore K).shardOf ih addr = .ok (i, sh') := by
  have hi : i < ps.shards.length := (List.getElem?_eq_some_iff.mp (getElem?_of_shardOf h)).1
  rw [shardOf_eq_slot,
    slot_congr ps ⟨ps.cfg, ps.shards.set i sh', ps.closed⟩ rfl (List.length_set ..),
    slot_of_shardOf h]
  simp [List.getElem?_set_self hi]

/-- The swarm of `ih` in the shard an operation with address `addr` reads, when the store is
open, the index in range and the swarm present. -/
def PeerStore.swarmAt (ps : PeerStore K) (ih : InfoHash) (addr : Addr) : Option (Swarm K) :=
  match ps.shardOf ih addr with
  | .ok (_, sh) => sh.swarms.lookup ih
  | .error _ => none

omit [DecidableEq K] in
theorem PeerStore.swarmAt_eq_slot (ps : PeerStore K) (ih : InfoHash) (addr : Addr) :
    ps.swarmAt ih addr =
      match ps.slot ih addr with
      | .error _ => none
      | .ok i => ps.shards[i]?.bind fun sh => sh.swarms.lookup ih := by
  unfold PeerStore.swarmAt
  rw [shardOf_eq_slot]
  cases ps.slot ih addr with
  | error e => rfl
  | ok i =>
    dsimp only
    cases ps.shards[i]? <;> rfl

omit [DecidableEq K] in
theorem PeerStore.swarmAt_of_shardOf {ps : PeerStore K} {ih : InfoHash} {addr : Addr} {i : ℕ}
    {sh : PeerShard K} (h : ps.shardOf ih addr = .ok (i, sh)) :
    ps.swarmAt ih addr = sh.swarms.lookup ih := by
  simp only [PeerStore.swarmAt, h]

omit [DecidableEq K] in
theorem PeerStore.swarmAt_of_shardOf_error {ps : PeerStore K} {ih : InfoHash} {addr : Addr}
    {e : String} (h : ps.shardOf ih addr = .error e) : ps.swarmAt ih addr = none := by
  simp only [PeerStore.swarmAt, h]

/-! ## The mutations -/

section Mutations

variable {ps : PeerStore K} {ih : InfoHash} {p : Peer} {i : ℕ} {sh : PeerShard K} {e : String}

theorem PeerStore.putPeer_of_shardOf (h : ps.shardOf ih (codec.addr p) = .ok (i, sh))
    (r : Role) (clock : Int) :
    ps.putPeer codec r ih p clock =
      .ok { ps with shards := ps.shards.set i (sh.putPeer r ih (codec.rawString p) clock) } := by
  simp only [PeerStore.putPeer, h]

theorem PeerStore.putPeer_of_shardOf_error (h : ps.shardOf ih (codec.addr p) = .error e)
    (r : Role) (clock : Int) : ps.putPeer codec r ih p clock = .error e := by
  simp only [PeerStore.putPeer, h]

theorem PeerStore.deletePeer_of_shardOf (h : ps.shardOf ih (codec.addr p) = .ok (i, sh))
    (r : Role) :
    ps.deletePeer codec r ih p = .ok ((sh.deletePeer r ih (codec.rawString p)).1,
      { ps with shards := ps.shards.set i (sh.deletePeer r ih (codec.rawString p)).2 }) := by
  simp only [PeerStore.deletePeer, h]

theorem PeerStore.deletePeer_of_shardOf_error (h : ps.shardOf ih (codec.addr p) = .error e)
    (r : Role) : ps.deletePeer codec r ih p = .error e := by
  simp only [PeerStore.deletePeer, h]

theorem PeerStore.graduateLeecher_of_shardOf (h : ps.shardOf ih (codec.addr p) = .ok (i, sh))
    (clock : Int) :
    ps.graduateLeecher codec ih p clock =
      .ok { ps with shards := ps.shards.set i (sh.graduateLeecher ih (codec.rawString p) clock) } := by
  simp only [PeerStore.graduateLeecher, h]

theorem PeerStore.graduateLeecher_of_shardOf_error
    (h : ps.shardOf ih (codec.addr p) = .error e) (clock : Int) :
    ps.graduateLeecher codec ih p clock = .error e := by
  simp only [PeerStore.graduateLeecher, h]

/-- A put that returns wrote back the shard `shardOf` read, with the peer put in it. -/
theorem PeerStore.putPeer_eq_ok {r : Role} {clock : Int} {ps' : PeerStore K}
    (h : ps.putPeer codec r ih p clock = .ok ps') :
    ∃ i sh, ps.shardOf ih (codec.addr p) = .ok (i, sh) ∧
      ps' = { ps with shards := ps.shards.set i (sh.putPeer r ih (codec.rawString p) clock) } := by
  unfold PeerStore.putPeer at h
  split at h
  · cases h
  · cases h; exact ⟨_, _, ‹_›, rfl⟩

theorem PeerStore.deletePeer_eq_ok {r : Role} {err : Option StorageError} {ps' : PeerStore K}
    (h : ps.deletePeer codec r ih p = .ok (err, ps')) :
    ∃ i sh, ps.shardOf ih (codec.addr p) = .ok (i, sh) ∧
      err = (sh.deletePeer r ih (codec.rawString p)).1 ∧
      ps' = { ps with shards := ps.shards.set i (sh.deletePeer r ih (codec.rawString p)).2 } := by
  unfold PeerStore.deletePeer at h
  split at h
  · cases h
  · cases h; exact ⟨_, _, ‹_›, rfl, rfl⟩

theorem PeerStore.graduateLeecher_eq_ok {clock : Int} {ps' : PeerStore K}
    (h : ps.graduateLeecher codec ih p clock = .ok ps') :
    ∃ i sh, ps.shardOf ih (codec.addr p) = .ok (i, sh) ∧
      ps' = { ps with shards := ps.shards.set i (sh.graduateLeecher ih (codec.rawString p) clock) } := by
  unfold PeerStore.graduateLeecher at h
  split at h
  · cases h
  · cases h; exact ⟨_, _, ‹_›, rfl⟩

end Mutations

end Mochi.Memory
