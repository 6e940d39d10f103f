import Mochi.Spec.Reachable
import Mochi.Spec.ShardIndex

/-!
# The life of a store

A run never changes the configuration `NewPeerStorage` validated, nor the number of shards it
made: every step writes shards back in place, and `Stop` replaces them by as many empty ones.
Nor does it reopen a store: once `Stop` has run, the store is closed and every shard is empty
(`PeerStore.Wf`). That holds of this model, where `Stop` is one step; in Go a handler already
past its `closed` check can still write into the new shards (`Mochi.Spec.StopRace`).

Whether an operation panics depends on nothing but these, over every run: it panics with
`stoppedMsg` once the store is stopped, and, while it is open, dividing by zero in `shardIndex`
exactly when `ShardCount` is a multiple of `2^31`; it never indexes a shard out of range
(`reachable_operations_panic`).

## Key results

- `PeerStore.step_frame`: what a step keeps of the store
- `Reachable.wf`: every reachable state satisfies `PeerStore.Wf`
- `reachable_operations_panic`: when each operation panics, in every reachable state
-/

namespace Mochi.Memory

variable {Peer K : Type} [DecidableEq K] {codec : PeerCodec Peer K}

/-! ## What a step keeps -/

/-- A step keeps the configuration and the number of shards; it closes the store only as
`Stop`, which leaves every shard empty. -/
theorem PeerStore.step_frame {ps ps' : PeerStore K} {a : Action Peer}
    (h : ps.step codec a = .ok ps') :
    ps'.cfg = ps.cfg ∧ ps'.shards.length = ps.shards.length ∧
      (ps'.closed = ps.closed ∨ ps'.closed = true ∧ ∀ sh ∈ ps'.shards, sh = .empty) := by
  cases a with
  | put r ih p clock =>
    obtain ⟨i, sh, -, rfl⟩ := PeerStore.putPeer_eq_ok h
    exact ⟨rfl, List.length_set .., .inl rfl⟩
  | delete r ih p =>
    obtain ⟨⟨err, ps₁⟩, hdel, rfl⟩ := Except.map_eq_ok.mp h
    obtain ⟨i, sh, -, -, rfl⟩ := PeerStore.deletePeer_eq_ok hdel
    exact ⟨rfl, List.length_set .., .inl rfl⟩
  | graduateLeecher ih p clock =>
    obtain ⟨i, sh, -, rfl⟩ := PeerStore.graduateLeecher_eq_ok h
    exact ⟨rfl, List.length_set .., .inl rfl⟩
  | sweep i ih cutoff =>
    cases h
    exact ⟨rfl, List.length_modify .., .inl rfl⟩
  | stop =>
    simp only [PeerStore.step, PeerStore.stop] at h
    split_ifs at h
    cases h
    exact ⟨rfl, List.length_replicate .., .inr ⟨rfl, fun _ hsh => (List.mem_replicate.mp hsh).2⟩⟩

omit [DecidableEq K] in
theorem PeerStore.shardOf_of_closed {ps : PeerStore K} (hc : ps.closed = true) (ih : InfoHash)
    (addr : Addr) : ps.shardOf ih addr = .error stoppedMsg := by
  simp only [PeerStore.shardOf, hc, if_true]

theorem PeerShard.sweepSwarm_empty (cutoff : Int) (ih : InfoHash) :
    (PeerShard.empty : PeerShard K).sweepSwarm cutoff ih = .empty := by
  simp only [PeerShard.sweepSwarm, PeerShard.empty, Finmap.lookup_empty]

theorem modify_eq_self {α : Type*} {f : α → α} {l : List α} (hf : ∀ x ∈ l, f x = x) (i : ℕ) :
    l.modify f i = l :=
  List.ext_getElem? fun m => by
    rw [List.getElem?_modify]
    cases hm : l[m]? with
    | none => rfl
    | some x => simp [hf x (List.getElem?_mem hm)]

/-- On a closed store whose shards are empty, a step panics or changes nothing: an operation
panics reading its shard, a second `Stop` closing `closed` again, and a sweep finds no swarm. -/
theorem PeerStore.step_of_closed {ps ps' : PeerStore K} {a : Action Peer} (hc : ps.closed = true)
    (hempty : ∀ sh ∈ ps.shards, sh = .empty) (h : ps.step codec a = .ok ps') : ps' = ps := by
  cases a with
  | put r ih p clock =>
    obtain ⟨i, sh, hsh, -⟩ := PeerStore.putPeer_eq_ok h
    rw [PeerStore.shardOf_of_closed hc] at hsh
    cases hsh
  | delete r ih p =>
    obtain ⟨⟨err, ps₁⟩, hdel, -⟩ := Except.map_eq_ok.mp h
    obtain ⟨i, sh, hsh, -⟩ := PeerStore.deletePeer_eq_ok hdel
    rw [PeerStore.shardOf_of_closed hc] at hsh
    cases hsh
  | graduateLeecher ih p clock =>
    obtain ⟨i, sh, hsh, -⟩ := PeerStore.graduateLeecher_eq_ok h
    rw [PeerStore.shardOf_of_closed hc] at hsh
    cases hsh
  | sweep i ih cutoff =>
    cases h
    rw [modify_eq_self fun sh hsh => (hempty sh hsh).symm ▸ PeerShard.sweepSwarm_empty cutoff ih]
  | stop =>
    simp only [PeerStore.step, PeerStore.stop, hc, if_true] at h
    cases h

/-! ## The invariant of runs -/

/-- What every run keeps of the store: the configuration is one `Config.Validate` returns,
there are `2 * ShardCount` shards, and a closed store has only empty shards. -/
structure PeerStore.Wf (ps : PeerStore K) : Prop where
  shardCount_pos : 0 < ps.cfg.shardCount
  shardCount_le : ps.cfg.shardCount ≤ maxInt / 2
  length_shards : ps.shards.length = (ps.cfg.shardCount * 2).toNat
  empty_of_closed : ps.closed = true → ∀ sh ∈ ps.shards, sh = .empty

omit [DecidableEq K] in
theorem Config.validate_shardCount (cfg : Config) :
    0 < cfg.validate.shardCount ∧ cfg.validate.shardCount ≤ maxInt / 2 := by
  unfold Config.validate
  split_ifs with h
  · exact ⟨by decide, by decide⟩
  · push_neg at h
    exact h

omit [DecidableEq K] in
theorem newPeerStorage_wf (cfg : Config) : (newPeerStorage cfg : PeerStore K).Wf where
  shardCount_pos := (Config.validate_shardCount cfg).1
  shardCount_le := (Config.validate_shardCount cfg).2
  length_shards := List.length_replicate ..
  empty_of_closed h := nomatch h

theorem PeerStore.Wf.step {ps ps' : PeerStore K} {a : Action Peer} (hwf : ps.Wf)
    (h : ps.step codec a = .ok ps') : ps'.Wf := by
  obtain ⟨hcfg, hlen, hclosed⟩ := PeerStore.step_frame h
  refine ⟨hcfg ▸ hwf.shardCount_pos, hcfg ▸ hwf.shardCount_le,
    hlen.trans (hcfg ▸ hwf.length_shards), fun hc' => ?_⟩
  rcases hclosed with hc | ⟨-, hempty⟩
  · rw [PeerStore.step_of_closed (hc ▸ hc') (hwf.empty_of_closed (hc ▸ hc')) h]
    exact hwf.empty_of_closed (hc ▸ hc')
  · exact hempty

theorem Reachable.wf {ps : PeerStore K} (h : Reachable codec ps) : ps.Wf := by
  induction h with
  | init cfg => exact newPeerStorage_wf cfg
  | step a _ _ hs ih => exact ih.step hs

/-! ## When an operation panics -/

/-- An operation on the store panics with `e`: with `stoppedMsg` once it is stopped, or, while
it is open, dividing by zero in `shardIndex` when `ShardCount` is a multiple of `2^31`. -/
def PeerStore.PanicsWith (ps : PeerStore K) (e : String) : Prop :=
  (ps.closed = true ∧ e = stoppedMsg) ∨
    (ps.closed = false ∧ ps.cfg.shardCount % 2 ^ 31 = 0 ∧ e = divideByZeroMsg)

omit [DecidableEq K] in
/-- With `2n` shards, the divisor `uint32(len(ps.shards))/2` is zero exactly when `n` is a
multiple of `2^31`. -/
theorem PeerStore.Wf.divisor_eq_zero_iff {ps : PeerStore K} (hwf : ps.Wf) :
    ps.shards.length % 2 ^ 32 / 2 = 0 ↔ ps.cfg.shardCount % 2 ^ 31 = 0 := by
  have := hwf.shardCount_pos
  have := hwf.length_shards
  omega

omit [DecidableEq K] in
theorem PeerStore.Wf.shardOf_eq_error_iff {ps : PeerStore K} (hwf : ps.Wf) (ih : InfoHash)
    (addr : Addr) (e : String) : ps.shardOf ih addr = .error e ↔ ps.PanicsWith e := by
  cases hc : ps.closed
  · have hidx : ps.shardOf ih addr = .error e ↔ ps.shardIndex ih addr = .error e := by
      simp only [PeerStore.shardOf, hc, Bool.false_eq_true, if_false]
      cases hi : ps.shardIndex ih addr with
      | error e' => simp
      | ok idx => simp [List.getElem?_eq_getElem (PeerStore.shardIndex_lt_length hi)]
    rw [hidx, PeerStore.shardIndex_toNat]
    split_ifs with hd
    · refine ⟨fun he => .inr ⟨hc, hwf.divisor_eq_zero_iff.mp hd, (Except.error.inj he).symm⟩, ?_⟩
      rintro (⟨hc', -⟩ | ⟨-, -, rfl⟩)
      · exact absurd (hc ▸ hc') Bool.false_ne_true
      · rfl
    · refine ⟨fun he => (nomatch he), ?_⟩
      rintro (⟨hc', -⟩ | ⟨-, h0, -⟩)
      · exact absurd (hc ▸ hc') Bool.false_ne_true
      · exact absurd (hwf.divisor_eq_zero_iff.mpr h0) hd
  · simp [PeerStore.shardOf_of_closed hc, PeerStore.PanicsWith, hc, eq_comm]

variable (codec) in
/-- Every operation panics exactly as reading its shard does. -/
theorem PeerStore.operations_eq_error_iff (ps : PeerStore K) (ih : InfoHash) (p : Peer)
    (e : String) :
    (∀ r clock, ps.putPeer codec r ih p clock = .error e ↔
      ps.shardOf ih (codec.addr p) = .error e) ∧
    (∀ r, ps.deletePeer codec r ih p = .error e ↔ ps.shardOf ih (codec.addr p) = .error e) ∧
    (∀ clock, ps.graduateLeecher codec ih p clock = .error e ↔
      ps.shardOf ih (codec.addr p) = .error e) ∧
    (∀ seeder numWant so lo, ps.announcePeers codec ih seeder numWant p so lo = .error e ↔
      ps.shardOf ih (codec.addr p) = .error e) ∧
    (ps.scrapeSwarm codec ih p = .error e ↔ ps.shardOf ih (codec.addr p) = .error e) := by
  cases hsh : ps.shardOf ih (codec.addr p) with
  | error e' =>
    simp [PeerStore.putPeer, PeerStore.deletePeer, PeerStore.graduateLeecher,
      PeerStore.announcePeers, PeerStore.scrapeSwarm, hsh]
  | ok x =>
    refine ⟨fun r clock => by simp [PeerStore.putPeer, hsh], fun r => by simp [PeerStore.deletePeer, hsh],
      fun clock => by simp [PeerStore.graduateLeecher, hsh], fun seeder numWant so lo => ?_, ?_⟩
    · simp only [PeerStore.announcePeers, hsh]
      split <;> simp
    · simp only [PeerStore.scrapeSwarm, hsh]
      split <;> simp

/-- In every reachable state, whether an operation (`PutSeeder`/`PutLeecher`,
`DeleteSeeder`/`DeleteLeecher`, `GraduateLeecher`, `AnnouncePeers`, `ScrapeSwarm`) panics, and
with which message, depends on neither the info-hash nor the peer: it panics with
`stoppedMsg` once the store is stopped, and, while it is open, with the divide-by-zero panic
exactly when the validated `ShardCount` is a multiple of `2^31`. No operation ever indexes a
shard out of range. -/
theorem reachable_operations_panic {ps : PeerStore K} (h : Reachable codec ps) (ih : InfoHash)
    (p : Peer) (e : String) :
    (∀ r clock, ps.putPeer codec r ih p clock = .error e ↔ ps.PanicsWith e) ∧
    (∀ r, ps.deletePeer codec r ih p = .error e ↔ ps.PanicsWith e) ∧
    (∀ clock, ps.graduateLeecher codec ih p clock = .error e ↔ ps.PanicsWith e) ∧
    (∀ seeder numWant so lo,
      ps.announcePeers codec ih seeder numWant p so lo = .error e ↔ ps.PanicsWith e) ∧
    (ps.scrapeSwarm codec ih p = .error e ↔ ps.PanicsWith e) := by
  have hsh := h.wf.shardOf_eq_error_iff ih (codec.addr p) e
  obtain ⟨hput, hdel, hgrad, hann, hscrape⟩ := PeerStore.operations_eq_error_iff codec ps ih p e
  exact ⟨fun r clock => (hput r clock).trans hsh, fun r => (hdel r).trans hsh,
    fun clock => (hgrad clock).trans hsh, fun s n so lo => (hann s n so lo).trans hsh,
    hscrape.trans hsh⟩

theorem reachable_operations_panic_two_pow_31 :
    Reachable sampleCodec (newPeerStorage ⟨2 ^ 31⟩ : PeerStore ℕ) ∧
    (newPeerStorage ⟨2 ^ 31⟩ : PeerStore ℕ).scrapeSwarm sampleCodec zeroInfoHash 0 =
      .error divideByZeroMsg := by
  have h : Reachable sampleCodec (newPeerStorage ⟨2 ^ 31⟩ : PeerStore ℕ) := ReachableUnder.init _
  refine ⟨h, ((reachable_operations_panic h zeroInfoHash 0 divideByZeroMsg).2.2.2.2).mpr
    (.inr ⟨rfl, by decide, rfl⟩)⟩

end Mochi.Memory
