import Mochi.Spec.ShardInvariant
import Mochi.Spec.StoreOps

/-!
# Runs of the store

Request handlers call the store from many goroutines, and the garbage collector sweeps it
from one more. Every mutation runs whole under its shard's exclusive lock, and so does
each per-info-hash pass of the collector, so a run of the store is an interleaving of
atomic steps (`Action`): the five mutations at any clock reading, a sweep of any info-hash
of any shard with any cutoff (an info-hash from a snapshot made at any earlier point may
since have been deleted or re-created, and a sweep of an arbitrary one covers both), and
`Stop`. A state is reachable when a run from `NewPeerStorage` leads to it; a step that
panics leads nowhere.

`ReachableUnder` restricts the steps a run may take; `Reachable` allows them all.
`Mochi.Spec.Goroutines` splits the operations, `gc` and `Stop` at Go's synchronisation points,
and `goroutines_refine_atomic` shows that the shards there only go through states reachable
here.

## Key results

- `PeerStore.forall_mem_step`: a step keeps a property of every shard when the empty shard
  has it and the shard operations keep it
- `PeerStore.Inv.step`: every atomic step keeps the shard invariant of every shard
- `reachable_shard_counters`: every shard of every reachable state caches the right counts
  and holds no empty swarm
-/

namespace Mochi.Memory

variable {Peer K : Type} [DecidableEq K] (codec : PeerCodec Peer K)

/-- An atomic step of the store. -/
inductive Action (Peer : Type) where
  /-- `PutSeeder` (`r = .seeder`) or `PutLeecher` (`r = .leecher`). -/
  | put (r : Role) (ih : InfoHash) (p : Peer) (clock : Int)
  /-- `DeleteSeeder` or `DeleteLeecher`, whatever it returns. -/
  | delete (r : Role) (ih : InfoHash) (p : Peer)
  | graduateLeecher (ih : InfoHash) (p : Peer) (clock : Int)
  /-- gc's pass over info-hash `ih` of the `i`-th shard. -/
  | sweep (i : ℕ) (ih : InfoHash) (cutoff : Int)
  | stop

/-- The state after one atomic step. -/
def PeerStore.step (ps : PeerStore K) : Action Peer → Except String (PeerStore K)
  | .put r ih p clock => ps.putPeer codec r ih p clock
  | .delete r ih p => (ps.deletePeer codec r ih p).map Prod.snd
  | .graduateLeecher ih p clock => ps.graduateLeecher codec ih p clock
  | .sweep i ih cutoff =>
    .ok { ps with shards := ps.shards.modify (PeerShard.sweepSwarm cutoff ih) i }
  | .stop => ps.stop

/-- The states runs from `NewPeerStorage` reach when each step satisfies `allowed`. -/
inductive ReachableUnder (allowed : PeerStore K → Action Peer → Prop) : PeerStore K → Prop
  | init (cfg : Config) : ReachableUnder allowed (newPeerStorage cfg)
  | step {ps ps' : PeerStore K} (a : Action Peer) : ReachableUnder allowed ps →
      allowed ps a → ps.step codec a = .ok ps' → ReachableUnder allowed ps'

/-- The states runs from `NewPeerStorage` reach. -/
def Reachable (ps : PeerStore K) : Prop :=
  ReachableUnder codec (fun _ _ => True) ps

/-! ## Steps change one shard -/

variable {codec}

theorem forall_mem_set_of {α : Type*} {Q : α → Prop} {l : List α} {x : α} (i : ℕ)
    (hl : ∀ y ∈ l, Q y) (hx : Q x) : ∀ y ∈ l.set i x, Q y := fun y hy =>
  (List.mem_or_eq_of_mem_set hy).elim (hl y) (· ▸ hx)

theorem forall_mem_modify_of {α : Type*} {Q : α → Prop} {l : List α} {f : α → α} (i : ℕ)
    (hl : ∀ y ∈ l, Q y) (hf : ∀ y, Q y → Q (f y)) : ∀ y ∈ l.modify f i, Q y := by
  intro y hy
  obtain ⟨n, hn⟩ := List.mem_iff_getElem?.mp hy
  rw [List.getElem?_modify] at hn
  cases hln : l[n]? with
  | none => simp [hln] at hn
  | some z =>
    have hz := hl z (List.getElem?_mem hln)
    simp only [hln, Option.map_eq_map, Option.map_some', Option.some.injEq] at hn
    split_ifs at hn <;> subst hn
    exacts [hf z hz, hz]

omit [DecidableEq K] in
theorem forall_mem_newPeerStorage {P : PeerShard K → Prop} (hempty : P .empty) (cfg : Config) :
    ∀ sh ∈ (newPeerStorage cfg : PeerStore K).shards, P sh := fun _ hsh =>
  (List.mem_replicate.mp hsh).2 ▸ hempty

/-- What a step does to the shards: it writes back the shard `shardOf` picks after a put, a
delete or a graduation, sweeps one info-hash of one shard, or installs empty shards. So a
property of shards that the empty shard has and those shard operations keep holds of every
shard after the step; a put has to keep it only from the shard it picks. -/
theorem PeerStore.forall_mem_step {P : PeerShard K → Prop} {ps ps' : PeerStore K}
    {a : Action Peer} (hps : ∀ sh ∈ ps.shards, P sh) (h : ps.step codec a = .ok ps')
    (hempty : P .empty)
    (hput : ∀ r ih p clock i sh, a = .put r ih p clock →
      ps.shardOf ih (codec.addr p) = .ok (i, sh) → P sh → P (sh.putPeer r ih (codec.rawString p) clock))
    (hdelete : ∀ r ih pk sh, P sh → P (sh.deletePeer r ih pk).2)
    (hgraduate : ∀ ih pk clock sh, P sh → P (sh.graduateLeecher ih pk clock))
    (hsweep : ∀ cutoff ih sh, P sh → P (sh.sweepSwarm cutoff ih)) :
    ∀ sh ∈ ps'.shards, P sh := by
  cases a with
  | put r ih p clock =>
    obtain ⟨i, sh, hsh, rfl⟩ := PeerStore.putPeer_eq_ok h
    exact forall_mem_set_of _ hps (hput r ih p clock _ _ rfl hsh (hps _ (PeerStore.shardOf_mem hsh)))
  | delete r ih p =>
    obtain ⟨⟨err, ps₁⟩, hdel, rfl⟩ := Except.map_eq_ok.mp h
    obtain ⟨i, sh, hsh, -, rfl⟩ := PeerStore.deletePeer_eq_ok hdel
    exact forall_mem_set_of _ hps (hdelete _ _ _ _ (hps _ (PeerStore.shardOf_mem hsh)))
  | graduateLeecher ih p clock =>
    obtain ⟨i, sh, hsh, rfl⟩ := PeerStore.graduateLeecher_eq_ok h
    exact forall_mem_set_of _ hps (hgraduate _ _ _ _ (hps _ (PeerStore.shardOf_mem hsh)))
  | sweep i ih cutoff =>
    cases h
    exact forall_mem_modify_of _ hps (hsweep cutoff ih)
  | stop =>
    simp only [PeerStore.step, PeerStore.stop] at h
    split_ifs at h
    cases h
    exact fun _ hsh => (List.mem_replicate.mp hsh).2 ▸ hempty

/-! ## The shard invariant along runs -/

/-- Every shard of the store satisfies the shard invariant. -/
def PeerStore.Inv (ps : PeerStore K) : Prop := ∀ sh ∈ ps.shards, sh.Inv

omit [DecidableEq K] in
theorem newPeerStorage_inv (cfg : Config) : (newPeerStorage cfg : PeerStore K).Inv :=
  forall_mem_newPeerStorage PeerShard.empty_inv cfg

/-- Every atomic step keeps the shard invariant. -/
theorem PeerStore.Inv.step {ps ps' : PeerStore K} {a : Action Peer} (hinv : ps.Inv)
    (h : ps.step codec a = .ok ps') : ps'.Inv :=
  PeerStore.forall_mem_step hinv h PeerShard.empty_inv
    (fun r ih _ clock _ _ _ _ hsh => hsh.putPeer r ih _ clock)
    (fun r ih pk _ hsh => hsh.deletePeer r ih pk)
    (fun ih pk clock _ hsh => hsh.graduateLeecher ih pk clock)
    fun cutoff ih _ hsh => hsh.sweepSwarm cutoff ih

theorem Reachable.inv {ps : PeerStore K} (h : Reachable codec ps) : ps.Inv := by
  induction h with
  | init cfg => exact newPeerStorage_inv cfg
  | step a _ _ hs ih => exact ih.step hs

/-- Over every run, in any interleaving of the five mutations and of gc's per-info-hash
sweeps (from `NewPeerStorage`, or from the empty shards `Stop` installs), every shard's
`numSeeders` and `numLeechers` equal, as `uint64`s, the number of seeder and of leecher
entries of its swarms, and every swarm in a shard's map has an entry. -/
theorem reachable_shard_counters {ps : PeerStore K} (h : Reachable codec ps) :
    ∀ sh ∈ ps.shards,
      (∀ r : Role, (sh.num r).toNat = sh.total r % 2 ^ 64) ∧
      ∀ ih sw, sh.swarms.lookup ih = some sw →
        0 < sw.seeders.keys.card + sw.leechers.keys.card := by
  exact fun sh hsh => ⟨(h.inv sh hsh).num_eq, (h.inv sh hsh).nonempty⟩

variable (codec) in
/-- Run the steps `as` in turn, stopping at the first panic. -/
def PeerStore.runActions (ps : PeerStore K) : List (Action Peer) → Except String (PeerStore K)
  | [] => .ok ps
  | a :: as =>
    match ps.step codec a with
    | .ok ps' => ps'.runActions as
    | .error e => .error e

theorem Reachable.runActions {ps ps' : PeerStore K} {as : List (Action Peer)}
    (hr : Reachable codec ps) (h : ps.runActions codec as = .ok ps') : Reachable codec ps' := by
  induction as generalizing ps with
  | nil => cases h; exact hr
  | cons a as ih =>
    simp only [PeerStore.runActions] at h
    split at h
    · exact ih (ReachableUnder.step a hr trivial ‹_›) h
    · cases h

variable (codec) in
/-- Whether each step of the run `as` from `ps` is allowed in the state it is taken from. -/
def PeerStore.AllowedAlong (allowed : PeerStore K → Action Peer → Prop) :
    PeerStore K → List (Action Peer) → Prop
  | _, [] => True
  | ps, a :: as =>
    allowed ps a ∧ ∀ ps', ps.step codec a = .ok ps' → PeerStore.AllowedAlong allowed ps' as

instance PeerStore.decidableAllowedAlong (allowed : PeerStore K → Action Peer → Prop)
    [∀ ps a, Decidable (allowed ps a)] :
    ∀ ps as, Decidable (PeerStore.AllowedAlong codec allowed ps as)
  | _, [] => isTrue trivial
  | ps, a :: as =>
    match hs : ps.step codec a with
    | .ok ps' =>
      have := PeerStore.decidableAllowedAlong allowed ps' as
      decidable_of_iff (allowed ps a ∧ PeerStore.AllowedAlong codec allowed ps' as)
        (by simp [PeerStore.AllowedAlong, hs])
    | .error _ => decidable_of_iff (allowed ps a) (by simp [PeerStore.AllowedAlong, hs])

theorem ReachableUnder.runActions {allowed : PeerStore K → Action Peer → Prop}
    {ps ps' : PeerStore K} {as : List (Action Peer)} (hr : ReachableUnder codec allowed ps)
    (h : ps.runActions codec as = .ok ps') (hall : ps.AllowedAlong codec allowed as) :
    ReachableUnder codec allowed ps' := by
  induction as generalizing ps with
  | nil => cases h; exact hr
  | cons a as ih =>
    simp only [PeerStore.runActions] at h
    split at h
    · rename_i ps₁ hs
      exact ih (ReachableUnder.step a hr hall.1 hs) h (hall.2 ps₁ hs)
    · cases h

/-! ## A worked example -/

/-- Where the worked examples' peers are: peer `n` at `10.0.0.n` when `n` is even, and at the
IPv6 address `::n` when it is odd. -/
def sampleAddr (n : ℕ) : Addr :=
  if n % 2 = 0 then .v4 ⟨[10, 0, 0, UInt8.ofNat n], rfl⟩
  else .v6 ⟨List.replicate 15 0 ++ [UInt8.ofNat n], by simp⟩ ""

/-- A codec for worked examples: peer `n` at `sampleAddr n`, keyed by `n`. -/
def sampleCodec : PeerCodec ℕ ℕ := ⟨id, sampleAddr, id⟩

/-- The info-hash of twenty zero bytes. -/
def zeroInfoHash : InfoHash := ⟨List.replicate 20 0, rfl⟩

/-- An info-hash whose first four bytes read `1`: in a store of two shards per family it
goes to the second shard of each family, where `zeroInfoHash` goes to the first. -/
def oneInfoHash : InfoHash := ⟨[0, 0, 0, 1] ++ List.replicate 16 0, by simp⟩

/-- A run from `NewPeerStorage` with two shards per family: puts of seeders and leechers of
both families on two info-hashes, a graduation in each family, and deletes of a seeder and of
leechers, each emptying a swarm. -/
def sampleRun : List (Action ℕ) :=
  [.put .seeder zeroInfoHash 0 10, .put .leecher zeroInfoHash 2 20,
    .put .leecher zeroInfoHash 4 30, .put .leecher zeroInfoHash 8 35,
    .put .leecher zeroInfoHash 1 40, .put .seeder zeroInfoHash 3 50,
    .put .seeder oneInfoHash 10 52, .delete .seeder oneInfoHash 10,
    .put .leecher oneInfoHash 7 54, .graduateLeecher oneInfoHash 7 56,
    .delete .seeder oneInfoHash 7,
    .put .leecher oneInfoHash 5 60, .graduateLeecher zeroInfoHash 2 70,
    .delete .leecher oneInfoHash 5, .put .seeder oneInfoHash 6 80]

/-- The store `sampleRun` reaches: in the first IPv4 shard the swarm of `zeroInfoHash` with
seeders `0` (mtime 10) and `2` (70) and leechers `4` (30) and `8` (35); in the second the
swarm of `oneInfoHash` with seeder `6` (80); in the first IPv6 shard the swarm of
`zeroInfoHash` with seeder `3` (50) and leecher `1` (40); the second IPv6 shard is empty. -/
def sampleStore : PeerStore ℕ :=
  match (newPeerStorage ⟨2⟩ : PeerStore ℕ).runActions sampleCodec sampleRun with
  | .ok ps => ps
  | .error _ => newPeerStorage ⟨2⟩

theorem runActions_sampleRun :
    (newPeerStorage ⟨2⟩ : PeerStore ℕ).runActions sampleCodec sampleRun = .ok sampleStore := by
  rfl

theorem reachable_sampleStore : Reachable sampleCodec sampleStore :=
  Reachable.runActions (ReachableUnder.init _) runActions_sampleRun

theorem reachable_shard_counters_sampleStore :
    Reachable sampleCodec sampleStore ∧
    sampleStore.shards.map (fun sh => (sh.numSeeders, sh.numLeechers)) =
      [(2, 2), (1, 0), (1, 1), (0, 0)] ∧
    ∀ sh ∈ sampleStore.shards,
      (∀ r : Role, (sh.num r).toNat = sh.total r % 2 ^ 64) ∧
      ∀ ih sw, sh.swarms.lookup ih = some sw →
        0 < sw.seeders.keys.card + sw.leechers.keys.card :=
  ⟨reachable_sampleStore, by decide, reachable_shard_counters reachable_sampleStore⟩

end Mochi.Memory
