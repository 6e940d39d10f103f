import Mochi.Spec.Reachable

/-!
# Seeders and leechers of a swarm

The store does not keep a swarm's two maps disjoint on every run: `PutSeeder` upserts into
the seeders without looking at the leechers, and `PutLeecher` the other way round, so a
peer put as a leecher and then as a seeder is in both maps
(`reachable_seeder_and_leecher`). Only `GraduateLeecher` moves a peer from one map to the
other.

Every other step keeps the maps disjoint, and so does a put of a peer that is not in the
swarm's other map. Disjointness therefore holds on every run whose puts respect the roles
(`RespectsRoles`, `respectsRoles_disjoint`).
-/

namespace Mochi.Memory

variable {Peer K : Type} [DecidableEq K]

/-- No key is both a seeder and a leecher of the swarm. -/
def Swarm.Disjoint (sw : Swarm K) : Prop := ∀ pk, pk ∈ sw.seeders → pk ∉ sw.leechers

/-- Every swarm of the shard has disjoint maps. -/
def PeerShard.Disjoint (sh : PeerShard K) : Prop :=
  ∀ ih sw, sh.swarms.lookup ih = some sw → sw.Disjoint

/-- `PutLeecher(ih, 0)` followed by `PutSeeder(ih, 0)` reaches a state in which key `0` is
both a seeder and a leecher of the swarm. -/
theorem reachable_seeder_and_leecher :
    ¬ ∀ ps : PeerStore ℕ, Reachable sampleCodec ps →
      ∀ sh ∈ ps.shards, ∀ ih sw, sh.swarms.lookup ih = some sw →
        ∀ pk, pk ∈ sw.seeders → pk ∉ sw.leechers := by
  intro h
  obtain ⟨ps, hrun, hps⟩ : ∃ ps, (newPeerStorage ⟨1⟩ : PeerStore ℕ).runActions sampleCodec
      [.put .leecher zeroInfoHash 0 0, .put .seeder zeroInfoHash 0 0] = .ok ps ∧
      ∃ sh ∈ ps.shards, ∃ sw ∈ sh.swarms.lookup zeroInfoHash,
        0 ∈ sw.seeders ∧ 0 ∈ sw.leechers :=
    ⟨_, rfl, by decide⟩
  obtain ⟨sh, hsh, sw, hsw, hs, hl⟩ := hps
  have h0 : Reachable sampleCodec (newPeerStorage ⟨1⟩ : PeerStore ℕ) := ReachableUnder.init _
  exact h ps (h0.runActions hrun) sh hsh zeroInfoHash sw hsw 0 hs hl

/-! ## What each step does to disjointness -/

omit [DecidableEq K] in
theorem PeerShard.Disjoint.swarmOrEmpty {sh : PeerShard K} (h : sh.Disjoint) (ih : InfoHash) :
    (sh.swarmOrEmpty ih).Disjoint := by
  unfold PeerShard.swarmOrEmpty
  cases hl : sh.swarms.lookup ih with
  | none => intro pk hpk; simp [Finmap.not_mem_empty] at hpk
  | some sw => exact h ih sw hl

omit [DecidableEq K] in
theorem PeerShard.Disjoint.store {sh sh' : PeerShard K} {ih : InfoHash} {sw' : Swarm K}
    (h : sh.Disjoint) (hsw : sw'.Disjoint) (hswarms : sh'.swarms = storeSwarm ih sw' sh.swarms) :
    sh'.Disjoint := fun x sw hx => by
  rw [hswarms, lookup_storeSwarm] at hx
  by_cases hxi : x = ih
  · rw [if_pos hxi] at hx
    split_ifs at hx
    cases hx; exact hsw
  · rw [if_neg hxi] at hx
    exact h x sw hx

theorem PeerShard.Disjoint.putPeer {sh : PeerShard K} (h : sh.Disjoint) (r : Role)
    (ih : InfoHash) (pk : K) (clock : Int) (hpk : pk ∉ (sh.swarmOrEmpty ih).peers r.other) :
    (sh.putPeer r ih pk clock).Disjoint := by
  refine h.store (fun k hs hl => ?_) (sh.swarms_putPeer r ih pk clock)
  have hd := h.swarmOrEmpty ih
  cases r <;> simp only [PeerShard.putSwarm, Swarm.setPeers, Swarm.peers, Finmap.mem_insert,
    Role.other] at hs hl hpk
  · rcases hs with rfl | hs
    exacts [hpk hl, hd k hs hl]
  · rcases hl with rfl | hl
    exacts [hpk hs, hd k hs hl]

theorem PeerShard.Disjoint.deletePeer {sh : PeerShard K} (h : sh.Disjoint) (r : Role)
    (ih : InfoHash) (pk : K) : (sh.deletePeer r ih pk).2.Disjoint := by
  by_cases hpk : pk ∈ (sh.swarmOrEmpty ih).peers r
  · rw [sh.deletePeer_of_mem r ih pk hpk]
    refine h.store (fun k hs hl => ?_) rfl
    have hd := h.swarmOrEmpty ih
    cases r <;> simp only [PeerShard.deleteSwarm, Swarm.setPeers, Finmap.mem_erase,
      Swarm.peers] at hs hl
    exacts [hd k hs.2 hl, hd k hs hl.2]
  · rw [sh.deletePeer_of_not_mem r ih pk hpk]
    exact h

theorem PeerShard.Disjoint.graduateLeecher {sh : PeerShard K} (h : sh.Disjoint) (ih : InfoHash)
    (pk : K) (clock : Int) : (sh.graduateLeecher ih pk clock).Disjoint := by
  refine h.store (fun k hs hl => ?_) (sh.swarms_graduateLeecher ih pk clock)
  simp only [PeerShard.graduateSwarm, Finmap.mem_insert, Finmap.mem_erase] at hs hl
  rcases hs with rfl | hs
  exacts [hl.1 rfl, h.swarmOrEmpty ih k hs hl.2]

theorem PeerShard.Disjoint.sweepSwarm {sh : PeerShard K} (h : sh.Disjoint) (cutoff : Int)
    (ih : InfoHash) : (sh.sweepSwarm cutoff ih).Disjoint := by
  refine h.store (fun k hs hl => ?_) (sh.swarms_sweepSwarm cutoff ih)
  simp only [Swarm.fresh, ← Finmap.mem_keys, keys_keepFresh, Finset.mem_filter] at hs hl
  exact h.swarmOrEmpty ih k (Finmap.mem_keys.mp hs.1) (Finmap.mem_keys.mp hl.1)

/-! ## Runs whose puts respect the roles -/

/-- A step that puts no peer into one map of the swarm it touches while the peer's key is in
the other map. -/
def RespectsRoles (codec : PeerCodec Peer K) (ps : PeerStore K) : Action Peer → Prop
  | .put r ih p _ => ∀ i sh, ps.shardOf ih (codec.addr p) = .ok (i, sh) →
      codec.rawString p ∉ (sh.swarmOrEmpty ih).peers r.other
  | _ => True

instance RespectsRoles.decidable (ps : PeerStore K) :
    (a : Action Peer) → Decidable (RespectsRoles codec ps a)
  | .put r ih p _ =>
    match h : ps.shardOf ih (codec.addr p) with
    | .ok (i, sh) => decidable_of_iff (codec.rawString p ∉ (sh.swarmOrEmpty ih).peers r.other)
        ⟨fun hn _ _ h' => by rw [h] at h'; cases h'; exact hn, fun hr => hr i sh h⟩
    | .error _ => isTrue fun _ _ h' => by rw [h] at h'; cases h'
  | .delete .. | .graduateLeecher .. | .sweep .. | .stop => isTrue trivial

/-- Disjointness holds on every run whose puts respect the roles: `DeleteSeeder`,
`DeleteLeecher`, `GraduateLeecher`, gc's sweeps and `Stop` keep it, and so does a put of a
peer not in the swarm's other map. -/
theorem respectsRoles_disjoint {codec : PeerCodec Peer K} {ps : PeerStore K}
    (hr : ReachableUnder codec (RespectsRoles codec) ps) :
    ∀ sh ∈ ps.shards, ∀ ih sw, sh.swarms.lookup ih = some sw →
      ∀ pk, pk ∈ sw.seeders → pk ∉ sw.leechers := by
  have empty : (PeerShard.empty : PeerShard K).Disjoint := fun ih sw h => by
    simp [PeerShard.empty, Finmap.lookup_empty] at h
  suffices hd : ∀ sh ∈ ps.shards, sh.Disjoint from hd
  induction hr with
  | init cfg => exact forall_mem_newPeerStorage empty cfg
  | step a _ ha hs ih =>
    refine PeerStore.forall_mem_step ih hs empty (fun r ih' p clock i sh hput hsh hd => ?_)
      (fun r ih' pk _ hd => hd.deletePeer r ih' pk)
      (fun ih' pk clock _ hd => hd.graduateLeecher ih' pk clock)
      fun cutoff ih' _ hd => hd.sweepSwarm cutoff ih'
    subst hput
    exact hd.putPeer r ih' _ clock (ha i sh hsh)

theorem respectsRoles_disjoint_sampleStore :
    ReachableUnder sampleCodec (RespectsRoles sampleCodec) sampleStore ∧
    ∀ sh ∈ sampleStore.shards, ∀ ih sw, sh.swarms.lookup ih = some sw →
      ∀ pk, pk ∈ sw.seeders → pk ∉ sw.leechers := by
  have h : ReachableUnder sampleCodec (RespectsRoles sampleCodec) sampleStore :=
    ReachableUnder.runActions (.init _) runActions_sampleRun (by decide)
  exact ⟨h, respectsRoles_disjoint h⟩

end Mochi.Memory
