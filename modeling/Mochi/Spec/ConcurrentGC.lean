import Mochi.Spec.Announce

/-!
# gc among the request handlers

`peerStore.gc` "must be able to execute while other methods on this interface are being
executed in parallel". It snapshots a shard's info-hashes, then sweeps each of them under
the shard's exclusive lock, and between any two of its steps any other operation may run:
puts, deletes and graduations on any swarm, another gc's sweeps, `Stop`.

Whatever runs in between, a pass of gc over a shard does its job: once it has swept every
info-hash of its snapshot, every entry of the shard whose mtime is at or before the cutoff
was written by a put or a graduation made after the snapshot (`concurrent_gc_leaves_no_stale`).
An entry that was in the shard when gc took the snapshot, and that nothing wrote since,
has been expired. And gc never removes a live entry: one that no operation touches, with an
mtime after every sweep's cutoff, outlives the run (`concurrent_gc_keeps_fresh`).

The proof follows one entry, the mtime of a key in a role's map of a swarm of one shard
(`PeerStore.entry`), through a run: one lemma per shard operation says how it changes an
entry (`PeerShard.entry_putPeer`, ...), one step lemma lifts them to the store and says all
a step can do to an entry (`PeerStore.entry_step_cases`), and run lemmas chain the steps
(`PeerStore.entry_runActions`).

## Key results

- `PeerStore.entry_runActions`: an entry at the end of a run was written during it, or was
  there from the start with the same mtime and outlived every sweep of its info-hash
- `concurrent_gc_leaves_no_stale`: a pass of gc interleaved with anything leaves no stale
  entry that nothing wrote since its snapshot
- `concurrent_gc_keeps_fresh`: no sweep removes an entry after its cutoff
-/

namespace Mochi.Memory

variable {Peer K : Type} [DecidableEq K] {codec : PeerCodec Peer K}

/-! ## Entries -/

/-- The mtime of `pk`'s entry in the role-`r` map of the swarm at `ih`, if there is one. -/
def PeerShard.entry (sh : PeerShard K) (ih : InfoHash) (r : Role) (pk : K) : Option Int :=
  (sh.swarms.lookup ih).bind fun sw => (sw.peers r).lookup pk

/-- The same, in the `i`-th shard of the store. -/
def PeerStore.entry (ps : PeerStore K) (i : ℕ) (ih : InfoHash) (r : Role) (pk : K) :
    Option Int :=
  ps.shards[i]?.bind (·.entry ih r pk)

/-- Whether a step writes an entry for `pk` in the role-`r` map at `ih`: a put in that role,
or `GraduateLeecher` into the seeders. -/
def Action.Writes (codec : PeerCodec Peer K) : Action Peer → InfoHash → Role → K → Prop
  | .put r ih p _, ih', r', pk => ih' = ih ∧ r' = r ∧ pk = codec.rawString p
  | .graduateLeecher ih p _, ih', r', pk => ih' = ih ∧ r' = .seeder ∧ pk = codec.rawString p
  | _, _, _, _ => False

/-- Whether a step may change the entry for `pk` in the role-`r` map at `ih` other than by a
sweep: a put or a delete of that key in that role, a graduation of that key, or `Stop`. -/
def Action.Touches (codec : PeerCodec Peer K) : Action Peer → InfoHash → Role → K → Prop
  | .put r ih p _, ih', r', pk => ih' = ih ∧ r' = r ∧ pk = codec.rawString p
  | .delete r ih p, ih', r', pk => ih' = ih ∧ r' = r ∧ pk = codec.rawString p
  | .graduateLeecher ih p _, ih', _, pk => ih' = ih ∧ pk = codec.rawString p
  | .sweep .., _, _, _ => False
  | .stop, _, _, _ => True

/-! ## One shard operation -/

section Shard

variable (ih' : InfoHash) (r' : Role) (pk' : K)

theorem PeerShard.lookup_swarmOrEmpty (sh : PeerShard K) (ih : InfoHash) (r : Role) (pk : K) :
    ((sh.swarmOrEmpty ih).peers r).lookup pk = sh.entry ih r pk := by
  unfold PeerShard.swarmOrEmpty PeerShard.entry
  cases sh.swarms.lookup ih <;> simp

@[simp] theorem PeerShard.entry_empty : (PeerShard.empty : PeerShard K).entry ih' r' pk' = none := by
  simp [PeerShard.entry, PeerShard.empty, Finmap.lookup_empty]

/-- Every mutation stores one swarm at one info-hash: the entries there become that swarm's,
and the others stay. -/
theorem PeerShard.entry_of_swarms {sh sh' : PeerShard K} {ih : InfoHash} {sw : Swarm K}
    (h : sh'.swarms = storeSwarm ih sw sh.swarms) :
    sh'.entry ih' r' pk' = if ih' = ih then (sw.peers r').lookup pk' else sh.entry ih' r' pk' := by
  simp only [PeerShard.entry, h, lookup_storeSwarm]
  split_ifs with hih he
  · rw [Swarm.eq_empty_of_isEmpty he, Swarm.peers_empty, Finmap.lookup_empty]
    rfl
  · rfl
  · rfl

theorem PeerShard.entry_putPeer (r : Role) (ih : InfoHash) (pk : K) (clock : Int)
    (sh : PeerShard K) :
    (sh.putPeer r ih pk clock).entry ih' r' pk' =
      if ih' = ih ∧ r' = r ∧ pk' = pk then some clock else sh.entry ih' r' pk' := by
  rw [PeerShard.entry_of_swarms ih' r' pk' (sh.swarms_putPeer r ih pk clock)]
  by_cases hih : ih' = ih
  · subst hih
    obtain rfl | rfl := Role.eq_or_eq_other r r'
    · by_cases hpk : pk' = pk
      · subst hpk
        simp [PeerShard.putSwarm, Finmap.lookup_insert]
      · simp [PeerShard.putSwarm, hpk, Finmap.lookup_insert_of_ne _ hpk,
          PeerShard.lookup_swarmOrEmpty]
    · simp [PeerShard.putSwarm, PeerShard.lookup_swarmOrEmpty]
  · simp [hih]

theorem PeerShard.entry_deletePeer (r : Role) (ih : InfoHash) (pk : K) (sh : PeerShard K) :
    (sh.deletePeer r ih pk).2.entry ih' r' pk' =
      if ih' = ih ∧ r' = r ∧ pk' = pk then none else sh.entry ih' r' pk' := by
  by_cases hmem : pk ∈ (sh.swarmOrEmpty ih).peers r
  · rw [sh.deletePeer_of_mem r ih pk hmem, PeerShard.entry_of_swarms ih' r' pk'
      (show _ = storeSwarm ih (sh.deleteSwarm r ih pk) sh.swarms from rfl)]
    by_cases hih : ih' = ih
    · subst hih
      obtain rfl | rfl := Role.eq_or_eq_other r r'
      · by_cases hpk : pk' = pk
        · subst hpk
          simp [PeerShard.deleteSwarm, Finmap.lookup_erase]
        · simp [PeerShard.deleteSwarm, hpk, Finmap.lookup_erase_ne hpk,
            PeerShard.lookup_swarmOrEmpty]
      · simp [PeerShard.deleteSwarm, PeerShard.lookup_swarmOrEmpty]
    · simp [hih]
  · rw [sh.deletePeer_of_not_mem r ih pk hmem]
    split_ifs with h
    · obtain ⟨rfl, rfl, rfl⟩ := h
      rw [← PeerShard.lookup_swarmOrEmpty, Finmap.lookup_eq_none.mpr hmem]
    · rfl

theorem PeerShard.entry_graduateLeecher (ih : InfoHash) (pk : K) (clock : Int)
    (sh : PeerShard K) :
    (sh.graduateLeecher ih pk clock).entry ih' r' pk' =
      if ih' = ih ∧ pk' = pk then (if r' = .seeder then some clock else none)
      else sh.entry ih' r' pk' := by
  rw [PeerShard.entry_of_swarms ih' r' pk' (sh.swarms_graduateLeecher ih pk clock)]
  by_cases hih : ih' = ih
  · subst hih
    by_cases hpk : pk' = pk
    · subst hpk
      cases r' <;> simp [PeerShard.graduateSwarm, Finmap.lookup_insert, Finmap.lookup_erase]
    · cases r' <;> simp [PeerShard.graduateSwarm, hpk, Finmap.lookup_insert_of_ne _ hpk,
        Finmap.lookup_erase_ne hpk, ← PeerShard.lookup_swarmOrEmpty]
  · simp [hih]

theorem PeerShard.entry_sweepSwarm (cutoff : Int) (ih : InfoHash) (sh : PeerShard K) :
    (sh.sweepSwarm cutoff ih).entry ih' r' pk' =
      if ih' = ih then (sh.entry ih r' pk').filter (cutoff < ·) else sh.entry ih' r' pk' := by
  rw [PeerShard.entry_of_swarms ih' r' pk' (sh.swarms_sweepSwarm cutoff ih)]
  split_ifs
  · rw [Swarm.peers_fresh, keepFresh, Finmap.lookup_filterVal, PeerShard.lookup_swarmOrEmpty]
  · rfl

end Shard

/-! ## Steps and runs -/

omit [DecidableEq K] in
theorem Action.sweep_inj {i j : ℕ} {ih ih' : InfoHash} {c c' : Int}
    (h : (Action.sweep j ih' c' : Action Peer) = .sweep i ih c) : j = i ∧ ih' = ih ∧ c' = c := by
  cases h
  exact ⟨rfl, rfl, rfl⟩

/-- Writing a shard back changes only that shard's entries. -/
theorem PeerStore.entry_set {ps : PeerStore K} {j : ℕ} {sh sh' : PeerShard K}
    (hj : ps.shards[j]? = some sh) {ih : InfoHash} {r : Role} {pk : K} {p : Prop} [Decidable p]
    {v : Option Int} (h : sh'.entry ih r pk = if p then v else sh.entry ih r pk) (i : ℕ) :
    ({ ps with shards := ps.shards.set j sh' } : PeerStore K).entry i ih r pk =
      if i = j ∧ p then v else ps.entry i ih r pk := by
  unfold PeerStore.entry
  by_cases hij : i = j
  · subst hij
    simp [List.getElem?_set_self (List.getElem?_eq_some_iff.mp hj).1, hj, h]
  · rw [List.getElem?_set_ne (Ne.symm hij), if_neg fun h => hij h.1]

omit [DecidableEq K] in
theorem Action.Writes.touches {a : Action Peer} {ih : InfoHash} {r : Role} {pk : K}
    (h : a.Writes codec ih r pk) : a.Touches codec ih r pk := by
  cases a with
  | put => exact h
  | graduateLeecher => exact ⟨h.1, h.2.2⟩
  | delete | sweep | stop => exact h.elim

/-- What a step does to one entry: it writes it; or it touches it and removes it (a delete or
a graduation out of its map, in its shard, or `Stop`); or it sweeps its info-hash in its shard
and keeps it only after the cutoff; or it leaves it as it was. -/
theorem PeerStore.entry_step_cases {ps ps' : PeerStore K} {a : Action Peer}
    (h : ps.step codec a = .ok ps') (i : ℕ) (ih : InfoHash) (r : Role) (pk : K) :
    a.Writes codec ih r pk ∨ (a.Touches codec ih r pk ∧ ps'.entry i ih r pk = none) ∨
      (∃ c, a = .sweep i ih c ∧ ps'.entry i ih r pk = (ps.entry i ih r pk).filter (c < ·)) ∨
      ((∀ c, a ≠ .sweep i ih c) ∧ ps'.entry i ih r pk = ps.entry i ih r pk) := by
  cases a with
  | put r₀ ih₀ p clock =>
    obtain ⟨j, sh, hsh, rfl⟩ := PeerStore.putPeer_eq_ok h
    rw [PeerStore.entry_set (PeerStore.getElem?_of_shardOf hsh) (sh.entry_putPeer ih r pk ..)]
    split_ifs with hw
    · exact .inl hw.2
    · exact .inr (.inr (.inr ⟨fun _ hc => (nomatch hc), rfl⟩))
  | delete r₀ ih₀ p =>
    obtain ⟨⟨err, ps₁⟩, hdel, rfl⟩ := Except.map_eq_ok.mp h
    obtain ⟨j, sh, hsh, -, rfl⟩ := PeerStore.deletePeer_eq_ok hdel
    rw [PeerStore.entry_set (PeerStore.getElem?_of_shardOf hsh) (sh.entry_deletePeer ih r pk ..)]
    split_ifs with ht
    · exact .inr (.inl ⟨ht.2, rfl⟩)
    · exact .inr (.inr (.inr ⟨fun _ hc => (nomatch hc), rfl⟩))
  | graduateLeecher ih₀ p clock =>
    obtain ⟨j, sh, hsh, rfl⟩ := PeerStore.graduateLeecher_eq_ok h
    rw [PeerStore.entry_set (PeerStore.getElem?_of_shardOf hsh)
      (sh.entry_graduateLeecher ih r pk ..)]
    split_ifs with ht hr
    · exact .inl ⟨ht.2.1, hr, ht.2.2⟩
    · exact .inr (.inl ⟨ht.2, rfl⟩)
    · exact .inr (.inr (.inr ⟨fun _ hc => (nomatch hc), rfl⟩))
  | sweep j ih₀ c =>
    cases h
    simp only [PeerStore.entry, List.getElem?_modify]
    by_cases hs : j = i ∧ ih = ih₀
    · obtain ⟨rfl, rfl⟩ := hs
      refine .inr (.inr (.inl ⟨c, rfl, ?_⟩))
      cases ps.shards[j]? <;> simp [PeerShard.entry_sweepSwarm]
    · refine .inr (.inr (.inr ⟨fun c' hc => hs ⟨(Action.sweep_inj hc).1,
        (Action.sweep_inj hc).2.1.symm⟩, ?_⟩))
      cases ps.shards[i]? with
      | none => rfl
      | some sh =>
        by_cases hji : j = i
        · have hih : ih ≠ ih₀ := fun h => hs ⟨hji, h⟩
          simp [hji, PeerShard.entry_sweepSwarm, hih]
        · simp [hji]
  | stop =>
    simp only [PeerStore.step, PeerStore.stop] at h
    split_ifs at h
    cases h
    refine .inr (.inl ⟨trivial, ?_⟩)
    simp only [PeerStore.entry, List.getElem?_replicate]
    split_ifs <;> simp

/-- An entry after a step was written by it, or was there before with the same mtime; and a
sweep of its info-hash in its shard kept it, so it is after that sweep's cutoff. -/
theorem PeerStore.entry_step {ps ps' : PeerStore K} {a : Action Peer}
    (h : ps.step codec a = .ok ps') {i : ℕ} {ih : InfoHash} {r : Role} {pk : K} {t : Int}
    (ht : ps'.entry i ih r pk = some t) :
    a.Writes codec ih r pk ∨ (ps.entry i ih r pk = some t ∧ ∀ c, a = .sweep i ih c → c < t) := by
  rcases PeerStore.entry_step_cases h i ih r pk with hw | ⟨-, hn⟩ | ⟨c, rfl, hf⟩ | ⟨hns, he⟩
  · exact .inl hw
  · simp [hn] at ht
  · obtain ⟨hmem, hlt⟩ := Option.filter_eq_some.mp (hf ▸ ht)
    exact .inr ⟨hmem, fun c' hc => (Action.sweep_inj hc).2.2 ▸ of_decide_eq_true hlt⟩
  · exact .inr ⟨he ▸ ht, fun c hc => absurd hc (hns c)⟩

/-- What a run does to one entry: an entry at the end of a run was written during it, or was
there from the start with the same mtime, after the cutoff of every sweep of its info-hash in
its shard. -/
theorem PeerStore.entry_runActions {ps ps' : PeerStore K} {as : List (Action Peer)}
    (h : ps.runActions codec as = .ok ps') {i : ℕ} {ih : InfoHash} {r : Role} {pk : K} {t : Int}
    (ht : ps'.entry i ih r pk = some t) :
    (∃ a ∈ as, a.Writes codec ih r pk) ∨
      (ps.entry i ih r pk = some t ∧ ∀ c, .sweep i ih c ∈ as → c < t) := by
  induction as generalizing ps with
  | nil =>
    cases h
    exact .inr ⟨ht, fun _ hc => nomatch hc⟩
  | cons a as ih_run =>
    simp only [PeerStore.runActions] at h
    split at h
    · rename_i ps₁ hs
      rcases ih_run h with ⟨b, hb, hw⟩ | ⟨ht₁, hsweep⟩
      · exact .inl ⟨b, List.mem_cons_of_mem a hb, hw⟩
      · rcases PeerStore.entry_step hs ht₁ with hw | ⟨ht₀, hsweep₀⟩
        · exact .inl ⟨a, List.mem_cons_self a as, hw⟩
        · refine .inr ⟨ht₀, fun c hc => ?_⟩
          rcases List.mem_cons.mp hc with hc | hc
          · exact hsweep₀ c hc.symm
          · exact hsweep c hc
    · cases h

/-- A step that does not touch an entry leaves it, unless it is a sweep of its info-hash in
its shard at a cutoff at or after its mtime. -/
theorem PeerStore.entry_step_of_not_touches {ps ps' : PeerStore K} {a : Action Peer}
    (h : ps.step codec a = .ok ps') {i : ℕ} {ih : InfoHash} {r : Role} {pk : K} {t : Int}
    (ht : ps.entry i ih r pk = some t) (hnt : ¬a.Touches codec ih r pk)
    (hfresh : ∀ c, a = .sweep i ih c → c < t) : ps'.entry i ih r pk = some t := by
  rcases PeerStore.entry_step_cases h i ih r pk with hw | ⟨htc, -⟩ | ⟨c, rfl, hf⟩ | ⟨-, he⟩
  · exact absurd hw.touches hnt
  · exact absurd htc hnt
  · rw [hf, ht, Option.filter_some, if_pos (decide_eq_true (hfresh c rfl))]
  · rw [he, ht]

/-- gc never removes a live entry, whatever runs alongside it. Over every run, interleaving
gc's sweeps with any other operations, an entry of the `i`-th shard that no operation of the
run puts, deletes or graduates, with no `Stop`, and whose mtime is after the cutoff of every
sweep of its info-hash in that shard, is still there at the end, with the same mtime. -/
theorem concurrent_gc_keeps_fresh {ps ps' : PeerStore K} {as : List (Action Peer)}
    (h : ps.runActions codec as = .ok ps') {i : ℕ} {ih : InfoHash} {r : Role} {pk : K} {t : Int}
    (ht : ps.entry i ih r pk = some t) (hnt : ∀ a ∈ as, ¬a.Touches codec ih r pk)
    (hfresh : ∀ c, .sweep i ih c ∈ as → c < t) : ps'.entry i ih r pk = some t := by
  induction as generalizing ps with
  | nil => cases h; exact ht
  | cons a as ih_run =>
    simp only [PeerStore.runActions] at h
    split at h
    · rename_i ps₁ hs
      exact ih_run h (PeerStore.entry_step_of_not_touches hs ht (hnt a (List.mem_cons_self a as))
          fun c hc => hfresh c (hc ▸ List.mem_cons_self a as))
        (fun b hb => hnt b (List.mem_cons_of_mem a hb))
        fun c hc => hfresh c (List.mem_cons_of_mem a hc)
    · cases h

/-- Run among any other operations (puts, deletes, graduations, other sweeps, `Stop`, in any
interleaving), a pass of gc over the `i`-th shard at cutoff `cutoff` (gc's snapshot of the
shard's info-hashes is taken in the state `ps`, and every info-hash of it is swept at some
step of the run) leaves no stale entry behind: at the end of the run, every entry of the shard
with an mtime at or before the cutoff was written by a put or a graduation of the run. -/
theorem concurrent_gc_leaves_no_stale {ps ps' : PeerStore K} {as : List (Action Peer)}
    (h : ps.runActions codec as = .ok ps') {i : ℕ} {sh : PeerShard K}
    (hsh : ps.shards[i]? = some sh) {cutoff : Int}
    (hswept : ∀ ih ∈ sh.swarms, .sweep i ih cutoff ∈ as) (ih : InfoHash) (r : Role) (pk : K)
    (t : Int) (ht : ps'.entry i ih r pk = some t) (hle : t ≤ cutoff) :
    ∃ a ∈ as, a.Writes codec ih r pk := by
  rcases PeerStore.entry_runActions h ht with hw | ⟨ht₀, hsweep⟩
  · exact hw
  · have hmem : ih ∈ sh.swarms := by
      simp only [PeerStore.entry, hsh, Option.some_bind, PeerShard.entry,
        Option.bind_eq_some] at ht₀
      obtain ⟨sw, hsw, -⟩ := ht₀
      exact Finmap.mem_of_lookup_eq_some hsw
    exact absurd (hsweep cutoff (hswept ih hmem)) (not_lt.mpr hle)

/-- A pass of gc over the first shard of the worked example at cutoff 50, with a put of seeder
`0` at 45 after its sweep. -/
def staleRun : List (Action ℕ) := [.sweep 0 zeroInfoHash 50, .put .seeder zeroInfoHash 0 45]

set_option maxRecDepth 2000 in
/-- The sweep removes leecher `4` (mtime 30) and seeder `0` (mtime 10); the entry at or before
the cutoff that is left, seeder `0` at 45, is the put's. -/
theorem concurrent_gc_leaves_no_stale_sampleStore :
    ∃ ps' : PeerStore ℕ, sampleStore.runActions sampleCodec staleRun = .ok ps' ∧
      sampleStore.entry 0 zeroInfoHash .leecher 4 = some 30 ∧
      ps'.entry 0 zeroInfoHash .leecher 4 = none ∧
      sampleStore.shards[0]? = some (sampleStore.shards.getD 0 .empty) ∧
      (∀ ih ∈ (sampleStore.shards.getD 0 .empty).swarms, Action.sweep 0 ih 50 ∈ staleRun) ∧
      ps'.entry 0 zeroInfoHash .seeder 0 = some 45 ∧
      ∃ a ∈ staleRun, a.Writes sampleCodec zeroInfoHash .seeder 0 := by
  have hrun : sampleStore.runActions sampleCodec staleRun =
      .ok ((sampleStore.runActions sampleCodec staleRun).toOption.getD sampleStore) := by rfl
  have hsh : sampleStore.shards[0]? = some (sampleStore.shards.getD 0 .empty) := by rfl
  have hkeys : (sampleStore.shards.getD 0 .empty).swarms.keys = {zeroInfoHash} := by decide
  have hswept : ∀ ih ∈ (sampleStore.shards.getD 0 .empty).swarms,
      Action.sweep 0 ih 50 ∈ staleRun := fun ih h => by
    rw [← Finmap.mem_keys, hkeys, Finset.mem_singleton] at h
    exact h ▸ List.mem_cons_self _ _
  have ht : ((sampleStore.runActions sampleCodec staleRun).toOption.getD sampleStore).entry 0
      zeroInfoHash .seeder 0 = some 45 := by decide
  exact ⟨_, hrun, by decide, by decide, hsh, hswept, ht,
    concurrent_gc_leaves_no_stale hrun hsh hswept zeroInfoHash .seeder 0 45 ht (by decide)⟩

theorem concurrent_gc_keeps_fresh_sweep :
    ∃ ps' : PeerStore ℕ,
      putSeederStore.runActions sampleCodec [.sweep 0 zeroInfoHash (-1)] = .ok ps' ∧
      putSeederStore.entry 0 zeroInfoHash .seeder 0 = some 0 ∧
      ps'.entry 0 zeroInfoHash .seeder 0 = some 0 := by
  refine ⟨_, rfl, rfl, ?_⟩
  exact concurrent_gc_keeps_fresh
    (show putSeederStore.runActions sampleCodec [.sweep 0 zeroInfoHash (-1)] = _ from rfl)
    (show putSeederStore.entry 0 zeroInfoHash .seeder 0 = some 0 from rfl)
    (fun a ha => by simp_all [Action.Touches])
    fun c hc => by simp only [List.mem_singleton, Action.sweep.injEq] at hc; omega

end Mochi.Memory
