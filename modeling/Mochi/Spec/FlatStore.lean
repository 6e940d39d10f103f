import Mochi.Spec.Announce
import Mochi.Spec.GCCorrect
import Mochi.Spec.ShardIndex

/-!
# The shards are invisible

The store spreads its swarms over `2 * ShardCount` shards, the first half for IPv4 and the
second for IPv6. Nothing a caller sees depends on that split: every run of calls that does
not panic returns what the same per-swarm code returns on one map keyed by
`(infohash, addr.Is6())` (`FlatStore`), whatever the shard count.

Two facts about `shardIndex` carry the proof. It reads only the info-hash and the family of
the address (`slot_congr_is6`), and it never sends both families of one info-hash to one
shard (`is6_eq_of_slot`). So the swarm an operation reads, `swarmAt ih addr`, is the flat
store's swarm at `(ih, addr.Is6())` (`Simulates`), and every call keeps that so
(`Simulates.call`).

Since the flat store keys its swarms by family, a swarm of the sharded store holds only keys
that calls with an address of its own family stored (`FlatStore.StoredBy`).

## Key results

- `Simulates.call`: one call on both stores returns the same reply and keeps them related
- `shards_refine_flat`: a run of calls that does not panic returns the flat store's replies,
  and every swarm holds only keys stored by peers of its own family
-/

namespace Mochi.Memory

variable {Peer K : Type} [DecidableEq K] (codec : PeerCodec Peer K)

/-! ## Calls -/

/-- A call on the store. -/
inductive Call (Peer K : Type) where
  /-- `PutSeeder` (`r = .seeder`) or `PutLeecher` at clock `clock`. -/
  | put (r : Role) (ih : InfoHash) (p : Peer) (clock : Int)
  /-- `DeleteSeeder` or `DeleteLeecher`. -/
  | delete (r : Role) (ih : InfoHash) (p : Peer)
  | graduateLeecher (ih : InfoHash) (p : Peer) (clock : Int)
  /-- `AnnouncePeers`, its two ranges meeting the swarm's keys in the orders given. -/
  | announcePeers (ih : InfoHash) (seeder : Bool) (numWant : Int) (p : Peer)
      (seederOrder leecherOrder : List K)
  | scrapeSwarm (ih : InfoHash) (p : Peer)
  | gc (cutoff : Time)

/-- What a call returns. -/
inductive Reply (Peer : Type) where
  | done
  | deleted (err : Option StorageError)
  | announced (peers : Except StorageError (List Peer))
  | scraped (s : Scrape)

/-- A call on the sharded store: its reply and the new state, or its panic. -/
def PeerStore.call (ps : PeerStore K) : Call Peer K → Except String (Reply Peer × PeerStore K)
  | .put r ih p clock => (ps.putPeer codec r ih p clock).map fun ps' => (.done, ps')
  | .delete r ih p => (ps.deletePeer codec r ih p).map fun (err, ps') => (.deleted err, ps')
  | .graduateLeecher ih p clock =>
    (ps.graduateLeecher codec ih p clock).map fun ps' => (.done, ps')
  | .announcePeers ih seeder numWant p so lo =>
    (ps.announcePeers codec ih seeder numWant p so lo).map fun r => (.announced r, ps)
  | .scrapeSwarm ih p => (ps.scrapeSwarm codec ih p).map fun s => (.scraped s, ps)
  | .gc cutoff => .ok (.done, ps.gc cutoff)

/-- Calls in turn on the sharded store, stopping at the first panic. -/
def PeerStore.runCalls (ps : PeerStore K) :
    List (Call Peer K) → Except String (List (Reply Peer) × PeerStore K)
  | [] => .ok ([], ps)
  | c :: cs =>
    match ps.call codec c with
    | .error e => .error e
    | .ok (r, ps') =>
      match ps'.runCalls cs with
      | .error e => .error e
      | .ok (rs, ps'') => .ok (r :: rs, ps'')

/-! ## The store without shards -/

/-- Every swarm in one map, keyed by info-hash and address family. -/
abbrev FlatStore (K : Type) := Finmap fun _ : InfoHash × Bool => Swarm K

/-- A call on the flat store: the per-swarm code of each operation, run on the swarm at
`(ih, addr.Is6())`, with no counters. -/
def FlatStore.call (fs : FlatStore K) : Call Peer K → Reply Peer × FlatStore K
  | .put r ih p clock =>
    let key := (ih, (codec.addr p).is6)
    let sw := (fs.lookup key).getD .empty
    (.done, fs.insert key (sw.setPeers r ((sw.peers r).insert (codec.rawString p) clock)))
  | .delete r ih p =>
    let key := (ih, (codec.addr p).is6)
    match fs.lookup key with
    | none => (.deleted (some .resourceDoesNotExist), fs)
    | some sw =>
      if codec.rawString p ∉ sw.peers r then (.deleted (some .resourceDoesNotExist), fs) else
      let sw := sw.setPeers r ((sw.peers r).erase (codec.rawString p))
      (.deleted none, if sw.isEmpty then fs.erase key else fs.insert key sw)
  | .graduateLeecher ih p clock =>
    let key := (ih, (codec.addr p).is6)
    let sw := (fs.lookup key).getD .empty
    (.done, fs.insert key
      ⟨sw.seeders.insert (codec.rawString p) clock, sw.leechers.erase (codec.rawString p)⟩)
  | .announcePeers ih seeder numWant p so lo =>
    match fs.lookup (ih, (codec.addr p).is6) with
    | none => (.announced (.error .resourceDoesNotExist), fs)
    | some _ =>
      (.announced (.ok ((announceKeys seeder numWant (codec.rawString p) so lo).map
        codec.newPeer)), fs)
  | .scrapeSwarm ih p =>
    match fs.lookup (ih, (codec.addr p).is6) with
    | none => (.scraped ⟨ih, 0, 0⟩, fs)
    | some sw =>
      (.scraped ⟨ih, UInt32.ofNat sw.seeders.keys.card, UInt32.ofNat sw.leechers.keys.card⟩, fs)
  | .gc cutoff => (.done, fs.filterMapVal (Swarm.expire cutoff.unixNano))

/-- Calls in turn on the flat store, which never panics. -/
def FlatStore.runCalls (fs : FlatStore K) : List (Call Peer K) → List (Reply Peer) × FlatStore K
  | [] => ([], fs)
  | c :: cs =>
    let rest := (fs.call codec c).2.runCalls cs
    ((fs.call codec c).1 :: rest.1, rest.2)

/-! ## Reads of the sharded store -/

section Reads

variable {codec}

theorem PeerStore.announcePeers_of_shardOf {ps : PeerStore K} {ih : InfoHash} {p : Peer}
    {i : ℕ} {sh : PeerShard K} (h : ps.shardOf ih (codec.addr p) = .ok (i, sh))
    (seeder : Bool) (numWant : Int) (so lo : List K) :
    ps.announcePeers codec ih seeder numWant p so lo =
      match sh.swarms.lookup ih with
      | none => .ok (.error .resourceDoesNotExist)
      | some _ =>
        .ok (.ok ((announceKeys seeder numWant (codec.rawString p) so lo).map codec.newPeer)) := by
  cases hl : sh.swarms.lookup ih <;> simp only [PeerStore.announcePeers, h, hl]

omit [DecidableEq K] in
theorem PeerStore.scrapeSwarm_of_shardOf {ps : PeerStore K} {ih : InfoHash} {p : Peer}
    {i : ℕ} {sh : PeerShard K} (h : ps.shardOf ih (codec.addr p) = .ok (i, sh)) :
    ps.scrapeSwarm codec ih p =
      match sh.swarms.lookup ih with
      | none => .ok ⟨ih, 0, 0⟩
      | some sw =>
        .ok ⟨ih, UInt32.ofNat sw.seeders.keys.card, UInt32.ofNat sw.leechers.keys.card⟩ := by
  cases hl : sh.swarms.lookup ih <;> simp only [PeerStore.scrapeSwarm, h, hl]

omit [DecidableEq K] in
/-- Writing back the shard at `shardOf`'s index changes only the swarm at its info-hash and
family. -/
theorem PeerStore.swarmAt_set {ps : PeerStore K} {ih : InfoHash} {addr : Addr} {i : ℕ}
    {sh sh' : PeerShard K} (h : ps.shardOf ih addr = .ok (i, sh))
    (hframe : ∀ x, x ≠ ih → sh'.swarms.lookup x = sh.swarms.lookup x) (ih' : InfoHash)
    (addr' : Addr) :
    ({ ps with shards := ps.shards.set i sh' } : PeerStore K).swarmAt ih' addr' =
      if ih' = ih ∧ addr'.is6 = addr.is6 then sh'.swarms.lookup ih else ps.swarmAt ih' addr' := by
  have hslot := slot_of_shardOf h
  have hi := getElem?_of_shardOf h
  have hlen : i < ps.shards.length := (List.getElem?_eq_some_iff.mp hi).1
  rw [swarmAt_eq_slot, swarmAt_eq_slot,
    slot_congr ps { ps with shards := ps.shards.set i sh' } rfl (List.length_set ..)]
  split_ifs with hk
  · obtain ⟨rfl, h6⟩ := hk
    rw [ps.slot_congr_is6 ih' h6, hslot]
    simp [List.getElem?_set_self hlen]
  · cases hj : ps.slot ih' addr' with
    | error e => rfl
    | ok j =>
      dsimp only
      by_cases hji : i = j
      · subst hji
        rw [List.getElem?_set_self hlen, hi, Option.some_bind, Option.some_bind]
        refine hframe ih' fun hih => hk ⟨hih, ?_⟩
        subst hih
        exact is6_eq_of_slot hj hslot
      · rw [List.getElem?_set_ne hji]

theorem PeerStore.swarmAt_gc {ps : PeerStore K} (hopen : ps.closed = false) (c : Time)
    (ih : InfoHash) (addr : Addr) :
    (ps.gc c).swarmAt ih addr = (ps.swarmAt ih addr).bind (Swarm.expire c.unixNano) := by
  rw [PeerStore.gc_of_open hopen, swarmAt_eq_slot, swarmAt_eq_slot,
    slot_congr ps { ps with shards := ps.shards.map (PeerShard.expireAll c.unixNano) } rfl
      (List.length_map ..)]
  cases ps.slot ih addr with
  | error e => rfl
  | ok j =>
    dsimp only
    rw [List.getElem?_map]
    cases ps.shards[j]? <;> simp

end Reads

/-! ## The sharded store simulates the flat one -/

/-- `ps` holds what `fs` holds: it is open, and the swarm every operation on an info-hash and
an address reads is the flat store's swarm at the info-hash and the address's family. -/
structure Simulates (ps : PeerStore K) (fs : FlatStore K) : Prop where
  isOpen : ps.closed = false
  swarmAt_eq : ∀ ih addr, ps.swarmAt ih addr = fs.lookup (ih, addr.is6)

section Simulation

variable {codec}

omit [DecidableEq K] in
theorem newPeerStorage_simulates (cfg : Config) :
    Simulates (newPeerStorage cfg : PeerStore K) ∅ where
  isOpen := rfl
  swarmAt_eq ih addr := by
    rw [PeerStore.swarmAt_eq_slot, Finmap.lookup_empty]
    cases (newPeerStorage cfg : PeerStore K).slot ih addr with
    | error e => rfl
    | ok j =>
      dsimp only [newPeerStorage]
      rw [List.getElem?_replicate]
      split_ifs <;> simp [PeerShard.empty]

omit [DecidableEq K] in
theorem Simulates.lookup_of_shardOf {ps : PeerStore K} {fs : FlatStore K} (hs : Simulates ps fs)
    {ih : InfoHash} {addr : Addr} {i : ℕ} {sh : PeerShard K}
    (h : ps.shardOf ih addr = .ok (i, sh)) : sh.swarms.lookup ih = fs.lookup (ih, addr.is6) := by
  rw [← hs.swarmAt_eq, PeerStore.swarmAt_of_shardOf h]

omit [DecidableEq K] in
/-- Writing back a shard that changes only the swarm at `ih`, as the flat store changes only
the swarm at `(ih, addr.Is6())`, keeps the stores related. -/
theorem Simulates.set {ps : PeerStore K} {fs fs' : FlatStore K} {ih : InfoHash} {addr : Addr}
    {i : ℕ} {sh sh' : PeerShard K} (hs : Simulates ps fs) (h : ps.shardOf ih addr = .ok (i, sh))
    (hframe : ∀ x, x ≠ ih → sh'.swarms.lookup x = sh.swarms.lookup x)
    (hfs : ∀ key, key ≠ (ih, addr.is6) → fs'.lookup key = fs.lookup key)
    (hnew : fs'.lookup (ih, addr.is6) = sh'.swarms.lookup ih) :
    Simulates { ps with shards := ps.shards.set i sh' } fs' where
  isOpen := hs.isOpen
  swarmAt_eq ih' addr' := by
    rw [PeerStore.swarmAt_set h hframe]
    split_ifs with hk
    · obtain ⟨rfl, h6⟩ := hk
      rw [h6, hnew]
    · rw [hs.swarmAt_eq, hfs]
      intro heq
      exact hk ⟨congrArg Prod.fst heq, congrArg Prod.snd heq⟩

omit [DecidableEq K] in
theorem frame_of_swarms {sh sh' : PeerShard K} {ih : InfoHash} (sw : Swarm K)
    (h : sh'.swarms = storeSwarm ih sw sh.swarms) (x : InfoHash) (hx : x ≠ ih) :
    sh'.swarms.lookup x = sh.swarms.lookup x := by
  rw [h, lookup_storeSwarm, if_neg hx]

omit [DecidableEq K] in
theorem lookup_of_swarms {sh sh' : PeerShard K} {ih : InfoHash} (sw : Swarm K)
    (h : sh'.swarms = storeSwarm ih sw sh.swarms) :
    sh'.swarms.lookup ih = if sw.isEmpty then none else some sw := by
  rw [h, lookup_storeSwarm, if_pos rfl]

omit [DecidableEq K] in
theorem lookup_insert_of_ne_key {fs : FlatStore K} {key key' : InfoHash × Bool} {sw : Swarm K}
    (h : key' ≠ key) : (fs.insert key sw).lookup key' = fs.lookup key' :=
  Finmap.lookup_insert_of_ne _ h

/-- One call returns on the sharded store what it returns on the flat store, and keeps the two
related. -/
theorem Simulates.call {ps ps' : PeerStore K} {fs : FlatStore K} {c : Call Peer K}
    {r : Reply Peer} (hs : Simulates ps fs) (h : ps.call codec c = .ok (r, ps')) :
    r = (fs.call codec c).1 ∧ Simulates ps' (fs.call codec c).2 := by
  cases c with
  | put role ih p clock =>
    obtain ⟨ps₁, hput, hr⟩ := Except.map_eq_ok.mp h
    obtain ⟨i, sh, hsh, rfl⟩ := PeerStore.putPeer_eq_ok hput
    cases hr
    have hsw := sh.swarms_putPeer role ih (codec.rawString p) clock
    refine ⟨rfl, hs.set hsh (frame_of_swarms _ hsw) (fun _ => lookup_insert_of_ne_key) ?_⟩
    dsimp only [FlatStore.call]
    rw [lookup_of_swarms _ hsw, PeerShard.putSwarm_isEmpty, Finmap.lookup_insert]
    simp [PeerShard.putSwarm, PeerShard.swarmOrEmpty, hs.lookup_of_shardOf hsh]
  | delete role ih p =>
    obtain ⟨⟨err, ps₁⟩, hdel, hr⟩ := Except.map_eq_ok.mp h
    obtain ⟨i, sh, hsh, rfl, rfl⟩ := PeerStore.deletePeer_eq_ok hdel
    cases hr
    have hl := hs.lookup_of_shardOf hsh
    have hunchanged := hs.set hsh (fun _ _ => rfl) (fun _ _ => rfl) hl.symm
    cases hf : fs.lookup (ih, (codec.addr p).is6) with
    | none =>
      rw [sh.deletePeer_of_not_mem role ih _ (by simp [PeerShard.swarmOrEmpty, hl, hf, Finmap.not_mem_empty])]
      simpa only [FlatStore.call, hf, true_and] using hunchanged
    | some sw =>
      have hS : sh.swarmOrEmpty ih = sw := by simp [PeerShard.swarmOrEmpty, hl, hf]
      by_cases hpk : codec.rawString p ∈ sw.peers role
      · rw [sh.deletePeer_of_mem role ih _ (hS ▸ hpk)]
        simp only [FlatStore.call, hf, hpk, not_true_eq_false, if_false, true_and]
        refine hs.set hsh (frame_of_swarms _ rfl) (fun key hkey => ?_) ?_
        · split_ifs
          · exact Finmap.lookup_erase_ne hkey
          · exact lookup_insert_of_ne_key hkey
        · rw [lookup_of_swarms _ rfl, PeerShard.deleteSwarm, hS]
          split_ifs <;> simp [Finmap.lookup_erase, Finmap.lookup_insert]
      · rw [sh.deletePeer_of_not_mem role ih _ (hS ▸ hpk)]
        simpa only [FlatStore.call, hf, hpk, not_false_eq_true, if_true, true_and] using hunchanged
  | graduateLeecher ih p clock =>
    obtain ⟨ps₁, hgrad, hr⟩ := Except.map_eq_ok.mp h
    obtain ⟨i, sh, hsh, rfl⟩ := PeerStore.graduateLeecher_eq_ok hgrad
    cases hr
    have hsw := sh.swarms_graduateLeecher ih (codec.rawString p) clock
    refine ⟨rfl, hs.set hsh (frame_of_swarms _ hsw) (fun _ => lookup_insert_of_ne_key) ?_⟩
    dsimp only [FlatStore.call]
    rw [lookup_of_swarms _ hsw, PeerShard.graduateSwarm_isEmpty, Finmap.lookup_insert]
    simp [PeerShard.graduateSwarm, PeerShard.swarmOrEmpty, hs.lookup_of_shardOf hsh]
  | announcePeers ih seeder numWant p so lo =>
    simp only [PeerStore.call] at h
    cases hsh : ps.shardOf ih (codec.addr p) with
    | error e => simp only [PeerStore.announcePeers, hsh] at h; cases h
    | ok x =>
      obtain ⟨i, sh⟩ := x
      rw [PeerStore.announcePeers_of_shardOf hsh, hs.lookup_of_shardOf hsh] at h
      simp only [FlatStore.call]
      split at h <;> cases h <;> exact ⟨rfl, hs⟩
  | scrapeSwarm ih p =>
    simp only [PeerStore.call] at h
    cases hsh : ps.shardOf ih (codec.addr p) with
    | error e => simp only [PeerStore.scrapeSwarm, hsh] at h; cases h
    | ok x =>
      obtain ⟨i, sh⟩ := x
      rw [PeerStore.scrapeSwarm_of_shardOf hsh, hs.lookup_of_shardOf hsh] at h
      simp only [FlatStore.call]
      split at h <;> cases h <;> exact ⟨rfl, hs⟩
  | gc cutoff =>
    cases h
    refine ⟨rfl, ⟨by rw [PeerStore.closed_gc, hs.isOpen], fun ih addr => ?_⟩⟩
    rw [PeerStore.swarmAt_gc hs.isOpen, hs.swarmAt_eq]
    exact (Finmap.lookup_filterMapVal ..).symm

/-- Over a run with no panic, the sharded store returns the flat store's replies and stays
related to it. -/
theorem Simulates.runCalls {ps : PeerStore K} {fs : FlatStore K} (hs : Simulates ps fs)
    {cs : List (Call Peer K)} {rs : List (Reply Peer)} {ps' : PeerStore K}
    (h : ps.runCalls codec cs = .ok (rs, ps')) :
    rs = (fs.runCalls codec cs).1 ∧ Simulates ps' (fs.runCalls codec cs).2 := by
  induction cs generalizing ps fs rs with
  | nil => cases h; exact ⟨rfl, hs⟩
  | cons c cs ih =>
    simp only [PeerStore.runCalls] at h
    split at h
    · cases h
    · rename_i r ps₁ hc
      split at h
      · cases h
      · rename_i rs' ps₂ hrest
        cases h
        obtain ⟨hr, hs₁⟩ := hs.call hc
        obtain ⟨hrs, hs₂⟩ := ih hs₁ hrest
        exact ⟨by rw [FlatStore.runCalls, hr, hrs], hs₂⟩

end Simulation

/-! ## Which calls stored a swarm's keys -/

/-- Call `c` stores key `k` in the swarm of `ih` of family `is6`: a put or a graduation at
`ih` of a peer with key `k` and an address of family `is6`. -/
def Call.Stores (c : Call Peer K) (ih : InfoHash) (is6 : Bool) (k : K) : Prop :=
  match c with
  | .put _ ih' p _ => ih' = ih ∧ (codec.addr p).is6 = is6 ∧ codec.rawString p = k
  | .graduateLeecher ih' p _ => ih' = ih ∧ (codec.addr p).is6 = is6 ∧ codec.rawString p = k
  | _ => False

/-- Every key in a swarm of `fs` was stored there by a call of `cs`. -/
def FlatStore.StoredBy (cs : List (Call Peer K)) (fs : FlatStore K) : Prop :=
  ∀ ih is6 sw, fs.lookup (ih, is6) = some sw → ∀ k, k ∈ sw.seeders ∨ k ∈ sw.leechers →
    ∃ c ∈ cs, c.Stores codec ih is6 k

section StoredBy

variable {codec} {cs : List (Call Peer K)} {fs : FlatStore K}

omit [DecidableEq K] in
theorem FlatStore.StoredBy.erase (h : fs.StoredBy codec cs) (key : InfoHash × Bool) :
    FlatStore.StoredBy codec cs (fs.erase key) := fun ih is6 sw hl => by
  by_cases hk : (ih, is6) = key
  · rw [hk, Finmap.lookup_erase] at hl
    cases hl
  · exact h ih is6 sw (by rwa [Finmap.lookup_erase_ne hk] at hl)

omit [DecidableEq K] in
/-- Storing at `key` a swarm whose keys were in the swarm there or were stored by a call of
`cs` keeps every key accounted for. -/
theorem FlatStore.StoredBy.insert (h : fs.StoredBy codec cs) (key : InfoHash × Bool)
    {sw : Swarm K} (hsw : ∀ k, k ∈ sw.seeders ∨ k ∈ sw.leechers →
      (∃ sw₀, fs.lookup key = some sw₀ ∧ (k ∈ sw₀.seeders ∨ k ∈ sw₀.leechers)) ∨
        ∃ c ∈ cs, c.Stores codec key.1 key.2 k) :
    FlatStore.StoredBy codec cs (fs.insert key sw) := fun ih is6 sw' hl k hk => by
  by_cases hkey : (ih, is6) = key
  · subst hkey
    rw [Finmap.lookup_insert] at hl
    cases hl
    rcases hsw k hk with ⟨sw₀, h₀, hk₀⟩ | hc
    exacts [h ih is6 sw₀ h₀ k hk₀, hc]
  · exact h ih is6 sw' (by rwa [Finmap.lookup_insert_of_ne _ hkey] at hl) k hk

omit [DecidableEq K] in
theorem mem_getD_empty {fs : FlatStore K} {key : InfoHash × Bool} {k : K}
    (hk : k ∈ ((fs.lookup key).getD .empty).seeders ∨ k ∈ ((fs.lookup key).getD .empty).leechers) :
    ∃ sw₀, fs.lookup key = some sw₀ ∧ (k ∈ sw₀.seeders ∨ k ∈ sw₀.leechers) := by
  cases hl : fs.lookup key with
  | none => simp [hl, Finmap.not_mem_empty] at hk
  | some sw₀ => exact ⟨sw₀, rfl, by simpa [hl] using hk⟩

/-- Every call keeps every key of the flat store accounted for by the calls of `cs`, when it is
one of them. -/
theorem FlatStore.StoredBy.call (h : fs.StoredBy codec cs) {c : Call Peer K} (hc : c ∈ cs) :
    (fs.call codec c).2.StoredBy codec cs := by
  cases c with
  | put r ih p clock =>
    refine h.insert _ fun k hk => ?_
    by_cases hkp : k = codec.rawString p
    · exact .inr ⟨_, hc, rfl, rfl, hkp.symm⟩
    · refine .inl (mem_getD_empty ?_)
      cases r <;> simpa [Swarm.setPeers, Swarm.peers, Finmap.mem_insert, hkp] using hk
  | delete r ih p =>
    simp only [FlatStore.call]
    cases hl : fs.lookup (ih, (codec.addr p).is6) with
    | none => exact h
    | some sw =>
      dsimp only
      split_ifs
      · exact h.erase _
      · refine h.insert _ fun k hk => .inl ⟨sw, hl, ?_⟩
        cases r <;> simp only [Swarm.setPeers, Swarm.peers, Finmap.mem_erase] at hk
        exacts [hk.imp_left And.right, hk.imp_right And.right]
      · exact h
  | graduateLeecher ih p clock =>
    refine h.insert _ fun k hk => ?_
    simp only [Finmap.mem_insert, Finmap.mem_erase] at hk
    rcases hk with (rfl | hk) | hk
    · exact .inr ⟨_, hc, rfl, rfl, rfl⟩
    · exact .inl (mem_getD_empty (.inl hk))
    · exact .inl (mem_getD_empty (.inr hk.2))
  | announcePeers | scrapeSwarm =>
    simp only [FlatStore.call]
    split <;> exact h
  | gc cutoff =>
    intro ih is6 sw hl k hk
    simp only [FlatStore.call, Finmap.lookup_filterMapVal, Option.bind_eq_some] at hl
    obtain ⟨sw₀, h₀, hexp⟩ := hl
    simp only [Swarm.expire] at hexp
    split_ifs at hexp
    cases hexp
    simp only [Swarm.fresh, ← Finmap.mem_keys, keys_keepFresh, Finset.mem_filter] at hk
    exact h ih is6 sw₀ h₀ k (hk.imp (fun h => Finmap.mem_keys.mp h.1) fun h => Finmap.mem_keys.mp h.1)

theorem FlatStore.StoredBy.runCalls (h : fs.StoredBy codec cs) {cs' : List (Call Peer K)}
    (hcs : ∀ c ∈ cs', c ∈ cs) : (fs.runCalls codec cs').2.StoredBy codec cs := by
  induction cs' generalizing fs with
  | nil => exact h
  | cons c cs' ih =>
    exact ih (h.call (hcs c (List.mem_cons_self c cs'))) fun c' hc' =>
      hcs c' (List.mem_cons_of_mem c hc')

end StoredBy

/-! ## Sharding is invisible -/

section Refinement

variable {codec}

/-- For every configuration and every run of calls from `NewPeerStorage` that does not panic,
the sharded store returns the replies of the flat store keyed by `(infohash, addr.Is6())`,
and the swarm an operation on `ih` with address `addr` reads is the flat store's swarm at
`(ih, addr.Is6())`. So every key in that swarm was stored there by a put or a graduation at
`ih` of a peer whose address has the family of `addr`, and `AnnouncePeers`, in any range
order, returns only peers decoded from such keys. -/
theorem shards_refine_flat (cfg : Config) {cs : List (Call Peer K)} {rs : List (Reply Peer)}
    {ps : PeerStore K} (h : (newPeerStorage cfg).runCalls codec cs = .ok (rs, ps)) :
    rs = (FlatStore.runCalls codec ∅ cs).1 ∧
      (∀ ih addr, ps.swarmAt ih addr = (FlatStore.runCalls codec ∅ cs).2.lookup (ih, addr.is6)) ∧
      (∀ ih addr sw, ps.swarmAt ih addr = some sw → ∀ k, k ∈ sw.seeders ∨ k ∈ sw.leechers →
        ∃ c ∈ cs, c.Stores codec ih addr.is6 k) ∧
      ∀ ih a sw seeder numWant so lo, ps.swarmAt ih (codec.addr a) = some sw →
        RangeOrder sw.seeders so → RangeOrder sw.leechers lo →
        ∃ ks : List K, ps.announcePeers codec ih seeder numWant a so lo =
            .ok (.ok (ks.map codec.newPeer)) ∧
          ∀ k ∈ ks, ∃ c ∈ cs, c.Stores codec ih (codec.addr a).is6 k := by
  obtain ⟨hrs, hsim⟩ := (newPeerStorage_simulates cfg).runCalls h
  have hstored : (FlatStore.runCalls codec ∅ cs).2.StoredBy codec cs :=
    FlatStore.StoredBy.runCalls (fun _ _ _ h0 => by simp [Finmap.lookup_empty] at h0)
      fun _ hc => hc
  have hkeys : ∀ ih addr sw, ps.swarmAt ih addr = some sw → ∀ k,
      k ∈ sw.seeders ∨ k ∈ sw.leechers → ∃ c ∈ cs, c.Stores codec ih addr.is6 k :=
    fun ih addr sw hsw => hstored ih addr.is6 sw (hsim.swarmAt_eq ih addr ▸ hsw)
  refine ⟨hrs, hsim.swarmAt_eq, hkeys, fun ih a sw seeder numWant so lo hsw hso hlo => ?_⟩
  obtain ⟨ss, ls, heq, hss, hls, -, -⟩ :=
    announceKeys_sublists numWant (codec.rawString a) so lo seeder
  refine ⟨ss ++ ls, by rw [PeerStore.announcePeers_of_swarmAt hsw, heq],
    fun k hk => hkeys ih _ sw hsw k ?_⟩
  rcases List.mem_append.mp hk with hk | hk
  · exact .inl ((hso.mem_iff k).mp (hss.subset hk))
  · exact .inr ((hlo.mem_iff k).mp (hls.subset hk))

/-- The worked example's run as calls, then an announce by leecher `4` of the IPv4 swarm of
`zeroInfoHash`, and scrapes of the IPv6 swarm of `zeroInfoHash` and of the IPv6 swarm of
`oneInfoHash` that the delete emptied. -/
def sampleCalls : List (Call ℕ ℕ) :=
  [.put .seeder zeroInfoHash 0 10, .put .leecher zeroInfoHash 2 20,
    .put .leecher zeroInfoHash 4 30, .put .leecher zeroInfoHash 8 35,
    .put .leecher zeroInfoHash 1 40, .put .seeder zeroInfoHash 3 50,
    .put .seeder oneInfoHash 10 52, .delete .seeder oneInfoHash 10,
    .put .leecher oneInfoHash 7 54, .graduateLeecher oneInfoHash 7 56,
    .delete .seeder oneInfoHash 7,
    .put .leecher oneInfoHash 5 60, .graduateLeecher zeroInfoHash 2 70,
    .delete .leecher oneInfoHash 5, .put .seeder oneInfoHash 6 80,
    .announcePeers zeroInfoHash false 10 4 [2, 0] [8, 4], .scrapeSwarm zeroInfoHash 1,
    .scrapeSwarm oneInfoHash 5]

/-- What the sharded store replies to `sampleCalls`. -/
def sampleReplies : List (Reply ℕ) :=
  [.done, .done, .done, .done, .done, .done, .done, .deleted none, .done, .done, .deleted none,
    .done, .done, .deleted none, .done,
    .announced (.ok [2, 0, 8]), .scraped ⟨zeroInfoHash, 1, 1⟩, .scraped ⟨oneInfoHash, 0, 0⟩]

set_option maxRecDepth 2000 in
theorem shards_refine_flat_sampleCalls :
    (newPeerStorage ⟨2⟩ : PeerStore ℕ).runCalls sampleCodec sampleCalls =
        .ok (sampleReplies, sampleStore) ∧
      sampleReplies = (FlatStore.runCalls sampleCodec ∅ sampleCalls).1 ∧
      (∀ ih addr, sampleStore.swarmAt ih addr =
        (FlatStore.runCalls sampleCodec ∅ sampleCalls).2.lookup (ih, addr.is6)) ∧
      (∀ ih addr sw, sampleStore.swarmAt ih addr = some sw →
        ∀ k, k ∈ sw.seeders ∨ k ∈ sw.leechers →
          ∃ c ∈ sampleCalls, c.Stores sampleCodec ih addr.is6 k) ∧
      ∀ ih a sw seeder numWant so lo, sampleStore.swarmAt ih (sampleCodec.addr a) = some sw →
        RangeOrder sw.seeders so → RangeOrder sw.leechers lo →
        ∃ ks : List ℕ, sampleStore.announcePeers sampleCodec ih seeder numWant a so lo =
            .ok (.ok (ks.map sampleCodec.newPeer)) ∧
          ∀ k ∈ ks, ∃ c ∈ sampleCalls, c.Stores sampleCodec ih (sampleCodec.addr a).is6 k := by
  have h : (newPeerStorage ⟨2⟩ : PeerStore ℕ).runCalls sampleCodec sampleCalls =
      .ok (sampleReplies, sampleStore) := by rfl
  exact ⟨h, shards_refine_flat ⟨2⟩ h⟩

end Refinement

end Mochi.Memory
