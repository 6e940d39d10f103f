import Mochi.Spec.Disjoint

/-!
# The peers `AnnouncePeers` returns

`AnnouncePeers` ranges over the swarm's maps under the shard's read lock, so each range
meets every key of its map exactly once, in an order Go leaves unspecified (`RangeOrder`).
For a seeder it takes up to `numWant` leecher keys; for a leecher, up to `numWant` seeder
keys and then, while `numWant` is positive, leecher keys other than the announcer's.

Nothing compares the announcer's key with the seeders, or, for a seeder, with the leechers,
and nothing compares the two maps: the reply holds the announcer's own key when it is in the
map ranged over (`announcePeers_returns_announcer`), and a key twice when it is both a
seeder and a leecher of the swarm. What does hold, on every state and in every order, is
`announcePeers_keys`, and the reply has as many peers as it can (`announcePeers_count`).

## Key results

- `selectKeys_sublist`, `selectKeys_length`: one loop over a map
- `announcePeers_keys`: the reply is distinct seeder keys, then distinct leecher keys
- `announcePeers_count`: its length is `min(numWant, …)`, and leechers come only after
  every seeder
-/

namespace Mochi.Memory

variable {Peer K : Type}

/-! ## One loop over a map -/

section SelectKeys

variable (skip : K → Bool) (k : K) (l : List K) (n : Int)

/-- A non-negative `int` decrements without wrapping. -/
theorem decInt_of_nonneg {n : Int} (hn : 0 ≤ n) : decInt n = n - 1 :=
  if_neg (by unfold minInt; omega)

theorem selectKeys_cons_skip (h : skip k = true) :
    selectKeys skip (k :: l) n = selectKeys skip l n := by
  simp [selectKeys, h]

theorem selectKeys_cons_zero (h : skip k = false) : selectKeys skip (k :: l) 0 = ([], 0) := by
  simp [selectKeys, h]

theorem selectKeys_cons_take (h : skip k = false) (hn : n ≠ 0) :
    selectKeys skip (k :: l) n =
      (k :: (selectKeys skip l (decInt n)).1, (selectKeys skip l (decInt n)).2) := by
  simp [selectKeys, h, hn]

/-- The loop takes keys it does not skip, in the order it meets them. -/
theorem selectKeys_sublist : (selectKeys skip l n).1.Sublist (l.filter fun k => !skip k) := by
  induction l generalizing n with
  | nil => exact List.Sublist.slnil
  | cons k l ih =>
    cases hs : skip k
    · rw [List.filter_cons_of_pos (by simp [hs])]
      by_cases hn : n = 0
      · rw [hn, selectKeys_cons_zero skip k l hs]
        exact List.nil_sublist _
      · rw [selectKeys_cons_take skip k l n hs hn]
        exact (ih (decInt n)).cons₂ k
    · rw [selectKeys_cons_skip skip k l n hs, List.filter_cons_of_neg (by simp [hs])]
      exact ih n

/-- From a non-negative `numWant`, the loop takes `numWant` keys or every key it does not
skip, whichever is fewer, and leaves `numWant` less what it took. -/
theorem selectKeys_length (hn : 0 ≤ n) :
    ((selectKeys skip l n).1.length : Int) = min n (l.filter fun k => !skip k).length ∧
      (selectKeys skip l n).2 = n - (selectKeys skip l n).1.length := by
  induction l generalizing n with
  | nil => simp [selectKeys]; omega
  | cons k l ih =>
    cases hs : skip k
    · rw [List.filter_cons_of_pos (by simp [hs])]
      by_cases h0 : n = 0
      · rw [h0, selectKeys_cons_zero skip k l hs]
        simp only [List.length_nil, Nat.cast_zero, List.length_cons, sub_zero, and_true]
        omega
      · obtain ⟨h1, h2⟩ := ih (n - 1) (by omega)
        rw [selectKeys_cons_take skip k l n hs h0, decInt_of_nonneg hn]
        simp only [List.length_cons, Nat.cast_add, Nat.cast_one]
        omega
    · rw [selectKeys_cons_skip skip k l n hs, List.filter_cons_of_neg (by simp [hs])]
      exact ih n hn

end SelectKeys

/-! ## The keys of the reply -/

section AnnounceKeys

variable [DecidableEq K]

variable (numWant : Int) (pk : K) (so lo : List K)

theorem announceKeys_true :
    announceKeys true numWant pk so lo = (selectKeys (fun _ => false) lo numWant).1 := rfl

theorem announceKeys_false_of {ss : List K} {left : Int}
    (h : selectKeys (fun _ => false) so numWant = (ss, left)) :
    announceKeys false numWant pk so lo =
      ss ++ if 0 < left then (selectKeys (· = pk) lo left).1 else [] := by
  simp only [announceKeys, h, Bool.false_eq_true, if_false, gt_iff_lt]
  split_ifs <;> simp

/-- The leecher part of a leecher's reply: leecher keys other than the announcer's. -/
theorem leecherKeys_sublist (left : Int) :
    (if 0 < left then (selectKeys (· = pk) lo left).1 else []).Sublist
      (lo.filter fun k => !decide (k = pk)) := by
  split_ifs
  · exact selectKeys_sublist ..
  · exact List.nil_sublist _

/-- For a seeder the reply is leecher keys; for a leecher, seeder keys followed by leecher
keys other than the announcer's. -/
theorem announceKeys_sublists (seeder : Bool) :
    ∃ ss ls, announceKeys seeder numWant pk so lo = ss ++ ls ∧ ss.Sublist so ∧ ls.Sublist lo ∧
      (seeder = true → ss = []) ∧ (seeder = false → pk ∉ ls) := by
  cases seeder
  · have hss := (selectKeys_sublist (fun _ => false) so numWant).trans (List.filter_sublist so)
    rcases h : selectKeys (fun _ => false) so numWant with ⟨ss, left⟩
    rw [h] at hss
    refine ⟨ss, _, announceKeys_false_of numWant pk so lo h, hss,
      (leecherKeys_sublist pk lo left).trans (List.filter_sublist lo), nofun, fun _ hpk => ?_⟩
    simpa using (List.mem_filter.mp ((leecherKeys_sublist pk lo left).subset hpk)).2
  · exact ⟨[], _, rfl, List.nil_sublist so, (selectKeys_sublist ..).trans (List.filter_sublist lo),
      fun _ => rfl, nofun⟩

/-- For a leecher and a non-negative `numWant`: `numWant` keys or every seeder key and every
leecher key other than the announcer's, whichever is fewer; leecher keys only after every
seeder key. -/
theorem announceKeys_false_length (hn : 0 ≤ numWant) :
    ∃ ss ls, announceKeys false numWant pk so lo = ss ++ ls ∧ ss.Sublist so ∧ ls.Sublist lo ∧
      ((ss ++ ls).length : Int) = min numWant (so.length + (lo.filter (· ≠ pk)).length) ∧
      (ls ≠ [] → ss = so) := by
  have hall : (so.filter fun _ => !false) = so := by simp
  have hsub := hall ▸ selectKeys_sublist (fun _ => false) so numWant
  have hlen := hall ▸ selectKeys_length (fun _ => false) so numWant hn
  rcases h : selectKeys (fun _ => false) so numWant with ⟨ss, left⟩
  rw [h] at hsub hlen
  obtain ⟨hss, hleft⟩ := hlen
  dsimp only at hss hleft hsub
  refine ⟨ss, _, announceKeys_false_of numWant pk so lo h, hsub,
    (leecherKeys_sublist pk lo left).trans (List.filter_sublist lo), ?_, fun hls => ?_⟩
  · split_ifs with hpos
    · have hls := (selectKeys_length (· = pk) lo left hpos.le).1
      simp only [List.length_append, Nat.cast_add, ne_eq, decide_not]
      omega
    · simp only [List.append_nil, ne_eq]
      omega
  · split_ifs at hls with hpos
    · exact hsub.eq_of_length (by omega)
    · exact absurd rfl hls

end AnnounceKeys

/-! ## The reply on a store -/

/-- `l` lists the keys of `m`, each once: an order in which `for pk := range m` may meet
them. -/
def RangeOrder (m : PeerMap K) (l : List K) : Prop := (l : Multiset K) = m.keys.val

instance [DecidableEq K] (m : PeerMap K) (l : List K) : Decidable (RangeOrder m l) :=
  inferInstanceAs (Decidable ((l : Multiset K) = m.keys.val))

section RangeOrder

variable {m : PeerMap K} {l : List K}

theorem RangeOrder.nodup (h : RangeOrder m l) : l.Nodup :=
  Multiset.coe_nodup.mp (h ▸ m.keys.nodup)

theorem RangeOrder.mem_iff (h : RangeOrder m l) (k : K) : k ∈ l ↔ k ∈ m := by
  rw [← Multiset.mem_coe, h, Finset.mem_val, Finmap.mem_keys]

theorem RangeOrder.length (h : RangeOrder m l) : l.length = m.keys.card := by
  rw [← Multiset.coe_card, h]
  rfl

theorem RangeOrder.length_filter [DecidableEq K] (h : RangeOrder m l) (p : K → Prop)
    [DecidablePred p] : (l.filter (p ·)).length = (m.keys.filter p).card := by
  rw [← Multiset.coe_card, ← Multiset.filter_coe, h]
  rfl

end RangeOrder

variable [DecidableEq K] {codec : PeerCodec Peer K}

theorem PeerStore.announcePeers_of_swarmAt {ps : PeerStore K} {ih : InfoHash} {a : Peer}
    {sw : Swarm K} (hsw : ps.swarmAt ih (codec.addr a) = some sw) (seeder : Bool)
    (numWant : Int) (so lo : List K) :
    ps.announcePeers codec ih seeder numWant a so lo =
      .ok (.ok ((announceKeys seeder numWant (codec.rawString a) so lo).map codec.newPeer)) := by
  unfold PeerStore.swarmAt at hsw
  unfold PeerStore.announcePeers
  split at hsw
  · rename_i h
    simp only [h, hsw]
  · cases hsw

/-- The swarm `PutSeeder(zeroInfoHash, 0)` at clock `0` creates. -/
def putSeederSwarm : Swarm ℕ := ⟨Finmap.singleton 0 0, ∅⟩

/-- The store `PutSeeder(zeroInfoHash, 0)` at clock `0` leaves of `NewPeerStorage` with one
shard per family. -/
def putSeederStore : PeerStore ℕ :=
  ⟨⟨1⟩, [⟨Finmap.singleton zeroInfoHash putSeederSwarm, 1, 0⟩, .empty], false⟩

/-- The swarm of `zeroInfoHash` in the worked example's first IPv4 shard: seeders `0` and `2`,
leechers `4` and `8`. -/
def sampleSwarm : Swarm ℕ := (sampleStore.swarmAt zeroInfoHash (sampleCodec.addr 4)).getD .empty

set_option maxRecDepth 2000 in
theorem swarmAt_sampleSwarm :
    sampleStore.swarmAt zeroInfoHash (sampleCodec.addr 4) = some sampleSwarm := by
  rfl

/-- A seeder announcing as a leecher gets its own key back. -/
theorem announcePeers_returns_announcer :
    ¬ ∀ ps : PeerStore ℕ, Reachable sampleCodec ps →
      ∀ (ih : InfoHash) (a : ℕ) (seeder : Bool) (numWant : Int) (sw : Swarm ℕ)
        (so lo : List ℕ) (peers : List ℕ), 0 ≤ numWant →
        ps.swarmAt ih (sampleCodec.addr a) = some sw →
        RangeOrder sw.seeders so → RangeOrder sw.leechers lo →
        ps.announcePeers sampleCodec ih seeder numWant a so lo = .ok (.ok peers) →
        ∃ ks : List ℕ, peers = ks.map sampleCodec.newPeer ∧ ks.Nodup ∧
          (∀ k ∈ ks, k ∈ sw.seeders ∨ k ∈ sw.leechers) ∧ sampleCodec.rawString a ∉ ks ∧
          (seeder = true → ∀ k ∈ ks, k ∈ sw.leechers) := by
  intro h
  have hr : Reachable sampleCodec putSeederStore :=
    ReachableUnder.step (.put .seeder zeroInfoHash 0 0) (ReachableUnder.init ⟨1⟩) trivial rfl
  obtain ⟨ks, hks, -, -, hnot, -⟩ := h putSeederStore hr zeroInfoHash 0 false 1
    putSeederSwarm [0] [] [0] (by decide) rfl (by decide) (by decide) rfl
  rw [show sampleCodec.newPeer = id from rfl, List.map_id] at hks
  exact hnot (hks ▸ List.mem_singleton_self 0)

/-- On every state, in every range order: when the announcer's swarm exists, the reply
decodes distinct seeder keys (none for a seeder) followed by distinct leecher keys (none
the announcer's, for a leecher); the two parts share no key when no key is both a seeder
and a leecher of the swarm. -/
theorem announcePeers_keys {ps : PeerStore K} {ih : InfoHash} {a : Peer} {sw : Swarm K}
    {so lo : List K} (hsw : ps.swarmAt ih (codec.addr a) = some sw)
    (hso : RangeOrder sw.seeders so) (hlo : RangeOrder sw.leechers lo) (seeder : Bool)
    (numWant : Int) :
    ∃ ss ls, ps.announcePeers codec ih seeder numWant a so lo =
        .ok (.ok ((ss ++ ls).map codec.newPeer)) ∧
      ss.Nodup ∧ ls.Nodup ∧ (∀ k ∈ ss, k ∈ sw.seeders) ∧ (∀ k ∈ ls, k ∈ sw.leechers) ∧
      (seeder = true → ss = []) ∧ (seeder = false → codec.rawString a ∉ ls) ∧
      (sw.Disjoint → (ss ++ ls).Nodup) := by
  obtain ⟨ss, ls, heq, hss, hls, htrue, hfalse⟩ :=
    announceKeys_sublists numWant (codec.rawString a) so lo seeder
  have hsmem : ∀ k ∈ ss, k ∈ sw.seeders := fun k hk => (hso.mem_iff k).mp (hss.subset hk)
  have hlmem : ∀ k ∈ ls, k ∈ sw.leechers := fun k hk => (hlo.mem_iff k).mp (hls.subset hk)
  refine ⟨ss, ls, by rw [PeerStore.announcePeers_of_swarmAt hsw, heq], hss.nodup hso.nodup,
    hls.nodup hlo.nodup, hsmem, hlmem, htrue, hfalse, fun hd => ?_⟩
  exact List.nodup_append.mpr ⟨hss.nodup hso.nodup, hls.nodup hlo.nodup,
    fun k hk hk' => hd k (hsmem k hk) (hlmem k hk')⟩

set_option maxRecDepth 2000 in
/-- Leecher `4` of the worked example, announcing with `numWant` 10, gets both seeders and then
the other leecher, not itself. -/
theorem announcePeers_keys_sampleStore :
    RangeOrder sampleSwarm.seeders [2, 0] ∧ RangeOrder sampleSwarm.leechers [8, 4] ∧
      sampleStore.announcePeers sampleCodec zeroInfoHash false 10 4 [2, 0] [8, 4] =
        .ok (.ok [2, 0, 8]) ∧
      ∃ ss ls, sampleStore.announcePeers sampleCodec zeroInfoHash false 10 4 [2, 0] [8, 4] =
          .ok (.ok ((ss ++ ls).map sampleCodec.newPeer)) ∧
        ss.Nodup ∧ ls.Nodup ∧ (∀ k ∈ ss, k ∈ sampleSwarm.seeders) ∧
        (∀ k ∈ ls, k ∈ sampleSwarm.leechers) ∧ (false = true → ss = []) ∧
        (false = false → sampleCodec.rawString 4 ∉ ls) ∧
        (sampleSwarm.Disjoint → (ss ++ ls).Nodup) := by
  have hso : RangeOrder sampleSwarm.seeders [2, 0] := by decide
  have hlo : RangeOrder sampleSwarm.leechers [8, 4] := by decide
  exact ⟨hso, hlo, by rfl, announcePeers_keys swarmAt_sampleSwarm hso hlo false 10⟩

/-- From a non-negative `numWant`, in every range order: a seeder gets `min(numWant,
len(leechers))` peers, and a leecher `min(numWant, len(seeders) + the leecher keys other than
its own)`, seeders first, and leechers only once every seeder is in. -/
theorem announcePeers_count {ps : PeerStore K} {ih : InfoHash} {a : Peer} {sw : Swarm K}
    {so lo : List K} {numWant : Int} (hsw : ps.swarmAt ih (codec.addr a) = some sw)
    (hso : RangeOrder sw.seeders so) (hlo : RangeOrder sw.leechers lo) (hn : 0 ≤ numWant) :
    (∃ peers, ps.announcePeers codec ih true numWant a so lo = .ok (.ok peers) ∧
      (peers.length : Int) = min numWant sw.leechers.keys.card) ∧
    ∃ ss ls, ps.announcePeers codec ih false numWant a so lo =
        .ok (.ok ((ss ++ ls).map codec.newPeer)) ∧
      ((ss ++ ls).length : Int) =
        min numWant (sw.seeders.keys.card + (sw.leechers.keys.erase (codec.rawString a)).card) ∧
      (∀ k ∈ ss, k ∈ sw.seeders) ∧ (∀ k ∈ ls, k ∈ sw.leechers) ∧
      (ls ≠ [] → ∀ k ∈ sw.seeders, k ∈ ss) := by
  have herase : (lo.filter (· ≠ codec.rawString a)).length =
      (sw.leechers.keys.erase (codec.rawString a)).card := by
    rw [hlo.length_filter, Finset.filter_ne']
  refine ⟨⟨_, PeerStore.announcePeers_of_swarmAt hsw true numWant so lo, ?_⟩, ?_⟩
  · have := (selectKeys_length (fun _ => false) lo numWant hn).1
    simp only [Bool.not_false, List.filter_true] at this
    rw [List.length_map, announceKeys_true, this, hlo.length]
  · obtain ⟨ss, ls, heq, hss, hls, hlength, hall⟩ :=
      announceKeys_false_length numWant (codec.rawString a) so lo hn
    refine ⟨ss, ls, by rw [PeerStore.announcePeers_of_swarmAt hsw, heq], ?_,
      fun k hk => (hso.mem_iff k).mp (hss.subset hk),
      fun k hk => (hlo.mem_iff k).mp (hls.subset hk), fun hne k hk => ?_⟩
    · rw [hlength, hso.length, herase]
    · exact hall hne ▸ (hso.mem_iff k).mpr hk

set_option maxRecDepth 2000 in
/-- With `numWant` 3, peer `4` of the worked example announcing as a seeder gets both
leechers, and announcing as the leecher it is, both seeders and then leecher `8`. -/
theorem announcePeers_count_sampleStore :
    RangeOrder sampleSwarm.seeders [2, 0] ∧ RangeOrder sampleSwarm.leechers [8, 4] ∧
      (0 : Int) ≤ 3 ∧
      sampleStore.announcePeers sampleCodec zeroInfoHash false 3 4 [2, 0] [8, 4] =
        .ok (.ok [2, 0, 8]) ∧
      (∃ peers, sampleStore.announcePeers sampleCodec zeroInfoHash true 3 4 [2, 0] [8, 4] =
          .ok (.ok peers) ∧ (peers.length : Int) = min 3 sampleSwarm.leechers.keys.card) ∧
      ∃ ss ls, sampleStore.announcePeers sampleCodec zeroInfoHash false 3 4 [2, 0] [8, 4] =
          .ok (.ok ((ss ++ ls).map sampleCodec.newPeer)) ∧
        ((ss ++ ls).length : Int) = min 3 (sampleSwarm.seeders.keys.card +
          (sampleSwarm.leechers.keys.erase (sampleCodec.rawString 4)).card) ∧
        (∀ k ∈ ss, k ∈ sampleSwarm.seeders) ∧ (∀ k ∈ ls, k ∈ sampleSwarm.leechers) ∧
        (ls ≠ [] → ∀ k ∈ sampleSwarm.seeders, k ∈ ss) := by
  have hso : RangeOrder sampleSwarm.seeders [2, 0] := by decide
  have hlo : RangeOrder sampleSwarm.leechers [8, 4] := by decide
  have hn : (0 : Int) ≤ 3 := by decide
  exact ⟨hso, hlo, hn, by rfl, announcePeers_count swarmAt_sampleSwarm hso hlo hn⟩

end Mochi.Memory
