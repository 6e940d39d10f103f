import Mochi.Spec.Reachable
import Mochi.Spec.GCCorrect

/-!
# gc as a run of atomic sweeps

`peerStore.gc` holds no lock across a shard: it snapshots a shard's info-hashes under the read
lock, then takes the exclusive lock once per info-hash of the snapshot. Each of those passes
is an atomic step of the store (`Action.sweep`). With nothing interleaved, gc's passes are
the sweeps of the shards one after another, each shard's over its snapshot in the order the
range visits it (`gcActions`). Whatever those orders, the run ends in `ps.gc c`: the function
`PeerStore.gc` refines the runs of atomic steps, so its result is a reachable state whenever
the store it starts from is, and every invariant of runs holds after it.

## Key results

- `PeerStore.runActions_gcActions`: the sweeps of the first `k` shards, in any visiting order,
  run gc's pass over those shards and leave the rest
- `gc_refines_sweeps`: `gc` is the run of its sweeps, and keeps a state reachable
-/

namespace Mochi.Memory

variable {Peer K : Type} [DecidableEq K] {codec : PeerCodec Peer K}

/-- gc's sweeps of the `i`-th shard, over the info-hashes `ihs` of its snapshot in the order
the range visits them. -/
def sweepActions (i : ℕ) (cutoff : Int) (ihs : List InfoHash) : List (Action Peer) :=
  ihs.map fun ih => .sweep i ih cutoff

/-- gc's passes over the first `n` shards as atomic steps, shard `i` visited in the order
`order i`. -/
def gcActions (order : ℕ → List InfoHash) (n : ℕ) (cutoff : Int) : List (Action Peer) :=
  (List.range n).flatMap fun i => sweepActions i cutoff (order i)

/-- `order i` lists the info-hashes of the `i`-th shard, each once: an order in which gc's
range may visit the shard's snapshot. -/
def SnapshotOrder (ps : PeerStore K) (order : ℕ → List InfoHash) : Prop :=
  ∀ i sh, ps.shards[i]? = some sh → (order i : Multiset InfoHash) = sh.swarms.keys.val

omit [DecidableEq K] in
/-- A snapshot order can be checked shard by shard. -/
theorem snapshotOrder_of_getD {ps : PeerStore K} {order : ℕ → List InfoHash}
    (h : ∀ i < ps.shards.length,
      (order i : Multiset InfoHash) = (ps.shards.getD i .empty).swarms.keys.val) :
    SnapshotOrder ps order := fun i sh hsh => by
  obtain ⟨hi, rfl⟩ := List.getElem?_eq_some_iff.mp hsh
  rw [h i hi, List.getD_eq_getElem?_getD, List.getElem?_eq_getElem hi, Option.getD_some]

/-- gc's loop over a snapshot `ihs` of a shard, run with nothing interleaved: the sweep of each
info-hash in turn. -/
def PeerShard.sweepEach (cutoff : Int) (ihs : List InfoHash) (sh : PeerShard K) : PeerShard K :=
  ihs.foldl (fun sh ih => sh.sweepSwarm cutoff ih) sh

theorem gcActions_succ (order : ℕ → List InfoHash) (n : ℕ) (cutoff : Int) :
    (gcActions order (n + 1) cutoff : List (Action Peer)) =
      gcActions order n cutoff ++ sweepActions n cutoff (order n) := by
  simp [gcActions, List.range_succ]

theorem PeerStore.runActions_append (ps : PeerStore K) (as bs : List (Action Peer)) :
    ps.runActions codec (as ++ bs) = (ps.runActions codec as).bind (·.runActions codec bs) := by
  induction as generalizing ps with
  | nil => rfl
  | cons a as ih =>
    simp only [List.cons_append, PeerStore.runActions]
    split
    · exact ih _
    · rfl

/-- The sweeps of the `i`-th shard over `ihs` fold the per-info-hash sweep over `ihs` into
that shard. -/
theorem PeerStore.runActions_sweepActions (ps : PeerStore K) (i : ℕ) (cutoff : Int)
    (ihs : List InfoHash) :
    ps.runActions codec (sweepActions i cutoff ihs) =
      .ok { ps with shards := ps.shards.modify (PeerShard.sweepEach cutoff ihs) i } := by
  induction ihs generalizing ps with
  | nil =>
    show Except.ok ps = _
    rw [show PeerShard.sweepEach cutoff [] = id from rfl, List.modify_id]
  | cons ih ihs hrec =>
    rw [sweepActions, List.map_cons, PeerStore.runActions, PeerStore.step]
    exact (hrec _).trans (by rw [List.modify_modify_eq]; rfl)

/-- Sweeping a shard's info-hashes in the order of a listing of its snapshot is gc's pass
over the shard. -/
theorem PeerShard.foldl_sweepSwarm {sh : PeerShard K} {ihs : List InfoHash}
    (hihs : (ihs : Multiset InfoHash) = sh.swarms.keys.val) (cutoff : Int) :
    sh.sweepEach cutoff ihs = sh.gcShard cutoff := by
  rw [PeerShard.sweepEach, PeerShard.gcShard, ← hihs, ← Multiset.coe_reverse, Multiset.coe_foldr, List.foldr_reverse]

theorem modify_append_cons {α : Type*} (f : α → α) (l₁ l₂ : List α) (x : α) :
    (l₁ ++ x :: l₂).modify f l₁.length = l₁ ++ f x :: l₂ := by
  induction l₁ with
  | nil => rfl
  | cons y l₁ ih => exact congrArg (y :: ·) ih

/-- The sweeps of the first `k` shards, each over a listing of its snapshot, leave those
shards as gc's pass leaves them and the others as they were. -/
theorem PeerStore.runActions_gcActions {ps : PeerStore K} {order : ℕ → List InfoHash}
    (horder : SnapshotOrder ps order) (cutoff : Int) {k : ℕ} (hk : k ≤ ps.shards.length) :
    ps.runActions codec (gcActions order k cutoff) =
      .ok { ps with shards := (ps.shards.take k).map (·.gcShard cutoff) ++ ps.shards.drop k } := by
  induction k with
  | zero => simp [gcActions, PeerStore.runActions]
  | succ k ih =>
    have hlt : k < ps.shards.length := hk
    rw [gcActions_succ, runActions_append, ih hlt.le, Except.bind, runActions_sweepActions]
    have hmod := modify_append_cons (PeerShard.sweepEach cutoff (order k))
      ((ps.shards.take k).map (·.gcShard cutoff)) (ps.shards.drop (k + 1)) ps.shards[k]
    rw [List.length_map, List.length_take_of_le hlt.le,
      PeerShard.foldl_sweepSwarm (horder k _ (List.getElem?_eq_getElem hlt)),
      ← List.drop_eq_getElem_cons hlt] at hmod
    rw [hmod, List.take_succ, List.getElem?_eq_getElem hlt]
    simp only [Option.toList_some, List.map_append, List.map_cons, List.map_nil, List.append_assoc,
      List.singleton_append]

/-- gc with nothing interleaved is the run of its sweeps, shard by shard, each shard's snapshot
in any order the range may visit it; on a closed store it returns at once. -/
theorem PeerStore.runActions_gc (ps : PeerStore K) (c : Time) {order : ℕ → List InfoHash}
    (horder : SnapshotOrder ps order) :
    ps.runActions codec (if ps.closed then [] else gcActions order ps.shards.length c.unixNano) =
      .ok (ps.gc c) := by
  unfold PeerStore.gc
  cases hc : ps.closed
  · rw [if_neg Bool.false_ne_true, if_neg Bool.false_ne_true,
      runActions_gcActions horder _ le_rfl, List.take_length, List.drop_length, List.append_nil, hc]
  · rfl

omit [DecidableEq K] in
/-- Every shard's snapshot has a listing. -/
theorem PeerStore.exists_snapshotOrder (ps : PeerStore K) : ∃ order, SnapshotOrder ps order :=
  ⟨fun i => (ps.shards[i]?.map fun sh => sh.swarms.keys.val.toList).getD [], fun i sh h => by
    simp [h]⟩

/-- gc keeps the shard invariant of every shard, reachable or not. -/
theorem PeerStore.Inv.gc {ps : PeerStore K} (hinv : ps.Inv) (c : Time) : (ps.gc c).Inv := by
  have hshard : ∀ (ihs : List InfoHash) (sh : PeerShard K), sh.Inv →
      (sh.sweepEach c.unixNano ihs).Inv := by
    intro ihs
    induction ihs with
    | nil => exact fun _ h => h
    | cons ih ihs hrec => exact fun sh h => hrec _ (h.sweepSwarm c.unixNano ih)
  unfold PeerStore.gc
  split
  · exact hinv
  · intro sh hsh
    obtain ⟨sh₀, hsh₀, rfl⟩ := List.mem_map.mp hsh
    rw [← PeerShard.foldl_sweepSwarm (Multiset.coe_toList sh₀.swarms.keys.val)]
    exact hshard _ _ (hinv sh₀ hsh₀)

theorem Reachable.gc {ps : PeerStore K} (h : Reachable codec ps) (c : Time) :
    Reachable codec (ps.gc c) :=
  let ⟨_, horder⟩ := ps.exists_snapshotOrder
  h.runActions (ps.runActions_gc c horder)

/-- `peerStore.gc` refines the runs of the store. From every store, for every cutoff and every
order in which gc's range may visit each shard's snapshot, running gc's per-info-hash sweeps
shard by shard in that order (none on a closed store) ends in `ps.gc c`. So the state gc
leaves of a reachable state is reachable, and every invariant of runs holds of it. -/
theorem gc_refines_sweeps (ps : PeerStore K) (c : Time) :
    (∀ order, SnapshotOrder ps order →
      ps.runActions codec (if ps.closed then [] else gcActions order ps.shards.length c.unixNano) =
        .ok (ps.gc c)) ∧
    (Reachable codec ps → Reachable codec (ps.gc c)) :=
  ⟨fun _ horder => ps.runActions_gc c horder, fun h => h.gc c⟩

/-- An order in which gc's range may meet the info-hashes of the worked example's shards. -/
def sampleOrder : ℕ → List InfoHash
  | 0 | 2 => [zeroInfoHash]
  | 1 => [oneInfoHash]
  | _ => []

theorem gc_refines_sweeps_sampleStore :
    SnapshotOrder sampleStore sampleOrder ∧
    sampleStore.runActions sampleCodec
        (if sampleStore.closed then [] else gcActions sampleOrder sampleStore.shards.length 45) =
      .ok (sampleStore.gc ⟨45⟩) ∧
    Reachable sampleCodec (sampleStore.gc ⟨45⟩) := by
  have horder : SnapshotOrder sampleStore sampleOrder := snapshotOrder_of_getD (by decide)
  exact ⟨horder, (gc_refines_sweeps _ ⟨45⟩).1 _ horder,
    (gc_refines_sweeps _ ⟨45⟩).2 reachable_sampleStore⟩

/-! ## gc after gc -/

section Cutoffs

variable {c₁ c₂ : Int}

theorem keepFresh_keepFresh_of_le (hc : c₁ ≤ c₂) (m : PeerMap K) :
    keepFresh c₂ (keepFresh c₁ m) = keepFresh c₂ m ∧
      keepFresh c₁ (keepFresh c₂ m) = keepFresh c₂ m := by
  constructor <;> refine Finmap.ext_lookup fun pk => ?_ <;>
    simp only [keepFresh, Finmap.lookup_filterVal] <;> cases m.lookup pk <;> simp [Option.filter] <;>
    split_ifs <;> simp_all <;> omega

theorem Swarm.fresh_fresh_of_le (hc : c₁ ≤ c₂) (sw : Swarm K) :
    (sw.fresh c₁).fresh c₂ = sw.fresh c₂ ∧ (sw.fresh c₂).fresh c₁ = sw.fresh c₂ := by
  simp only [Swarm.fresh, (keepFresh_keepFresh_of_le hc _).1, (keepFresh_keepFresh_of_le hc _).2,
    and_self]

/-- Expiring at the later cutoff after, or before, the earlier one is expiring at the later. -/
theorem Swarm.expire_bind_expire_of_le (hc : c₁ ≤ c₂) (sw : Swarm K) :
    (sw.expire c₁).bind (Swarm.expire c₂) = sw.expire c₂ ∧
      (sw.expire c₂).bind (Swarm.expire c₁) = sw.expire c₂ := by
  obtain ⟨h₁₂, h₂₁⟩ := Swarm.fresh_fresh_of_le hc sw
  constructor <;> unfold Swarm.expire
  · by_cases he : (sw.fresh c₁).isEmpty
    · have he₂ : (sw.fresh c₂).isEmpty := by
        rw [← h₁₂, Swarm.eq_empty_of_isEmpty he]
        simp [Swarm.fresh, Swarm.isEmpty, Swarm.empty]
      rw [if_pos he, if_pos he₂]
      rfl
    · rw [if_neg he, Option.some_bind, h₁₂]
  · by_cases he : (sw.fresh c₂).isEmpty
    · rw [if_pos he]
      rfl
    · rw [if_neg he, Option.some_bind, h₂₁, if_neg he]

theorem expiredIn_keepFresh (c c' : Int) (m : PeerMap K) (pk : K) :
    expiredIn c' (keepFresh c m) pk = (expiredIn c' m pk && !expiredIn c m pk) := by
  simp only [expiredIn, keepFresh, Finmap.lookup_filterVal]
  cases m.lookup pk with
  | none => rfl
  | some t =>
    by_cases ht : c < t
    · simp [Option.filter, ht, not_le.mpr ht]
    · simp [Option.filter, ht, not_lt.mp ht]

theorem expiredIn_of_le (hc : c₁ ≤ c₂) {m : PeerMap K} {pk : K} (h : expiredIn c₁ m pk) :
    expiredIn c₂ m pk := by
  unfold expiredIn at h ⊢
  cases hl : m.lookup pk with
  | none => simp [hl] at h
  | some t =>
    simp only [hl, Option.any_some, decide_eq_true_eq] at h ⊢
    exact h.trans hc

/-- What the later cutoff expires is what the earlier one expires and, of what it keeps, what
the later one expires. -/
theorem card_expiredKeys_keepFresh (hc : c₁ ≤ c₂) (m : PeerMap K) :
    (expiredKeys c₁ m).card + (expiredKeys c₂ (keepFresh c₁ m)).card =
      (expiredKeys c₂ m).card := by
  have h₁ : expiredKeys c₁ m = (expiredKeys c₂ m).filter (expiredIn c₁ m ·) := by
    ext pk
    simp only [expiredKeys, Finset.mem_filter]
    exact ⟨fun ⟨hk, he⟩ => ⟨⟨hk, expiredIn_of_le hc he⟩, he⟩, fun ⟨⟨hk, _⟩, he⟩ => ⟨hk, he⟩⟩
  have h₂ : expiredKeys c₂ (keepFresh c₁ m) = (expiredKeys c₂ m).filter (¬expiredIn c₁ m ·) := by
    ext pk
    simp only [expiredKeys, keys_keepFresh, Finset.mem_filter, expiredIn_keepFresh,
      Bool.and_eq_true, Bool.not_eq_true', Bool.not_eq_true]
    tauto
  rw [h₁, h₂]
  exact Finset.filter_card_add_filter_neg_card_eq_card _

theorem expiredKeys_keepFresh_of_le (hc : c₁ ≤ c₂) (m : PeerMap K) :
    expiredKeys c₁ (keepFresh c₂ m) = ∅ :=
  Finset.filter_false_of_mem fun pk _ => by
    rw [expiredIn_keepFresh]
    cases h : expiredIn c₁ m pk
    · simp
    · simp [expiredIn_of_le hc h]

/-- A second pass at a later cutoff removes, counter by counter, what the later cutoff
expires beyond the earlier one. -/
theorem PeerShard.expiredTotal_expireAll_of_le (hc : c₁ ≤ c₂) (r : Role) (sh : PeerShard K) :
    sh.expiredTotal c₁ r + (sh.expireAll c₁).expiredTotal c₂ r = sh.expiredTotal c₂ r := by
  have hsw : ∀ sw : Swarm K, ((sw.expire c₁).map fun sw' =>
      (expiredKeys c₂ (sw'.peers r)).card).getD 0 =
        (expiredKeys c₂ (keepFresh c₁ (sw.peers r))).card := fun sw => by
    unfold Swarm.expire
    split_ifs with he
    · rw [← Swarm.peers_fresh, Swarm.eq_empty_of_isEmpty he, Swarm.peers_empty]
      rfl
    · rw [Option.map_some', Option.getD_some, Swarm.peers_fresh]
  rw [PeerShard.expiredTotal, PeerShard.expireAll, PeerShard.expiredTotal,
    Finmap.sumVal_filterMapVal, Finmap.sumVal_add, PeerShard.expiredTotal]
  simp only [hsw, card_expiredKeys_keepFresh hc]

theorem PeerShard.expiredTotal_expireAll_of_ge (hc : c₁ ≤ c₂) (r : Role) (sh : PeerShard K) :
    (sh.expireAll c₂).expiredTotal c₁ r = 0 :=
  Finset.sum_eq_zero fun ih _ => by
    rw [lookup_expireAll]
    cases sh.swarms.lookup ih with
    | none => rfl
    | some sw =>
      rw [Option.some_bind, Swarm.expire]
      split_ifs
      · rfl
      · simp [expiredKeys_keepFresh_of_le hc]

theorem PeerShard.expireAll_expireAll_of_le (hc : c₁ ≤ c₂) (sh : PeerShard K) :
    (sh.expireAll c₁).expireAll c₂ = sh.expireAll c₂ ∧
      (sh.expireAll c₂).expireAll c₁ = sh.expireAll c₂ := by
  constructor <;> refine PeerShard.ext_num (Finmap.ext_lookup fun ih => ?_) fun r => ?_
  · simp only [lookup_expireAll, Option.bind_assoc, (Swarm.expire_bind_expire_of_le hc _).1]
  · rw [num_expireAll, num_expireAll, num_expireAll, uint64_sub_ofNat_sub_ofNat,
      expiredTotal_expireAll_of_le hc]
  · simp only [lookup_expireAll, Option.bind_assoc, (Swarm.expire_bind_expire_of_le hc _).2]
  · rw [num_expireAll, num_expireAll, expiredTotal_expireAll_of_ge hc, uint64_ofNat_zero,
      sub_zero]

end Cutoffs

/-- Two passes of gc with nothing in between, at cutoffs `c₁` at or before `c₂`, in either
order, leave the store as one pass at `c₂`: whatever the earlier cutoff expires the later one
does, the counters drop by the entries removed in all, and a pass at the earlier cutoff after
the later one finds nothing left to remove. -/
theorem gc_gc_of_le (ps : PeerStore K) {c₁ c₂ : Time} (hc : c₁.unixNano ≤ c₂.unixNano) :
    (ps.gc c₁).gc c₂ = ps.gc c₂ ∧ (ps.gc c₂).gc c₁ = ps.gc c₂ := by
  cases hopen : ps.closed
  · have hopen₁ : (ps.gc c₁).closed = false := (PeerStore.closed_gc ps c₁).trans hopen
    have hopen₂ : (ps.gc c₂).closed = false := (PeerStore.closed_gc ps c₂).trans hopen
    rw [PeerStore.gc_of_open hopen₁, PeerStore.gc_of_open hopen₂, PeerStore.gc_of_open hopen,
      PeerStore.gc_of_open hopen]
    simp only [List.map_map, Function.comp_def, (PeerShard.expireAll_expireAll_of_le hc _).1,
      (PeerShard.expireAll_expireAll_of_le hc _).2, and_self]
  · simp only [PeerStore.gc, hopen, if_true, and_self]

/-- On the worked example, gc at 30 expires seeder `0` and leecher `4`, and gc at 45 also
leechers `8` and `1`; in either order the two leave what gc at 45 leaves. -/
theorem gc_gc_of_le_sampleStore :
    Time.unixNano ⟨30⟩ ≤ Time.unixNano ⟨45⟩ ∧
    (sampleStore.gc ⟨30⟩).shards.map (fun sh => (sh.numSeeders, sh.numLeechers)) =
      [(1, 1), (1, 0), (1, 1), (0, 0)] ∧
    (sampleStore.gc ⟨30⟩).gc ⟨45⟩ = sampleStore.gc ⟨45⟩ ∧
    (sampleStore.gc ⟨45⟩).gc ⟨30⟩ = sampleStore.gc ⟨45⟩ :=
  ⟨by decide, by decide, gc_gc_of_le _ (by decide)⟩

end Mochi.Memory
