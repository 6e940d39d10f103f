import Mochi.Spec.Interleaving

/-!
# What `Stop` guarantees

`Stop` closes `ps.closed`, waits for the GC and statistics goroutines, and replaces the
shards. It does not wait for the request handlers. A handler that passed its `closed` check
before the close still reads its shard pointer and runs its locked section: into the
replaced slice if it read the pointer before the replacement, into the new one otherwise.
So the new shards need not stay empty, and the replaced ones can still change.

What `Stop` does guarantee is that from the close on no handler gets past the check: a
handler that may still write was already past it when `closed` was closed; and once the
shards are replaced and those handlers have returned, no run changes either slice again
(`stop_admits_no_new_writer`). Goroutines started after `Stop` cannot write either: a GC
goroutine's `gc` returns at its own `closed` check, and the statistics goroutine only reads.

And `Stop`'s wait ends: the goroutines it waits for can always finish their pass and return,
with no handler moving, after which it replaces the shards (`stop_completes`).

## Key results

- `StoreSys.move_frame`: what one goroutine's step can change
- `StoreSys.step_of_closed`: a step from a closed state lets no handler past its check
- `stop_admits_no_new_writer`: so along every run from a closed state
- `StoreSys.exists_run_returned`: one goroutine runs to a point `Stop` does not wait for
- `stop_completes`: from every state, a run that ends with the shards replaced
-/

namespace Mochi.Memory

variable {Peer K : Type} [DecidableEq K] {codec : PeerCodec Peer K} {metricsEnabled : Bool}

/-- Handler `j` runs `req`, is past its `closed` check and has not returned. -/
def StoreSys.InFlight (sys : StoreSys Peer K) (j : ℕ) (req : Request Peer) : Prop :=
  ∃ pc, sys.goroutines[j]? = some (.handler req pc) ∧ pc.inFlight = true

variable {sys sys' : StoreSys Peer K} {g : Goroutine Peer} {j : ℕ}

omit [DecidableEq K] in
theorem StoreSys.InFlight.mem {req : Request Peer} (h : sys.InFlight j req) :
    ∃ g ∈ sys.goroutines, g.inFlight = true :=
  let ⟨_, hj, hpc⟩ := h
  ⟨_, List.getElem?_mem hj, hpc⟩

/-- A locked section moves its handler to `done` and changes only a slice. -/
theorem StoreSys.lockedSection_frame (codec : PeerCodec Peer K) (sys : StoreSys Peer K) (j : ℕ)
    (req : Request Peer) (rep : Bool) (i : ℕ) :
    ∃ err, (sys.lockedSection codec j req rep i).goroutines =
      sys.goroutines.set j (.handler req (.done (.ok err))) ∧
      (sys.lockedSection codec j req rep i).closed = sys.closed ∧
      (sys.lockedSection codec j req rep i).replaced = sys.replaced := by
  unfold StoreSys.lockedSection
  split_ifs <;> exact ⟨_, rfl, rfl, rfl⟩

/-- What a move changes: goroutine `j` alone, neither `closed` nor `replaced`, and the
shards only when the goroutine is a handler past its check or the GC goroutine inside `gc`.
A handler the move leaves past its check was past it already, or passed it on an open
store. -/
theorem StoreSys.move_frame {m : Move} (h : sys.move codec metricsEnabled j g m = some sys') :
    sys'.closed = sys.closed ∧ sys'.replaced = sys.replaced ∧
      (sys'.shards = sys.shards ∧ sys'.retired = sys.retired ∨ g.inFlight = true ∨
        g.sweeping = true) ∧
      ∃ g', sys'.goroutines = sys.goroutines.set j g' ∧
        ∀ req pc', g' = .handler req pc' → pc'.inFlight = true →
          ∃ pc, g = .handler req pc ∧ (pc.inFlight = true ∨ sys.closed = false) := by
  unfold StoreSys.move at h
  split at h
  · -- the `closed` check
    cases h
    refine ⟨rfl, rfl, .inl ⟨rfl, rfl⟩, _, rfl, ?_⟩
    rintro _ _ ⟨⟩ hf
    split_ifs at hf with hc
    · cases hf
    · exact ⟨_, rfl, .inr (by simpa using hc)⟩
  · cases h
    exact ⟨rfl, rfl, .inl ⟨rfl, rfl⟩, _, rfl, fun _ _ he _ => by cases he; exact ⟨_, rfl, .inl rfl⟩⟩
  · -- the locked section
    cases h
    obtain ⟨err, hgs, hc, hrep⟩ := lockedSection_frame codec sys j _ _ _
    refine ⟨hc, hrep, .inr (.inl rfl), _, hgs, ?_⟩
    rintro _ _ ⟨⟩ hf
    cases hf
  -- the GC goroutine: its tick, its snapshot, the end of its loop, a sweep (the one move
  -- here that writes), the next shard, its return
  · cases h; exact ⟨rfl, rfl, .inl ⟨rfl, rfl⟩, _, rfl, fun _ _ he => by cases he⟩
  · split at h
    · split_ifs at h; cases h; exact ⟨rfl, rfl, .inl ⟨rfl, rfl⟩, _, rfl, fun _ _ he => by cases he⟩
    · cases h
  · split_ifs at h; cases h; exact ⟨rfl, rfl, .inl ⟨rfl, rfl⟩, _, rfl, fun _ _ he => by cases he⟩
  · cases h; exact ⟨rfl, rfl, .inr (.inr rfl), _, rfl, fun _ _ he => by cases he⟩
  · cases h; exact ⟨rfl, rfl, .inl ⟨rfl, rfl⟩, _, rfl, fun _ _ he => by cases he⟩
  · split_ifs at h; cases h; exact ⟨rfl, rfl, .inl ⟨rfl, rfl⟩, _, rfl, fun _ _ he => by cases he⟩
  -- the statistics goroutine: its tick, a read or its report, its return
  · cases h; exact ⟨rfl, rfl, .inl ⟨rfl, rfl⟩, _, rfl, fun _ _ he => by cases he⟩
  · split at h <;> cases h <;> exact ⟨rfl, rfl, .inl ⟨rfl, rfl⟩, _, rfl, fun _ _ he => by cases he⟩
  · split_ifs at h; cases h; exact ⟨rfl, rfl, .inl ⟨rfl, rfl⟩, _, rfl, fun _ _ he => by cases he⟩
  · cases h

omit [DecidableEq K] in
/-- The GC goroutine is inside `gc` only before the shards are replaced. -/
theorem StoreSys.GInv.replaced_of_sweeping (h : sys.GInv codec g) (hg : g.sweeping = true) :
    sys.replaced = false := by
  cases g with
  | gc pc => cases pc <;> first | exact h | cases hg
  | _ => cases hg

omit [DecidableEq K] in
/-- No goroutine is a handler in flight exactly when no index holds one. -/
theorem StoreSys.quiet_iff :
    (∀ g ∈ sys.goroutines, g.inFlight = false) ↔ ∀ j req, ¬sys.InFlight j req := by
  refine ⟨fun hq j req hj => ?_, fun hq g hg => ?_⟩
  · obtain ⟨g, hg, hf⟩ := hj.mem
    rw [hq g hg] at hf
    cases hf
  · obtain ⟨j, hj⟩ := List.mem_iff_getElem?.mp hg
    cases g with
    | handler req pc => exact Bool.eq_false_iff.mpr fun hf => hq j req ⟨pc, hj, hf⟩
    | _ => rfl

theorem getElem?_append_singleton {α : Type*} {l : List α} {x y : α} {j : ℕ}
    (h : (l ++ [x])[j]? = some y) : l[j]? = some y ∨ y = x := by
  by_cases hj : j < l.length
  · exact .inl (by rwa [List.getElem?_append_left hj] at h)
  · rw [List.getElem?_append_right (by omega)] at h
    exact .inr (List.mem_singleton.mp (List.getElem?_mem h))

/-- A step from a closed state keeps it closed, and keeps the shards replaced once they
are; it lets no handler past its `closed` check; and once the shards are replaced and no
handler is past its check, it changes neither slice. -/
theorem StoreSys.step_of_closed (hinv : sys.Inv codec) (hc : sys.closed = true) {e : Event Peer}
    (hs : sys.step codec metricsEnabled e = some sys') :
    sys'.closed = true ∧ (sys.replaced = true → sys'.replaced = true) ∧
      (∀ j req, sys'.InFlight j req → sys.InFlight j req) ∧
      (sys.replaced = true → (∀ g ∈ sys.goroutines, g.inFlight = false) →
        sys'.shards = sys.shards ∧ sys'.retired = sys.retired) := by
  cases e with
  | call | scheduleGC | scheduleStats =>
    -- a new goroutine is a handler at its check, or not a handler
    cases hs
    refine ⟨hc, id, fun j req ⟨pc, hj, hpc⟩ => ?_, fun _ _ => ⟨rfl, rfl⟩⟩
    rcases getElem?_append_singleton hj with hj | hj
    · exact ⟨pc, hj, hpc⟩
    · cases hj <;> cases hpc
  | move j m =>
    obtain ⟨g, hg, hm⟩ := Option.bind_eq_some.mp hs
    obtain ⟨hc', hrep', hmem, g', hgs, hnew⟩ := move_frame hm
    refine ⟨hc'.trans hc, fun h => hrep'.trans h, fun j' req ⟨pc', hj', hpc'⟩ => ?_,
      fun hrep hq => ?_⟩
    · rw [hgs] at hj'
      by_cases hjj : j' = j
      · subst hjj
        rw [List.getElem?_set_self (List.getElem?_eq_some_iff.mp hg).1] at hj'
        obtain ⟨pc, rfl, hpc | hopen⟩ := hnew req pc' (Option.some.inj hj') hpc'
        · exact ⟨pc, hg, hpc⟩
        · rw [hc] at hopen
          cases hopen
      · rw [List.getElem?_set_ne (Ne.symm hjj)] at hj'
        exact ⟨pc', hj', hpc'⟩
    · rcases hmem with hmem | hf | hsw
      · exact hmem
      · rw [hq g (List.getElem?_mem hg)] at hf
        cases hf
      · rw [(hinv.goroutines g (List.getElem?_mem hg)).replaced_of_sweeping hsw] at hrep
        cases hrep
  | close => simp [StoreSys.step, hc] at hs
  | replace =>
    simp only [StoreSys.step] at hs
    split_ifs at hs with hcond
    cases hs
    refine ⟨hc, fun _ => rfl, fun _ _ h => h, fun hrep _ => ?_⟩
    simp [hrep] at hcond

/-- Once `ps.closed` is closed, no handler gets past its check: along every run from a closed
state, a handler that may still write (past its check and not returned) was already past
it, with the same call, when the run began. And once `Stop` has replaced the shards and no
handler is past its check, no run changes either slice: neither the handlers, nor a GC
goroutine (started before `Stop`, it returned; started after, its `gc` returns at the
check), nor the statistics goroutine, which only reads. -/
theorem stop_admits_no_new_writer {sys sys' : StoreSys Peer K} {es : List (Event Peer)}
    (hr : sys.Reachable codec metricsEnabled) (hc : sys.closed = true)
    (h : sys.run codec metricsEnabled es = some sys') :
    (∀ j req, sys'.InFlight j req → sys.InFlight j req) ∧
      (sys.replaced = true → (∀ g ∈ sys.goroutines, g.inFlight = false) →
        sys'.shards = sys.shards ∧ sys'.retired = sys.retired) := by
  induction es generalizing sys with
  | nil =>
    cases h
    exact ⟨fun _ _ => id, fun _ _ => ⟨rfl, rfl⟩⟩
  | cons e es ih =>
    obtain ⟨sys₁, h₁, h⟩ := Option.bind_eq_some.mp h
    obtain ⟨hc₁, hrep₁, hnew₁, hframe₁⟩ := StoreSys.step_of_closed hr.inv hc h₁
    obtain ⟨hnew, hframe⟩ := ih (.step e hr h₁) hc₁ h
    refine ⟨fun j req hj => hnew₁ j req (hnew j req hj), fun hrep hq => ?_⟩
    have hq₁ := StoreSys.quiet_iff.mpr fun j req hj => StoreSys.quiet_iff.mp hq j req (hnew₁ j req hj)
    obtain ⟨hs₁, hr₁⟩ := hframe₁ hrep hq
    obtain ⟨hs, hr'⟩ := hframe (hrep₁ hrep) hq₁
    exact ⟨hs.trans hs₁, hr'.trans hr₁⟩

/-- Two seeders' puts race with `Stop` on a store with one shard per family: the first
handler passes its check, the second passes it and reads its pointer, then `Stop` closes
and replaces the shards; the first handler reads its pointer from the new slice and writes
there, the second writes into the replaced one. -/
def stopRaceRun : List (Event ℕ) :=
  [.call (.put .seeder zeroInfoHash 0 10), .move 0 .next,
    .call (.put .seeder zeroInfoHash 1 20), .move 1 .next, .move 1 .next,
    .close, .replace, .move 0 .next, .move 0 .next, .move 1 .next]

/-- The state `stopRaceRun` reaches. -/
def stopRaceSys : StoreSys ℕ ℕ :=
  ((StoreSys.init ⟨1⟩).run sampleCodec true stopRaceRun).getD (.init ⟨1⟩)

set_option maxRecDepth 2000 in
theorem run_stopRaceRun :
    (StoreSys.init ⟨1⟩).run sampleCodec true stopRaceRun = some stopRaceSys := by
  rfl

/-- After `Stop`: a third put panics at its check, and a statistics goroutine started now
reads the shards and reports. -/
def lateRun : List (Event ℕ) :=
  [.call (.put .seeder zeroInfoHash 2 30), .move 2 .next,
    .scheduleStats, .move 3 (.tick 0), .move 3 .next, .move 3 .next, .move 3 .next]

/-- The state `lateRun` reaches from `stopRaceSys`. -/
def stopLateSys : StoreSys ℕ ℕ :=
  (stopRaceSys.run sampleCodec true lateRun).getD stopRaceSys

set_option maxRecDepth 2000 in
theorem run_lateRun : stopRaceSys.run sampleCodec true lateRun = some stopLateSys := by
  rfl

set_option maxRecDepth 2000 in
/-- After `stopRaceRun` the store is closed and its shards replaced, yet the new slice holds
a seeder; no handler is past its check, so the late calls of `lateRun` leave both slices
as they are. -/
theorem stop_admits_no_new_writer_stopRace :
    stopRaceSys.closed = true ∧ stopRaceSys.replaced = true ∧
      stopRaceSys.shards.map PeerShard.gauges = [⟨1, 1, 0⟩, ⟨0, 0, 0⟩] ∧
      stopRaceSys.retired.map PeerShard.gauges = [⟨0, 0, 0⟩, ⟨1, 1, 0⟩] ∧
      (∀ g ∈ stopRaceSys.goroutines, g.inFlight = false) ∧
      stopRaceSys.run sampleCodec true lateRun = some stopLateSys ∧
      (∀ j req, stopLateSys.InFlight j req → stopRaceSys.InFlight j req) ∧
      (stopRaceSys.replaced = true → (∀ g ∈ stopRaceSys.goroutines, g.inFlight = false) →
        stopLateSys.shards = stopRaceSys.shards ∧ stopLateSys.retired = stopRaceSys.retired) :=
  ⟨rfl, rfl, by decide, by decide, by decide, run_lateRun,
    stop_admits_no_new_writer (.run (.init _) run_stopRaceRun) rfl run_lateRun⟩

/-! ## `Stop`'s wait ends -/

section Completes

variable (codec metricsEnabled)

theorem StoreSys.run_append (sys : StoreSys Peer K) (es es' : List (Event Peer)) :
    sys.run codec metricsEnabled (es ++ es') =
      (sys.run codec metricsEnabled es).bind (·.run codec metricsEnabled es') := by
  induction es generalizing sys with
  | nil => rfl
  | cons e es ih => simp only [List.cons_append, StoreSys.run, List.append_eq, Option.bind_assoc, ih]

/-- `sys'` is `sys` with goroutine `j` moved on, and perhaps the shards' contents and the
reports changed. -/
structure StoreSys.FrameAt (j : ℕ) (sys sys' : StoreSys Peer K) : Prop where
  closed : sys'.closed = sys.closed
  replaced : sys'.replaced = sys.replaced
  length_shards : sys'.shards.length = sys.shards.length
  length_goroutines : sys'.goroutines.length = sys.goroutines.length
  other : ∀ k, k ≠ j → sys'.goroutines[k]? = sys.goroutines[k]?

variable {codec metricsEnabled}

omit [DecidableEq K] in
theorem StoreSys.FrameAt.refl (j : ℕ) (sys : StoreSys Peer K) : sys.FrameAt j sys :=
  ⟨rfl, rfl, rfl, rfl, fun _ _ => rfl⟩

omit [DecidableEq K] in
theorem StoreSys.FrameAt.trans {sys₁ sys₂ : StoreSys Peer K} (h₁ : sys.FrameAt j sys₁)
    (h₂ : sys₁.FrameAt j sys₂) : sys.FrameAt j sys₂ :=
  ⟨h₂.closed.trans h₁.closed, h₂.replaced.trans h₁.replaced,
    h₂.length_shards.trans h₁.length_shards, h₂.length_goroutines.trans h₁.length_goroutines,
    fun k hk => (h₂.other k hk).trans (h₁.other k hk)⟩

omit [DecidableEq K] in
/-- Goroutine `j` moving to `g'`, over a memory with as many shards. -/
theorem StoreSys.frameAt_setGoroutine (sys x : StoreSys Peer K) (hc : x.closed = sys.closed)
    (hr : x.replaced = sys.replaced) (hl : x.shards.length = sys.shards.length)
    (hg : x.goroutines = sys.goroutines) (g' : Goroutine Peer) :
    sys.FrameAt j (x.setGoroutine j g') :=
  ⟨hc, hr, hl, by simp [StoreSys.setGoroutine, hg],
    fun k hk => by simp [StoreSys.setGoroutine, hg, List.getElem?_set_ne (Ne.symm hk)]⟩

omit [DecidableEq K] in
theorem StoreSys.getElem?_setGoroutine (sys : StoreSys Peer K) (g' : Goroutine Peer)
    (hj : j < sys.goroutines.length) : (sys.setGoroutine j g').goroutines[j]? = some g' :=
  List.getElem?_set_self hj

/-- The GC goroutine sweeps the rest of its snapshot and moves to the next shard. -/
theorem StoreSys.gc_sweep_run {cutoff : Int} {i : ℕ} {ihs : List InfoHash}
    (hj : sys.goroutines[j]? = some (.gc (.sweep cutoff i ihs))) :
    ∃ sys', sys.run codec metricsEnabled (List.replicate (ihs.length + 1) (.move j .next)) =
      some sys' ∧ sys.FrameAt j sys' ∧ sys'.goroutines[j]? = some (.gc (.scan cutoff (i + 1))) := by
  induction ihs generalizing sys with
  | nil =>
    refine ⟨_, ?_, frameAt_setGoroutine sys sys rfl rfl rfl rfl _,
      getElem?_setGoroutine sys _ (List.getElem?_eq_some_iff.mp hj).1⟩
    simp [StoreSys.run, StoreSys.step, hj, StoreSys.move]
  | cons ih ihs IH =>
    let x : StoreSys Peer K := { sys with shards := sys.shards.modify (PeerShard.sweepSwarm cutoff ih) i }
    obtain ⟨sys', hrun, hframe, hg⟩ :=
      IH (getElem?_setGoroutine x (.gc (.sweep cutoff i ihs)) (List.getElem?_eq_some_iff.mp hj).1)
    refine ⟨sys', ?_, (frameAt_setGoroutine sys x rfl rfl (List.length_modify ..) rfl _).trans hframe, hg⟩
    rw [List.length_cons, List.replicate_succ]
    simp only [StoreSys.run, StoreSys.step, hj, StoreSys.move, Option.some_bind]
    exact hrun

theorem StoreSys.run_append_of {es es' : List (Event Peer)} {sys₁ sys₂ : StoreSys Peer K}
    (h₁ : sys.run codec metricsEnabled es = some sys₁)
    (h₂ : sys₁.run codec metricsEnabled es' = some sys₂) :
    sys.run codec metricsEnabled (es ++ es') = some sys₂ := by
  rw [run_append, h₁, Option.some_bind, h₂]

/-- From shard `i` of its pass, the GC goroutine can finish `gc` and come back to its
`select`. -/
theorem StoreSys.gc_pass_run {cutoff : Int} {i : ℕ}
    (hj : sys.goroutines[j]? = some (.gc (.scan cutoff i))) :
    ∃ es sys', sys.run codec metricsEnabled es = some sys' ∧ sys.FrameAt j sys' ∧
      sys'.goroutines[j]? = some (.gc .idle) := by
  obtain ⟨n, hn⟩ : ∃ n, sys.shards.length - i = n := ⟨_, rfl⟩
  induction n generalizing sys i with
  | zero =>
    -- past the last shard, `gc` returns
    have hlt := (List.getElem?_eq_some_iff.mp hj).1
    have hi : ¬i < sys.shards.length := by omega
    refine ⟨[.move j .next], _, ?_, frameAt_setGoroutine sys sys rfl rfl rfl rfl _,
      getElem?_setGoroutine sys _ hlt⟩
    simp [StoreSys.run, StoreSys.step, hj, StoreSys.move, hi]
  | succ n IH =>
    -- snapshot shard `i` in some range order, sweep it, go on from shard `i + 1`
    have hlt := (List.getElem?_eq_some_iff.mp hj).1
    have hi : i < sys.shards.length := by omega
    obtain ⟨l, hl⟩ := Quot.exists_rep sys.shards[i].swarms.keys.val
    have hl' : (l : Multiset InfoHash) = sys.shards[i].swarms.keys.val := hl
    obtain ⟨sys₁, h₁, hf₁, hg₁⟩ := gc_sweep_run (getElem?_setGoroutine sys (.gc (.sweep cutoff i l)) hlt)
    obtain ⟨es, sys', h₂, hf₂, hg₂⟩ := IH hg₁
      (by have h := hf₁.length_shards; change sys₁.shards.length = sys.shards.length at h; omega)
    refine ⟨.move j (.snapshot l) :: (List.replicate (l.length + 1) (.move j .next) ++ es), sys', ?_,
      ((frameAt_setGoroutine sys sys rfl rfl rfl rfl _).trans hf₁).trans hf₂, hg₂⟩
    have hsnap : sys.step codec metricsEnabled (.move j (.snapshot l)) =
        some (sys.setGoroutine j (.gc (.sweep cutoff i l))) := by
      simp [StoreSys.step, hj, StoreSys.move, List.getElem?_eq_getElem hi, hl']
    rw [StoreSys.run, hsnap, Option.some_bind]
    exact run_append_of h₁ h₂

/-- From shard `i` of its loop, the statistics goroutine can read the remaining shards,
report, and come back to its `select`. -/
theorem StoreSys.stats_pass_run {i : ℕ} {acc : Gauges UInt64} {counted : Gauges ℕ}
    (hj : sys.goroutines[j]? = some (.stats (.reading i acc counted))) :
    ∃ es sys', sys.run codec metricsEnabled es = some sys' ∧ sys.FrameAt j sys' ∧
      sys'.goroutines[j]? = some (.stats .idle) := by
  obtain ⟨n, hn⟩ : ∃ n, sys.shards.length - i = n := ⟨_, rfl⟩
  induction n generalizing sys i acc counted with
  | zero =>
    have hlt := (List.getElem?_eq_some_iff.mp hj).1
    have hi : sys.shards[i]? = none := List.getElem?_eq_none (by omega)
    refine ⟨[.move j .next], _, ?_,
      frameAt_setGoroutine sys { sys with published := sys.published ++ [⟨acc, counted⟩] }
        rfl rfl rfl rfl _,
      getElem?_setGoroutine _ _ hlt⟩
    simp [StoreSys.run, StoreSys.step, hj, StoreSys.move, hi]
  | succ n IH =>
    have hlt := (List.getElem?_eq_some_iff.mp hj).1
    have hi : i < sys.shards.length := by omega
    obtain ⟨es, sys', h₂, hf₂, hg₂⟩ := IH (getElem?_setGoroutine sys
      (.stats (.reading (i + 1) (acc.add sys.shards[i].gauges) (counted.add sys.shards[i].counts)))
      hlt) (by change sys.shards.length - (i + 1) = n; omega)
    refine ⟨.move j .next :: es, sys', ?_, (frameAt_setGoroutine sys sys rfl rfl rfl rfl _).trans hf₂,
      hg₂⟩
    simp only [StoreSys.run, StoreSys.step, hj, Option.some_bind, StoreSys.move,
      List.getElem?_eq_getElem hi]
    exact h₂

/-- A GC or statistics goroutine that has not returned can come back to its `select`, moving
alone. -/
theorem StoreSys.exists_run_idle (hj : sys.goroutines[j]? = some g) (hw : g.waitedFor = true) :
    ∃ es sys₁ g₁, sys.run codec metricsEnabled es = some sys₁ ∧ sys.FrameAt j sys₁ ∧
      sys₁.goroutines[j]? = some g₁ ∧ (g₁ = .gc .idle ∨ g₁ = .stats .idle) := by
  -- `hw` rules out the handlers and the goroutines that returned
  match g, hj, hw with
  | .gc .idle, hj, _ => exact ⟨[], sys, _, rfl, .refl j sys, hj, .inl rfl⟩
  | .stats .idle, hj, _ => exact ⟨[], sys, _, rfl, .refl j sys, hj, .inr rfl⟩
  | .gc (.scan ..), hj, _ =>
    obtain ⟨es, sys₁, h₁, hf₁, hg₁⟩ := gc_pass_run hj
    exact ⟨es, sys₁, _, h₁, hf₁, hg₁, .inl rfl⟩
  | .gc (.sweep ..), hj, _ =>
    obtain ⟨sys₁, h₁, hf₁, hg₁⟩ := gc_sweep_run hj
    obtain ⟨es, sys₂, h₂, hf₂, hg₂⟩ := gc_pass_run hg₁
    exact ⟨_, sys₂, _, run_append_of h₁ h₂, hf₁.trans hf₂, hg₂, .inl rfl⟩
  | .stats (.reading ..), hj, _ =>
    obtain ⟨es, sys₁, h₁, hf₁, hg₁⟩ := stats_pass_run hj
    exact ⟨es, sys₁, _, h₁, hf₁, hg₁, .inr rfl⟩

/-- A goroutine back in its `select` on a closed store returns. -/
theorem StoreSys.leave_run (hc : sys.closed = true) (hj : sys.goroutines[j]? = some g)
    (hidle : g = .gc .idle ∨ g = .stats .idle) :
    ∃ g', sys.run codec metricsEnabled [.move j .leave] = some (sys.setGoroutine j g') ∧
      g'.waitedFor = false := by
  rcases hidle with rfl | rfl
  · exact ⟨.gc .returned, by simp [StoreSys.run, StoreSys.step, hj, StoreSys.move, hc], rfl⟩
  · exact ⟨.stats .returned, by simp [StoreSys.run, StoreSys.step, hj, StoreSys.move, hc], rfl⟩

/-- Once `ps.closed` is closed, each goroutine can come, moving alone, to a point `Stop` does
not wait for: the GC and statistics goroutines finish their pass and return; a handler, or
a goroutine that returned, is left where it is. -/
theorem StoreSys.exists_run_returned (hc : sys.closed = true) (hj : sys.goroutines[j]? = some g) :
    ∃ es sys', sys.run codec metricsEnabled es = some sys' ∧ sys.FrameAt j sys' ∧
      (∀ g', sys'.goroutines[j]? = some g' → g'.waitedFor = false) ∧
      (g.waitedFor = false → sys' = sys) := by
  cases hw : g.waitedFor
  · exact ⟨[], sys, rfl, .refl j sys, fun g' h => by rw [hj] at h; cases h; exact hw, fun _ => rfl⟩
  · obtain ⟨es, sys₁, g₁, h₁, hf₁, hg₁, hidle⟩ := exists_run_idle hj hw
    obtain ⟨g', h₂, hw'⟩ := leave_run (hf₁.closed.trans hc) hg₁ hidle
    refine ⟨es ++ [.move j .leave], _, run_append_of h₁ h₂,
      hf₁.trans (frameAt_setGoroutine sys₁ sys₁ rfl rfl rfl rfl _), fun g'' h => ?_, nofun⟩
    rw [getElem?_setGoroutine sys₁ _ (List.getElem?_eq_some_iff.mp hg₁).1] at h
    cases h
    exact hw'

variable (codec metricsEnabled) in
/-- Once `ps.closed` is closed, the goroutines `0, …, n - 1` can each, in turn, come to a point
`Stop` does not wait for, with no handler moving. -/
theorem StoreSys.exists_run_quiet (hc : sys.closed = true) (n : ℕ) :
    ∃ es sys', sys.run codec metricsEnabled es = some sys' ∧ sys'.closed = true ∧
      sys'.replaced = sys.replaced ∧ sys'.goroutines.length = sys.goroutines.length ∧
      (∀ k < n, ∀ g, sys'.goroutines[k]? = some g → g.waitedFor = false) ∧
      ∀ (k : ℕ) req pc, sys.goroutines[k]? = some (.handler req pc) →
        sys'.goroutines[k]? = some (.handler req pc) := by
  induction n with
  | zero => exact ⟨[], sys, rfl, hc, rfl, rfl, fun _ h => absurd h (Nat.not_lt_zero _), fun _ _ _ => id⟩
  | succ n ih =>
    obtain ⟨es, sys₁, h₁, hc₁, hr₁, hl₁, hq₁, hh₁⟩ := ih
    cases hg : sys₁.goroutines[n]? with
    | none =>
      refine ⟨es, sys₁, h₁, hc₁, hr₁, hl₁, fun k hk g hkg => ?_, hh₁⟩
      rcases Nat.lt_succ_iff_lt_or_eq.mp hk with hk | rfl
      · exact hq₁ k hk g hkg
      · rw [hg] at hkg; cases hkg
    | some g =>
      obtain ⟨es', sys₂, h₂, hf₂, hq₂, hstay⟩ := exists_run_returned hc₁ hg
      refine ⟨es ++ es', sys₂, run_append_of h₁ h₂, hf₂.closed.trans hc₁, hf₂.replaced.trans hr₁,
        hf₂.length_goroutines.trans hl₁, fun k hk g' hkg => ?_, fun k req pc hk => ?_⟩
      · rcases Nat.lt_succ_iff_lt_or_eq.mp hk with hk | rfl
        · exact hq₁ k hk g' (by rwa [← hf₂.other k (by omega)])
        · exact hq₂ g' hkg
      · by_cases hkn : k = n
        · subst hkn
          rw [hh₁ k req pc hk] at hg
          cases hg
          rw [hstay rfl, hh₁ k req pc hk]
        · rw [hf₂.other k hkn, hh₁ k req pc hk]

end Completes

/-- `Stop`'s wait always ends, and never waits on a request handler: from every state there
is a run in which no handler moves, `ps.closed` is closed (if it was open), every GC and
statistics goroutine finishes the pass it is in and returns, and `Stop` replaces the
shards. -/
theorem stop_completes (sys : StoreSys Peer K) :
    ∃ es sys', sys.run codec metricsEnabled es = some sys' ∧ sys'.closed = true ∧
      sys'.replaced = true ∧ (∀ g ∈ sys'.goroutines, g.waitedFor = false) ∧
      ∀ (k : ℕ) req pc, sys.goroutines[k]? = some (.handler req pc) →
        sys'.goroutines[k]? = some (.handler req pc) := by
  -- `Stop` closes `ps.closed`, unless it is closed already
  obtain ⟨es₀, sys₀, h₀, hc₀, hr₀, hg₀⟩ : ∃ es sys₀, sys.run codec metricsEnabled es = some sys₀ ∧
      sys₀.closed = true ∧ sys₀.replaced = sys.replaced ∧ sys₀.goroutines = sys.goroutines := by
    cases hc : sys.closed
    · exact ⟨[.close], { sys with closed := true }, by simp [StoreSys.run, StoreSys.step, hc], rfl,
        rfl, rfl⟩
    · exact ⟨[], sys, rfl, hc, rfl, rfl⟩
  -- the goroutines it waits for return
  obtain ⟨es, sys₁, h₁, hc₁, hr₁, hl₁, hq₁, hh₁⟩ :=
    StoreSys.exists_run_quiet codec metricsEnabled hc₀ sys₀.goroutines.length
  have hall : ∀ g ∈ sys₁.goroutines, g.waitedFor = false := fun g hg => by
    obtain ⟨k, hk⟩ := List.mem_iff_getElem?.mp hg
    exact hq₁ k (hl₁ ▸ (List.getElem?_eq_some_iff.mp hk).1) g hk
  have hh : ∀ (k : ℕ) req pc, sys.goroutines[k]? = some (.handler req pc) →
      sys₁.goroutines[k]? = some (.handler req pc) := fun k req pc hk => hh₁ k req pc (hg₀ ▸ hk)
  cases hr : sys.replaced
  · -- and it replaces the shards
    refine ⟨es₀ ++ es ++ [.replace],
      { sys₁ with shards := List.replicate sys₁.shards.length .empty, retired := sys₁.shards,
                  replaced := true },
      StoreSys.run_append_of (StoreSys.run_append_of h₀ h₁) ?_, hc₁, rfl, hall, hh⟩
    have : sys₁.goroutines.all (!·.waitedFor) = true := List.all_eq_true.mpr (by simpa using hall)
    simp [StoreSys.run, StoreSys.step, hc₁, hr₁, hr₀, hr, this]
  · exact ⟨es₀ ++ es, sys₁, StoreSys.run_append_of h₀ h₁, hc₁, hr₁.trans (hr₀.trans hr), hall, hh⟩

end Mochi.Memory
