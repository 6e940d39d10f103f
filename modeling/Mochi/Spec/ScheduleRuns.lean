import Mochi.Native.Schedule

/-!
# How often the background tasks run

The GC goroutine's timer has one send to make, and every sweep receives it
(`Background.count_gcSweep_run`). So in every run, `ScheduleGC`'s goroutine calls `gc` at most
once. Once that send is received, the goroutine's `select` only waits for `ps.closed`. A
run with one sweep, in which the store stays open, exists. The loop needs a
`t.Reset(gcInterval)` after each sweep, or a `time.Ticker`, to sweep every `gcInterval`.

The statistics goroutine uses a `time.Ticker` and reports once per `reportInterval` for as
long as the store is open: for every `k` there is a run with `k` reports
(`statsReport_unbounded`).

## Key results

- `scheduleGC_sweeps_at_most_once`: every run sweeps at most once, and one sweep happens
- `statsReport_unbounded`: the statistics goroutine reports any number of times
-/

namespace Mochi.Memory

/-- The number of sends the timer still has to make. -/
def Timer.sends (t : Timer) : ℕ := if t.deadline.isSome then 1 else 0

theorem Timer.sends_le_one (t : Timer) : t.sends ≤ 1 := by
  unfold Timer.sends
  split_ifs <;> omega

theorem Timer.sends_recv {now : Time} {t t' : Timer} (h : t.recv now = some t') :
    t'.sends + 1 = t.sends := by
  unfold Timer.recv at h
  split at h
  · rename_i heq
    split_ifs at h
    cases h
    simp [Timer.sends, heq]
  · cases h

variable {K : Type} [DecidableEq K] (peerLifeTime : Duration) (metricsEnabled : Bool)

/-! ## The GC goroutine -/

/-- A sweep receives the timer's send; no other event touches the timer. -/
theorem Background.sends_step {b b' : Background K} {e : BgEvent}
    (h : b.step peerLifeTime metricsEnabled e = some b') :
    b'.gcTimer.sends + (if e = .gcSweep then 1 else 0) = b.gcTimer.sends := by
  cases e with
  | tick d => cases h; rfl
  | gcSweep =>
    simp only [step] at h
    split_ifs at h
    obtain ⟨t, ht, rfl⟩ := Option.map_eq_some'.mp h
    exact Timer.sends_recv ht
  | gcReturn | statsReturn | close =>
    simp only [step] at h
    split_ifs at h
    cases h
    rfl
  | statsReport =>
    simp only [step] at h
    split_ifs at h <;> obtain ⟨t, -, rfl⟩ := Option.map_eq_some'.mp h <;> rfl

/-- Over a run, the sweeps and the sends still to make add up to the sends there were. -/
theorem Background.count_gcSweep_run {b b' : Background K} {es : List BgEvent}
    (h : b.run peerLifeTime metricsEnabled es = some b') :
    es.count .gcSweep + b'.gcTimer.sends = b.gcTimer.sends := by
  induction es generalizing b with
  | nil => cases h; simp
  | cons e es ih =>
    obtain ⟨b₁, h₁, h⟩ := Option.bind_eq_some.mp h
    have hstep := Background.sends_step peerLifeTime metricsEnabled h₁
    rw [← hstep, ← ih h, List.count_cons]
    by_cases he : e = .gcSweep <;> simp [he]; omega

theorem Background.run_append (b : Background K) (es es' : List BgEvent) :
    b.run peerLifeTime metricsEnabled (es ++ es') =
      (b.run peerLifeTime metricsEnabled es).bind (·.run peerLifeTime metricsEnabled es') := by
  induction es generalizing b with
  | nil => rfl
  | cons e es ih => simp only [List.cons_append, run, List.append_eq, Option.bind_assoc, ih]

omit [DecidableEq K] in
/-- What `start` builds: the statistics ticker needs a positive interval. -/
theorem Background.start_eq_ok {ps : PeerStore K} {now : Time} {gcInterval reportInterval : Duration}
    {b : Background K} (h : Background.start ps now gcInterval reportInterval = .ok b) :
    0 < reportInterval ∧
      b = { store := ps, now, gcTimer := newTimer now gcInterval, gcRunning := true,
            statsTicker := ⟨now.add reportInterval, reportInterval⟩, statsRunning := true,
            reports := 0 } := by
  unfold Background.start newTicker at h
  split_ifs at h with hd
  · cases h
  · exact ⟨not_le.mp hd, (Except.ok.inj h).symm⟩

/-- The goroutine `ScheduleGC(gcInterval, peerLifeTime)` starts calls `gc` at most once in
every run, whatever the interval, the lifetime and the events; and when `gcInterval` has
passed it can make that one sweep, with the store's `closed` untouched. -/
theorem scheduleGC_sweeps_at_most_once (ps : PeerStore K) (now : Time)
    (gcInterval reportInterval : Duration) {b : Background K}
    (hstart : Background.start ps now gcInterval reportInterval = .ok b) :
    (∀ es b', b.run peerLifeTime metricsEnabled es = some b' → es.count .gcSweep ≤ 1) ∧
      ∃ b', b.run peerLifeTime metricsEnabled [.tick gcInterval.toNat, .gcSweep] = some b' ∧
        b'.store.closed = ps.closed := by
  obtain ⟨-, rfl⟩ := Background.start_eq_ok hstart
  refine ⟨fun es b' h => ?_, ?_⟩
  · have := Background.count_gcSweep_run peerLifeTime metricsEnabled h
    simp only [newTimer, Timer.sends, Option.isSome_some, if_true] at this
    omega
  · have hrecv : (newTimer now gcInterval).recv (now.add gcInterval.toNat) = some ⟨none⟩ := by
      simp only [Timer.recv, newTimer, Time.add]
      rw [if_neg (not_lt.mpr (add_le_add_left (Int.self_le_toNat gcInterval) _))]
    refine ⟨?_, ?run, ?closed⟩
    case run =>
      simp only [Background.run, Background.step, if_true, hrecv, Option.map_some',
        Option.some_bind]
      exact rfl
    case closed => exact PeerStore.closed_gc ..

/-- Both goroutines started at time zero on a fresh store, with one-second intervals and a
lifetime of a minute. -/
theorem scheduleGC_sweeps_at_most_once_fresh :
    ∃ b, Background.start (newPeerStorage ⟨1⟩ : PeerStore ℕ) ⟨0⟩ second second = .ok b ∧
      (∀ es b', b.run minute false es = some b' → es.count .gcSweep ≤ 1) ∧
        ∃ b', b.run minute false [.tick second.toNat, .gcSweep] = some b' ∧
          b'.store.closed = (newPeerStorage ⟨1⟩ : PeerStore ℕ).closed :=
  ⟨_, rfl, scheduleGC_sweeps_at_most_once minute false _ ⟨0⟩ second second rfl⟩

/-! ## The statistics goroutine -/

/-- The statistics goroutine between two reports: it still runs, and its next tick is one
`d` away. -/
structure Background.StatsPending (d : Duration) (b : Background K) : Prop where
  running : b.statsRunning = true
  next : b.statsTicker.next = b.now.add d
  period : b.statsTicker.period = d

/-- One interval: `d` passes and the statistics goroutine reports. -/
theorem Background.StatsPending.round {d : Duration} (hd : 0 < d) {b : Background K}
    (h : b.StatsPending d) :
    ∃ b', b.run peerLifeTime metricsEnabled [.tick d.toNat, .statsReport] = some b' ∧
      b'.store = b.store ∧ b'.StatsPending d ∧
      b'.reports = b.reports + if metricsEnabled then 1 else 0 := by
  have hnat : ((d.toNat : ℕ) : Int) = d := Int.toNat_of_nonneg hd.le
  have hrecv : b.statsTicker.recv (b.now.add d.toNat) =
      some { b.statsTicker with next := (b.now.add d.toNat).add d } := by
    simp only [Ticker.recv, h.next, h.period, Time.add, hnat, lt_irrefl, if_false, sub_self,
      Int.zero_ediv, zero_add, mul_one]
  refine ⟨?_, ?run, ?_⟩
  case run =>
    simp only [run, step, h.running, if_true, hrecv, Option.map_some', Option.some_bind]
    exact rfl
  exact ⟨rfl, ⟨rfl, rfl, h.period⟩, by split_ifs <;> simp⟩

/-- For every `k`, a run of `k` intervals in which the statistics goroutine reports `k`
times and the store is untouched. -/
theorem Background.StatsPending.rounds {d : Duration} (hd : 0 < d) {b : Background K}
    (h : b.StatsPending d) (k : ℕ) :
    ∃ es : List BgEvent, es.count .statsReport = k ∧ ∃ b', b.run peerLifeTime metricsEnabled es = some b' ∧
      b'.store = b.store ∧ b'.StatsPending d ∧
      b'.reports = b.reports + if metricsEnabled then k else 0 := by
  induction k with
  | zero => exact ⟨[], rfl, b, rfl, rfl, h, by simp⟩
  | succ k ih =>
    obtain ⟨es, hc, b₁, hrun, hstore, h₁, hlen⟩ := ih
    obtain ⟨b₂, hrun₂, hstore₂, h₂, hlen₂⟩ := h₁.round peerLifeTime metricsEnabled hd
    refine ⟨es ++ [.tick d.toNat, .statsReport], by simp [hc], b₂, ?_, hstore₂.trans hstore, h₂, ?_⟩
    · rw [Background.run_append, hrun, Option.some_bind, hrun₂]
    · rw [hlen₂, hlen]
      split_ifs <;> omega

/-- The statistics goroutine reports every `reportInterval`: for every `k` there is a run in
which the store is untouched, and so stays open, and the goroutine reports `k` times,
publishing each report when metrics are enabled. -/
theorem statsReport_unbounded (ps : PeerStore K) (now : Time)
    (gcInterval reportInterval : Duration) {b : Background K}
    (hstart : Background.start ps now gcInterval reportInterval = .ok b) (k : ℕ) :
    ∃ es : List BgEvent, es.count .statsReport = k ∧ ∃ b', b.run peerLifeTime metricsEnabled es = some b' ∧
      b'.store = ps ∧ b'.reports = if metricsEnabled then k else 0 := by
  obtain ⟨hd, hb⟩ := Background.start_eq_ok hstart
  have hp : b.StatsPending reportInterval := by subst hb; exact ⟨rfl, rfl, rfl⟩
  obtain ⟨es, hc, b', hrun, hstore, -, hlen⟩ := hp.rounds peerLifeTime metricsEnabled hd k
  subst hb
  exact ⟨es, hc, b', hrun, hstore, by simpa using hlen⟩

/-- The goroutines of `scheduleGC_sweeps_at_most_once_fresh`, with metrics enabled: a run
with three reports. -/
theorem statsReport_unbounded_fresh :
    ∃ b, Background.start (newPeerStorage ⟨1⟩ : PeerStore ℕ) ⟨0⟩ second second = .ok b ∧
      ∃ es : List BgEvent, es.count .statsReport = 3 ∧ ∃ b', b.run minute true es = some b' ∧
        b'.store = newPeerStorage ⟨1⟩ ∧ b'.reports = if true then 3 else 0 :=
  ⟨_, rfl, statsReport_unbounded minute true _ ⟨0⟩ second second rfl 3⟩

end Mochi.Memory
