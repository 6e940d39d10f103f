import Mochi.Native.GC

/-!
# The background tasks

`ScheduleGC(gcInterval, peerLifeTime)` and `ScheduleStatisticsCollection(reportInterval)`
each start a goroutine that loops on a `select` over two channels: `ps.closed`, on which the
goroutine returns, and the channel of its own clock. On the clock's channel the GC goroutine
runs `gc` with the cutoff `now - peerLifeTime`; the statistics goroutine, when metrics are
enabled, sums the shards' counters and publishes them.

The GC goroutine's clock is a `time.Timer`, and the statistics goroutine's clock is a
`time.Ticker`. A timer made by `NewTimer` sends once; the loop never calls `Reset` on it. A
ticker sends every interval.

A run of the tasks is a sequence of events (`BgEvent`): time passes, a goroutine's `select`
takes one of its ready cases, or `Stop` closes `ps.closed`. When both cases of a `select`
are ready, Go picks either, and so may the run. This model is about the clocks: when each
goroutine can take its clock's case, and how often. Request handlers change the shards, but
neither a clock nor `closed`, so their steps are left out, and each `gc` is one event. What
a pass of `gc` or of the statistics loop does while handlers run between its shards is
`Mochi.Spec.Goroutines`; here a report is only counted. The timing histogram and the debug
logs are not modelled.
-/

namespace Mochi.Memory

/-! ## Go's clocks -/

/-- Modelled from the Go runtime: the `time.Timer` that `NewTimer(d)` makes sends on its
channel once, `d` after it was made, and nothing more without a `Reset`. `deadline` is the
time of the send still to be received, `none` once it was. -/
structure Timer where
  deadline : Option Time
  deriving DecidableEq

/-- `time.NewTimer(d)` at `now`. -/
def newTimer (now : Time) (d : Duration) : Timer := ⟨some (now.add d)⟩

/-- A `select` case `<-t.C` at `now`: ready once the deadline has passed, after which the
timer has nothing more to send. -/
def Timer.recv (now : Time) (t : Timer) : Option Timer :=
  match t.deadline with
  | some dl => if now.unixNano < dl.unixNano then none else some ⟨none⟩
  | none => none

/-- Modelled from the Go runtime: the `time.Ticker` that `NewTicker(d)` makes sends at every
multiple of `d` after it was made. Its channel holds one value, and a tick that finds it
full is dropped. `next` is the oldest tick not yet received. -/
structure Ticker where
  next : Time
  period : Duration
  deriving DecidableEq

/-- The panic of `time.NewTicker` on a non-positive interval. -/
def nonPositiveTickerMsg : String := "non-positive interval for NewTicker"

/-- `time.NewTicker(d)` at `now`. -/
def newTicker (now : Time) (d : Duration) : Except String Ticker :=
  if d ≤ 0 then .error nonPositiveTickerMsg else .ok ⟨now.add d, d⟩

/-- A `select` case `<-t.C` at `now`: ready once a tick has passed. Receiving empties the
channel. The ticks up to `now` were dropped while the value waited, so the next value is
the first tick after `now`. -/
def Ticker.recv (now : Time) (t : Ticker) : Option Ticker :=
  if now.unixNano < t.next.unixNano then none
  else some { t with
    next := t.next.add (t.period * ((now.unixNano - t.next.unixNano) / t.period + 1)) }

/-! ## The two goroutines -/

variable {K : Type} [DecidableEq K]

/-- The store, the clock, and the two goroutines: each one's clock, whether it still runs,
and how many reports the statistics goroutine published. -/
structure Background (K : Type) where
  store : PeerStore K
  now : Time
  gcTimer : Timer
  gcRunning : Bool
  statsTicker : Ticker
  statsRunning : Bool
  reports : ℕ

/-- `ScheduleGC(gcInterval, _)` and `ScheduleStatisticsCollection(reportInterval)` at `now`. -/
def Background.start (ps : PeerStore K) (now : Time) (gcInterval reportInterval : Duration) :
    Except String (Background K) :=
  (newTicker now reportInterval).map fun t =>
    { store := ps, now, gcTimer := newTimer now gcInterval, gcRunning := true,
      statsTicker := t, statsRunning := true, reports := 0 }

/-- An event of a run of the background tasks. -/
inductive BgEvent where
  /-- `d` nanoseconds pass. -/
  | tick (d : ℕ)
  /-- The GC goroutine's `select` takes `<-t.C` and runs `gc`. -/
  | gcSweep
  /-- The GC goroutine's `select` takes `<-ps.closed` and returns. -/
  | gcReturn
  /-- The statistics goroutine's `select` takes `<-t.C` and reports. -/
  | statsReport
  /-- The statistics goroutine's `select` takes `<-ps.closed` and returns. -/
  | statsReturn
  /-- `Stop` closes `ps.closed`. -/
  | close
  deriving DecidableEq

/-- One event, or `none` when it cannot happen: a goroutine that returned takes no case, a
case is taken only when its channel is ready, and `Stop` panics closing `closed` again. -/
def Background.step (peerLifeTime : Duration) (metricsEnabled : Bool) (b : Background K) :
    BgEvent → Option (Background K)
  | .tick d => some { b with now := b.now.add d }
  | .gcSweep =>
    if b.gcRunning then
      (b.gcTimer.recv b.now).map fun t =>
        { b with store := b.store.gc (b.now.add (-peerLifeTime)), gcTimer := t }
    else none
  | .gcReturn => if b.gcRunning && b.store.closed then some { b with gcRunning := false } else none
  | .statsReport =>
    if b.statsRunning then
      (b.statsTicker.recv b.now).map fun t =>
        { b with statsTicker := t, reports := if metricsEnabled then b.reports + 1 else b.reports }
    else none
  | .statsReturn =>
    if b.statsRunning && b.store.closed then some { b with statsRunning := false } else none
  | .close =>
    if b.store.closed then none else some { b with store := { b.store with closed := true } }

/-- The events in turn, or `none` when one of them cannot happen. -/
def Background.run (peerLifeTime : Duration) (metricsEnabled : Bool) (b : Background K) :
    List BgEvent → Option (Background K)
  | [] => some b
  | e :: es =>
    (b.step peerLifeTime metricsEnabled e).bind fun b' => b'.run peerLifeTime metricsEnabled es

end Mochi.Memory
