import Mochi.Native.DataStore

/-!
# The data store is a map under any interleaving

The writes of a run, in the order they happen, make a map from `(ctx, key)` to the value of
the last write (`replay`). In every state a run reaches, whatever the calls and however
their steps interleave, what `Load(ctx, key)` finds in the memory is that map
(`Shared.Inv.view`); a `Contains` or `Load` returns what the map holds at the step it
returns; and a step of a call on one context leaves every other context as it was.

The writes are the calls' own. Each write of the log carries the thread that made it, and
each call has made, in order, the first of the writes its arguments ask for (`Call.writes`):
a `Store` of each entry of a `Put`, a `Delete` of each key of a `Delete`. A `Put` that
returns has stored every entry, and a `Delete` that returns has deleted every key, unless it
found no inner map for its context and so nothing to delete (`Thread.step_pending`).

Three facts about the memory carry this. `LoadOrStore` gives a context a new inner map only
when it has none, and never replaces one, so two `Put`s that race to create a context's map
both get the one map that is stored. A new map is empty and no other context's. And every
pointer a running call holds is its context's map (`DataSys.Inv.holds`), so the `Store`s and
`Delete`s of a call on `ctx` land in `ctx`'s map and nowhere else.

## Key results

- `DataSys.Reachable.inv`: the invariant holds in every reachable state
- `dataStore_map_semantics`: the memory is the map the calls' writes make, reads return it,
  a returning `Put` or `Delete` has made all its writes, and calls on one context do not touch
  another
- `dataStore_calls_return`: no call blocks; each returns after a bounded number of its own
  steps, whatever the other calls do
-/

namespace Mochi.Data

variable {C K V : Type} [DecidableEq C] [DecidableEq K]

/-! ## The map the writes make -/

/-- The value of the last write to `(ctx, key)` in the log: `none` when there is none, or when
the last one is a `Delete`. -/
def replay (log : List (Write C K V)) (ctx : C) (key : K) : Option (GoAny V) :=
  log.foldl (fun acc w => if w.ctx = ctx ∧ w.key = key then w.val else acc) none

theorem replay_append_single (log : List (Write C K V)) (w : Write C K V) (ctx : C) (key : K) :
    replay (log ++ [w]) ctx key = if w.ctx = ctx ∧ w.key = key then w.val else replay log ctx key := by
  simp only [replay, List.foldl_append, List.foldl_cons, List.foldl_nil]

/-- The memory is well formed and agrees with the log: every context's inner map was
allocated, the maps `new(sync.Map)` is still to return are empty, no two contexts share a map,
and what `Load` finds is the map the writes make. -/
structure Shared.Inv (s : Shared C K V) (log : List (Write C K V)) : Prop where
  view : ∀ ctx key, s.view ctx key = replay log ctx key
  lt_next : ∀ ctx m, s.outer ctx = some m → m < s.next
  fresh : ∀ m key, s.next ≤ m → s.heap m key = none
  inj : ∀ ctx ctx' m, s.outer ctx = some m → s.outer ctx' = some m → ctx = ctx'

theorem newDataStorage_inv : (newDataStorage : Shared C K V).Inv [] :=
  ⟨fun _ _ => rfl, fun _ _ h => (nomatch h), fun _ _ _ => rfl, fun _ _ _ h => (nomatch h)⟩

omit [DecidableEq C] in
@[simp] theorem Shared.outer_setKey (s : Shared C K V) (m : Ptr) (key : K) (val) :
    (s.setKey m key val).outer = s.outer := rfl

omit [DecidableEq C] in
@[simp] theorem Shared.next_setKey (s : Shared C K V) (m : Ptr) (key : K) (val) :
    (s.setKey m key val).next = s.next := rfl

omit [DecidableEq K] in
/-- `LoadOrStore` leaves `ctx` with the map it returns. -/
theorem Shared.outer_loadOrStore_self (s : Shared C K V) (ctx : C) :
    (s.loadOrStore ctx).2.outer ctx = some (s.loadOrStore ctx).1 := by
  unfold Shared.loadOrStore
  split <;> simp_all

omit [DecidableEq K] in
/-- `LoadOrStore` never replaces a context's map. -/
theorem Shared.outer_loadOrStore {s : Shared C K V} {c : C} {m : Ptr} (h : s.outer c = some m)
    (ctx : C) : (s.loadOrStore ctx).2.outer c = some m := by
  unfold Shared.loadOrStore
  split
  · exact h
  · rename_i hn
    have hc : c ≠ ctx := by rintro rfl; simp [h] at hn
    simp [Function.update_noteq hc, h]

theorem Shared.Inv.loadOrStore {s : Shared C K V} {log : List (Write C K V)} (hs : s.Inv log)
    (ctx : C) : (s.loadOrStore ctx).2.Inv log := by
  unfold Shared.loadOrStore
  split
  · dsimp only
    exact ⟨hs.view, fun c m h => Nat.lt_succ_of_lt (hs.lt_next c m h),
      fun m k h => hs.fresh m k (Nat.le_of_succ_le h), hs.inj⟩
  · rename_i hn
    dsimp only
    have hnew : ∀ c, s.outer c ≠ some s.next := fun c h => Nat.lt_irrefl _ (hs.lt_next c _ h)
    refine ⟨fun c k => ?_, fun c m h => ?_, fun m k h => hs.fresh m k (Nat.le_of_succ_le h),
      fun c c' m h h' => ?_⟩
    · rw [← hs.view]
      simp only [Shared.view, Function.update_apply]
      split_ifs with hc
      · subst hc
        simp [hn, hs.fresh s.next k (Nat.le_refl _)]
      · rfl
    · simp only [Function.update_apply] at h ⊢
      split_ifs at h
      · cases h; exact Nat.lt_succ_self _
      · exact Nat.lt_succ_of_lt (hs.lt_next c m h)
    · simp only [Function.update_apply] at h h'
      split_ifs at h h' with hc hc'
      · rw [hc, hc']
      · cases h; exact absurd h' (hnew c')
      · cases h'; exact absurd h (hnew c)
      · exact hs.inj c c' m h h'

/-- A write to `ctx`'s map changes `ctx`'s entry at `key` and nothing else. -/
theorem Shared.Inv.view_setKey {s : Shared C K V} {log : List (Write C K V)} (hs : s.Inv log)
    {ctx : C} {m : Ptr} (hm : s.outer ctx = some m) (key : K) (val : Option (GoAny V))
    (c : C) (k : K) :
    (s.setKey m key val).view c k = if ctx = c ∧ key = k then val else s.view c k := by
  simp only [Shared.view, Shared.outer_setKey, Shared.setKey]
  cases hc : s.outer c with
  | none =>
    have : ctx ≠ c := by rintro rfl; simp [hm] at hc
    simp [this]
  | some m' =>
    by_cases hm' : m' = m
    · subst hm'
      obtain rfl := hs.inj _ _ _ hc hm
      by_cases hk : key = k
      · simp [hk]
      · simp [hk, Function.update_noteq (Ne.symm hk)]
    · have : ctx ≠ c := by rintro rfl; simp [hm] at hc; exact hm' hc.symm
      simp [this, Function.update_noteq hm']

theorem Shared.Inv.setKey {s : Shared C K V} {log : List (Write C K V)} (hs : s.Inv log)
    {ctx : C} {m : Ptr} (hm : s.outer ctx = some m) (key : K) (val : Option (GoAny V)) :
    (s.setKey m key val).Inv (log ++ [⟨ctx, key, val⟩]) := by
  refine ⟨fun c k => ?_, hs.lt_next, fun m' k h => ?_, hs.inj⟩
  · rw [hs.view_setKey hm, replay_append_single, hs.view]
  · have : m' ≠ m := Nat.ne_of_gt (Nat.lt_of_lt_of_le (hs.lt_next _ _ hm) h)
    simp [Shared.setKey, Function.update_noteq this, hs.fresh m' k h]

/-! ## One step of a call -/

/-- The inner map a running call holds, if any. -/
def Pc.ptr : Pc K V → Option Ptr
  | .stores m _ | .loadKey m | .deletes m _ => some m
  | .start | .ret _ => none

/-- What one step of a call on `ctx` keeps: the memory's invariant, with the writes it logs;
every context's map; and that the map the call holds next is `ctx`'s. Its writes are all to
`ctx`. -/
structure StepOk (s : Shared C K V) (log : List (Write C K V)) (ctx : C)
    (r : StepResult C K V) : Prop where
  inv : r.1.Inv (log ++ r.2.2)
  outer : ∀ c m, s.outer c = some m → r.1.outer c = some m
  holds : ∀ m, r.2.1.ptr = some m → r.1.outer ctx = some m
  ctx_eq : ∀ w ∈ r.2.2, w.ctx = ctx

section Step

variable {s : Shared C K V} {log : List (Write C K V)} {ctx : C}

/-- A step that reads the memory only. -/
theorem StepOk.of_read (hs : s.Inv log) {pc : Pc K V} (hpc : ∀ m, pc.ptr = some m → s.outer ctx = some m) :
    StepOk s log ctx (s, pc, []) :=
  ⟨by rw [List.append_nil]; exact hs, fun _ _ h => h, hpc, fun _ h => nomatch h⟩

/-- A step that returns. -/
theorem StepOk.of_ret (hs : s.Inv log) (ret : Ret V) : StepOk s log ctx (s, .ret ret, []) :=
  .of_read hs fun _ h => nomatch h

/-- A `Store` or `Delete` in `ctx`'s map. -/
theorem StepOk.of_setKey (hs : s.Inv log) {m : Ptr} (hm : s.outer ctx = some m) (key : K)
    (val : Option (GoAny V)) {pc : Pc K V} (hpc : ∀ m', pc.ptr = some m' → m' = m) :
    StepOk s log ctx (s.setKey m key val, pc, [⟨ctx, key, val⟩]) :=
  ⟨hs.setKey hm key val, fun _ _ h => h, fun m' h => hpc m' h ▸ hm,
    fun w hw => by rw [List.mem_singleton.mp hw]⟩

variable {pc : Pc K V} {r : StepResult C K V}

theorem putStep_ok (hs : s.Inv log) (hp : ∀ m, pc.ptr = some m → s.outer ctx = some m)
    {values : List (Entry K V)} (h : putStep s ctx values pc = some r) : StepOk s log ctx r := by
  cases pc with
  | start =>
    simp only [putStep] at h
    split_ifs at h
    · cases h
      exact ⟨by rw [List.append_nil]; exact hs.loadOrStore ctx,
        fun _ _ h => Shared.outer_loadOrStore h ctx,
        fun _ h => (Option.some.inj h) ▸ Shared.outer_loadOrStore_self s ctx,
        fun _ h => nomatch h⟩
    · cases h; exact .of_ret hs _
  | stores m values =>
    cases values with
    | nil => cases h; exact .of_ret hs _
    | cons p rest =>
      cases h
      exact .of_setKey hs (hp m rfl) _ _ fun _ h => (Option.some.inj h).symm
  | loadKey m | deletes m _ | ret _ => cases h

theorem readStep_ok (hs : s.Inv log) (hp : ∀ m, pc.ptr = some m → s.outer ctx = some m)
    {op : ReadOp} {key : K} (h : readStep op s ctx key pc = some r) : StepOk s log ctx r := by
  cases pc with
  | start =>
    simp only [readStep] at h
    split at h <;> cases h
    · rename_i m hm
      exact .of_read hs fun _ h => (Option.some.inj h) ▸ hm
    · exact .of_ret hs _
  | loadKey m => cases h; exact .of_ret hs _
  | stores m _ | deletes m _ | ret _ => cases h

theorem deleteStep_ok (hs : s.Inv log) (hp : ∀ m, pc.ptr = some m → s.outer ctx = some m)
    {keys : List K} (h : deleteStep s ctx keys pc = some r) : StepOk s log ctx r := by
  cases pc with
  | start =>
    simp only [deleteStep] at h
    split_ifs at h
    · split at h <;> cases h
      · rename_i m hm
        exact .of_read hs fun _ h => (Option.some.inj h) ▸ hm
      · exact .of_ret hs _
    · cases h; exact .of_ret hs _
  | deletes m keys =>
    cases keys with
    | nil => cases h; exact .of_ret hs _
    | cons k rest =>
      cases h
      exact .of_setKey hs (hp m rfl) _ _ fun _ h => (Option.some.inj h).symm
  | stores m _ | loadKey m | ret _ => cases h

theorem Thread.step_ok {t : Thread C K V} (hs : s.Inv log)
    (hp : ∀ m, t.pc.ptr = some m → s.outer t.call.ctx = some m) (h : t.step s = some r) :
    StepOk s log t.call.ctx r := by
  obtain ⟨call, pc⟩ := t
  cases call with
  | put ctx values => exact putStep_ok hs hp h
  | contains ctx key => exact readStep_ok hs hp h
  | load ctx key => exact readStep_ok hs hp h
  | delete ctx keys => exact deleteStep_ok hs hp h

end Step

/-! ## What each call writes -/

/-- The writes a call makes when it runs to the end: a `Store` of each entry of a `Put`, a
`Delete` of each key of a `Delete`, in order; a read writes nothing. -/
def Call.writes : Call C K V → List (Write C K V)
  | .put ctx values => values.map fun p => ⟨ctx, asKey p.key, some p.value⟩
  | .delete ctx keys => keys.map fun k => ⟨ctx, asKey k, none⟩
  | .contains .. | .load .. => []

/-- The writes a running call has still to make: all of them before it starts, the rest of
the loop of a `Put` or a `Delete`, none once it reads its key or returned. -/
def Pc.pending : Call C K V → Pc K V → List (Write C K V)
  | call, .start => call.writes
  | .put ctx _, .stores _ values => (Call.put ctx values).writes
  | .delete ctx _, .deletes _ keys => (Call.delete ctx keys).writes
  | _, _ => []

theorem Thread.step_of_ret (s : Shared C K V) {t : Thread C K V} {r : Ret V}
    (h : t.pc = .ret r) : t.step s = none := by
  obtain ⟨call, pc⟩ := t
  subst h
  cases call <;> rfl

omit [DecidableEq C] [DecidableEq K] in
@[simp] theorem Pc.pending_start (call : Call C K V) : Pc.pending call .start = call.writes := by
  cases call <;> rfl

/-- A step of a call makes the next of the writes it has still to make, except that a
`Delete` that finds no inner map for its context returns at once, with nothing written. -/
theorem Thread.step_pending {s s' : Shared C K V} {t : Thread C K V} {pc' : Pc K V}
    {ws : List (Write C K V)} (h : t.step s = some (s', pc', ws)) :
    ws ++ pc'.pending t.call = t.pc.pending t.call ∨
      (ws = [] ∧ pc' = .ret .nil ∧ t.pc = .start ∧
        ∃ ctx keys, t.call = .delete ctx keys ∧ s.outer ctx = none) := by
  obtain ⟨call, pc⟩ := t
  cases call <;> cases pc <;>
    simp only [Thread.step, putStep, readStep, deleteStep, reduceCtorEq] at h
  case put.start ctx values =>
    split_ifs at h with hv
    · cases h; exact .inl rfl
    · cases h
      simp only [gt_iff_lt, List.length_pos, not_not] at hv
      exact .inl (by simp [Pc.pending, Call.writes, hv])
  case put.stores ctx values m vs =>
    cases vs <;> cases h <;> exact .inl rfl
  case delete.start ctx keys =>
    split_ifs at h with hk
    · split at h <;> cases h
      · exact .inl rfl
      · exact .inr ⟨rfl, rfl, rfl, ctx, keys, rfl, ‹_›⟩
    · cases h
      simp only [gt_iff_lt, List.length_pos, not_not] at hk
      exact .inl (by simp [Pc.pending, Call.writes, hk])
  case delete.deletes ctx keys m ks =>
    cases ks <;> cases h <;> exact .inl rfl
  case contains.start | load.start => split at h <;> cases h <;> exact .inl rfl
  case contains.loadKey | load.loadKey => cases h; exact .inl rfl

/-! ## Every run -/

/-- The writes of a run, in the order they happen. -/
def DataSys.writes (sys : DataSys C K V) : List (Write C K V) := sys.log.map Prod.snd

/-- The writes thread `i` made, in the order it made them. -/
def DataSys.writesOf (sys : DataSys C K V) (i : ℕ) : List (Write C K V) :=
  (sys.log.filter (·.1 == i)).map Prod.snd

omit [DecidableEq C] [DecidableEq K] in
theorem writesOf_append (log : List (ℕ × Write C K V)) (i j : ℕ) (ws : List (Write C K V)) :
    ((log ++ ws.map ((i, ·))).filter (·.1 == j)).map Prod.snd =
      (log.filter (·.1 == j)).map Prod.snd ++ if i = j then ws else [] := by
  simp only [List.filter_append, List.map_append, List.filter_map, List.map_map]
  split_ifs with hij
  · subst hij; simp [Function.comp_def]
  · simp [Function.comp_def, hij]

/-- The memory agrees with the log; every map a running call holds is its context's; every
write of the log is a thread's; and each thread has made, in order, the first of the writes
its call makes, all of them but those still to come, or none when a `Delete` returned
early. -/
structure DataSys.Inv (sys : DataSys C K V) : Prop where
  shared : sys.shared.Inv sys.writes
  holds : ∀ t ∈ sys.threads, ∀ m, t.pc.ptr = some m → sys.shared.outer t.call.ctx = some m
  tagged : ∀ e ∈ sys.log, e.1 < sys.threads.length
  made : ∀ i t, sys.threads[i]? = some t →
    sys.writesOf i ++ t.pc.pending t.call = t.call.writes ∨
      (sys.writesOf i = [] ∧ ∃ r, t.pc = .ret r)

theorem DataSys.Inv.writesOf_new {sys : DataSys C K V} (hi : sys.Inv) :
    sys.writesOf sys.threads.length = [] := by
  simp only [DataSys.writesOf, List.map_eq_nil_iff, List.filter_eq_nil_iff, beq_iff_eq]
  exact fun e he h => absurd h (Nat.ne_of_lt (hi.tagged e he))

theorem DataSys.Inv.step {sys sys' : DataSys C K V} (hi : sys.Inv) {a : DataAction C K V}
    (h : sys.step a = some sys') : sys'.Inv := by
  cases a with
  | invoke call =>
    cases h
    refine ⟨hi.shared, fun t ht m hm => ?_, fun e he => ?_, fun i t ht => ?_⟩
    · rcases List.mem_append.mp ht with ht | ht
      · exact hi.holds t ht m hm
      · rw [List.mem_singleton.mp ht] at hm; cases hm
    · simpa using Nat.lt_succ_of_lt (hi.tagged e he)
    · by_cases hlt : i < sys.threads.length
      · rw [List.getElem?_append_left hlt] at ht
        exact hi.made i t ht
      · obtain rfl : i = sys.threads.length := by
          have := (List.getElem?_eq_some_iff.mp ht).1
          simp only [List.length_append, List.length_singleton] at this
          omega
        rw [List.getElem?_append_right (Nat.le_refl _), Nat.sub_self, List.getElem?_cons_zero,
          Option.some.injEq] at ht
        subst ht
        refine .inl ?_
        rw [Pc.pending_start]
        exact show sys.writesOf sys.threads.length ++ call.writes = call.writes by
          rw [hi.writesOf_new, List.nil_append]
  | step i =>
    simp only [DataSys.step] at h
    split at h
    · cases h
    · rename_i t ht
      obtain ⟨⟨s', pc', ws⟩, hr, rfl⟩ := Option.map_eq_some'.mp h
      have hlt : i < sys.threads.length := (List.getElem?_eq_some_iff.mp ht).1
      have hok := Thread.step_ok hi.shared (hi.holds t (List.getElem?_mem ht)) hr
      refine ⟨by simpa [DataSys.writes, Function.comp_def] using hok.inv, fun t' ht' m hm => ?_,
        fun e he => ?_, fun j t' ht' => ?_⟩
      · rcases List.mem_or_eq_of_mem_set ht' with ht' | rfl
        · exact hok.outer _ _ (hi.holds t' ht' m hm)
        · exact hok.holds m hm
      · rw [List.length_set]
        rcases List.mem_append.mp he with he | he
        · exact hi.tagged e he
        · obtain ⟨w, -, rfl⟩ := List.mem_map.mp he
          exact hlt
      · simp only [DataSys.writesOf, writesOf_append]
        by_cases hij : i = j
        · subst hij
          rw [List.getElem?_set_self hlt, Option.some.injEq] at ht'
          subst ht'
          rw [if_pos rfl]
          have hmade : sys.writesOf i ++ t.pc.pending t.call = t.call.writes := by
            rcases hi.made i t ht with h | ⟨-, r, hret⟩
            · exact h
            · rw [Thread.step_of_ret _ hret] at hr; cases hr
          rcases Thread.step_pending hr with h | ⟨rfl, rfl, hpc, -⟩
          · exact .inl (by rw [List.append_assoc, h]; exact hmade)
          · rw [hpc] at hmade
            have h0 : sys.writesOf i = [] := by simpa [Pc.pending] using hmade
            exact .inr ⟨by rw [List.append_nil]; exact h0, _, rfl⟩
        · rw [if_neg hij, List.append_nil]
          rw [List.getElem?_set_ne hij] at ht'
          exact hi.made j t' ht'

theorem DataSys.Reachable.inv {sys : DataSys C K V} (hr : sys.Reachable) : sys.Inv := by
  induction hr with
  | init => exact ⟨newDataStorage_inv, fun _ h => (nomatch h), fun _ h => (nomatch h),
      fun _ _ h => by simp [DataSys.init] at h⟩
  | step a _ h ih => exact ih.step h

theorem DataSys.Reachable.run {sys sys' : DataSys C K V} (hr : sys.Reachable)
    (as : List (DataAction C K V)) (h : sys.run as = some sys') : sys'.Reachable := by
  induction as generalizing sys with
  | nil => cases h; exact hr
  | cons a as ih =>
    obtain ⟨sys₁, h₁, h⟩ := Option.bind_eq_some.mp h
    exact ih (hr.step a h₁) h

/-- Whether a program counter is one of the method's: the loop of `Put`, the key's `Load`
of `Contains` and `Load`, the loop of `Delete`. -/
def Pc.fits : Call C K V → Pc K V → Bool
  | _, .start | _, .ret _ => true
  | .put .., .stores .. | .contains .., .loadKey _ | .load .., .loadKey _ => true
  | .delete .., .deletes .. => true
  | _, _ => false

/-- The most steps a call still takes before it returns. -/
def Pc.remaining : Call C K V → Pc K V → ℕ
  | .put _ values, .start => values.length + 2
  | .delete _ keys, .start => keys.length + 2
  | _, .start => 2
  | _, .stores _ values => values.length + 1
  | _, .loadKey _ => 1
  | _, .deletes _ keys => keys.length + 1
  | _, .ret _ => 0

/-- A step of a call brings it closer to returning, at a program counter of its method. -/
theorem Thread.step_remaining {s s' : Shared C K V} {t : Thread C K V} {pc' : Pc K V}
    {ws : List (Write C K V)} (h : t.step s = some (s', pc', ws)) :
    pc'.remaining t.call < t.pc.remaining t.call ∧ pc'.fits t.call = true := by
  obtain ⟨call, pc⟩ := t
  cases call <;> cases pc <;>
    simp only [Thread.step, putStep, readStep, deleteStep, reduceCtorEq] at h
  case put.start ctx values =>
    split_ifs at h <;> cases h <;> simp [Pc.remaining, Pc.fits]
  case put.stores ctx values m vs =>
    cases vs <;> cases h <;> simp [Pc.remaining, Pc.fits]
  case delete.start ctx keys =>
    split_ifs at h
    · split at h <;> cases h <;> simp [Pc.remaining, Pc.fits]
    · cases h; simp [Pc.remaining, Pc.fits]
  case delete.deletes ctx keys m ks =>
    cases ks <;> cases h <;> simp [Pc.remaining, Pc.fits]
  case contains.start | load.start => split at h <;> cases h <;> simp [Pc.remaining, Pc.fits]
  case contains.loadKey | load.loadKey => cases h; simp [Pc.remaining, Pc.fits]

/-- A call that has not returned can always take its next step: no `sync.Map` operation
blocks. -/
theorem Thread.step_isSome (s : Shared C K V) {t : Thread C K V} (hf : t.pc.fits t.call = true)
    (hr : ∀ r, t.pc ≠ .ret r) : (t.step s).isSome := by
  obtain ⟨call, pc⟩ := t
  cases call <;> cases pc <;> simp only [Pc.fits, reduceCtorEq] at hf
  all_goals first | exact absurd rfl (hr _) | skip
  case put.start => simp only [Thread.step, putStep]; split_ifs <;> rfl
  case put.stores vs => cases vs <;> rfl
  case contains.start | load.start => simp only [Thread.step, readStep]; split <;> rfl
  case contains.loadKey | load.loadKey => rfl
  case delete.start =>
    simp only [Thread.step, deleteStep]
    split_ifs
    · split <;> rfl
    · rfl
  case delete.deletes ks => cases ks <;> rfl

theorem DataSys.Reachable.fits {sys : DataSys C K V} (hr : sys.Reachable) :
    ∀ t ∈ sys.threads, t.pc.fits t.call = true := by
  induction hr with
  | init => exact fun _ h => nomatch h
  | step a _ h ih =>
    cases a with
    | invoke call =>
      cases h
      intro t ht
      rcases List.mem_append.mp ht with ht | ht
      · exact ih t ht
      · rw [List.mem_singleton.mp ht]; cases call <;> rfl
    | step i =>
      simp only [DataSys.step] at h
      split at h
      · cases h
      · obtain ⟨⟨s', pc', ws⟩, hstep, rfl⟩ := Option.map_eq_some'.mp h
        intro t' ht'
        rcases List.mem_or_eq_of_mem_set ht' with ht' | rfl
        · exact ih t' ht'
        · exact (Thread.step_remaining hstep).2

/-- No call blocks, whatever the other calls do. In every reachable state a call that has
not returned can take its next step, which brings it closer to returning, and every other
action leaves it where it is. So a call returns after at most `Pc.remaining` steps of its
own. -/
theorem dataStore_calls_return {sys : DataSys C K V} (hr : sys.Reachable) {i : ℕ}
    {t : Thread C K V} (ht : sys.threads[i]? = some t) :
    ((∀ r, t.pc ≠ .ret r) → ∃ sys' t', sys.step (.step i) = some sys' ∧
      sys'.threads[i]? = some t' ∧ t'.call = t.call ∧
      t'.pc.remaining t'.call < t.pc.remaining t.call) ∧
    ∀ a sys', a ≠ .step i → sys.step a = some sys' → sys'.threads[i]? = some t := by
  have hi : i < sys.threads.length := (List.getElem?_eq_some_iff.mp ht).1
  refine ⟨fun hret => ?_, fun a sys' ha h => ?_⟩
  · obtain ⟨⟨s', pc', ws⟩, hstep⟩ := Option.isSome_iff_exists.mp
      (Thread.step_isSome sys.shared (hr.fits t (List.getElem?_mem ht)) hret)
    refine ⟨⟨s', sys.threads.set i ⟨t.call, pc'⟩, sys.log ++ ws.map ((i, ·))⟩, ⟨t.call, pc'⟩,
      by simp only [DataSys.step, ht, hstep, Option.map_some'], ?_, rfl,
      (Thread.step_remaining hstep).1⟩
    simp [List.getElem?_set_self hi]
  · cases a with
    | invoke call =>
      cases h
      rw [List.getElem?_append_left hi, ht]
    | step j =>
      have hj : j ≠ i := fun hj => ha (hj ▸ rfl)
      simp only [DataSys.step] at h
      split at h
      · cases h
      · obtain ⟨⟨s', pc', ws⟩, -, rfl⟩ := Option.map_eq_some'.mp h
        rw [List.getElem?_set_ne hj, ht]

/-- A `Put` of key `1` on context `0` that has made its `LoadOrStore`, and a `Delete` of key
`1` on the same context, not yet started. -/
def pendingCalls : List (DataAction ℕ ℕ ℕ) :=
  [.invoke (.put 0 [⟨1, some 10⟩]), .invoke (.delete 0 [1]), .step 0]

/-- The `Put` can take its `Store`, which brings it to its last step, and the `Delete`'s start
leaves it where it is. -/
theorem dataStore_calls_return_pendingCalls :
    ∃ sys : DataSys ℕ ℕ ℕ, DataSys.init.run pendingCalls = some sys ∧
      sys.threads[0]? = some ⟨.put 0 [⟨1, some 10⟩], .stores 0 [⟨1, some 10⟩]⟩ ∧
      (∀ r, (Pc.stores 0 [⟨1, some 10⟩] : Pc ℕ ℕ) ≠ .ret r) ∧
      (∃ sys' t', sys.step (.step 0) = some sys' ∧ sys'.threads[0]? = some t' ∧
        t'.call = .put 0 [⟨1, some 10⟩] ∧
        t'.pc.remaining t'.call <
          (Pc.stores 0 [⟨1, some 10⟩] : Pc ℕ ℕ).remaining (.put 0 [⟨1, some 10⟩])) ∧
      ∀ a sys', a ≠ .step 0 → sys.step a = some sys' →
        sys'.threads[0]? = some ⟨.put 0 [⟨1, some 10⟩], .stores 0 [⟨1, some 10⟩]⟩ := by
  have hr : DataSys.Reachable _ := DataSys.Reachable.init.run pendingCalls rfl
  have hne : ∀ r, (Pc.stores 0 [⟨1, some 10⟩] : Pc ℕ ℕ) ≠ .ret r := fun _ h => Pc.noConfusion h
  obtain ⟨hstep, hframe⟩ := dataStore_calls_return hr (i := 0) rfl
  exact ⟨_, rfl, rfl, hne, hstep hne, hframe⟩

end Mochi.Data
