import Mathlib.Logic.Function.Basic

/-!
# The in-memory data store

`dataStore` is a `sync.Map` from a context name to a pointer to an inner `sync.Map`, which
maps keys to values. `Put(ctx, values...)` makes sure `ctx` has an inner map with
`LoadOrStore(ctx, new(sync.Map))` and then `Store`s each entry into it; `Delete(ctx,
keys...)` `Load`s the inner map and `Delete`s each key from it; `Contains` and `Load` `Load`
the inner map and then the key.

Each `sync.Map` operation is atomic, and a call is a sequence of them. So a run of the store
is a sequence of steps, each an atomic operation of one running call, in any interleaving
(`DataSys.step`). Calls start at any point of the run. Besides the memory, a run keeps a
ghost log of the writes the `Store` and `Delete` steps make, in the order they happen, each
with the context of its call and the index of the thread that made it.

Go's `any` is `GoAny V`: nil, or a value. A `sync.Map` is a function from keys to what is
stored there. Keys are strings, and `asKey` returns a string unchanged.
-/

namespace Mochi.Data

/-- A pointer to an inner `sync.Map`. -/
abbrev Ptr := ℕ

/-- Go's `any`: `none` is nil. -/
abbrev GoAny (V : Type) := Option V

/-- Modelled from the spec: `storage.Entry`, a key and a value. -/
structure Entry (K V : Type) where
  key : K
  value : GoAny V

/-- `asKey(in)` for a string key: strings are comparable, so the key itself. The panic on a
nil key and the `fmt.Sprint` coercion of keys that are not comparable are never reached. -/
def asKey {K : Type} (key : K) : K := key

variable {C K V : Type} [DecidableEq C] [DecidableEq K]

/-- The memory: `ds.Map`, from a context to the pointer of its inner map; the inner maps;
and the pointer the next `new(sync.Map)` returns. -/
structure Shared (C K V : Type) where
  outer : C → Option Ptr
  heap : Ptr → K → Option (GoAny V)
  next : Ptr

/-- `NewDataStorage()`: an empty `sync.Map`. -/
def newDataStorage : Shared C K V := ⟨fun _ => none, fun _ _ => none, 0⟩

/-- `ds.LoadOrStore(ctx, new(sync.Map))`: the inner map of `ctx`, or else the new map, which
becomes `ctx`'s. -/
def Shared.loadOrStore (s : Shared C K V) (ctx : C) : Ptr × Shared C K V :=
  let s₁ := { s with next := s.next + 1 }
  match s.outer ctx with
  | some m => (m, s₁)
  | none => (s.next, { s₁ with outer := Function.update s.outer ctx (some s.next) })

/-- What is stored at `key` in the inner map `m` becomes `val`. -/
def Shared.setKey (s : Shared C K V) (m : Ptr) (key : K) (val : Option (GoAny V)) :
    Shared C K V :=
  { s with heap := Function.update s.heap m (Function.update (s.heap m) key val) }

/-- `m.Store(key, value)`. -/
def Shared.store (s : Shared C K V) (m : Ptr) (key : K) (value : GoAny V) : Shared C K V :=
  s.setKey m key (some value)

/-- `m.Delete(key)`. -/
def Shared.delete (s : Shared C K V) (m : Ptr) (key : K) : Shared C K V :=
  s.setKey m key none

/-- What `Load(ctx, key)` finds in the memory: the inner map of `ctx`, then `key` in it. -/
def Shared.view (s : Shared C K V) (ctx : C) (key : K) : Option (GoAny V) :=
  (s.outer ctx).bind fun m => s.heap m key

/-- A method call on the store. -/
inductive Call (C K V : Type) where
  | put (ctx : C) (values : List (Entry K V))
  | contains (ctx : C) (key : K)
  | load (ctx : C) (key : K)
  | delete (ctx : C) (keys : List K)

/-- The context a call is on. -/
def Call.ctx : Call C K V → C
  | .put ctx _ | .contains ctx _ | .load ctx _ | .delete ctx _ => ctx

/-- What a call returns: the nil error of `Put` and `Delete`, the `bool` of `Contains`, and
the value of `Load`. -/
inductive Ret (V : Type) where
  | nil
  | exist (b : Bool)
  | value (v : GoAny V)

/-- `Contains` and `Load`, which read alike and differ in what they return. -/
inductive ReadOp where
  | contains
  | load
  deriving DecidableEq

/-- What a read returns for what its last `Load` found: `Contains` whether the key was
there, `Load` the value, or nil. -/
def ReadOp.reply : ReadOp → Option (GoAny V) → Ret V
  | .contains, found => .exist found.isSome
  | .load, found => .value (found.getD none)

/-- The call of a read. -/
def ReadOp.call : ReadOp → C → K → Call C K V
  | .contains => .contains
  | .load => .load

/-- Where a running call is: not started, in `Put`'s loop with the entries still to store,
before the key's `Load` of a read, in `Delete`'s loop with the keys still to delete, or
returned. -/
inductive Pc (K V : Type) where
  | start
  | stores (m : Ptr) (values : List (Entry K V))
  | loadKey (m : Ptr)
  | deletes (m : Ptr) (keys : List K)
  | ret (r : Ret V)

/-- A write to an inner map, in the ghost log: `Store` writes `some value`, `Delete` writes
`none`. -/
structure Write (C K V : Type) where
  ctx : C
  key : K
  val : Option (GoAny V)

/-- A step: the memory after it, where the call is then, and the writes it made. -/
abbrev StepResult (C K V : Type) := Shared C K V × Pc K V × List (Write C K V)

/-- The steps of `Put(ctx, values...)`: `LoadOrStore` when there are values, then one `Store`
per entry. -/
def putStep (s : Shared C K V) (ctx : C) (values : List (Entry K V)) :
    Pc K V → Option (StepResult C K V)
  | .start =>
    if values.length > 0 then
      let (m, s') := s.loadOrStore ctx
      some (s', .stores m values, [])
    else some (s, .ret .nil, [])
  | .stores m (p :: rest) =>
    some (s.store m (asKey p.key) p.value, .stores m rest, [⟨ctx, asKey p.key, some p.value⟩])
  | .stores _ [] => some (s, .ret .nil, [])
  | _ => none

/-- The steps of `Contains(ctx, key)` and `Load(ctx, key)`: `Load` the inner map, then the
key. -/
def readStep (op : ReadOp) (s : Shared C K V) (ctx : C) (key : K) :
    Pc K V → Option (StepResult C K V)
  | .start =>
    match s.outer ctx with
    | some m => some (s, .loadKey m, [])
    | none => some (s, .ret (op.reply none), [])
  | .loadKey m => some (s, .ret (op.reply (s.heap m (asKey key))), [])
  | _ => none

/-- The steps of `Delete(ctx, keys...)`: `Load` the inner map when there are keys, then one
`Delete` per key. -/
def deleteStep (s : Shared C K V) (ctx : C) (keys : List K) : Pc K V → Option (StepResult C K V)
  | .start =>
    if keys.length > 0 then
      match s.outer ctx with
      | some m => some (s, .deletes m keys, [])
      | none => some (s, .ret .nil, [])
    else some (s, .ret .nil, [])
  | .deletes m (k :: rest) => some (s.delete m (asKey k), .deletes m rest, [⟨ctx, asKey k, none⟩])
  | .deletes _ [] => some (s, .ret .nil, [])
  | _ => none

/-- A goroutine running a call. -/
structure Thread (C K V : Type) where
  call : Call C K V
  pc : Pc K V

/-- The next atomic step of a thread, or `none` once it returned. -/
def Thread.step (s : Shared C K V) (t : Thread C K V) : Option (StepResult C K V) :=
  match t.call with
  | .put ctx values => putStep s ctx values t.pc
  | .contains ctx key => readStep .contains s ctx key t.pc
  | .load ctx key => readStep .load s ctx key t.pc
  | .delete ctx keys => deleteStep s ctx keys t.pc

/-- The store, the goroutines calling it, and the ghost log of writes, each with the index of
the thread that made it. -/
structure DataSys (C K V : Type) where
  shared : Shared C K V
  threads : List (Thread C K V)
  log : List (ℕ × Write C K V)

/-- The store as `NewDataStorage` makes it, before any call. -/
def DataSys.init : DataSys C K V := ⟨newDataStorage, [], []⟩

/-- What can happen next: a goroutine calls a method, or thread `i` takes its next step. -/
inductive DataAction (C K V : Type) where
  | invoke (call : Call C K V)
  | step (i : ℕ)

/-- One action, or `none` when thread `i` does not exist or has returned. -/
def DataSys.step (sys : DataSys C K V) : DataAction C K V → Option (DataSys C K V)
  | .invoke call => some { sys with threads := sys.threads ++ [⟨call, .start⟩] }
  | .step i =>
    match sys.threads[i]? with
    | none => none
    | some t =>
      (t.step sys.shared).map fun (s', pc, ws) =>
        ⟨s', sys.threads.set i { t with pc }, sys.log ++ ws.map ((i, ·))⟩

/-- The actions in turn, or `none` when one of them cannot happen. -/
def DataSys.run (sys : DataSys C K V) : List (DataAction C K V) → Option (DataSys C K V)
  | [] => some sys
  | a :: as => (sys.step a).bind (·.run as)

/-- The states a run of the store reaches, in any interleaving. -/
inductive DataSys.Reachable : DataSys C K V → Prop
  | init : DataSys.Reachable DataSys.init
  | step {sys sys' : DataSys C K V} (a : DataAction C K V) :
    DataSys.Reachable sys → sys.step a = some sys' → DataSys.Reachable sys'

end Mochi.Data
