import Mathlib.Data.List.AList
import Mathlib.Tactic.Lemma
import Mathlib.Data.Int.Notation
import Fecore.Data.Durations

set_option relaxedAutoImplicit false
set_option autoImplicit false

/-!
# Functions and their replicas

The data of `pkg/provider/handlers/functions.go`, `policy.go` and
`pkg/provider/config/fecore_config.go` that the operations on replicas read and write.

## Main definitions

* `Fecore.Str`, `Fecore.GoMap` — Go strings and Go maps with string keys.
* `Fecore.Replica`, `Fecore.IdleReplicas`, `Fecore.Policy`, `Fecore.Function` — a replica, the
  idle pool of a function, the policy of a function, the function itself.
* `Fecore.Config` — the limits read from the config file.

## Design

A pointer to a `Replica` is modelled by the replica's value: only `AddIdleReplica` changes a
replica after its creation, and the module `Fecore.Handlers.Ownership` shows that whoever
calls it holds the only pointer. Pointers to a `Function` stay pointers (`Fecore.Ref`), since
the sweep keeps one across a section that drops its lock.
-/

namespace Fecore

/-- Go strings. -/
abbrev Str := List Char

/-- Texts are equal when their characters are. -/
instance : LawfulBEq Str := inferInstance

/-- Go maps with string keys. -/
abbrev GoMap (V : Type) := AList fun _ : Str => V

/-- `m[k]` for a map to strings: the empty string when the key is absent. -/
def index (m : GoMap Str) (k : Str) : Str := (m.lookup k).getD []

/-- Points in time and durations, in nanoseconds. -/
abbrev Time := ℤ

/-- The container type `"native"`. -/
def native : Str := "native".toList

/-- The container type `"wasm"`. -/
def wasm : Str := "wasm".toList

/-- The container type `"hybrid"`. -/
def hybrid : Str := "hybrid".toList

/-- The label that holds the container type of a function. -/
def ctrTypeLabel : Str := "ctrType".toList

/-- `fecore.DefaultFunctionNamespace`. -/
def defaultFunctionNamespace : Str := "faasedge-fn".toList

/-- One instance of a function. -/
structure Replica where
  /-- name of parent Function -/
  fname : Str
  /-- native or wasm container -/
  ctrType : Str
  /-- unique ID; the name of the container -/
  uuid : Str
  pid : ℕ
  ip : Str
  /-- network namespace num of container -/
  netNS : ℤ
  /-- last time used -/
  lastAccess : Time
deriving DecidableEq

/-- The replica after `replica.lastAccess = time.Now()`. -/
def Replica.accessed (r : Replica) (now : Time) : Replica := { r with lastAccess := now }

/-- A new time stamp leaves the name of the replica. -/
@[simp] lemma Replica.accessed_uuid (r : Replica) (now : Time) : (r.accessed now).uuid = r.uuid :=
  rfl

/-- A new time stamp leaves the function that the replica belongs to. -/
@[simp] lemma Replica.accessed_fname (r : Replica) (now : Time) :
    (r.accessed now).fname = r.fname := rfl

/-- A new time stamp leaves the container type. -/
@[simp] lemma Replica.accessed_ctrType (r : Replica) (now : Time) :
    (r.accessed now).ctrType = r.ctrType := rfl

/-- The idle pool of a function: the oldest replica in `LRU`, the newest in `MRU`, the others
between them in `containers`, and a counter. -/
structure IdleReplicas where
  containers : List Replica := []
  count : UInt32 := 0
  lru : Option Replica := none
  mru : Option Replica := none
deriving DecidableEq

/-- The invocation policy of a function. -/
structure Policy where
  coldStartCtrType : Str := []
  warmStartCtrType : Str := []
  spawnAddlCtrs : ℤ := 0
  keepaliveColdStartCtr : ℤ := 0
deriving DecidableEq

/-- A deployed function. -/
structure Function where
  name : Str
  namespace_ : Str
  image : Str
  imageFiles : List Str := []
  sandboxes : GoMap Str := ∅
  policy : Policy := {}
  activeReplicas : GoMap Replica := ∅
  idleReplicas : IdleReplicas := {}
  labels : GoMap Str := ∅
  annotations : GoMap Str := ∅
  secrets : List Str := []
  secretsPath : Str := []
  envVars : GoMap Str := ∅
  envProcess : Str := []
  memoryLimit : ℤ := 0

/-- A pointer to a `Function`: its place among all the `Function` objects allocated so far. -/
abbrev Ref := ℕ

/-- A network namespace for WASM replicas and the address inside it. -/
structure WasmIPInfo where
  netnsNum : ℤ
  ip : Str
deriving DecidableEq

/-- The limits of the config file that the operations on replicas use. -/
structure Config where
  maxWasmContainers : ℤ
  maxNativeContainers : ℤ
  containerExpirationTime : ℤ
deriving DecidableEq

/-- `currTs.Sub(lastAccess).Seconds() >= float64(cfg.ContainerExpirationTime)`. -/
def Config.expired (cfg : Config) (currTs : Time) (r : Replica) : Bool :=
  Durations.float64 cfg.containerExpirationTime ≤
    Durations.seconds (Durations.sub currTs r.lastAccess)

end Fecore
