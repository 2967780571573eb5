import RaftService.Types
import RaftService.Lib.Wal

/-!
# The database the stores share

* `Db`: the contents of the three column families, each a map ordered by the bytes of the key;
* `Write`: the primitive writes, a put or a range delete in one column family;
* `Io`: what an `async fn` of a store does to the database, as the list of the calls it issues, in
  order, with how it ends. `flush_wal(true)` is either awaited or spawned together with a callback.

Every call of the source is followed by `?`, so a call that fails ends the function there.
-/

namespace RaftService

/-- `STORE_COLUMN`, `META_COLUMN` and `LOGS_COLUMN` -/
inductive Column
  | store
  | metadata
  | logs
  deriving DecidableEq

/-- The contents of the column families. -/
abbrev Db := Column → SortedMap Bytes Bytes

/-- A database just created. -/
def Db.empty : Db := fun _ => SortedMap.empty

/-- The bytes of an ASCII key. -/
def ascii (s : String) : Bytes := s.toList.map fun c => c.toNat.toUInt8

/-- A primitive write: `put_cf` or `delete_range_cf`, the latter on a half-open range. -/
inductive Write
  | put (cf : Column) (key value : Bytes)
  | deleteRange (cf : Column) (lo hi : Bytes)
  deriving DecidableEq

/-- The effect of a primitive write. -/
def Db.write (db : Db) : Write → Db
  | .put cf key value => Function.update db cf ((db cf).insert key value)
  | .deleteRange cf lo hi => Function.update db cf ((db cf).eraseRange lo hi)

/-- A call on the database: a primitive write, an awaited `flush_wal(true)`, or the flush that
`append` spawns together with its callback. -/
inductive Call
  | write (w : Write)
  | flushWal
  | spawnFlush
  deriving DecidableEq

/-- The primitive write a call issues, if it does. -/
def Call.write? : Call → Option Write
  | .write w => some w
  | _ => none

/-- The calls a function issues, in order, and how it ends. -/
structure Io (α : Type) where
  calls : List Call
  result : Except Fault α

namespace Io

instance : Monad Io where
  pure a := ⟨[], .ok a⟩
  bind x f :=
    match x.result with
    | .ok a => ⟨x.calls ++ (f a).calls, (f a).result⟩
    | .error e => ⟨x.calls, .error e⟩

variable {α β : Type}

/-- A computation that issues no call. -/
def lift (r : Except Fault α) : Io α := ⟨[], r⟩

/-- `DB::put_cf` -/
def putCf (cf : Column) (key value : Bytes) : Io Unit := ⟨[.write (.put cf key value)], .ok ()⟩

/-- `DB::delete_range_cf` -/
def deleteRangeCf (cf : Column) (lo hi : Bytes) : Io Unit :=
  ⟨[.write (.deleteRange cf lo hi)], .ok ()⟩

/-- `DB::flush_wal(true)`, awaited -/
def flushWal : Io Unit := ⟨[.flushWal], .ok ()⟩

/-- `spawn_blocking` of `DB::flush_wal(true)` followed by the callback -/
def spawnFlush : Io Unit := ⟨[.spawnFlush], .ok ()⟩

/-- The primitive writes among the calls. -/
def writes (x : Io α) : List Write := x.calls.filterMap Call.write?

/-- The contents after all calls. -/
def run (x : Io α) (db : Db) : Db := x.writes.foldl Db.write db

/-- A run in which the database refuses call number `n` with the error `e`: the contents it leaves,
and how it ends. The error of a spawned flush goes to the callback. -/
def runFailing (x : Io α) (n : ℕ) (e : IoError) (db : Db) : Db × Except Fault α :=
  match x.calls[n]? with
  | none => (x.run db, x.result)
  | some .spawnFlush => (x.run db, x.result)
  | some _ => (((x.calls.take n).filterMap Call.write?).foldl Db.write db, .error (.io e))

theorem bind_of_ok {x : Io α} {a : α} (h : x.result = .ok a) (f : α → Io β) :
    (x >>= f) = ⟨x.calls ++ (f a).calls, (f a).result⟩ := by
  show (match x.result with
    | .ok a => (⟨x.calls ++ (f a).calls, (f a).result⟩ : Io β)
    | .error e => ⟨x.calls, .error e⟩) = _
  rw [h]

@[simp] theorem pure_eq (a : α) : (pure a : Io α) = ⟨[], .ok a⟩ := rfl

@[simp] theorem lift_ok_bind (a : α) (f : α → Io β) : (lift (.ok a) >>= f) = f a := rfl

@[simp] theorem putCf_bind (cf : Column) (key value : Bytes) (f : Unit → Io β) :
    (putCf cf key value >>= f) =
      ⟨.write (.put cf key value) :: (f ()).calls, (f ()).result⟩ := rfl

@[simp] theorem deleteRangeCf_bind (cf : Column) (lo hi : Bytes) (f : Unit → Io β) :
    (deleteRangeCf cf lo hi >>= f) =
      ⟨.write (.deleteRange cf lo hi) :: (f ()).calls, (f ()).result⟩ := rfl

end Io

@[simp] theorem Db.write_put_self (db : Db) (cf : Column) (k v : Bytes) :
    db.write (.put cf k v) cf = (db cf).insert k v := Function.update_self ..

@[simp] theorem Db.write_put_of_ne (db : Db) {cf cf' : Column} (h : cf' ≠ cf) (k v : Bytes) :
    db.write (.put cf k v) cf' = db cf' := Function.update_of_ne h ..

@[simp] theorem Db.write_deleteRange_self (db : Db) (cf : Column) (lo hi : Bytes) :
    db.write (.deleteRange cf lo hi) cf = (db cf).eraseRange lo hi := Function.update_self ..

@[simp] theorem Db.write_deleteRange_of_ne (db : Db) {cf cf' : Column} (h : cf' ≠ cf)
    (lo hi : Bytes) : db.write (.deleteRange cf lo hi) cf' = db cf' := Function.update_of_ne h ..

end RaftService
