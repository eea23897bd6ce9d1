import Iotistica.GuardedRun
import Iotistica.KeyedTable

/-!
# The caches of authentication decisions

Each kind of decision has a local cache with markers for the lookups in
flight, and all kinds share a namespace of Redis that is named after an
epoch. A lookup passes through the namespace, the shared entry, the load lock
and the loader, and may be suspended at each of them. Clearing empties the
local caches at once and sets a new epoch later. An entry knows how many
clears had begun when its loader started.
-/

set_option autoImplicit false

namespace Iotistica.AuthCache
open Iotistica.KeyedTable

variable {α : Type}

inductive CacheKind where
  | user
  | superuser
  | acl
  deriving DecidableEq

structure Entry (α : Type) where
  expiresAt : ℤ
  value : α
  loadedIn : ℕ

structure Config where
  maxEntries : ℕ
  epochRefreshMs : ℤ
  positive : 0 < maxEntries

/-- `entries` in the order of use, and the lookup that each key waits for. -/
structure InFlightTtlCache (α : Type) where
  entries : List (String × Entry α)
  inFlight : List (String × ℕ)

inductive Purpose where
  | first
  | lock
  | poll
  deriving DecidableEq

/-- Where a lookup is suspended. `asked` and `read` wait for an answer that the
server has given already; `loading` knows how many clears had begun. -/
inductive Stage (α : Type) where
  | resolving (purpose : Purpose)
  | asked (purpose : Purpose) (epoch : ℕ) (now : ℤ)
  | reading (polling : Bool) (epoch : ℕ)
  | read (polling : Bool) (epoch : ℕ) (found : Option (Entry α))
  | locking (epoch : ℕ)
  | waiting
  | loading (clears : ℕ)
  | settling (result : Option (Entry α))

structure Lookup (α : Type) where
  id : ℕ
  kind : CacheKind
  key : String
  staleValue : Option (Entry α)
  startedIn : ℕ
  stage : Stage α

inductive WriterStage where
  | resolving
  | asked (epoch : ℕ) (now : ℤ)
  | writing (epoch : ℕ)

/-- A `writeSharedCacheEntry` that nobody waits for. -/
structure Writer (α : Type) where
  id : ℕ
  kind : CacheKind
  key : String
  entry : Entry α
  stage : WriterStage

structure SharedEntry (α : Type) where
  epoch : ℕ
  kind : CacheKind
  key : String
  entry : Entry α

/-- A call of `getOrLoad` that waits for a lookup, and the last clear that
had resolved when it was made. -/
structure Caller where
  lookup : ℕ
  resolved : ℕ

/-- Clears are numbered: `localCacheEpoch` of them have begun, `sharedEpoch`
have set their epoch, `resolved` have resolved. `returned` has for each
decision the clears resolved before its call and those begun before its
loader. -/
structure State (α : Type) where
  caches : CacheKind → InFlightTtlCache α
  cachedSharedEpoch : Option (ℤ × ℕ)
  shared : List (SharedEntry α)
  localCacheEpoch : ℕ
  sharedEpoch : ℕ
  resolved : ℕ
  lookups : Table (Lookup α) Lookup.id
  writers : Table (Writer α) Writer.id
  callers : List Caller
  returned : List (ℕ × ℕ)

def started : State α := ⟨fun _ => ⟨[],[]⟩,none,[],0,0,0,.empty,.empty,[],[]⟩

inductive Event (α : Type) where
  | getOrLoad (kind : CacheKind) (key : String) (now : ℤ)
  | resolve (id : ℕ) (now : ℤ)
  | epochAnswered (id : ℕ)
  | entryRead (id : ℕ)
  | entryAnswered (id : ℕ) (now : ℤ)
  /-- The lock is switched off, or it is the cold start. -/
  | lockSkipped (id : ℕ)
  | lockAnswered (id : ℕ) (ok : Bool)
  | poll (id : ℕ)
  /-- The deadline of the wait for a shared entry is over. -/
  | waitExpired (id : ℕ)
  | loaded (id : ℕ) (value : α) (ttl now : ℤ)
  /-- The loader fails or takes too long. -/
  | failed (id : ℕ)
  /-- The promise of a lookup settles. -/
  | settled (id : ℕ)
  | writerResolve (id : ℕ) (now : ℤ)
  | writerAnswered (id : ℕ)
  | written (id : ℕ)
  /-- Redis drops the entries of a key. -/
  | dropped (epoch : ℕ) (kind : CacheKind) (key : String)
  | clearBegins
  | epochIncremented
  | clearResolves (now : ℤ)

def touchLruEntry (entries : List (String × Entry α)) (key : String) (entry : Entry α) :
    List (String × Entry α) :=
  entries.filter (fun p => p.1 ≠ key)++[(key,entry)]

def evictLeastRecentlyUsed (entries : List (String × Entry α)) (maxEntries : ℕ) :
    List (String × Entry α) :=
  entries.drop (entries.length-maxEntries)

def setCache (s : State α) (kind : CacheKind) (cache : InFlightTtlCache α) : State α :=
  { s with caches := fun k => if k = kind then cache else s.caches k }

def resolveValue (c : Config) (s : State α) (kind : CacheKind) (key : String)
    (entry : Entry α) : State α :=
  setCache s kind { s.caches kind with
    entries := evictLeastRecentlyUsed (touchLruEntry (s.caches kind).entries key entry)
      c.maxEntries }

def setStage (s : State α) (id : ℕ) (stage : Stage α) : State α :=
  { s with
    lookups := s.lookups.update (fun l => l.id = id) (fun l => { l with stage := stage })
      (fun _ => rfl) }

def setWriter (s : State α) (id : ℕ) (stage : WriterStage) : State α :=
  { s with
    writers := s.writers.update (fun w => w.id = id) (fun w => { w with stage := stage })
      (fun _ => rfl) }

def startLookup (s : State α) (kind : CacheKind) (key : String) (stale : Option (Entry α)) :
    State α :=
  { setCache s kind { s.caches kind with
      inFlight := (s.caches kind).inFlight.filter (fun p => p.1 ≠ key)++[(key,s.lookups.next)] } with
    lookups := s.lookups.insert
      (fun id => ⟨id,kind,key,stale,s.localCacheEpoch,.resolving .first⟩) (fun _ => rfl)
    callers := ⟨s.lookups.next,s.resolved⟩::s.callers }

def joinOrStart (s : State α) (kind : CacheKind) (key : String) (stale : Option (Entry α)) :
    State α :=
  match (s.caches kind).inFlight.find? (fun p => p.1 = key) with
  | some p => { s with callers := ⟨p.2,s.resolved⟩::s.callers }
  | none => startLookup s kind key stale

def getOrLoad (s : State α) (kind : CacheKind) (key : String) (now : ℤ) : State α :=
  match (s.caches kind).entries.find? (fun p => p.1 = key) with
  | some p =>
    if now < p.2.expiresAt then
      { setCache s kind { s.caches kind with
          entries := touchLruEntry (s.caches kind).entries key p.2 } with
        returned := (s.resolved,p.2.loadedIn)::s.returned }
    else joinOrStart s kind key (some p.2)
  | none => joinOrStart s kind key none

def known (purpose : Purpose) (epoch : ℕ) : Stage α :=
  match purpose with
  | .first => .reading false epoch
  | .lock => .locking epoch
  | .poll => .reading true epoch

/-- `getSharedCacheNamespace`: the epoch that is remembered, or a question to
Redis. -/
def getSharedCacheNamespace (s : State α) (now : ℤ) : Option ℕ :=
  match s.cachedSharedEpoch with
  | some (expiresAt,epoch) => if now < expiresAt then some epoch else none
  | none => none

def rememberEpoch (c : Config) (s : State α) (now : ℤ) (epoch : ℕ) : State α :=
  { s with cachedSharedEpoch := some (now+c.epochRefreshMs,epoch) }

def resolve (s : State α) (l : Lookup α) (now : ℤ) : State α :=
  match l.stage with
  | .resolving purpose =>
    match getSharedCacheNamespace s now with
    | some epoch => setStage s l.id (known purpose epoch)
    | none => setStage s l.id (.asked purpose s.sharedEpoch now)
  | _ => s

def epochAnswered (c : Config) (s : State α) (l : Lookup α) : State α :=
  match l.stage with
  | .asked purpose epoch now => setStage (rememberEpoch c s now epoch) l.id (known purpose epoch)
  | _ => s

def findShared (s : State α) (epoch : ℕ) (kind : CacheKind) (key : String) :
    Option (Entry α) :=
  (s.shared.find? (fun x => x.epoch = epoch ∧ x.kind = kind ∧ x.key = key)).map SharedEntry.entry

def dropShared (s : State α) (epoch : ℕ) (kind : CacheKind) (key : String) : State α :=
  { s with shared := s.shared.filter (fun x => ¬(x.epoch = epoch ∧ x.kind = kind ∧ x.key = key)) }

def missed (polling : Bool) : Stage α := if polling then .waiting else .resolving .lock

def entryRead (s : State α) (l : Lookup α) : State α :=
  match l.stage with
  | .reading polling epoch => setStage s l.id (.read polling epoch (findShared s epoch l.kind l.key))
  | _ => s

def entryAnswered (c : Config) (s : State α) (l : Lookup α) (now : ℤ) : State α :=
  match l.stage with
  | .read polling epoch (some entry) =>
    if now < entry.expiresAt then
      setStage (resolveValue c s l.kind l.key entry) l.id (.settling (some entry))
    else setStage (dropShared s epoch l.kind l.key) l.id (missed polling)
  | .read polling _ none => setStage s l.id (missed polling)
  | _ => s

def lockSkipped (s : State α) (l : Lookup α) : State α :=
  match l.stage with
  | .resolving .lock => setStage s l.id (.loading s.localCacheEpoch)
  | _ => s

def lockAnswered (s : State α) (l : Lookup α) (ok : Bool) : State α :=
  match l.stage with
  | .locking _ => setStage s l.id (if ok then .loading s.localCacheEpoch else .waiting)
  | _ => s

def poll (s : State α) (l : Lookup α) : State α :=
  match l.stage with
  | .waiting => setStage s l.id (.resolving .poll)
  | _ => s

def waitExpired (s : State α) (l : Lookup α) : State α :=
  match l.stage with
  | .waiting => setStage s l.id (.loading s.localCacheEpoch)
  | _ => s

def loaded (c : Config) (s : State α) (l : Lookup α) (value : α) (ttl now : ℤ) : State α :=
  match l.stage with
  | .loading clears =>
    let entry : Entry α := ⟨now+ttl,value,clears⟩
    let written := { s with
      writers := s.writers.insert (fun id => ⟨id,l.kind,l.key,entry,.resolving⟩) (fun _ => rfl) }
    setStage (resolveValue c written l.kind l.key entry) l.id (.settling (some entry))
  | _ => s

def failed (s : State α) (l : Lookup α) : State α :=
  match l.stage with
  | .loading _ => setStage s l.id (.settling l.staleValue)
  | _ => s

def settled (s : State α) (l : Lookup α) : State α :=
  match l.stage with
  | .settling result =>
    { setCache s l.kind { s.caches l.kind with
        inFlight := (s.caches l.kind).inFlight.filter (fun p => p.1 ≠ l.key) } with
      lookups := s.lookups.delete (fun k => k.id = l.id)
      callers := s.callers.filter (fun x => x.lookup ≠ l.id)
      returned := (s.callers.filter (fun x => x.lookup = l.id)).flatMap
        (fun x => result.toList.map (fun e => (x.resolved,e.loadedIn)))++s.returned }
  | _ => s

def writerResolve (s : State α) (w : Writer α) (now : ℤ) : State α :=
  match w.stage with
  | .resolving =>
    match getSharedCacheNamespace s now with
    | some epoch => setWriter s w.id (.writing epoch)
    | none => setWriter s w.id (.asked s.sharedEpoch now)
  | _ => s

def writerAnswered (c : Config) (s : State α) (w : Writer α) : State α :=
  match w.stage with
  | .asked epoch now => setWriter (rememberEpoch c s now epoch) w.id (.writing epoch)
  | _ => s

def written (s : State α) (w : Writer α) : State α :=
  match w.stage with
  | .writing epoch =>
    { dropShared s epoch w.kind w.key with
      shared := (dropShared s epoch w.kind w.key).shared++[⟨epoch,w.kind,w.key,w.entry⟩]
      writers := s.writers.delete (fun v => v.id = w.id) }
  | _ => s

/-- `clearMqttAuthCaches` up to its first suspension. -/
def clearBegins (s : State α) : State α :=
  { s with
    localCacheEpoch := s.localCacheEpoch+1
    cachedSharedEpoch := none
    caches := fun _ => ⟨[],[]⟩ }

/-- `INCR` of the oldest clear that has not sent it. -/
def epochIncremented (s : State α) : State α :=
  if s.sharedEpoch < s.localCacheEpoch then { s with sharedEpoch := s.sharedEpoch+1 } else s

def clearResolves (c : Config) (s : State α) (now : ℤ) : State α :=
  if s.resolved < s.sharedEpoch then
    { rememberEpoch c s now (s.resolved+1) with resolved := s.resolved+1 }
  else s

def withLookup (s : State α) (id : ℕ) (f : Lookup α → State α) : State α :=
  match s.lookups.rows.find? (fun l => l.id = id) with
  | some l => f l
  | none => s

def withWriter (s : State α) (id : ℕ) (f : Writer α → State α) : State α :=
  match s.writers.rows.find? (fun w => w.id = id) with
  | some w => f w
  | none => s

def step (c : Config) (s : State α) : Event α → State α
  | .getOrLoad kind key now => getOrLoad s kind key now
  | .resolve id now => withLookup s id (fun l => resolve s l now)
  | .epochAnswered id => withLookup s id (epochAnswered c s)
  | .entryRead id => withLookup s id (entryRead s)
  | .entryAnswered id now => withLookup s id (fun l => entryAnswered c s l now)
  | .lockSkipped id => withLookup s id (lockSkipped s)
  | .lockAnswered id ok => withLookup s id (fun l => lockAnswered s l ok)
  | .poll id => withLookup s id (poll s)
  | .waitExpired id => withLookup s id (waitExpired s)
  | .loaded id value ttl now => withLookup s id (fun l => loaded c s l value ttl now)
  | .failed id => withLookup s id (failed s)
  | .settled id => withLookup s id (settled s)
  | .writerResolve id now => withWriter s id (fun w => writerResolve s w now)
  | .writerAnswered id => withWriter s id (writerAnswered c s)
  | .written id => withWriter s id (written s)
  | .dropped epoch kind key => dropShared s epoch kind key
  | .clearBegins => clearBegins s
  | .epochIncremented => epochIncremented s
  | .clearResolves now => clearResolves c s now

end Iotistica.AuthCache
