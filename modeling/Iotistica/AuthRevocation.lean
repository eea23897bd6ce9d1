import Iotistica.AuthCache

/-!
# Revocation by clearing

A clear empties the local caches and names a new namespace, but it stops no
lookup. A load that it overtakes fills the local cache and, since the
namespace is looked up when it writes, the new one. Revocation holds in
exactly the runs in which no load is overtaken before it stores its decision.
-/

set_option autoImplicit false

namespace Iotistica.AuthCache
open Iotistica.GuardedRun Iotistica.KeyedTable

variable {α : Type}

/-- What a clear is to achieve: a decision that is returned to a call made
after a clear had resolved was loaded after it began, and no load that
started before a clear began is found in the local caches or in the
namespace of that clear. -/
structure Revoked (s : State α) : Prop where
  decisions : ∀ r ∈ s.returned, r.1 ≤ r.2
  localCaches : ∀ kind, ∀ p ∈ (s.caches kind).entries, p.2.loadedIn = s.localCacheEpoch
  namespaces : ∀ x ∈ s.shared, x.epoch ≤ x.entry.loadedIn

/-- No clear has begun since the load of what a lookup is about to store
started, and a writer's namespace is not that of a later clear. -/
def Timely (s : State α) : Event α → Prop
  | .entryAnswered id now => ∀ l ∈ s.lookups.rows, l.id = id → ∀ polling epoch entry,
      l.stage = .read polling epoch (some entry) → now < entry.expiresAt →
        entry.loadedIn = s.localCacheEpoch
  | .loaded id _ _ _ => ∀ l ∈ s.lookups.rows, l.id = id → ∀ clears,
      l.stage = .loading clears → clears = s.localCacheEpoch
  | .written id => ∀ w ∈ s.writers.rows, w.id = id → ∀ epoch,
      w.stage = .writing epoch → epoch ≤ w.entry.loadedIn
  | _ => True

def StageOk (startedIn : ℕ) : Stage α → Prop
  | .loading clears => startedIn ≤ clears
  | .settling result => ∀ e ∈ result, startedIn ≤ e.loadedIn
  | _ => True

structure LookupOk (clears : ℕ) (l : Lookup α) : Prop where
  started : l.startedIn ≤ clears
  stale : ∀ e ∈ l.staleValue, l.startedIn ≤ e.loadedIn
  stage : StageOk l.startedIn l.stage

structure Inv (s : State α) : Prop where
  revoked : Revoked s
  resolved : s.resolved ≤ s.sharedEpoch
  sent : s.sharedEpoch ≤ s.localCacheEpoch
  lookups : ∀ l ∈ s.lookups.rows, LookupOk s.localCacheEpoch l
  markers : ∀ kind, ∀ p ∈ (s.caches kind).inFlight, p.2 < s.lookups.next ∧
    ∀ l ∈ s.lookups.rows, l.id = p.2 → l.startedIn = s.localCacheEpoch
  callers : ∀ c ∈ s.callers, c.lookup < s.lookups.next ∧
    ∀ l ∈ s.lookups.rows, l.id = c.lookup → c.resolved ≤ l.startedIn

section
variable {c : Config} {s : State α} {l : Lookup α}

theorem with_lookup {P : State α → Prop} {id : ℕ} {f : Lookup α → State α} (hs : P s)
    (hf : ∀ l ∈ s.lookups.rows, l.id = id → P (f l)) : P (withLookup s id f) := by
  unfold withLookup
  cases hl : s.lookups.rows.find? (fun l => l.id = id) with
  | none => exact hs
  | some l => exact hf l (List.mem_of_find?_eq_some hl) (by simpa using List.find?_some hl)

theorem with_writer {P : State α → Prop} {id : ℕ} {f : Writer α → State α} (hs : P s)
    (hf : ∀ w ∈ s.writers.rows, w.id = id → P (f w)) : P (withWriter s id f) := by
  unfold withWriter
  cases hw : s.writers.rows.find? (fun w => w.id = id) with
  | none => exact hs
  | some w => exact hf w (List.mem_of_find?_eq_some hw) (by simpa using List.find?_some hw)

theorem withLookup_mem {f : Lookup α → State α} (hl : l ∈ s.lookups.rows) :
    withLookup s l.id f = f l := by
  rw [withLookup, s.lookups.find?_key hl]

theorem withWriter_mem {w : Writer α} {f : Writer α → State α} (hw : w ∈ s.writers.rows) :
    withWriter s w.id f = f w := by
  rw [withWriter, s.writers.find?_key hw]

theorem mem_setStage {stage : Stage α} {k : Lookup α} {id : ℕ}
    (hk : k ∈ (setStage s id stage).lookups.rows) :
    ∃ a ∈ s.lookups.rows, k = { a with stage := k.stage } ∧
      (k.stage = a.stage ∨ (a.id = id ∧ k.stage = stage)) := by
  simp only [setStage, Table.mem_update, decide_eq_true_eq] at hk
  obtain ⟨a,ha,rfl⟩ := hk
  split
  · next hid => exact ⟨a,ha,rfl,Or.inr ⟨hid,rfl⟩⟩
  · exact ⟨a,ha,rfl,Or.inl rfl⟩

theorem inv_setStage (h : Inv s) (hl : l ∈ s.lookups.rows) {stage : Stage α}
    (hok : StageOk l.startedIn stage) : Inv (setStage s l.id stage) where
  revoked := ⟨h.revoked.decisions,h.revoked.localCaches,h.revoked.namespaces⟩
  resolved := h.resolved
  sent := h.sent
  lookups := fun k hk => by
    obtain ⟨a,ha,hka,hstage⟩ := mem_setStage hk
    have hold := h.lookups a ha
    rw [hka]
    refine ⟨hold.started,hold.stale,?_⟩
    rcases hstage with hstage | ⟨hid,hstage⟩
    · exact hstage ▸ hold.stage
    · obtain rfl := s.lookups.key_unique ha hl hid
      exact hstage ▸ hok
  markers := fun kind p hp => by
    obtain ⟨hlt,hstarted⟩ := h.markers kind p hp
    refine ⟨hlt,fun k hk hid => ?_⟩
    obtain ⟨a,ha,hka,-⟩ := mem_setStage hk
    rw [hka] at hid ⊢
    exact hstarted a ha hid
  callers := fun x hx => by
    obtain ⟨hlt,hstarted⟩ := h.callers x hx
    refine ⟨hlt,fun k hk hid => ?_⟩
    obtain ⟨a,ha,hka,-⟩ := mem_setStage hk
    rw [hka] at hid ⊢
    exact hstarted a ha hid

theorem mem_touch {entries : List (String × Entry α)} {key : String} {entry : Entry α}
    {p : String × Entry α} (hp : p ∈ touchLruEntry entries key entry) :
    p ∈ entries ∨ p = (key,entry) := by
  rcases List.mem_append.mp hp with hp | hp
  · exact Or.inl (List.mem_filter.mp hp).1
  · exact Or.inr (List.mem_singleton.mp hp)

theorem mem_evict (entries : List (String × Entry α)) (key : String) (entry : Entry α) :
    (key,entry) ∈ evictLeastRecentlyUsed (touchLruEntry entries key entry) c.maxEntries := by
  have hpos := c.positive
  unfold evictLeastRecentlyUsed touchLruEntry
  rw [List.drop_append_of_le_length]
  · exact List.mem_append_right _ (List.mem_singleton.mpr rfl)
  · simp only [List.length_append, List.length_singleton]
    omega

theorem caches_setCache (kind k : CacheKind) (cache : InFlightTtlCache α) :
    (setCache s kind cache).caches k = if k = kind then cache else s.caches k := rfl

theorem inv_setCache (h : Inv s) (kind : CacheKind) {cache : InFlightTtlCache α}
    (hentries : ∀ p ∈ cache.entries, p.2.loadedIn = s.localCacheEpoch)
    (hmarkers : ∀ p ∈ cache.inFlight, p ∈ (s.caches kind).inFlight) :
    Inv (setCache s kind cache) where
  revoked := by
    refine ⟨h.revoked.decisions,fun k p hp => ?_,h.revoked.namespaces⟩
    rw [caches_setCache] at hp
    split at hp
    · exact hentries p hp
    · exact h.revoked.localCaches k p hp
  resolved := h.resolved
  sent := h.sent
  lookups := h.lookups
  markers := fun k p hp => by
    rw [caches_setCache] at hp
    split at hp
    · exact h.markers kind p (hmarkers p hp)
    · exact h.markers k p hp
  callers := h.callers

theorem inv_resolveValue (h : Inv s) (kind : CacheKind) (key : String) {entry : Entry α}
    (hentry : entry.loadedIn = s.localCacheEpoch) : Inv (resolveValue c s kind key entry) := by
  refine inv_setCache h kind (fun p hp => ?_) (fun _ hp => hp)
  rcases mem_touch (List.mem_of_mem_drop hp) with hp | rfl
  · exact h.revoked.localCaches kind p hp
  · exact hentry

theorem resolveValue_stored {entry : Entry α}
    (hr : Revoked (resolveValue c s l.kind l.key entry)) :
    entry.loadedIn = s.localCacheEpoch := by
  refine hr.localCaches l.kind (l.key,entry) ?_
  rw [resolveValue, caches_setCache, if_pos rfl]
  exact mem_evict _ _ _

theorem inv_join (h : Inv s) {kind : CacheKind} {p : String × ℕ}
    (hp : p ∈ (s.caches kind).inFlight) :
    Inv { s with callers := ⟨p.2,s.resolved⟩::s.callers } :=
  { h with
    revoked := ⟨h.revoked.decisions,h.revoked.localCaches,h.revoked.namespaces⟩
    callers := fun x hx => by
      rcases List.mem_cons.mp hx with rfl | hx
      · obtain ⟨hlt,hstarted⟩ := h.markers kind p hp
        refine ⟨hlt,fun k hk hid => ?_⟩
        rw [hstarted k hk hid]
        exact Nat.le_trans h.resolved h.sent
      · exact h.callers x hx }

theorem inv_startLookup (h : Inv s) (kind : CacheKind) (key : String) {stale : Option (Entry α)}
    (hstale : ∀ e ∈ stale, e.loadedIn = s.localCacheEpoch) :
    Inv (startLookup s kind key stale) := by
  have hrows : ∀ k ∈ (startLookup s kind key stale).lookups.rows, k ∈ s.lookups.rows ∨
      k = ⟨s.lookups.next,kind,key,stale,s.localCacheEpoch,.resolving .first⟩ :=
    fun k hk => (Table.mem_insert _ _ (fun _ => rfl) _).mp hk
  have hkept : ∀ k, ∀ p ∈ (s.caches k).inFlight, p.2 < s.lookups.next+1 ∧
      ∀ a ∈ (startLookup s kind key stale).lookups.rows, a.id = p.2 →
        a.startedIn = s.localCacheEpoch := by
    intro k p hp
    obtain ⟨hlt,hstarted⟩ := h.markers k p hp
    refine ⟨by omega,fun a ha hid => ?_⟩
    rcases hrows a ha with ha | rfl
    · exact hstarted a ha hid
    · rfl
  refine ⟨⟨h.revoked.decisions,fun k p hp => ?_,h.revoked.namespaces⟩,h.resolved,h.sent,
    fun a ha => ?_,fun k p hp => ?_,fun x hx => ?_⟩
  · simp only [startLookup, caches_setCache] at hp
    split at hp
    · next hk => exact h.revoked.localCaches kind p hp
    · exact h.revoked.localCaches k p hp
  · rcases hrows a ha with ha | rfl
    · exact h.lookups a ha
    · exact ⟨Nat.le_refl _,fun e he => Nat.le_of_eq (hstale e he).symm,trivial⟩
  · simp only [startLookup, caches_setCache] at hp
    split at hp
    · rcases List.mem_append.mp hp with hp | hp
      · exact hkept kind p (List.mem_filter.mp hp).1
      · obtain rfl := List.mem_singleton.mp hp
        refine ⟨Nat.lt_succ_self _,fun a ha hid => ?_⟩
        rcases hrows a ha with ha | rfl
        · have hlt : a.id < s.lookups.next := s.lookups.below a ha
          have hid : a.id = s.lookups.next := hid
          omega
        · rfl
    · exact hkept k p hp
  · rcases List.mem_cons.mp hx with rfl | hx
    · refine ⟨Nat.lt_succ_self _,fun a ha hid => ?_⟩
      rcases hrows a ha with ha | rfl
      · have hlt : a.id < s.lookups.next := s.lookups.below a ha
        have hid : a.id = s.lookups.next := hid
        omega
      · exact Nat.le_trans h.resolved h.sent
    · obtain ⟨hlt,hstarted⟩ := h.callers x hx
      refine ⟨Nat.lt_succ_of_lt hlt,fun a ha hid => ?_⟩
      rcases hrows a ha with ha | rfl
      · exact hstarted a ha hid
      · have hid : s.lookups.next = x.lookup := hid
        omega

theorem inv_joinOrStart (h : Inv s) (kind : CacheKind) (key : String) {stale : Option (Entry α)}
    (hstale : ∀ e ∈ stale, e.loadedIn = s.localCacheEpoch) :
    Inv (joinOrStart s kind key stale) := by
  unfold joinOrStart
  split
  · next p hp => exact inv_join h (List.mem_of_find?_eq_some hp)
  · exact inv_startLookup h kind key hstale

theorem inv_getOrLoad (h : Inv s) (kind : CacheKind) (key : String) (now : ℤ) :
    Inv (getOrLoad s kind key now) := by
  unfold getOrLoad
  split
  · next p hp =>
    have hfresh := h.revoked.localCaches kind p (List.mem_of_find?_eq_some hp)
    split
    · have htouched : Inv (setCache s kind { s.caches kind with
          entries := touchLruEntry (s.caches kind).entries key p.2 }) := by
        refine inv_setCache h kind (fun q hq => ?_) (fun _ hq => hq)
        rcases mem_touch hq with hq | rfl
        · exact h.revoked.localCaches kind q hq
        · exact hfresh
      refine { htouched with
        revoked := ⟨?_,htouched.revoked.localCaches,htouched.revoked.namespaces⟩ }
      intro r hr
      rcases List.mem_cons.mp hr with rfl | hr
      · exact hfresh ▸ Nat.le_trans h.resolved h.sent
      · exact h.revoked.decisions r hr
    · refine inv_joinOrStart h kind key (fun e he => ?_)
      obtain rfl := Option.mem_some_iff.mp he
      exact hfresh
  · exact inv_joinOrStart h kind key (fun e he => absurd he (by simp))

theorem inv_settled (h : Inv s) (hl : l ∈ s.lookups.rows) : Inv (settled s l) := by
  unfold settled
  split
  · next result hstage =>
    have hresult : ∀ e ∈ result, l.startedIn ≤ e.loadedIn := by
      have hok := (h.lookups l hl).stage
      rw [hstage] at hok
      exact hok
    have hunmarked : Inv (setCache s l.kind { s.caches l.kind with
        inFlight := (s.caches l.kind).inFlight.filter (fun p => p.1 ≠ l.key) }) :=
      inv_setCache h l.kind (h.revoked.localCaches l.kind) (fun p hp => (List.mem_filter.mp hp).1)
    have hrows : ∀ a ∈ (s.lookups.delete (fun k => k.id = l.id)).rows, a ∈ s.lookups.rows :=
      fun a ha => ((Table.mem_delete _ _ _).mp ha).1
    refine ⟨⟨fun r hr => ?_,hunmarked.revoked.localCaches,h.revoked.namespaces⟩,h.resolved,h.sent,
      fun a ha => h.lookups a (hrows a ha),fun k p hp => ?_,fun x hx => ?_⟩
    · rcases List.mem_append.mp hr with hr | hr
      · -- the callers made their calls before the lookup's value was loaded
        obtain ⟨x,hx,hr⟩ := List.mem_flatMap.mp hr
        obtain ⟨hx,hid⟩ := List.mem_filter.mp hx
        obtain ⟨e,he,rfl⟩ := List.mem_map.mp hr
        have hcaller := (h.callers x hx).2 l hl (by simpa using (of_decide_eq_true hid).symm)
        exact Nat.le_trans hcaller (hresult e (by simpa using he))
      · exact h.revoked.decisions r hr
    · obtain ⟨hlt,hstarted⟩ := hunmarked.markers k p hp
      exact ⟨hlt,fun a ha hid => hstarted a (hrows a ha) hid⟩
    · obtain ⟨hlt,hstarted⟩ := h.callers x (List.mem_filter.mp hx).1
      exact ⟨hlt,fun a ha hid => hstarted a (hrows a ha) hid⟩
  · exact h

theorem stageOk_known (n : ℕ) (purpose : Purpose) (epoch : ℕ) :
    StageOk n (known purpose epoch : Stage α) := by
  cases purpose with
  | first => trivial
  | lock => trivial
  | poll => trivial

theorem stageOk_missed (n : ℕ) (polling : Bool) : StageOk n (missed polling : Stage α) := by
  cases polling with
  | false => trivial
  | true => trivial

theorem inv_rememberEpoch (h : Inv s) (now : ℤ) (epoch : ℕ) : Inv (rememberEpoch c s now epoch) :=
  { h with revoked := ⟨h.revoked.decisions,h.revoked.localCaches,h.revoked.namespaces⟩ }

theorem inv_dropShared (h : Inv s) (epoch : ℕ) (kind : CacheKind) (key : String) :
    Inv (dropShared s epoch kind key) :=
  { h with
    revoked := ⟨h.revoked.decisions,h.revoked.localCaches,
      fun x hx => h.revoked.namespaces x (List.mem_filter.mp hx).1⟩ }

theorem inv_resolve (h : Inv s) (hl : l ∈ s.lookups.rows) (now : ℤ) : Inv (resolve s l now) := by
  unfold resolve
  split
  · split
    · exact inv_setStage h hl (stageOk_known _ _ _)
    · exact inv_setStage h hl trivial
  · exact h

theorem inv_epochAnswered (h : Inv s) (hl : l ∈ s.lookups.rows) : Inv (epochAnswered c s l) := by
  unfold epochAnswered
  split
  · exact inv_setStage (inv_rememberEpoch h _ _) hl (stageOk_known _ _ _)
  · exact h

theorem inv_entryRead (h : Inv s) (hl : l ∈ s.lookups.rows) : Inv (entryRead s l) := by
  unfold entryRead
  split
  · exact inv_setStage h hl trivial
  · exact h

theorem inv_entryAnswered (h : Inv s) (hl : l ∈ s.lookups.rows) (now : ℤ)
    (hok : Timely s (.entryAnswered l.id now)) : Inv (entryAnswered c s l now) := by
  unfold entryAnswered
  split
  · next polling epoch entry hstage =>
    split
    · next hnow =>
      have hentry := hok l hl rfl polling epoch entry hstage hnow
      refine inv_setStage (inv_resolveValue h l.kind l.key hentry) hl (fun e he => ?_)
      obtain rfl := Option.mem_some_iff.mp he
      exact hentry ▸ (h.lookups l hl).started
    · exact inv_setStage (inv_dropShared h _ _ _) hl (stageOk_missed _ _)
  · exact inv_setStage h hl (stageOk_missed _ _)
  · exact h

theorem inv_lockSkipped (h : Inv s) (hl : l ∈ s.lookups.rows) : Inv (lockSkipped s l) := by
  unfold lockSkipped
  split
  · exact inv_setStage h hl (h.lookups l hl).started
  · exact h

theorem inv_lockAnswered (h : Inv s) (hl : l ∈ s.lookups.rows) (ok : Bool) :
    Inv (lockAnswered s l ok) := by
  unfold lockAnswered
  split
  · refine inv_setStage h hl ?_
    cases ok with
    | false => trivial
    | true => exact (h.lookups l hl).started
  · exact h

theorem inv_poll (h : Inv s) (hl : l ∈ s.lookups.rows) : Inv (poll s l) := by
  unfold poll
  split
  · exact inv_setStage h hl trivial
  · exact h

theorem inv_waitExpired (h : Inv s) (hl : l ∈ s.lookups.rows) : Inv (waitExpired s l) := by
  unfold waitExpired
  split
  · exact inv_setStage h hl (h.lookups l hl).started
  · exact h

theorem inv_loaded (h : Inv s) (hl : l ∈ s.lookups.rows) (value : α) (ttl now : ℤ)
    (hok : Timely s (.loaded l.id value ttl now)) : Inv (loaded c s l value ttl now) := by
  unfold loaded
  split
  · next clears hstage =>
    have hclears := hok l hl rfl clears hstage
    have hwriter : Inv { s with
        writers := s.writers.insert
          (fun id => ⟨id,l.kind,l.key,⟨now+ttl,value,clears⟩,.resolving⟩) (fun _ => rfl) } :=
      { h with revoked := ⟨h.revoked.decisions,h.revoked.localCaches,h.revoked.namespaces⟩ }
    refine inv_setStage (inv_resolveValue hwriter l.kind l.key hclears) hl (fun e he => ?_)
    obtain rfl := Option.mem_some_iff.mp he
    exact hclears ▸ (h.lookups l hl).started
  · exact h

theorem inv_failed (h : Inv s) (hl : l ∈ s.lookups.rows) : Inv (failed s l) := by
  unfold failed
  split
  · exact inv_setStage h hl (h.lookups l hl).stale
  · exact h

theorem inv_setWriter (h : Inv s) (id : ℕ) (stage : WriterStage) : Inv (setWriter s id stage) :=
  { h with revoked := ⟨h.revoked.decisions,h.revoked.localCaches,h.revoked.namespaces⟩ }

theorem inv_writerResolve (h : Inv s) (w : Writer α) (now : ℤ) : Inv (writerResolve s w now) := by
  unfold writerResolve
  split
  · split
    · exact inv_setWriter h _ _
    · exact inv_setWriter h _ _
  · exact h

theorem inv_writerAnswered (h : Inv s) (w : Writer α) : Inv (writerAnswered c s w) := by
  unfold writerAnswered
  split
  · exact inv_setWriter (inv_rememberEpoch h _ _) _ _
  · exact h

theorem inv_written (h : Inv s) {w : Writer α} (hw : w ∈ s.writers.rows)
    (hok : Timely s (.written w.id)) : Inv (written s w) := by
  unfold written
  split
  · next epoch hstage =>
    have hentry := hok w hw rfl epoch hstage
    refine { h with revoked := ⟨h.revoked.decisions,h.revoked.localCaches,fun x hx => ?_⟩ }
    rcases List.mem_append.mp hx with hx | hx
    · exact h.revoked.namespaces x (List.mem_filter.mp hx).1
    · obtain rfl := List.mem_singleton.mp hx
      exact hentry
  · exact h

theorem inv_clearBegins (h : Inv s) : Inv (clearBegins s) where
  revoked := ⟨h.revoked.decisions,fun _ _ hp => absurd hp List.not_mem_nil,h.revoked.namespaces⟩
  resolved := h.resolved
  sent := Nat.le_succ_of_le h.sent
  lookups := fun l hl => { h.lookups l hl with started := Nat.le_succ_of_le (h.lookups l hl).started }
  markers := fun _ _ hp => absurd hp List.not_mem_nil
  callers := h.callers

theorem inv_epochIncremented (h : Inv s) : Inv (epochIncremented s) := by
  unfold epochIncremented
  split
  · next hlt =>
    exact { h with
      revoked := ⟨h.revoked.decisions,h.revoked.localCaches,h.revoked.namespaces⟩
      resolved := Nat.le_succ_of_le h.resolved
      sent := hlt }
  · exact h

theorem inv_clearResolves (h : Inv s) (now : ℤ) : Inv (clearResolves c s now) := by
  unfold clearResolves
  split
  · next hlt =>
    exact { inv_rememberEpoch (c := c) h now (s.resolved+1) with
      revoked := ⟨h.revoked.decisions,h.revoked.localCaches,h.revoked.namespaces⟩
      resolved := hlt }
  · exact h

theorem inv_step (e : Event α) (h : Inv s) (hok : Timely s e) : Inv (step c s e) := by
  cases e with
  | getOrLoad kind key now => exact inv_getOrLoad h kind key now
  | resolve id now => exact with_lookup h (fun l hl _ => inv_resolve h hl now)
  | epochAnswered id => exact with_lookup h (fun l hl _ => inv_epochAnswered h hl)
  | entryRead id => exact with_lookup h (fun l hl _ => inv_entryRead h hl)
  | entryAnswered id now =>
    refine with_lookup h (fun l hl hid => inv_entryAnswered h hl now ?_)
    rw [hid]
    exact hok
  | lockSkipped id => exact with_lookup h (fun l hl _ => inv_lockSkipped h hl)
  | lockAnswered id ok => exact with_lookup h (fun l hl _ => inv_lockAnswered h hl ok)
  | poll id => exact with_lookup h (fun l hl _ => inv_poll h hl)
  | waitExpired id => exact with_lookup h (fun l hl _ => inv_waitExpired h hl)
  | loaded id value ttl now =>
    refine with_lookup h (fun l hl hid => inv_loaded h hl value ttl now ?_)
    rw [hid]
    exact hok
  | failed id => exact with_lookup h (fun l hl _ => inv_failed h hl)
  | settled id => exact with_lookup h (fun l hl _ => inv_settled h hl)
  | writerResolve id now => exact with_writer h (fun w _ _ => inv_writerResolve h w now)
  | writerAnswered id => exact with_writer h (fun w _ _ => inv_writerAnswered h w)
  | written id =>
    refine with_writer h (fun w hw hid => inv_written h hw ?_)
    rw [hid]
    exact hok
  | dropped epoch kind key => exact inv_dropShared h epoch kind key
  | clearBegins => exact inv_clearBegins h
  | epochIncremented => exact inv_epochIncremented h
  | clearResolves now => exact inv_clearResolves h now

theorem timely_of_revoked (e : Event α) (hr : Revoked (step c s e)) : Timely s e := by
  cases e with
  | entryAnswered id now =>
    rintro l hl rfl polling epoch entry hstage hnow
    simp only [step, withLookup_mem hl, entryAnswered, hstage, if_pos hnow] at hr
    exact resolveValue_stored ⟨hr.decisions,hr.localCaches,hr.namespaces⟩
  | loaded id value ttl now =>
    rintro l hl rfl clears hstage
    simp only [step, withLookup_mem hl, loaded, hstage] at hr
    have hfilled : Revoked (resolveValue c { s with
        writers := s.writers.insert
          (fun id => ⟨id,l.kind,l.key,⟨now+ttl,value,clears⟩,.resolving⟩) (fun _ => rfl) }
        l.kind l.key ⟨now+ttl,value,clears⟩) := ⟨hr.decisions,hr.localCaches,hr.namespaces⟩
    exact resolveValue_stored hfilled
  | written id =>
    rintro w hw rfl epoch hstage
    simp only [step, withWriter_mem hw, written, hstage] at hr
    exact hr.namespaces ⟨epoch,w.kind,w.key,w.entry⟩
      (List.mem_append_right _ (List.mem_singleton.mpr rfl))
  | _ => trivial

theorem inv_started : Inv (started : State α) where
  revoked := ⟨fun _ hr => absurd hr List.not_mem_nil,fun _ _ hp => absurd hp List.not_mem_nil,
    fun _ hx => absurd hx List.not_mem_nil⟩
  resolved := Nat.le_refl _
  sent := Nat.le_refl _
  lookups := fun _ hl => absurd hl List.not_mem_nil
  markers := fun _ _ hp => absurd hp List.not_mem_nil
  callers := fun _ hx => absurd hx List.not_mem_nil

end

theorem revoked_iff (c : Config) (es : List (Event α)) :
    (∀ pre, pre <+: es → Revoked (run (step c) pre started)) ↔
      Meets (step c) Timely es started :=
  always_iff_meets_of_inv (fun _ e hi hok => inv_step e hi hok) (fun _ hi => hi.revoked)
    (fun _ e _ hr => timely_of_revoked e hr) es started inv_started

def smallCache : Config := ⟨2,2000,Nat.two_pos⟩

/-- The loader of the first call answers after the clear has resolved, and
the second call finds its decision. -/
def overtaken : List (Event Bool) :=
  [.getOrLoad .acl "acl:u" 0,.resolve 1 0,.epochAnswered 1,.entryRead 1,.entryAnswered 1 1,
   .lockSkipped 1,.clearBegins,.epochIncremented,.clearResolves 2,.loaded 1 true 30000 3,
   .settled 1,.getOrLoad .acl "acl:u" 4]

theorem overtaken_decision_served :
    (run (step smallCache) overtaken started).resolved = 1 ∧
      (run (step smallCache) overtaken started).returned = [(1,0),(0,0)] ∧
      ¬Revoked (run (step smallCache) overtaken started) := by
  have hreturned : (run (step smallCache) overtaken started).returned = [(1,0),(0,0)] := by decide
  refine ⟨by decide,hreturned,fun h => ?_⟩
  have hfirst := h.decisions (1,0) (by rw [hreturned]; exact List.mem_cons_self)
  exact absurd hfirst (by decide)

end Iotistica.AuthCache
