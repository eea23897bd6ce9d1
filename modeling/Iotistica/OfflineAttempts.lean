import Iotistica.OfflineFlush

/-!
# Attempts of the queued items

Flushes come one after the other and nothing else touches the queue. A
ledger keeps the account as it should be: every failed send is charged to
the item that was sent, the item is dropped when its failures reach the
limit of the flush, and an item that is not sent is left alone. The code
charges the row whose place in the table is the index of the loop.
-/

set_option autoImplicit false

namespace Iotistica.OfflineQueue
open Iotistica.KeyedTable Iotistica.GuardedRun

variable {T : Type}

/-- A flush that goes on after errors, and what the next send comes to. -/
inductive Call where
  | flush (maxRetries : ℕ)
  | answer (ok : Bool)
  deriving DecidableEq

def calls : Call → List (Event T)
  | .flush maxRetries => [.flush ⟨maxRetries,true⟩]
  | .answer true => [.settle true,.proceed]
  | .answer false => [.settle false,.proceed,.proceed,.proceed]

/-- Rows in their order with the failures of their own items, and the limit
of the flush under way. -/
structure Ledger where
  items : List (ℕ × ℕ)
  flushing : Option ℕ
  deriving DecidableEq

def Ledger.next (items : List (ℕ × ℕ)) (maxRetries : ℕ) : Ledger :=
  ⟨items,if items = [] then none else some maxRetries⟩

def Ledger.fail (item : ℕ × ℕ) (items : List (ℕ × ℕ)) (maxRetries : ℕ) : Ledger :=
  if item.2+1 ≥ maxRetries then Ledger.next items maxRetries
  else ⟨(item.1,item.2+1)::items,none⟩

def Ledger.call (l : Ledger) : Call → Ledger
  | .flush maxRetries =>
    match l.flushing with
    | none => Ledger.next l.items maxRetries
    | some _ => l
  | .answer ok =>
    match l.flushing,l.items with
    | some maxRetries,item::items =>
      if ok then Ledger.next items maxRetries else Ledger.fail item items maxRetries
    | _,_ => l

structure Account (T : Type) where
  code : State T
  ledger : Ledger

def account (cfg : Config T) (s : Account T) (c : Call) : Account T :=
  ⟨run (step cfg) (calls c) s.code,s.ledger.call c⟩

def charges (cfg : Config T) (table : Store) : List (ℕ × ℕ) :=
  (getRowsOrdered cfg table).map (fun row => (row.id,row.attempts))

def opened (cfg : Config T) (table : Store) (now : ℤ) : Account T :=
  ⟨loaded cfg table now,⟨charges cfg table,none⟩⟩

def Agrees (cfg : Config T) (s : Account T) : Prop :=
  charges cfg s.code.queue.table = s.ledger.items
    ∧ queued s.code.queue = s.ledger.items.map Prod.fst

instance (cfg : Config T) (s : Account T) : Decidable (Agrees cfg s) :=
  inferInstanceAs (Decidable (_ ∧ _))

/-- The item is the first one of its flush, or it is dropped whatever is
counted and there is no row at its index. -/
def Turn (rows : ℕ) : Flush T → Prop
  | .sending i _ opts => i = 0 ∨ (opts.maxRetries = 0 ∧ rows ≤ i)
  | _ => True

instance (rows : ℕ) : (f : Flush T) → Decidable (Turn rows f)
  | .sending i _ opts => inferInstanceAs (Decidable (i = 0 ∨ (opts.maxRetries = 0 ∧ rows ≤ i)))
  | .idle => .isTrue trivial
  | .removed _ _ _ => .isTrue trivial
  | .counted _ _ _ => .isTrue trivial
  | .judged _ _ _ _ => .isTrue trivial

def InTurn (cfg : Config T) (s : Account T) : Call → Prop
  | .answer false => Turn (getRowsOrdered cfg s.code.queue.table).length s.code.flush
  | _ => True

instance (cfg : Config T) (s : Account T) : (c : Call) → Decidable (InTurn cfg s c)
  | .flush _ => .isTrue trivial
  | .answer true => .isTrue trivial
  | .answer false => inferInstanceAs (Decidable (Turn _ s.code.flush))

theorem run_answer_true {cfg : Config T} {s : State T} {i : ℕ} {items : List (Entry T)}
    {opts : FlushOptions} (h : s.flush = .sending i items opts) :
    run (step cfg) (calls (.answer true)) s = sendFrom
      { s with
        queue := removeFirst cfg s.queue
        flush := .removed i items opts
        sent := s.sent++rowAt items i } (i+1) items opts := by
  simp only [calls, run_cons, run_nil, step, h, settle, proceed]

theorem run_answer_false {cfg : Config T} {s : State T} {i maxRetries : ℕ}
    {items : List (Entry T)} (h : s.flush = .sending i items ⟨maxRetries,true⟩) :
    let q := incrementAttempts cfg s.queue i
    let failures := s.failures++rowAt items i
    run (step cfg) (calls (.answer false)) s =
      if getAttempts cfg q i ≥ maxRetries then
        sendFrom { s with
          queue := removeFirst cfg q
          flush := .removed i items ⟨maxRetries,true⟩
          failures := failures } (i+1) items ⟨maxRetries,true⟩
      else { s with queue := q, flush := .idle, failures := failures } := by
  intro q failures
  by_cases hdrop : getAttempts cfg q i ≥ maxRetries
  · rw [if_pos hdrop]
    simp only [calls, run_cons, run_nil, step, h, settle, proceed, if_true]
    rw [if_pos hdrop]
  · rw [if_neg hdrop]
    simp only [calls, run_cons, run_nil, step, h, settle, proceed, if_true]
    rw [if_neg hdrop]

theorem run_answer_idle {cfg : Config T} {s : State T} (h : s.flush = .idle) (ok : Bool) :
    run (step cfg) (calls (.answer ok)) s = s := by
  cases ok <;> simp [calls, step, h, proceed]

theorem charges_removeFirst (cfg : Config T) (q : Queue T) :
    charges cfg (removeFirst cfg q).table = (charges cfg q.table).tail := by
  unfold charges removeFirst
  rw [rows_removeOldest, List.map_tail]

theorem mirrors_removeFirst {cfg : Config T} {q : Queue T} (h : Mirrors cfg q) :
    Mirrors cfg (removeFirst cfg q) := by
  unfold Mirrors removeFirst at *
  dsimp only at *
  rw [rows_removeOldest, List.map_tail, h, List.map_tail]

theorem mirrors_incrementAttempts {cfg : Config T} {q : Queue T} (h : Mirrors cfg q) (index : ℕ) :
    Mirrors cfg (incrementAttempts cfg q index) := by
  unfold incrementAttempts
  split
  · unfold Mirrors at *
    dsimp only
    rw [rows_updateAttempts, List.map_map, ← h]
    apply List.map_congr_left
    intro row _
    dsimp only [Function.comp]
    split <;> rfl
  · exact h

theorem charges_incrementAttempts {cfg : Config T} {q : Queue T} {index : ℕ}
    {row : OfflineQueueRecord} (h : (getRowsOrdered cfg q.table)[index]? = some row) :
    charges cfg (incrementAttempts cfg q index).table
      = (charges cfg q.table).map (fun c => if c.1 = row.id then (c.1,row.attempts+1) else c) := by
  unfold incrementAttempts charges
  rw [h]
  dsimp only
  rw [rows_updateAttempts, List.map_map, List.map_map]
  apply List.map_congr_left
  intro r _
  dsimp only [Function.comp]
  by_cases hid : r.id = row.id
  · simp [hid]
  · simp [hid]

theorem getAttempts_incrementAttempts {cfg : Config T} {q : Queue T} {index : ℕ}
    {row : OfflineQueueRecord} (h : (getRowsOrdered cfg q.table)[index]? = some row) :
    getAttempts cfg (incrementAttempts cfg q index) index = row.attempts+1 := by
  unfold getAttempts incrementAttempts
  rw [h]
  dsimp only
  rw [rows_updateAttempts, List.getElem?_map, h]
  simp

theorem unchanged_of_none {cfg : Config T} {q : Queue T} {index : ℕ}
    (h : (getRowsOrdered cfg q.table)[index]? = none) :
    incrementAttempts cfg q index = q ∧ getAttempts cfg q index = 0 := by
  unfold incrementAttempts getAttempts
  rw [h]
  exact ⟨rfl,rfl⟩

inductive Phased (memory : List (Entry T)) : Flush T → Option ℕ → Prop where
  | idle : Phased memory .idle none
  | sending (i : ℕ) (items : List (Entry T)) (maxRetries : ℕ) (rest : items.drop i = memory)
      (more : i < items.length) : Phased memory (.sending i items ⟨maxRetries,true⟩) (some maxRetries)

structure Even (cfg : Config T) (s : Account T) : Prop where
  mirrors : Mirrors cfg s.code.queue
  charges : charges cfg s.code.queue.table = s.ledger.items
  phased : Phased s.code.queue.inMemoryQueue s.code.flush s.ledger.flushing

theorem queued_charges {cfg : Config T} {q : Queue T} (h : Mirrors cfg q) :
    queued q = (charges cfg q.table).map Prod.fst := by
  unfold charges
  rw [List.map_map, ← queued_eq_stored h]
  rfl

theorem Even.agrees {cfg : Config T} {s : Account T} (h : Even cfg s) : Agrees cfg s :=
  ⟨h.charges,by rw [queued_charges h.mirrors, h.charges]⟩

theorem memory_nil_iff {cfg : Config T} {q : Queue T} (h : Mirrors cfg q) :
    q.inMemoryQueue = [] ↔ charges cfg q.table = [] := by
  have hq := queued_charges h
  unfold queued at hq
  constructor
  · intro hnil
    rw [hnil, List.map_nil] at hq
    exact List.map_eq_nil_iff.mp hq.symm
  · intro hnil
    rw [hnil, List.map_nil] at hq
    exact List.map_eq_nil_iff.mp hq

theorem even_next {cfg : Config T} {s : State T} {q : Queue T} {i maxRetries : ℕ}
    {items : List (Entry T)} {rest : List (ℕ × ℕ)} (hm : Mirrors cfg q)
    (hdrop : items.drop i = q.inMemoryQueue) (hs : s.queue = removeFirst cfg q)
    (hrest : (charges cfg q.table).tail = rest) :
    Even cfg ⟨sendFrom s (i+1) items ⟨maxRetries,true⟩,Ledger.next rest maxRetries⟩ := by
  have hmirrors : Mirrors cfg s.queue := by
    rw [hs]
    exact mirrors_removeFirst hm
  have hcharges : charges cfg s.queue.table = rest := by
    rw [hs, charges_removeFirst, hrest]
  have hleft : items.drop (i+1) = s.queue.inMemoryQueue := by
    rw [hs, removeFirst, ← hdrop, List.tail_drop]
  refine ⟨hmirrors,hcharges,?_⟩
  unfold sendFrom Ledger.next
  dsimp only
  have hnil : rest = [] ↔ ¬i+1 < items.length := by
    rw [← hcharges, ← memory_nil_iff hmirrors, ← hleft, List.drop_eq_nil_iff]
    omega
  by_cases hmore : i+1 < items.length
  · rw [if_pos hmore, if_neg (fun h => hnil.mp h hmore)]
    exact .sending (i+1) items maxRetries hleft hmore
  · rw [if_neg hmore, if_pos (hnil.mpr hmore)]
    exact .idle

theorem nodup_charges (cfg : Config T) (table : Store) :
    ((charges cfg table).map Prod.fst).Nodup := by
  have hn := nodup_rows cfg table
  unfold charges
  rwa [List.map_map]

theorem map_charge_head {item : ℕ × ℕ} {items : List (ℕ × ℕ)}
    (h : ((item::items).map Prod.fst).Nodup) (attempts : ℕ) :
    (item::items).map (fun c => if c.1 = item.1 then (c.1,attempts) else c)
      = (item.1,attempts)::items := by
  rw [List.map_cons, List.nodup_cons] at h
  rw [List.map_cons, if_pos rfl]
  congr 1
  have hsame : items.map (fun c => if c.1 = item.1 then (c.1,attempts) else c)
      = items.map id := by
    apply List.map_congr_left
    intro c hc
    have hne : c.1 ≠ item.1 := by
      intro he
      apply h.1
      rw [← he]
      exact List.mem_map_of_mem hc
    rw [if_neg hne]
    rfl
  rw [hsame, List.map_id]

theorem exists_charge {cfg : Config T} {q : Queue T} {i : ℕ} {items : List (Entry T)}
    (hm : Mirrors cfg q) (hdrop : items.drop i = q.inMemoryQueue) (hmore : i < items.length) :
    ∃ row rows, getRowsOrdered cfg q.table = row::rows ∧
      charges cfg q.table = (row.id,row.attempts)::rows.map (fun r => (r.id,r.attempts)) := by
  have hne : q.inMemoryQueue ≠ [] := by
    rw [← hdrop, Ne, List.drop_eq_nil_iff]
    omega
  have hrows : getRowsOrdered cfg q.table ≠ [] := by
    intro hnil
    apply hne
    rw [memory_nil_iff hm, charges, hnil, List.map_nil]
  obtain ⟨row,rows,hcons⟩ := List.exists_cons_of_ne_nil hrows
  exact ⟨row,rows,hcons,by rw [charges, hcons, List.map_cons]⟩

theorem even_fail {cfg : Config T} {s : Account T} (h : Even cfg s)
    (hok : InTurn cfg s (.answer false)) : Even cfg (account cfg s (.answer false)) := by
  obtain ⟨code,ledger,flushing⟩ := s
  obtain ⟨hm,hc,hp⟩ := h
  dsimp only at hm hc hp
  unfold account Ledger.call
  generalize hf : code.flush = flush at hp
  cases hp with
  | idle =>
    dsimp only
    rw [run_answer_idle hf]
    exact ⟨hm,hc,by rw [hf]; exact .idle⟩
  | sending i items maxRetries hdrop hmore =>
    obtain ⟨row,rows,hrows,hcharges⟩ := exists_charge hm hdrop hmore
    dsimp only [InTurn] at hok
    rw [hf] at hok
    rw [run_answer_false hf, ← hc, hcharges]
    dsimp only [Bool.false_eq_true, if_false]
    simp only [Bool.false_eq_true, if_false]
    have hmem := incrementAttempts_memory cfg code.queue i
    have hmirrors := mirrors_incrementAttempts hm i
    rcases hok with rfl | ⟨hzero,hshort⟩
    · have hat : (getRowsOrdered cfg code.queue.table)[0]? = some row := by
        rw [hrows, List.getElem?_cons_zero]
      have hcharged : charges cfg (incrementAttempts cfg code.queue 0).table
          = (row.id,row.attempts+1)::rows.map (fun r => (r.id,r.attempts)) := by
        have hn := nodup_charges cfg code.queue.table
        rw [charges_incrementAttempts hat]
        rw [hcharges] at hn ⊢
        exact map_charge_head hn (row.attempts+1)
      rw [getAttempts_incrementAttempts hat]
      unfold Ledger.fail
      dsimp only
      split
      · exact even_next hmirrors (by rw [hmem]; exact hdrop) rfl (by rw [hcharged]; rfl)
      · exact ⟨hmirrors,hcharged,.idle⟩
    · have hgone : (getRowsOrdered cfg code.queue.table)[i]? = none :=
        List.getElem?_eq_none hshort
      obtain ⟨hsame,hnone⟩ := unchanged_of_none hgone
      rw [hsame, hnone]
      dsimp only at hzero
      unfold Ledger.fail
      rw [if_pos (by omega), if_pos (by omega)]
      exact even_next hm hdrop rfl (by rw [hcharges]; rfl)

theorem mem_fail {item c : ℕ × ℕ} {items : List (ℕ × ℕ)} (maxRetries : ℕ) (h : c ∈ items) :
    c ∈ (Ledger.fail item items maxRetries).items := by
  unfold Ledger.fail
  split
  · exact h
  · exact List.mem_cons_of_mem _ h

theorem fail_ne (item : ℕ × ℕ) (items : List (ℕ × ℕ)) (maxRetries : ℕ) :
    (Ledger.fail item items maxRetries).items ≠ item::items := by
  unfold Ledger.fail
  split
  · intro h
    have hlen := congrArg List.length h
    simp [Ledger.next] at hlen
  · intro h
    have hitem := congrArg Prod.snd (List.cons.inj h).1
    dsimp only at hitem
    omega

/-- A row behind the first one that is charged shows in the table, and
where there is none the failure itself is missing. -/
theorem inTurn_of_agrees {cfg : Config T} {s : Account T} (h : Even cfg s)
    (ha : Agrees cfg (account cfg s (.answer false))) : InTurn cfg s (.answer false) := by
  obtain ⟨code,ledger,flushing⟩ := s
  obtain ⟨hm,hc,hp⟩ := h
  dsimp only at hm hc hp
  replace ha := ha.1
  unfold account Ledger.call at ha
  dsimp only [InTurn]
  generalize hf : code.flush = flush at hp
  cases hp with
  | idle => trivial
  | sending i items maxRetries hdrop hmore =>
    obtain ⟨row,rows,hrows,hcharges⟩ := exists_charge hm hdrop hmore
    rw [run_answer_false hf, ← hc, hcharges] at ha
    simp only [Bool.false_eq_true, if_false] at ha
    by_contra hturn
    rw [Turn, not_or] at hturn
    obtain ⟨hi,hrest⟩ := hturn
    cases hat : (getRowsOrdered cfg code.queue.table)[i]? with
    | none =>
      obtain ⟨hsame,hnone⟩ := unchanged_of_none hat
      have hlimit : ¬0 ≥ maxRetries := by
        intro hle
        exact hrest ⟨Nat.le_zero.mp hle,List.getElem?_eq_none_iff.mp hat⟩
      rw [hsame, hnone, if_neg hlimit, hcharges] at ha
      exact fail_ne _ _ _ ha.symm
    | some other =>
      obtain ⟨j,rfl⟩ := Nat.exists_eq_succ_of_ne_zero hi
      have hother : other ∈ rows := by
        rw [hrows, List.getElem?_cons_succ] at hat
        exact List.mem_of_getElem? hat
      have hkept : (other.id,other.attempts)
          ∈ charges cfg (incrementAttempts cfg code.queue (j+1)).table := by
        have hledger := @mem_fail (row.id,row.attempts) _ _ maxRetries
          (List.mem_map_of_mem (f := fun r : OfflineQueueRecord => (r.id,r.attempts)) hother)
        rw [← ha] at hledger
        split at hledger
        · rw [sendFrom, charges_removeFirst] at hledger
          exact List.mem_of_mem_tail hledger
        · exact hledger
      rw [charges_incrementAttempts hat] at hkept
      obtain ⟨c,-,hcharge⟩ := List.mem_map.mp hkept
      split at hcharge
      · have hsnd := congrArg Prod.snd hcharge
        dsimp only at hsnd
        omega
      · rename_i hne
        rw [hcharge] at hne
        exact hne rfl

theorem even_flush {cfg : Config T} {s : Account T} (h : Even cfg s) (maxRetries : ℕ) :
    Even cfg (account cfg s (.flush maxRetries)) := by
  obtain ⟨code,ledger,flushing⟩ := s
  obtain ⟨hm,hc,hp⟩ := h
  dsimp only at hm hc hp
  unfold account Ledger.call
  simp only [calls, run_cons, run_nil, step]
  generalize hf : code.flush = flush at hp
  cases hp with
  | idle =>
    refine ⟨hm,hc,?_⟩
    dsimp only [sendFrom, Ledger.next]
    have hnil : ledger = [] ↔ ¬0 < code.queue.inMemoryQueue.length := by
      rw [← hc, ← memory_nil_iff hm, List.length_pos_iff, not_not]
    by_cases hmore : 0 < code.queue.inMemoryQueue.length
    · rw [if_pos hmore, if_neg (fun h => hnil.mp h hmore)]
      exact .sending 0 _ maxRetries rfl hmore
    · rw [if_neg hmore, if_pos (hnil.mpr hmore)]
      exact .idle
  | sending i items limit hdrop hmore =>
    refine ⟨hm,hc,?_⟩
    dsimp only
    rw [hf]
    exact .sending i items limit hdrop hmore

theorem even_success {cfg : Config T} {s : Account T} (h : Even cfg s) :
    Even cfg (account cfg s (.answer true)) := by
  obtain ⟨code,ledger,flushing⟩ := s
  obtain ⟨hm,hc,hp⟩ := h
  dsimp only at hm hc hp
  unfold account Ledger.call
  generalize hf : code.flush = flush at hp
  cases hp with
  | idle =>
    dsimp only
    rw [run_answer_idle hf]
    exact ⟨hm,hc,by rw [hf]; exact .idle⟩
  | sending i items maxRetries hdrop hmore =>
    obtain ⟨row,rows,hrows,hcharges⟩ := exists_charge hm hdrop hmore
    rw [run_answer_true hf, ← hc, hcharges]
    simp only [if_true]
    exact even_next hm hdrop rfl (by rw [hcharges]; rfl)

theorem account_even (cfg : Config T) (s : Account T) (c : Call) (h : Even cfg s)
    (hok : InTurn cfg s c) : Even cfg (account cfg s c) :=
  match c with
  | .flush maxRetries => even_flush h maxRetries
  | .answer true => even_success h
  | .answer false => even_fail h hok

theorem opened_even {cfg : Config T} {table : Store} (now : ℤ)
    (h : ∀ row ∈ getRowsOrdered cfg table, (cfg.codec.parse row.payload).isSome) :
    Even cfg (opened cfg table now) :=
  ⟨loadFromDisk_mirrors cfg table h,rfl,.idle⟩

/-- Over successive flushes of any stored queue the attempts and the items
are as the ledger has them exactly if every send that fails is the first of
its flush, or its item is dropped at once and no row is at its index. -/
theorem attempts_own_iff (cfg : Config T) (table : Store) (now : ℤ)
    (hparse : ∀ row ∈ getRowsOrdered cfg table, (cfg.codec.parse row.payload).isSome)
    (cs : List Call) :
    (∀ pre, pre <+: cs → Agrees cfg (run (account cfg) pre (opened cfg table now)))
      ↔ Meets (account cfg) (InTurn cfg) cs (opened cfg table now) := by
  refine always_iff_meets_of_inv (fun s c h hok => account_even cfg s c h hok)
    (fun _ h => h.agrees) (fun s c h ha => ?_) cs _ (opened_even now hparse)
  match c with
  | .flush _ => trivial
  | .answer true => trivial
  | .answer false => exact inTurn_of_agrees h ha

/-- The first item fails once and goes out with the next flush. -/
theorem attempts_own_numbers :
    Meets (account numberQueue) (InTurn numberQueue)
        [.flush 3,.answer false,.flush 3,.answer true,.answer true]
        (opened numberQueue numberTable 5) ∧
      ∀ pre, pre <+: [.flush 3,.answer false,.flush 3,.answer true,.answer true] →
        Agrees numberQueue (run (account numberQueue) pre (opened numberQueue numberTable 5)) := by
  have hmeets : Meets (account numberQueue) (InTurn numberQueue)
      [.flush 3,.answer false,.flush 3,.answer true,.answer true]
      (opened numberQueue numberTable 5) := by decide +kernel
  have hagrees := (attempts_own_iff numberQueue numberTable 5 numberTable_readable.parses _).mpr hmeets
  exact ⟨hmeets,hagrees⟩

def freshTable : Store :=
  insert numberQueue (insert numberQueue (insert numberQueue Table.empty 7 1) 8 2) 9 3

/-- The first item goes out, the second fails, the third is charged. -/
theorem attempts_of_another :
    ¬∀ (cfg : Config ℕ) (table : Store) (now : ℤ) (cs : List Call),
      (∀ row ∈ getRowsOrdered cfg table, (cfg.codec.parse row.payload).isSome) →
      Agrees cfg (run (account cfg) cs (opened cfg table now)) := by
  intro h
  have hagrees := h numberQueue freshTable 5 [.flush 3,.answer true,.answer false]
    (by decide +kernel)
  revert hagrees
  decide +kernel

end Iotistica.OfflineQueue
