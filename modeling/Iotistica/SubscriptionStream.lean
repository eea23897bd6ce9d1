import Iotistica.JsonExtent
import Iotistica.SocketDelivery
import Iotistica.SocketHandover

/-!
# The subscriptions of a client

The server decodes every chunk of a client for itself and looks at the lines
that it completes, up to the first subscription it can confirm. The bytes of
the client are lines, and every line stands for itself: which subscriptions
count and which are confirmed should be a matter of the lines, wherever the
chunks end.
-/

set_option autoImplicit false

namespace Iotistica.SubscriptionStream
open Iotistica.JsText Iotistica.JsNumerals Iotistica.Utf8Text Iotistica.JsonText
open Iotistica.JsonDoubles Iotistica.SocketServer
open Iotistica.SocketHandover (Bytes newline cut_unique decode_newline)

/-- The elements of a `Set`, the first of equal ones. -/
def distinct {α : Type*} (same : α → α → Bool) (items : List α) : List α :=
  items.foldl (fun set v => if set.any (fun u => same u v) then set else set++[v]) []

section
variable {D : Type*} [DecidableEq D] (R : Doubles D)

/-- Equality in a `Set`: an array or an object equals no other one. -/
def sameValue : Value → Value → Bool
  | .null, .null => true
  | .bool a, .bool b => a = b
  | .num d, .num e => R.nearest d = R.nearest e
  | .str s, .str t => s = t
  | _, _ => false

/-- What the runtime holds of a value, its numbers left as they were read. -/
def held (v : Value) : Value := printed exactDoubles v

def topicSet (items : List Value) : List Value := (distinct (sameValue R) items).map held

def ruleSets (rules : ClientRoutingRules) : ClientRoutingRules :=
  { rules with
    includeMetrics := distinct (fun s t => s = t) rules.includeMetrics
    excludeMetrics := distinct (fun s t => s = t) rules.excludeMetrics
    includeDevices := distinct (fun s t => s = t) rules.includeDevices
    excludeDevices := distinct (fun s t => s = t) rules.excludeDevices
    allowedQualities := distinct (fun p q => p = q) rules.allowedQualities }

def routingRules (route : Option Value) : ClientRoutingRules := ruleSets (parseRoutingRules R route)

structure Subscription where
  topics : List Value
  rules : ClientRoutingRules

def Subscription.new : Subscription := ⟨[],getDefaultRoutingRules⟩

def readSubscription (line : List Char) : Option Subscription :=
  (subscribeMessage line).map fun m => ⟨topicSet R m.1,routingRules R m.2⟩

mutual
/-- `join` makes a text of the value. A member named `toString` is no function,
and then there is none. -/
def hasText : Value → Bool
  | .arr items => haveText items
  | .obj members => (members.lookup "toString").isNone
  | _ => true

def haveText : List Value → Bool
  | [] => true
  | v::vs => hasText v && haveText vs
end

structure Acknowledgement where
  subscribed_to : List Value
  routing : ClientRoutingRules

def acknowledgement (s : Subscription) : Acknowledgement :=
  ⟨if s.topics.isEmpty then [.str "*"] else s.topics,s.rules⟩

structure Client where
  subscription : Subscription
  subscriptionReceived : Bool
  subscriptionBuffer : List Char
  written : List Acknowledgement

def Client.new : Client := ⟨Subscription.new,false,[],[]⟩

def Client.confirm (c : Client) (s : Subscription) : Client :=
  { c with
    subscription := s
    subscriptionReceived := true
    written := c.written++[acknowledgement s] }

/-- A subscription takes effect before its topics are logged. If there is no
text of them the error goes the way of a line that is no JSON; else the lines
behind it are not looked at. -/
def handleLines : List (List Char) → Client → Client
  | [], c => c
  | line::lines, c =>
    match readSubscription R line with
    | none => handleLines lines c
    | some s =>
      if haveText s.topics then c.confirm s
      else handleLines lines { c with subscription := s }

def handleSubscriptionMessage (c : Client) (chunk : Bytes) : Client :=
  let lines := splitChars '\n' (c.subscriptionBuffer++decode chunk)
  { handleLines R lines.dropLast c with subscriptionBuffer := lines.getLastD [] }

def receive (c : Client) (chunks : List Bytes) : Client :=
  chunks.foldl (handleSubscriptionMessage R) c

/-- Lines of a client, and the chunks in which they come. -/
structure Delivery where
  lines : List Bytes
  chunks : List Bytes
  unbroken : ∀ line ∈ lines, newline ∉ line
  whole : chunks.flatten = lines.flatMap (fun line => line++[newline])

def Delivery.subscriptions (d : Delivery) : List Subscription :=
  d.lines.filterMap (fun line => readSubscription R (decode line))

/-- The last subscription counts and every one is confirmed, as if the lines
had come one by one. -/
def Delivery.LineByLine (d : Delivery) : Prop :=
  let c := receive R Client.new d.chunks
  c.subscription = (d.subscriptions R).getLastD Subscription.new ∧
    c.written = (d.subscriptions R).map acknowledgement ∧
    c = receive R Client.new (d.lines.map (fun line => line++[newline]))

def cutLines : Bytes → List Bytes × Bytes
  | [] => ([],[])
  | b::bs =>
    if b = newline then ([]::(cutLines bs).1,(cutLines bs).2)
    else
      match (cutLines bs).1 with
      | [] => ([],b::(cutLines bs).2)
      | line::lines => ((b::line)::lines,(cutLines bs).2)

/-- The lines that a chunk completes, each with the pieces it came in, and the
pieces of the line that is left open. -/
def complete (pending : List Bytes) (chunk : Bytes) : List (List Bytes) × List Bytes :=
  match cutLines chunk with
  | ([],rest) => ([],pending++[rest])
  | (line::lines,rest) => ((pending++[line])::lines.map (fun l => [l]),[rest])

def batches : List Bytes → List Bytes → List (List (List Bytes)) × List Bytes
  | pending, [] => ([],pending)
  | pending, chunk::chunks =>
    let done := complete pending chunk
    ((done.1::(batches done.2 chunks).1),(batches done.2 chunks).2)

/-- No chunk completes two subscriptions, and each one has topics with a text
and reads the same whether it is decoded whole or piece by piece. -/
def Delivery.Unharmed (d : Delivery) : Prop :=
  ∀ batch ∈ (batches [] d.chunks).1,
    (batch.filter (fun pieces => (readSubscription R (decode pieces.flatten)).isSome)).length ≤ 1 ∧
    ∀ pieces ∈ batch, ∀ s, readSubscription R (decode pieces.flatten) = some s →
      readSubscription R (pieces.flatMap decode) = some s ∧ haveText s.topics = true

end

theorem blank_isBlank {c : Char} (h : isBlank c = false) : blank c = false := by
  by_contra hb
  rw [Bool.not_eq_false] at hb
  simp only [blank, Bool.or_eq_true, decide_eq_true_eq] at hb
  rcases hb with ((rfl | rfl) | rfl) | rfl <;> exact absurd h (by decide)

theorem trim_split (cs : List Char) : ∃ pre post, cs = pre++(trim cs++post) ∧
    (∀ c ∈ pre, isBlank c = true) ∧ ∀ c ∈ post, isBlank c = true := by
  let ds := cs.dropWhile isBlank
  refine ⟨cs.takeWhile isBlank,(ds.reverse.takeWhile isBlank).reverse,?_,?_,?_⟩
  · have hback : trim cs++(ds.reverse.takeWhile isBlank).reverse = ds := by
      show (ds.reverse.dropWhile isBlank).reverse++_ = ds
      rw [← List.reverse_append, List.takeWhile_append_dropWhile, List.reverse_reverse]
    rw [hback]
    exact List.takeWhile_append_dropWhile.symm
  · exact fun c hc => List.mem_takeWhile_imp hc
  · exact fun c hc => List.mem_takeWhile_imp (List.mem_reverse.mp hc)

theorem trim_head {cs : List Char} : ∀ c ∈ (trim cs).head?, isBlank c = false := by
  intro c hc
  let ds := cs.dropWhile isBlank
  have hprefix : trim cs <+: ds := List.reverse_suffix.mp (by
    rw [trim, List.reverse_reverse]
    exact List.dropWhile_suffix _)
  have hds : c ∈ ds.head? := by
    obtain ⟨post,hpost⟩ := hprefix
    rw [← hpost, List.head?_append]
    rw [Option.mem_def.mp hc]
    rfl
  have hnot := List.head?_dropWhile_not isBlank cs
  rw [Option.mem_def.mp hds] at hnot
  exact hnot

theorem trim_last {cs : List Char} : ∀ c ∈ (trim cs).getLast?, isBlank c = false := by
  intro c hc
  rw [trim, List.getLast?_reverse] at hc
  have hnot := List.head?_dropWhile_not isBlank (cs.dropWhile isBlank).reverse
  rw [Option.mem_def.mp hc] at hnot
  exact hnot

theorem trim_framed {pre mid post : List Char} {a b : Char} (hpre : ∀ c ∈ pre, isBlank c = true)
    (hpost : ∀ c ∈ post, isBlank c = true) (ha : isBlank a = false) (hb : isBlank b = false) :
    trim (pre++a::(mid++b::post)) = a::(mid++[b]) := by
  have hback : (a::(mid++b::post)).reverse = post.reverse++b::(a::mid).reverse := by simp
  rw [trim, List.dropWhile_append_of_pos hpre, List.dropWhile_cons_of_neg (by simp [ha]), hback,
    List.dropWhile_append_of_pos (fun c hc => hpost c (List.mem_reverse.mp hc)),
    List.dropWhile_cons_of_neg (by simp [hb])]
  simp

theorem replacement_not_blank {cs : List Char} (h : ∀ c ∈ cs, isBlank c = true) :
    replacement ∉ cs := by
  intro hmem
  have hblank := h replacement hmem
  revert hblank
  decide

theorem subscribe_obj {v : Value} {x : Value} (h : member v "subscribe" = some x) :
    ∃ ms, v = .obj ms := by
  cases v with
  | obj ms => exact ⟨ms,rfl⟩
  | _ => cases h

theorem subscribeMessage_some {line : List Char} {items : List Value} {route : Option Value}
    (h : subscribeMessage line = some (items,route)) :
    ∃ msg, parse (String.ofList (trim line)) = some msg ∧
      member msg "subscribe" = some (.arr items) ∧ member msg "route" = route := by
  simp only [subscribeMessage] at h
  split at h
  · cases h
  · obtain ⟨msg,hmsg,h⟩ := Option.bind_eq_some_iff.mp h
    refine ⟨msg,hmsg,?_⟩
    split at h
    · rename_i items' heq
      obtain ⟨rfl,rfl⟩ := Prod.mk.inj (Option.some_inj.mp h)
      exact ⟨heq,rfl⟩
    · cases h

theorem subscribeMessage_of {line : List Char} {items : List Value} {msg : Value}
    (hne : trim line ≠ []) (hmsg : parse (String.ofList (trim line)) = some msg)
    (h : member msg "subscribe" = some (.arr items)) :
    subscribeMessage line = some (items,member msg "route") := by
  simp only [subscribeMessage]
  rw [if_neg (by simpa using hne), hmsg, Option.bind_some, h]

theorem kind_arr {v : Value} {empty : Bool} (h : kind v = .arr empty) :
    ∃ items, v = .arr items ∧ items.isEmpty = empty := by
  cases v with
  | arr items => exact ⟨items,rfl,by injection h⟩
  | _ => cases h

theorem subscribeMessage_whole {pieces : List Bytes} {items : List Value} {route : Option Value}
    (h : subscribeMessage (pieces.flatMap decode) = some (items,route)) :
    ∃ items' route', subscribeMessage (decode pieces.flatten) = some (items',route') ∧
      items'.isEmpty = items.isEmpty := by
  obtain ⟨msg,hparse,hsub,-⟩ := subscribeMessage_some h
  obtain ⟨ms,rfl⟩ := subscribe_obj hsub
  obtain ⟨u,hu⟩ := parse_obj_text hparse
    (by rw [String.toList_ofList]; exact fun c hc => blank_isBlank (trim_head c hc))
    (by rw [String.toList_ofList]; exact fun c hc => blank_isBlank (trim_last c hc))
  rw [String.toList_ofList] at hu
  obtain ⟨pre,post,hsplit,hpre,hpost⟩ := trim_split (pieces.flatMap decode)
  rw [hu, List.cons_append, List.append_assoc, List.singleton_append] at hsplit
  obtain ⟨mid,hwhole,hmid⟩ := decode_framed (by rfl) (by rfl) (replacement_not_blank hpre)
    (replacement_not_blank hpost) hsplit
  have htrim : trim (decode pieces.flatten) = '\x7b'::(mid++['}']) := by
    rw [hwhole]
    exact trim_framed hpre hpost (by decide) (by decide)
  have hout : outline (String.ofList (trim (pieces.flatMap decode))).toList =
      outline (String.ofList (trim (decode pieces.flatten))).toList := by
    rw [String.toList_ofList, String.toList_ofList, hu, htrim, outline_ascii (by rfl),
      outline_ascii (by rfl), outline_append_ascii (by rfl), outline_append_ascii (by rfl), hmid]
  obtain ⟨w,hw,hsim⟩ := parse_similar hparse hout
  have hkind := hsim.2 "subscribe" (by decide)
  rw [hsub] at hkind
  obtain ⟨x,hx,hxkind⟩ := Option.map_eq_some_iff.mp hkind.symm
  obtain ⟨items',rfl,hempty⟩ := kind_arr hxkind
  exact ⟨items',_,subscribeMessage_of (by rw [htrim]; exact List.cons_ne_nil _ _) hw hx,hempty⟩

theorem newline_notMem_text {pieces : List Bytes} (h : ∀ piece ∈ pieces, newline ∉ piece) :
    '\n' ∉ pieces.flatMap decode := by
  intro hmem
  obtain ⟨piece,hpiece,hc⟩ := List.mem_flatMap.mp hmem
  exact decode_newline (h piece hpiece) hc

theorem cutLines_spec (bs : Bytes) :
    (cutLines bs).1.flatMap (fun line => line++[newline])++(cutLines bs).2 = bs ∧
      (∀ line ∈ (cutLines bs).1, newline ∉ line) ∧ newline ∉ (cutLines bs).2 := by
  induction bs with
  | nil => exact ⟨rfl,nofun,nofun⟩
  | cons b bs ih =>
    obtain ⟨hbytes,hlines,hrest⟩ := ih
    by_cases hb : b = newline
    · rw [cutLines, if_pos hb]
      refine ⟨?_,?_,hrest⟩
      · rw [List.flatMap_cons, List.append_assoc, hbytes, hb]
        rfl
      · simpa using hlines
    · rw [cutLines, if_neg hb]
      cases hcut : (cutLines bs).1 with
      | nil =>
        rw [hcut] at hbytes
        refine ⟨congrArg (List.cons b) hbytes,nofun,?_⟩
        simp [Ne.symm hb, hrest]
      | cons line lines =>
        rw [hcut] at hbytes hlines
        refine ⟨congrArg (List.cons b) hbytes,?_,hrest⟩
        intro l hl
        rcases List.mem_cons.mp hl with rfl | hl
        · simp [Ne.symm hb, hlines line List.mem_cons_self]
        · exact hlines l (List.mem_cons_of_mem line hl)

theorem lines_unique {ls ms : List Bytes} {r t : Bytes} (hls : ∀ l ∈ ls, newline ∉ l)
    (hms : ∀ l ∈ ms, newline ∉ l) (hr : newline ∉ r) (ht : newline ∉ t)
    (h : ls.flatMap (fun line => line++[newline])++r =
      ms.flatMap (fun line => line++[newline])++t) : ls = ms ∧ r = t := by
  have hfront : ∀ (l : Bytes) (rest : List Bytes) (x : Bytes),
      (l::rest).flatMap (fun line => line++[newline])++x =
        l++newline::(rest.flatMap (fun line => line++[newline])++x) := by
    intro l rest x
    simp
  have hmem : ∀ (l : Bytes) (rest : List Bytes) (x : Bytes),
      newline ∈ (l::rest).flatMap (fun line => line++[newline])++x := by
    intro l rest x
    rw [hfront]
    exact List.mem_append_right l List.mem_cons_self
  induction ls generalizing ms with
  | nil =>
    cases ms with
    | nil => exact ⟨rfl,h⟩
    | cons m ms => exact absurd (h ▸ hmem m ms t : newline ∈ [] ++ r) hr
  | cons l ls ih =>
    cases ms with
    | nil => exact absurd (h ▸ hmem l ls r : newline ∈ [] ++ t) ht
    | cons m ms =>
      rw [hfront, hfront] at h
      obtain ⟨rfl,hrest⟩ := cut_unique (hls l List.mem_cons_self) (hms m List.mem_cons_self) h
      obtain ⟨rfl,hend⟩ := ih (fun x hx => hls x (List.mem_cons_of_mem l hx))
        (fun x hx => hms x (List.mem_cons_of_mem l hx)) hrest
      exact ⟨rfl,hend⟩

theorem decode_lines (ls : List Bytes) (r : Bytes) :
    decode (ls.flatMap (fun line => line++[newline])++r) =
      ls.flatMap (fun line => decode line++['\n'])++decode r := by
  induction ls with
  | nil => rfl
  | cons l ls ih =>
    simp only [List.flatMap_cons, List.append_assoc, List.cons_append]
    rw [← ih]
    exact decode_append_ascii (show newline.toNat < 0x80 by decide) l _

theorem splitChars_lines {ls : List (List Char)} {r : List Char} (hls : ∀ l ∈ ls, '\n' ∉ l)
    (hr : '\n' ∉ r) : splitChars '\n' (ls.flatMap (fun line => line++['\n'])++r) = ls++[r] := by
  induction ls with
  | nil => exact splitChars_of_not_mem hr
  | cons l ls ih =>
    rw [List.flatMap_cons, List.append_assoc, List.append_assoc]
    refine (splitChars_append (hls l List.mem_cons_self) _).trans ?_
    exact congrArg (List.cons l) (ih fun x hx => hls x (List.mem_cons_of_mem l hx))

theorem notMem_pieces {pending : List Bytes} (hp : ∀ piece ∈ pending, newline ∉ piece)
    {last : Bytes} (h : newline ∉ last) : ∀ piece ∈ pending++[last], newline ∉ piece := by
  intro piece hpiece
  rcases List.mem_append.mp hpiece with hpiece | hpiece
  · exact hp piece hpiece
  · rwa [List.mem_singleton.mp hpiece]

theorem complete_spec {pending : List Bytes} (hp : ∀ piece ∈ pending, newline ∉ piece)
    (chunk : Bytes) :
    pending.flatten++chunk = (complete pending chunk).1.flatMap (fun ps => ps.flatten++[newline])++
        (complete pending chunk).2.flatten ∧
      (∀ ps ∈ (complete pending chunk).1, ∀ piece ∈ ps, newline ∉ piece) ∧
      (∀ piece ∈ (complete pending chunk).2, newline ∉ piece) ∧
      splitChars '\n' (pending.flatMap decode++decode chunk) =
        (complete pending chunk).1.map (fun ps => ps.flatMap decode)++
          [(complete pending chunk).2.flatMap decode] := by
  obtain ⟨hbytes,hlines,hrest⟩ := cutLines_spec chunk
  unfold complete
  split
  · rename_i rest heq
    rw [heq] at hbytes hrest
    have hopen := notMem_pieces hp hrest
    have hchunk : rest = chunk := hbytes
    refine ⟨by simp [hchunk],nofun,hopen,?_⟩
    rw [← hchunk, List.map_nil, List.nil_append,
      ← splitChars_of_not_mem (newline_notMem_text hopen), List.flatMap_append,
      List.flatMap_singleton]
  · rename_i line lines rest heq
    rw [heq] at hbytes hlines hrest
    have hfirst := notMem_pieces hp (hlines line List.mem_cons_self)
    refine ⟨?_,?_,?_,?_⟩
    · rw [← hbytes]
      simp [List.flatMap_map, List.append_assoc]
    · intro ps hps piece hpiece
      rcases List.mem_cons.mp hps with rfl | hps
      · exact hfirst piece hpiece
      · obtain ⟨l,hl,rfl⟩ := List.mem_map.mp hps
        rw [List.mem_singleton.mp hpiece]
        exact hlines l (List.mem_cons_of_mem line hl)
    · exact fun piece hpiece => List.mem_singleton.mp hpiece ▸ hrest
    · have htexts : ∀ l ∈ (pending++[line]).flatMap decode::lines.map decode, '\n' ∉ l := by
        intro l hl
        rcases List.mem_cons.mp hl with rfl | hl
        · exact newline_notMem_text hfirst
        · obtain ⟨x,hx,rfl⟩ := List.mem_map.mp hl
          exact decode_newline (hlines x (List.mem_cons_of_mem line hx))
      have hsplit := splitChars_lines htexts (decode_newline hrest)
      rw [← hbytes, decode_lines]
      simpa [List.flatMap_map, List.flatMap_append, List.append_assoc, Function.comp_def] using hsplit

theorem batches_spec {pending : List Bytes} (hp : ∀ piece ∈ pending, newline ∉ piece)
    (chunks : List Bytes) :
    pending.flatten++chunks.flatten =
        (batches pending chunks).1.flatten.flatMap (fun ps => ps.flatten++[newline])++
          (batches pending chunks).2.flatten ∧
      (∀ ps ∈ (batches pending chunks).1.flatten, ∀ piece ∈ ps, newline ∉ piece) ∧
      ∀ piece ∈ (batches pending chunks).2, newline ∉ piece := by
  induction chunks generalizing pending with
  | nil => exact ⟨by simp [batches],nofun,hp⟩
  | cons chunk chunks ih =>
    obtain ⟨hbytes,hpieces,hopen,-⟩ := complete_spec hp chunk
    obtain ⟨hlater,hpieces',hopen'⟩ := ih hopen
    rw [batches]
    refine ⟨?_,?_,hopen'⟩
    · rw [List.flatten_cons, List.flatten_cons, List.flatMap_append, ← List.append_assoc, hbytes,
        List.append_assoc, hlater, List.append_assoc]
    · intro ps hps
      rw [List.flatten_cons] at hps
      rcases List.mem_append.mp hps with hps | hps
      · exact hpieces ps hps
      · exact hpieces' ps hps

theorem Delivery.lines_eq (d : Delivery) :
    (batches [] d.chunks).1.flatten.map List.flatten = d.lines ∧
      (batches [] d.chunks).2.flatten = [] := by
  obtain ⟨hbytes,hpieces,hopen⟩ := batches_spec (nofun : ∀ piece ∈ [], newline ∉ piece) d.chunks
  have hflat : ∀ ps : List Bytes, (∀ piece ∈ ps, newline ∉ piece) → newline ∉ ps.flatten := by
    intro ps hps hmem
    obtain ⟨piece,hpiece,hb⟩ := List.mem_flatten.mp hmem
    exact hps piece hpiece hb
  refine lines_unique ?_ d.unbroken (hflat _ hopen) List.not_mem_nil ?_
  · intro l hl
    obtain ⟨ps,hps,rfl⟩ := List.mem_map.mp hl
    exact hflat ps (hpieces ps hps)
  · rw [List.flatMap_map, List.append_nil, ← d.whole]
    exact hbytes.symm

section
variable {D : Type*} [DecidableEq D] {R : Doubles D}

def confirmed (R : Doubles D) (lines : List (List Char)) : Option Subscription :=
  (lines.filterMap (readSubscription R)).find? (fun s => haveText s.topics)

theorem handleLines_written (lines : List (List Char)) (c : Client) :
    (handleLines R lines c).written =
      c.written++(confirmed R lines).toList.map acknowledgement := by
  induction lines generalizing c with
  | nil => exact (List.append_nil _).symm
  | cons line lines ih =>
    rw [handleLines]
    split
    · next hnone => rw [ih, confirmed, confirmed, List.filterMap_cons_none hnone]
    · next s hs =>
      split
      · next htext =>
        rw [confirmed, List.filterMap_cons_some hs]
        simp [htext, Client.confirm]
      · next htext =>
        rw [ih, confirmed, confirmed, List.filterMap_cons_some hs]
        simp [htext]

theorem handleSubscriptionMessage_complete {c : Client} {pending : List Bytes}
    (hp : ∀ piece ∈ pending, newline ∉ piece) (hc : c.subscriptionBuffer = pending.flatMap decode)
    (chunk : Bytes) :
    handleSubscriptionMessage R c chunk =
      { handleLines R ((complete pending chunk).1.map (fun ps => ps.flatMap decode)) c with
        subscriptionBuffer := (complete pending chunk).2.flatMap decode } := by
  obtain ⟨-,-,-,htext⟩ := complete_spec hp chunk
  unfold handleSubscriptionMessage
  rw [hc, htext]
  simp

theorem receive_written {pending : List Bytes} (hp : ∀ piece ∈ pending, newline ∉ piece)
    (chunks : List Bytes) (c : Client) (hc : c.subscriptionBuffer = pending.flatMap decode) :
    (receive R c chunks).written =
      c.written++(batches pending chunks).1.flatMap (fun batch =>
        (confirmed R (batch.map (fun ps => ps.flatMap decode))).toList.map acknowledgement) := by
  induction chunks generalizing pending c with
  | nil => exact (List.append_nil _).symm
  | cons chunk chunks ih =>
    obtain ⟨-,-,hopen,-⟩ := complete_spec hp chunk
    have hstep := handleSubscriptionMessage_complete (R := R) hp hc chunk
    rw [receive, List.foldl_cons, ← receive, ih hopen _ (by rw [hstep]), hstep,
      handleLines_written, batches, List.flatMap_cons, List.append_assoc]

theorem subscriptions_batches (d : Delivery) :
    d.subscriptions R = (batches [] d.chunks).1.flatMap (fun batch =>
      batch.filterMap (fun ps => readSubscription R (decode ps.flatten))) := by
  rw [Delivery.subscriptions, ← d.lines_eq.1, List.filterMap_map, List.flatten_eq_flatMap,
    List.filterMap_flatMap]
  rfl

theorem parts_eq {α β : Type*} {f g : β → List α} {bs : List β}
    (hle : ∀ b ∈ bs, (f b).length ≤ (g b).length) (h : bs.flatMap f = bs.flatMap g) :
    ∀ b ∈ bs, f b = g b := by
  induction bs with
  | nil => exact nofun
  | cons b bs ih =>
    have htail : ∀ x ∈ bs, (f x).length ≤ (g x).length :=
      fun x hx => hle x (List.mem_cons_of_mem b hx)
    have hsum : ∀ xs : List β, (∀ x ∈ xs, (f x).length ≤ (g x).length) →
        (xs.flatMap f).length ≤ (xs.flatMap g).length := by
      intro xs hxs
      induction xs with
      | nil => exact Nat.le_refl _
      | cons x xs ihx =>
        have hx := hxs x List.mem_cons_self
        have hrest := ihx fun y hy => hxs y (List.mem_cons_of_mem x hy)
        rw [List.flatMap_cons, List.flatMap_cons, List.length_append, List.length_append]
        omega
    rw [List.flatMap_cons, List.flatMap_cons] at h
    have hlen := congrArg List.length h
    rw [List.length_append, List.length_append] at hlen
    have hb := hle b List.mem_cons_self
    have hrest := hsum bs htail
    obtain ⟨hfirst,hlater⟩ := List.append_inj h (by omega)
    intro x hx
    rcases List.mem_cons.mp hx with rfl | hx
    · exact hfirst
    · exact ih htail hlater x hx

theorem distinct_nil_iff {α : Type*} (same : α → α → Bool) (items : List α) :
    distinct same items = [] ↔ items = [] := by
  have hgrow : ∀ (xs set : List α), set ≠ [] →
      xs.foldl (fun set v => if set.any (fun u => same u v) then set else set++[v]) set ≠ [] := by
    intro xs
    induction xs with
    | nil => exact fun set h => h
    | cons x xs ih =>
      intro set h
      rw [List.foldl_cons]
      split
      · exact ih set h
      · exact ih _ (by simp)
  cases items with
  | nil => exact ⟨fun _ => rfl,fun _ => rfl⟩
  | cons x xs => exact iff_of_false (hgrow xs [x] (by simp)) (List.cons_ne_nil x xs)

theorem acknowledgement_inj {s s' : Subscription} (hempty : s.topics = [] ↔ s'.topics = [])
    (h : acknowledgement s = acknowledgement s') : s = s' := by
  obtain ⟨topics,rules⟩ := s
  obtain ⟨topics',rules'⟩ := s'
  obtain ⟨htopics,rfl⟩ := Acknowledgement.mk.inj h
  simp only at hempty htopics
  by_cases hnil : topics = []
  · rw [hnil, hempty.mp hnil]
  · have hnil' : topics' ≠ [] := fun h' => hnil (hempty.mpr h')
    simp only [List.isEmpty_iff, hnil, hnil', if_false] at htopics
    rw [htopics]

theorem readSubscription_whole {pieces : List Bytes} {s : Subscription}
    (h : readSubscription R (pieces.flatMap decode) = some s) :
    ∃ s', readSubscription R (decode pieces.flatten) = some s' ∧
      (s.topics = [] ↔ s'.topics = []) := by
  obtain ⟨⟨items,route⟩,hm,rfl⟩ := Option.map_eq_some_iff.mp h
  obtain ⟨items',route',hm',hempty⟩ := subscribeMessage_whole hm
  refine ⟨_,by rw [readSubscription, hm']; rfl,?_⟩
  have hnil : items = [] ↔ items' = [] := by
    rw [← List.isEmpty_iff, ← List.isEmpty_iff, hempty]
  simp only [topicSet, List.map_eq_nil_iff, distinct_nil_iff, hnil]

theorem eq_of_filter_le_one {α : Type} {p : α → Bool} {xs : List α}
    (h : (xs.filter p).length ≤ 1) {x y : α} (hx : x ∈ xs) (hpx : p x = true) (hy : y ∈ xs)
    (hpy : p y = true) : x = y := by
  have hinx := List.mem_filter.mpr ⟨hx,hpx⟩
  have hiny := List.mem_filter.mpr ⟨hy,hpy⟩
  obtain ⟨z,hz⟩ := List.length_eq_one_iff.mp (Nat.le_antisymm h (List.length_pos_of_mem hinx))
  rw [hz, List.mem_singleton] at hinx hiny
  rw [hinx, hiny]

/-- If as many lines of a batch are confirmed as are subscriptions, there is at
most one, and it reads as it should. -/
theorem batch_unharmed {batch : List (List Bytes)}
    (h : (confirmed R (batch.map (fun ps => ps.flatMap decode))).toList.map acknowledgement =
      (batch.filterMap (fun ps => readSubscription R (decode ps.flatten))).map acknowledgement) :
    (batch.filter (fun ps => (readSubscription R (decode ps.flatten)).isSome)).length ≤ 1 ∧
    ∀ ps ∈ batch, ∀ s, readSubscription R (decode ps.flatten) = some s →
      readSubscription R (ps.flatMap decode) = some s ∧ haveText s.topics = true := by
  have hcount : (batch.filter (fun ps => (readSubscription R (decode ps.flatten)).isSome)).length =
      (batch.filterMap (fun ps => readSubscription R (decode ps.flatten))).length := by
    rw [List.length_filterMap_eq_countP, List.countP_eq_length_filter]
  have hone : (batch.filterMap (fun ps => readSubscription R (decode ps.flatten))).length ≤ 1 := by
    have hlen := congrArg List.length h
    rw [List.length_map, List.length_map] at hlen
    rw [← hlen]
    exact Option.length_toList_le
  refine ⟨hcount.trans_le hone,fun ps hps s hs => ?_⟩
  have halone : batch.filterMap (fun ps => readSubscription R (decode ps.flatten)) = [s] := by
    have hmem : s ∈ batch.filterMap (fun ps => readSubscription R (decode ps.flatten)) :=
      List.mem_filterMap.mpr ⟨ps,hps,hs⟩
    obtain ⟨x,hx⟩ := List.length_eq_one_iff.mp (Nat.le_antisymm hone (List.length_pos_of_mem hmem))
    rw [hx, List.mem_singleton] at hmem
    rw [hx, hmem]
  rw [halone] at h
  cases hc : confirmed R (batch.map (fun ps => ps.flatMap decode)) with
  | none =>
    rw [hc] at h
    cases h
  | some s₀ =>
    rw [hc] at h
    have hack : acknowledgement s₀ = acknowledgement s := (List.cons.inj h).1
    have htext := List.find?_some hc
    obtain ⟨line,hline,hread⟩ := List.mem_filterMap.mp (List.mem_of_find?_eq_some hc)
    obtain ⟨ps₀,hps₀,rfl⟩ := List.mem_map.mp hline
    obtain ⟨s',hs',hempty⟩ := readSubscription_whole hread
    -- the confirmed line is the only subscription of the batch
    have hsame : ps₀ = ps :=
      eq_of_filter_le_one (hcount.trans_le hone) hps₀ (by rw [hs']; rfl) hps (by rw [hs]; rfl)
    subst hsame
    rw [hs, Option.some_inj] at hs'
    subst hs'
    obtain rfl := acknowledgement_inj hempty hack
    exact ⟨hread,htext⟩

theorem unharmed_of_written {d : Delivery}
    (h : (receive R Client.new d.chunks).written = (d.subscriptions R).map acknowledgement) :
    d.Unharmed R := by
  rw [receive_written (nofun : ∀ piece ∈ [], newline ∉ piece) d.chunks Client.new rfl,
    subscriptions_batches, List.map_flatMap] at h
  intro batch hbatch
  refine batch_unharmed (parts_eq ?_ h batch hbatch)
  intro b _
  rw [List.length_map, List.length_map]
  cases hc : confirmed R (b.map (fun ps => ps.flatMap decode)) with
  | none => exact Nat.zero_le _
  | some s =>
    -- what is confirmed is a subscription
    obtain ⟨line,hline,hread⟩ := List.mem_filterMap.mp (List.mem_of_find?_eq_some hc)
    obtain ⟨ps,hps,rfl⟩ := List.mem_map.mp hline
    obtain ⟨s',hs',-⟩ := readSubscription_whole hread
    exact List.length_pos_of_mem (List.mem_filterMap.mpr ⟨ps,hps,hs'⟩)

@[simp] theorem confirm_buffer (c : Client) (s : Subscription) (buffer : List Char) :
    ({ c with subscriptionBuffer := buffer } : Client).confirm s =
      { c.confirm s with subscriptionBuffer := buffer } := rfl

theorem foldl_confirm_buffer (subs : List Subscription) (c : Client) (buffer : List Char) :
    subs.foldl Client.confirm { c with subscriptionBuffer := buffer } =
      { subs.foldl Client.confirm c with subscriptionBuffer := buffer } := by
  induction subs generalizing c with
  | nil => rfl
  | cons s subs ih => rw [List.foldl_cons, List.foldl_cons, confirm_buffer, ih]

theorem foldl_confirm (subs : List Subscription) (c : Client) :
    (subs.foldl Client.confirm c).subscription = subs.getLastD c.subscription ∧
      (subs.foldl Client.confirm c).written = c.written++subs.map acknowledgement ∧
      (subs.foldl Client.confirm c).subscriptionBuffer = c.subscriptionBuffer := by
  induction subs generalizing c with
  | nil => exact ⟨rfl,(List.append_nil _).symm,rfl⟩
  | cons s subs ih =>
    obtain ⟨hlast,hwritten,hbuffer⟩ := ih (c.confirm s)
    rw [List.foldl_cons]
    refine ⟨?_,?_,hbuffer⟩
    · rw [hlast]
      cases subs <;> rfl
    · rw [hwritten]
      exact List.append_assoc c.written [acknowledgement s] _

theorem handleLines_one {lines : List (List Char)} {subs : List Subscription}
    (h : lines.filterMap (readSubscription R) = subs) (hone : subs.length ≤ 1)
    (htext : ∀ s ∈ subs, haveText s.topics = true) (c : Client) :
    handleLines R lines c = subs.foldl Client.confirm c := by
  induction lines with
  | nil =>
    subst h
    rfl
  | cons line lines ih =>
    rw [handleLines]
    split
    · next hnone =>
      rw [List.filterMap_cons_none hnone] at h
      exact ih h
    · next s hs =>
      rw [List.filterMap_cons_some hs] at h
      subst h
      have hrest : lines.filterMap (readSubscription R) = [] := by
        rw [List.length_cons] at hone
        exact List.length_eq_zero_iff.mp (by omega)
      rw [if_pos (htext s List.mem_cons_self), hrest]
      rfl

theorem receive_unharmed {pending : List Bytes} (hp : ∀ piece ∈ pending, newline ∉ piece)
    {chunks : List Bytes} (c : Client) (hc : c.subscriptionBuffer = pending.flatMap decode)
    (h : ∀ batch ∈ (batches pending chunks).1,
      (batch.filter (fun ps => (readSubscription R (decode ps.flatten)).isSome)).length ≤ 1 ∧
      ∀ ps ∈ batch, ∀ s, readSubscription R (decode ps.flatten) = some s →
        readSubscription R (ps.flatMap decode) = some s ∧ haveText s.topics = true) :
    receive R c chunks =
      { ((batches pending chunks).1.flatMap (fun batch =>
          batch.filterMap (fun ps => readSubscription R (decode ps.flatten)))).foldl
          Client.confirm c with
        subscriptionBuffer := (batches pending chunks).2.flatMap decode } := by
  induction chunks generalizing pending c with
  | nil =>
    show c = { c with subscriptionBuffer := pending.flatMap decode }
    rw [← hc]
  | cons chunk chunks ih =>
    obtain ⟨-,-,hopen,-⟩ := complete_spec hp chunk
    obtain ⟨hone,hreads⟩ := h (complete pending chunk).1 List.mem_cons_self
    have hsame : ((complete pending chunk).1.map (fun ps => ps.flatMap decode)).filterMap
        (readSubscription R) = (complete pending chunk).1.filterMap
          (fun ps => readSubscription R (decode ps.flatten)) := by
      rw [List.filterMap_map]
      refine List.filterMap_congr fun ps hps => ?_
      show readSubscription R (ps.flatMap decode) = _
      cases hs : readSubscription R (decode ps.flatten) with
      | some s => exact (hreads ps hps s hs).1
      | none =>
        cases hpiece : readSubscription R (ps.flatMap decode) with
        | none => rfl
        | some s =>
          obtain ⟨s',hs',-⟩ := readSubscription_whole hpiece
          rw [hs] at hs'
          cases hs'
    rw [← List.countP_eq_length_filter, ← List.length_filterMap_eq_countP] at hone
    have htext : ∀ s ∈ (complete pending chunk).1.filterMap
        (fun ps => readSubscription R (decode ps.flatten)), haveText s.topics = true := by
      intro s hs
      obtain ⟨ps,hps,hread⟩ := List.mem_filterMap.mp hs
      exact (hreads ps hps s hread).2
    rw [receive, List.foldl_cons, ← receive, handleSubscriptionMessage_complete hp hc,
      handleLines_one hsame hone htext,
      ih hopen _ rfl fun batch hbatch => h batch (List.mem_cons_of_mem _ hbatch),
      foldl_confirm_buffer, batches, List.flatMap_cons, List.foldl_append]

theorem flatMap_decode_nil {pieces : List Bytes} (h : pieces.flatten = []) :
    pieces.flatMap decode = [] := by
  rw [List.flatMap_eq_nil_iff]
  intro piece hpiece
  rw [List.flatten_eq_nil_iff.mp h piece hpiece]
  rfl

theorem receive_delivery {d : Delivery} (h : d.Unharmed R) :
    receive R Client.new d.chunks = (d.subscriptions R).foldl Client.confirm Client.new := by
  rw [receive_unharmed (nofun : ∀ piece ∈ [], newline ∉ piece) Client.new rfl h,
    ← subscriptions_batches, flatMap_decode_nil d.lines_eq.2]
  have hbuffer := (foldl_confirm (d.subscriptions R) Client.new).2.2
  generalize (d.subscriptions R).foldl Client.confirm Client.new = c at hbuffer ⊢
  show { c with subscriptionBuffer := [] } = c
  rw [show ([] : List Char) = c.subscriptionBuffer from hbuffer.symm]

def Delivery.single (d : Delivery) : Delivery where
  lines := d.lines
  chunks := d.lines.map (fun line => line++[newline])
  unbroken := d.unbroken
  whole := List.flatMap_def.symm

theorem batches_single {lines pending : List Bytes} (hlines : ∀ line ∈ lines, newline ∉ line)
    (hp : pending.flatten = []) :
    ∀ batch ∈ (batches pending (lines.map (fun line => line++[newline]))).1,
      ∃ line ∈ lines, ∃ pre : List Bytes, pre.flatten = [] ∧ batch = [pre++[line]] := by
  induction lines generalizing pending with
  | nil => exact nofun
  | cons line lines ih =>
    obtain ⟨hbytes,hcut,hrest⟩ := cutLines_spec (line++[newline])
    have hline : ∀ l ∈ [line], newline ∉ l := by
      intro l hl
      rw [List.mem_singleton.mp hl]
      exact hlines line List.mem_cons_self
    have hone := lines_unique hcut hline hrest List.not_mem_nil (by simpa using hbytes)
    have hdone : complete pending (line++[newline]) = ([pending++[line]],[[]]) := by
      unfold complete
      rw [show cutLines (line++[newline]) = ([line],[]) from Prod.ext hone.1 hone.2]
      rfl
    intro batch hbatch
    rw [List.map_cons, batches, hdone] at hbatch
    rcases List.mem_cons.mp hbatch with rfl | hbatch
    · exact ⟨line,List.mem_cons_self,pending,hp,rfl⟩
    · obtain ⟨l,hl,hrest⟩ := ih (fun l hl => hlines l (List.mem_cons_of_mem line hl)) (by rfl)
        batch hbatch
      exact ⟨l,List.mem_cons_of_mem line hl,hrest⟩

theorem single_unharmed {d : Delivery} (h : d.Unharmed R) : d.single.Unharmed R := by
  intro batch hbatch
  obtain ⟨line,hline,pre,hpre,rfl⟩ := batches_single d.unbroken (by rfl) batch hbatch
  have hflat : (pre++[line]).flatten = line := by
    rw [List.flatten_append, hpre]
    simp
  have htext : (pre++[line]).flatMap decode = decode line := by
    rw [List.flatMap_append, flatMap_decode_nil hpre]
    simp
  refine ⟨(List.length_filter_le _ _).trans (by simp),fun ps hps s hs => ?_⟩
  rw [List.mem_singleton.mp hps, hflat] at hs
  rw [List.mem_singleton.mp hps, htext]
  refine ⟨hs,?_⟩
  rw [← d.lines_eq.1] at hline
  obtain ⟨qs,hqs,rfl⟩ := List.mem_map.mp hline
  obtain ⟨b,hb,hqs⟩ := List.mem_flatten.mp hqs
  exact ((h b hb).2 qs hqs s hs).2

/-- The chunks do not matter exactly when no chunk completes two subscriptions
and each subscription has topics with a text and survives being decoded in the
pieces in which it came. -/
theorem lineByLine_iff (R : Doubles D) (d : Delivery) : d.LineByLine R ↔ d.Unharmed R := by
  constructor
  · intro h
    exact unharmed_of_written h.2.1
  · intro h
    obtain ⟨hlast,hwritten,-⟩ := foldl_confirm (d.subscriptions R) Client.new
    have hsingle := receive_delivery (single_unharmed h)
    have hd := receive_delivery h
    refine ⟨?_,?_,?_⟩
    · rw [hd, hlast]
      rfl
    · rw [hd, hwritten]
      rfl
    · rw [hd]
      exact hsingle.symm

def twoSubscriptions : Delivery where
  lines := [encode "\x7b\"subscribe\":[\"a\"]\x7d".toList,encode "\x7b\"subscribe\":[\"b\"]\x7d".toList]
  chunks := [encode "\x7b\"subscribe\":[\"a\"]\x7d\n\x7b\"subscribe\":[\"b\"]\x7d\n".toList]
  unbroken := by decide
  whole := by decide

/-- The second one is neither confirmed nor in effect. -/
theorem second_subscription_lost : ¬twoSubscriptions.LineByLine exactDoubles := by
  intro h
  have hcount := congrArg List.length h.2.1
  revert hcount
  decide +kernel

variable {σ : Type*} [DecidableEq σ]

structure Mirrors (c : Connection) (k : Client) : Prop where
  topics : k.subscription.topics = c.subscription.topics.keys.map Value.str
  rules : k.subscription.rules = ruleSets c.subscription.rules
  received : k.subscriptionReceived = c.subscriptionReceived
  buffer : k.subscriptionBuffer = c.subscriptionBuffer

theorem mirrors_new : Mirrors ⟨⟨OrderedMap.empty,getDefaultRoutingRules,0⟩,false,[],true⟩
    Client.new where
  topics := rfl
  rules := by decide
  received := rfl
  buffer := rfl

theorem topicSet_strings (R : Doubles D) (names : List String) :
    topicSet R (names.map Value.str) =
      (names.foldl (fun set t => set.add t) OrderedMap.empty).keys.map Value.str := by
  have hgrow : ∀ (xs : List String) (m : OrderedMap String Unit),
      (xs.map Value.str).foldl (fun set v => if set.any (fun u => sameValue R u v) then set
        else set++[v]) (m.keys.map Value.str) =
          (xs.foldl (fun set t => set.add t) m).keys.map Value.str := by
    intro xs
    induction xs with
    | nil => exact fun m => rfl
    | cons x xs ih =>
      intro m
      have hany : (m.keys.map Value.str).any (fun u => sameValue R u (.str x)) = true ↔
          x ∈ m.keys := by
        simp [sameValue]
      have hstep : (if (m.keys.map Value.str).any (fun u => sameValue R u (.str x)) then
          m.keys.map Value.str else m.keys.map Value.str++[.str x]) =
            (m.add x).keys.map Value.str := by
        rw [OrderedMap.add, OrderedMap.keys_set]
        by_cases hx : x ∈ m.keys
        · rw [if_pos (hany.mpr hx), if_pos hx]
        · rw [if_neg (mt hany.mp hx), if_neg hx, List.map_append]
          rfl
      rw [List.map_cons, List.foldl_cons, List.foldl_cons, hstep, ih]
  have hheld : ∀ xs : List String, (xs.map Value.str).map held = xs.map Value.str := by
    intro xs
    rw [List.map_map]
    rfl
  have hset := congrArg (List.map held) (hgrow names OrderedMap.empty)
  rw [hheld] at hset
  exact hset

theorem haveText_strings (names : List String) : haveText (names.map Value.str) = true := by
  induction names with
  | nil => rfl
  | cons x xs ih => simpa [haveText, hasText] using ih

theorem topicNames_strings (names : List String) : topicNames (names.map Value.str) = names := by
  induction names with
  | nil => rfl
  | cons x xs ih => exact congrArg (List.cons x) ih

theorem strings_of {items : List Value} (h : ∀ v ∈ items, ∃ t, v = Value.str t) :
    ∃ names : List String, items = names.map Value.str := by
  induction items with
  | nil => exact ⟨[],rfl⟩
  | cons v vs ih =>
    obtain ⟨t,rfl⟩ := h v List.mem_cons_self
    obtain ⟨names,rfl⟩ := ih fun v hv => h v (List.mem_cons_of_mem _ hv)
    exact ⟨t::names,rfl⟩

theorem handleLines_strings (R : Doubles D) {lines : List (List Char)} {names : List String}
    {route : Option Value}
    (h : lines.findSome? subscribeMessage = some (names.map Value.str,route)) (k : Client) :
    handleLines R lines k =
      k.confirm ⟨topicSet R (names.map Value.str),routingRules R route⟩ := by
  induction lines with
  | nil => cases h
  | cons line lines ih =>
    rw [List.findSome?_cons] at h
    rw [handleLines, readSubscription]
    split at h
    · next m hm =>
      obtain rfl := Option.some_inj.mp h
      rw [hm]
      simp only [Option.map_some, topicSet_strings, haveText_strings, if_true]
    · next hm =>
      rw [hm]
      exact ih h

theorem handleLines_none (R : Doubles D) {lines : List (List Char)}
    (h : lines.findSome? subscribeMessage = none) (k : Client) : handleLines R lines k = k := by
  induction lines with
  | nil => rfl
  | cons line lines ih =>
    rw [List.findSome?_cons] at h
    rw [handleLines, readSubscription]
    split at h
    · cases h
    · next hm =>
      rw [hm]
      exact ih h

theorem mirrors_data (R : Doubles D) {socket : σ} {s : Server σ} {c : Connection} {k : Client}
    (hs : s.connections.get? socket = some c) (h : Mirrors c k) {chunk : Bytes}
    (hstrings : SocketDelivery.TopicStrings c chunk) :
    ∃ c', (SocketServer.handleSubscriptionMessage R socket chunk s).connections.get? socket =
        some c' ∧ Mirrors c' (handleSubscriptionMessage R k chunk) := by
  have hlines : splitChars '\n' (k.subscriptionBuffer++decode chunk) =
      splitChars '\n' (c.subscriptionBuffer++decode chunk) := by rw [h.buffer]
  unfold SocketServer.handleSubscriptionMessage handleSubscriptionMessage
  rw [hs, hlines]
  dsimp only
  cases hm : (linesOf c chunk).1.findSome? subscribeMessage with
  | none =>
    have hk := handleLines_none R hm k
    refine ⟨{ c with subscriptionBuffer := (linesOf c chunk).2 },?_,?_⟩
    · simp only [setBuffer, hs, OrderedMap.get?_set, if_true]
    · rw [show (splitChars '\n' (c.subscriptionBuffer++decode chunk)).dropLast =
        (linesOf c chunk).1 from rfl, hk]
      exact ⟨h.topics,h.rules,h.received,rfl⟩
  | some m =>
    obtain ⟨items,route⟩ := m
    obtain ⟨names,rfl⟩ := strings_of (hstrings items route hm)
    have hk := handleLines_strings R hm k
    refine ⟨⟨⟨(topicNames (names.map Value.str)).foldl (fun set t => set.add t) OrderedMap.empty,
      parseRoutingRules R route,c.subscription.lastSentAt⟩,true,(linesOf c chunk).2,false⟩,?_,?_⟩
    · simp only [setBuffer, SocketIndex.subscribe_connections, OrderedMap.get?_set, if_true]
    · rw [show (splitChars '\n' (c.subscriptionBuffer++decode chunk)).dropLast =
        (linesOf c chunk).1 from rfl, hk]
      exact ⟨by rw [topicNames_strings]; exact topicSet_strings R names,rfl,rfl,rfl⟩

end

end Iotistica.SubscriptionStream
