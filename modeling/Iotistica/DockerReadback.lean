import Iotistica.DockerContainer
import Iotistica.ContainerComparison
import Mathlib.Data.List.Perm.Subperm

/-!
# Which fields survive the way through Docker

For every field the list read back is a rearrangement of the one written
exactly under a condition on what was written. The arguments are alike:
whatever is read back has a restricted shape, so a rearrangement of it has
that shape as well.
-/

set_option autoImplicit false

namespace Iotistica.DockerReadback
open Iotistica Iotistica.JsText Iotistica.JsNumerals Iotistica.CellRun Iotistica.ContainerState
  Iotistica.ContainerPlanner Iotistica.DockerContainer

def portText (publicPort privatePort : ℕ) : String :=
  publicPort.repr++String.singleton ':'++privatePort.repr

def PlainPort (portMapping : String) : Prop :=
  ∃ m n, 0 < m ∧ 0 < n ∧ portMapping = portText m n

def containerPort (portMapping : String) : String := ((split portMapping ':').tail).headD ""

theorem colon_not_mem_repr (n : ℕ) : ':' ∉ n.repr.toList := not_mem_repr (by decide)

theorem split_portText (m n : ℕ) : split (portText m n) ':' = [m.repr,n.repr] := by
  unfold portText
  rw [split_append (colon_not_mem_repr m), split_of_not_mem (colon_not_mem_repr n)]

theorem portEntry_portText (m n : ℕ) : portEntry (portText m n) = some (n.repr++"/tcp",m.repr) := by
  unfold portEntry
  rw [split_portText]
  simp

theorem containerPort_portText (m n : ℕ) : containerPort (portText m n) = n.repr := by
  unfold containerPort
  rw [split_portText]
  rfl

theorem portPart_tcp (n : ℕ) : (split (n.repr++"/tcp") '/').headD "" = n.repr := by
  have h : n.repr++"/tcp" = n.repr++String.singleton '/'++"tcp" := by
    rw [String.append_assoc]
    rfl
  rw [h, split_append (not_mem_repr (by decide))]
  rfl

def pairOf (number : String → ℕ) (e : String × String) : PortPair :=
  ⟨number e.2,number ((split e.1 '/').headD "")⟩

theorem readPort_portText {number : String → ℕ} (hnumber : ∀ n : ℕ, number n.repr = n) {m n : ℕ}
    (hm : 0 < m) (hn : 0 < n) :
    readPort (pairOf number (n.repr++"/tcp",m.repr)) = some (portText m n) := by
  have hm' : m ≠ 0 := by omega
  have hn' : n ≠ 0 := by omega
  unfold readPort pairOf
  simp only [portPart_tcp, hnumber, hm', hn', or_self, if_false]
  rfl

theorem plainPort_of_readPort {p : PortPair} {s : String} (h : readPort p = some s) :
    PlainPort s := by
  unfold readPort at h
  split at h
  · cases h
  · rename_i hz
    refine ⟨p.publicPort,p.privatePort,by omega,by omega,?_⟩
    exact (Option.some.inj h).symm

theorem plainPort_of_mem_readPorts {ports : List PortPair} {s : String} (h : s ∈ readPorts ports) :
    PlainPort s := by
  unfold readPorts at h
  rw [List.mem_eraseDups] at h
  obtain ⟨p,_,hp⟩ := List.mem_filterMap.mp h
  exact plainPort_of_readPort hp

theorem filterMap_portEntry {ports : List String} (h : ∀ p ∈ ports, PlainPort p) :
    (ports.filterMap portEntry).map Prod.fst = ports.map (fun p => containerPort p++"/tcp") := by
  induction ports with
  | nil => rfl
  | cons p ports ih =>
    obtain ⟨m,n,_,_,rfl⟩ := h p (by simp)
    have hrest := ih (fun q hq => h q (List.mem_cons_of_mem _ hq))
    simp [portEntry_portText, containerPort_portText, hrest]

theorem filterMap_readPort {number : String → ℕ} (hnumber : ∀ n : ℕ, number n.repr = n)
    {ports : List String} (h : ∀ p ∈ ports, PlainPort p) :
    ((ports.filterMap portEntry).map (pairOf number)).filterMap readPort = ports := by
  induction ports with
  | nil => rfl
  | cons p ports ih =>
    obtain ⟨m,n,hm,hn,rfl⟩ := h p (by simp)
    have hrest := ih (fun q hq => h q (List.mem_cons_of_mem _ hq))
    simp [portEntry_portText, readPort_portText hnumber hm hn, hrest]

theorem nodup_append_right {xs : List String} (t : String) :
    (xs.map (fun x => x++t)).Nodup ↔ xs.Nodup := by
  apply List.nodup_map_iff
  intro a b hab
  exact String.append_left_inj t |>.mp hab

def PortsSurvive (ports : List String) : Prop :=
  (∀ p ∈ ports, PlainPort p) ∧ (ports.map containerPort).Nodup

theorem eraseDups_of_nodup {α : Type} [BEq α] [LawfulBEq α] {xs : List α} (h : xs.Nodup) :
    xs.eraseDups = xs := by
  induction xs with
  | nil => rfl
  | cons x xs ih =>
    have hout := (List.nodup_cons.mp h).1
    have hkeep : xs.filter (fun b => !b == x) = xs := by
      rw [List.filter_eq_self]
      intro b hb
      have hne : b ≠ x := fun he => hout (he ▸ hb)
      simp [hne]
    rw [List.eraseDups_cons, hkeep, ih (List.nodup_cons.mp h).2]

theorem readPorts_iff {number : String → ℕ} (hnumber : ∀ n : ℕ, number n.repr = n)
    (ports : List String) :
    (readPorts ((portBindings ports).entries.map (pairOf number))).Perm ports ↔
      PortsSurvive ports := by
  constructor
  · intro h
    have hplain : ∀ p ∈ ports, PlainPort p := by
      intro p hp
      exact plainPort_of_mem_readPorts (h.mem_iff.mpr hp)
    refine ⟨hplain,?_⟩
    have hkeys := filterMap_portEntry hplain
    have hlen : (ports.filterMap portEntry).length = ports.length := by
      have := congrArg List.length hkeys
      simpa using this
    -- as many entries are read back as were written, so no binding was overwritten
    have hread : (readPorts ((portBindings ports).entries.map (pairOf number))).length ≤
        (portBindings ports).size := by
      unfold readPorts OrderedMap.size
      have hdups := (List.subperm_of_subset
        (nodup_eraseDups (((portBindings ports).entries.map (pairOf number)).filterMap readPort))
        (fun s hs => List.mem_eraseDups.mp hs)).length_le
      have hfilter := List.length_filterMap_le readPort
        ((portBindings ports).entries.map (pairOf number))
      rw [List.length_map] at hfilter
      omega
    have hnodup := OrderedMap.nodup_of_assignAll_size (ports.filterMap portEntry) (by
      have heq := h.length_eq
      show _ ≤ (portBindings ports).size
      omega)
    rw [hkeys] at hnodup
    have hcomp : ports.map (fun p => containerPort p++"/tcp") =
        (ports.map containerPort).map (fun c => c++"/tcp") := by simp
    rw [hcomp, nodup_append_right] at hnodup
    exact hnodup
  · intro h
    have hkeys := filterMap_portEntry h.1
    have hcomp : ports.map (fun p => containerPort p++"/tcp") =
        (ports.map containerPort).map (fun c => c++"/tcp") := by simp
    have hentries : (portBindings ports).entries = ports.filterMap portEntry := by
      unfold portBindings
      rw [OrderedMap.entries_assignAll]
      · rfl
      · rw [hkeys, hcomp, nodup_append_right]
        exact h.2
      · intro j _ hj
        cases hj
    have hports : ports.Nodup := List.Nodup.of_map containerPort h.2
    unfold readPorts
    rw [hentries, filterMap_readPort hnumber h.1, eraseDups_of_nodup hports]

def envText (e : String × String) : String := e.1++String.singleton '='++e.2

def PlainKey (key : String) : Prop := key ≠ "" ∧ '=' ∉ key.toList

theorem envEntry_envText {e : String × String} (h : PlainKey e.1) :
    envEntry (envText e) = some e := by
  unfold envEntry envText
  rw [split_append h.2]
  simp [h.1, join_split]

theorem plainKey_of_envEntry {s : String} {e : String × String} (h : envEntry s = some e) :
    PlainKey e.1 := by
  unfold envEntry at h
  cases hs : split s '=' with
  | nil => simp [hs] at h
  | cons key parts =>
    rw [hs] at h
    simp only at h
    split at h
    · cases h
    · rename_i hne
      have he := Option.some.inj h
      rw [← he]
      exact ⟨hne,not_mem_of_mem_split (c := '=') (s := s) (by rw [hs]; simp)⟩

theorem readEnvironment_iff (env : OrderedMap String String) :
    (∀ e ∈ env.entries, (readEnvironment (env.entries.map envText)).get? e.1 = some e.2) ↔
      ∀ key ∈ env.keys, PlainKey key := by
  constructor
  · intro h key hkey
    obtain ⟨e,he,rfl⟩ := List.mem_map.mp hkey
    have hmem : e.1 ∈ (readEnvironment (env.entries.map envText)).keys := by
      by_contra hout
      have hnone : (readEnvironment (env.entries.map envText)).get? e.1 = none := by
        unfold OrderedMap.get?
        rw [List.lookup_eq_none_iff]
        intro p hp
        apply bne_iff_ne.mpr
        intro he'
        apply hout
        rw [he']
        exact List.mem_map_of_mem hp
      rw [h e he] at hnone
      cases hnone
    have hkeys := (OrderedMap.mem_assignAll _ _ _).mp hmem
    rcases hkeys with hk | hk
    · cases hk
    · obtain ⟨e',he',hfst⟩ := List.mem_map.mp hk
      obtain ⟨s,_,hs⟩ := List.mem_filterMap.mp he'
      rw [← hfst]
      exact plainKey_of_envEntry hs
  · intro h e he
    have hall : (env.entries.map envText).filterMap envEntry = env.entries := by
      rw [List.filterMap_map]
      have hcongr : env.entries.filterMap (envEntry ∘ envText) =
          env.entries.filterMap some := by
        apply List.filterMap_congr
        intro p hp
        exact envEntry_envText (h p.1 (List.mem_map_of_mem hp))
      rw [hcongr, List.filterMap_some]
    have hentries : (readEnvironment (env.entries.map envText)).entries = env.entries := by
      unfold readEnvironment
      rw [hall, OrderedMap.entries_assignAll _ _ env.nodup]
      · rfl
      · intro j _ hj
        cases hj
    apply OrderedMap.get?_of_mem
    rw [hentries]
    exact he

/-- A source and a destination and nothing behind them. -/
def PlainVolume (volume : String) : Prop := (split volume ':').length = 2

def mountText (volume : String) : String :=
  (split volume ':').headD ""++String.singleton ':'++((split volume ':').tail).headD ""

theorem readMount_mountOf (volume : String) : readMount (mountOf volume) = some (mountText volume) := by
  unfold mountOf readMount mountText
  by_cases h : startsWith volume "/" = true
  · simp [h]
  · simp [h]

theorem colon_not_mem_part (volume : String) {p : String} (h : p ∈ split volume ':' ∨ p = "") :
    ':' ∉ p.toList := by
  rcases h with h | h
  · exact not_mem_of_mem_split h
  · rw [h]
    simp

theorem headD_mem (parts : List String) : parts.headD "" ∈ parts ∨ parts.headD "" = "" := by
  cases parts with
  | nil => exact Or.inr rfl
  | cons p parts => exact Or.inl (by simp)

theorem plainVolume_mountText (volume : String) : PlainVolume (mountText volume) := by
  have hhead : ':' ∉ ((split volume ':').headD "").toList :=
    colon_not_mem_part volume (headD_mem _)
  have htail : ':' ∉ (((split volume ':').tail).headD "").toList := by
    apply colon_not_mem_part volume
    rcases headD_mem (split volume ':').tail with h | h
    · exact Or.inl (List.mem_of_mem_tail h)
    · exact Or.inr h
  unfold PlainVolume mountText
  rw [split_append hhead, split_of_not_mem htail]
  rfl

theorem mountText_of_plain {volume : String} (h : PlainVolume volume) :
    mountText volume = volume := by
  unfold PlainVolume at h
  obtain ⟨a,b,hs⟩ := List.length_eq_two.mp h
  have hj := join_split volume ':'
  unfold mountText
  rw [hs] at hj ⊢
  rw [← hj]
  apply String.toList_injective
  simp [join, List.intersperse]

theorem readMounts_iff (volumes : List String) :
    ((volumes.map mountOf).filterMap readMount).Perm volumes ↔ ∀ v ∈ volumes, PlainVolume v := by
  have hread : (volumes.map mountOf).filterMap readMount = volumes.map mountText := by
    rw [List.filterMap_map]
    have hfun : readMount ∘ mountOf = some ∘ mountText := by
      funext v
      exact readMount_mountOf v
    rw [hfun, List.filterMap_eq_map]
  rw [hread]
  constructor
  · intro h v hv
    obtain ⟨w,_,rfl⟩ := List.mem_map.mp (h.mem_iff.mpr hv)
    exact plainVolume_mountText w
  · intro h
    have hid : volumes.map mountText = volumes := by
      calc
        volumes.map mountText = volumes.map id :=
          List.map_congr_left (fun v hv => mountText_of_plain (h v hv))
        _ = volumes := List.map_id _
    rw [hid]

theorem dockerNetworkName_eq (appId : ℕ) (n : String) :
    dockerNetworkName appId n = appId.repr++"_"++n := rfl

theorem startsWith_append (pre s : String) : startsWith (pre++s) pre = true := by
  rw [startsWith_iff, String.toList_append]
  exact List.prefix_append _ _

theorem eq_append_of_startsWith {s pre : String} (h : startsWith s pre = true) :
    s = pre++removeFirst s pre := by
  obtain ⟨t,ht⟩ := (startsWith_iff s pre).mp h
  have hs : s = pre++String.ofList t := by
    apply String.toList_injective
    rw [String.toList_append, String.toList_ofList]
    exact ht.symm
  rw [hs, removeFirst_append]

theorem mem_readNetworks (appId : ℕ) (networks : List String) (n : String) :
    n ∈ readNetworks appId networks ↔ dockerNetworkName appId n ∈ networks := by
  unfold readNetworks
  rw [List.mem_map]
  constructor
  · intro h
    obtain ⟨name,hmem,rfl⟩ := h
    have hpre := (List.mem_filter.mp hmem).2
    rw [dockerNetworkName_eq, ← eq_append_of_startsWith hpre]
    exact (List.mem_filter.mp hmem).1
  · intro h
    refine ⟨dockerNetworkName appId n,List.mem_filter.mpr ⟨h,?_⟩,?_⟩
    · exact startsWith_append _ n
    · exact removeFirst_append _ n

theorem readNetworks_own (appId : ℕ) (n : String) :
    readNetworks appId [dockerNetworkName appId n] = [n] := by
  have hpre : startsWith (dockerNetworkName appId n) (appId.repr++"_") = true :=
    startsWith_append _ n
  have hrest : removeFirst (dockerNetworkName appId n) (appId.repr++"_") = n :=
    removeFirst_append _ n
  simp [readNetworks, hpre, hrest]

theorem nodup_readNetworks (appId : ℕ) {networks : List String} (h : networks.Nodup) :
    (readNetworks appId networks).Nodup := by
  unfold readNetworks
  apply List.Nodup.map_on
  · intro x hx y hy hxy
    have hx' := eq_append_of_startsWith (List.mem_filter.mp hx).2
    have hy' := eq_append_of_startsWith (List.mem_filter.mp hy).2
    rw [hx', hy', hxy]
  · exact h.filter _

/-- No network is named twice, and a network mode that names a network of
the app names a listed one. -/
def NetworksSurvive (appId : ℕ) (networkMode : String) (networks : List String) : Prop :=
  networks.Nodup ∧ ∀ n, dockerNetworkName appId n = networkMode → n ∈ networks

theorem dockerNetworkName_inj {appId : ℕ} {m n : String}
    (h : dockerNetworkName appId m = dockerNetworkName appId n) : m = n := by
  have hm := removeFirst_append (appId.repr++"_") m
  have hn := removeFirst_append (appId.repr++"_") n
  unfold dockerNetworkName at h
  rw [← hm, ← hn, h]

theorem readNetworks_iff (appId : ℕ) (networkMode : String) (networks : List String) :
    (readNetworks appId
        ((networkMode::networks.map (dockerNetworkName appId)).eraseDups)).Perm networks ↔
      NetworksSurvive appId networkMode networks := by
  have hnodup := nodup_readNetworks appId
    (nodup_eraseDups (networkMode::networks.map (dockerNetworkName appId)))
  have hmem : ∀ n, n ∈ readNetworks appId
      ((networkMode::networks.map (dockerNetworkName appId)).eraseDups) ↔
        dockerNetworkName appId n = networkMode ∨ n ∈ networks := by
    intro n
    rw [mem_readNetworks, List.mem_eraseDups, List.mem_cons, List.mem_map]
    apply or_congr_right
    constructor
    · intro h
      obtain ⟨m,hm,he⟩ := h
      rw [← dockerNetworkName_inj he]
      exact hm
    · intro h
      exact ⟨n,h,rfl⟩
  constructor
  · intro h
    refine ⟨h.nodup_iff.mp hnodup,?_⟩
    intro n hn
    exact h.mem_iff.mp ((hmem n).mpr (Or.inl hn))
  · intro h
    apply (List.perm_ext_iff_of_nodup hnodup h.1).mpr
    intro n
    rw [hmem]
    constructor
    · intro hn
      rcases hn with hn | hn
      · exact h.2 n hn
      · exact hn
    · intro hn
      exact Or.inr hn

end Iotistica.DockerReadback
