import Iotistica.DockerReadback
import Mathlib.Data.List.TakeWhile

/-!
# Names of volumes and networks

Volumes are created and removed as `<appId>_<name>` but mounted under their
bare name. Networks are created as `<appUuid>_<name>` when the app has a
uuid and connected as `<appId>_<name>`. The last theorem says for which
targets the names agree all the same.
-/

set_option autoImplicit false

namespace Iotistica.DockerNames
open Iotistica Iotistica.JsText Iotistica.JsNumerals Iotistica.ContainerState
  Iotistica.ContainerPlanner Iotistica.DockerContainer Iotistica.DockerReadback

def generateDockerName (owner name : String) : String := owner++"_"++name

def createVolume (appId : ℕ) (volumeName : String) : String :=
  generateDockerName appId.repr volumeName

def removeVolume (appId : ℕ) (volumeName : String) : String :=
  generateDockerName appId.repr volumeName

def appUuidOf (appId : ℕ) (app : Option DeviceApp) : String :=
  orElse (app.bind DeviceApp.appUuid) appId.repr

def createNetwork (target current : DeviceState) (appId : ℕ) (networkName : String) : String :=
  generateDockerName (appUuidOf appId (target.apps.find? appId <|> current.apps.find? appId))
    networkName

structure NetworkName where
  name : String
  appId : Option ℕ
  appUuid : Option String

/-- `_` and the text up to the first blank. -/
def capturedName : List Char → Option String
  | '_'::cs =>
    let name := cs.takeWhile (fun c => !isBlank c)
    if name.isEmpty then none else some (String.ofList name)
  | _ => none

def isUuidChar (c : Char) : Bool := hexDigit c || c == '-'

/-- A name that starts with digits and `_` gives an app id, one that starts
with at least 32 characters of a uuid gives the uuid. -/
def deconstructDockerName (name : String) : Option NetworkName :=
  let digits := name.toList.takeWhile Char.isDigit
  match (if digits.isEmpty then none else capturedName (name.toList.dropWhile Char.isDigit)) with
  | some captured => some ⟨captured,some (Nat.ofDigitChars 10 digits 0),none⟩
  | none =>
    let uuid := name.toList.takeWhile isUuidChar
    match (if uuid.length < 32 then none
      else capturedName (name.toList.dropWhile isUuidChar)) with
    | some captured => some ⟨captured,none,some (String.ofList uuid)⟩
    | none => none

def removeNetwork (current : DeviceState) (appId : ℕ) (networkName : String)
    (dockerNetworks : List String) : List String :=
  dockerNetworks.filter (fun dockerName =>
    match deconstructDockerName dockerName with
    | some d => decide (d.name = networkName) &&
        (decide (d.appId = some appId) ||
          decide (d.appUuid = some (appUuidOf appId (current.apps.find? appId))))
    | none => false)

theorem isUuidChar_of_isDigit {c : Char} (h : c.isDigit = true) : isUuidChar c = true := by
  simp [isUuidChar, hexDigit, h]

theorem takeWhile_repr (p : Char → Bool) (hp : ∀ c, c.isDigit = true → p c = true)
    (hu : p '_' = false) (a : ℕ) (n : String) :
    (generateDockerName a.repr n).toList.takeWhile p = a.repr.toList ∧
      (generateDockerName a.repr n).toList.dropWhile p = '_'::n.toList := by
  have hl : (generateDockerName a.repr n).toList = a.repr.toList++ '_' :: n.toList := by
    simp [generateDockerName]
  have hall : ∀ c ∈ a.repr.toList, p c = true := fun c hc => hp c (isDigit_of_mem_repr hc)
  rw [hl, List.takeWhile_append_of_pos hall, List.dropWhile_append_of_pos hall]
  simp [hu]

theorem deconstruct_id {a : ℕ} {n : String} {d : NetworkName}
    (h : deconstructDockerName (generateDockerName a.repr n) = some d) :
    d.appId = some a ∧ d.appUuid = none := by
  have hdigits := takeWhile_repr Char.isDigit (fun _ hc => hc) (by decide) a n
  have huuid := takeWhile_repr isUuidChar (fun _ hc => isUuidChar_of_isDigit hc) (by decide) a n
  have hval : Nat.ofDigitChars 10 a.repr.toList 0 = a := by
    rw [Nat.toList_repr]
    exact Nat.ofDigitChars_ten_toDigits
  have hne : a.repr.toList.isEmpty = false := by
    rw [Nat.toList_repr]
    simp [Nat.toDigits_ne_nil]
  unfold deconstructDockerName at h
  simp only [hdigits.1, hdigits.2, huuid.1, huuid.2, hval, hne] at h
  cases hc : capturedName ('_'::n.toList) with
  | none => simp [hc] at h
  | some captured =>
    simp only [hc] at h
    have hd := Option.some.inj h
    rw [← hd]
    exact ⟨rfl,rfl⟩

def NamedVolume (volume : String) : Prop := startsWith volume "/" = false

/-- The Docker volume a container mounts for a bind that names a volume. -/
def mountedVolume (volume : String) : String := (mountOf volume).name

/-- The containers of a target use what the steps for their app create, no
other app's containers use it, and no removal for another app takes it. -/
structure NamesAgree (target current : DeviceState) : Prop where
  volume_created : ∀ a app, target.apps.find? a = some app → ∀ svc ∈ app.services,
    ∀ v ∈ (createOptions svc).binds, NamedVolume v →
      mountedVolume v = createVolume a (volumeName v)
  network_created : ∀ a app, target.apps.find? a = some app → ∀ svc ∈ app.services,
    ∀ n ∈ svc.config.networks.getD [],
      dockerNetworkName svc.appId n = createNetwork target current a n
  network_recognised : ∀ a app, target.apps.find? a = some app → ∀ svc ∈ app.services,
    ∀ n ∈ svc.config.networks.getD [], readNetworks a [dockerNetworkName svc.appId n] = [n]
  volumes_apart : ∀ a app b app', target.apps.find? a = some app →
    target.apps.find? b = some app' → a ≠ b →
    ∀ svc ∈ app.services, ∀ svc' ∈ app'.services,
    ∀ v ∈ (createOptions svc).binds, ∀ w ∈ (createOptions svc').binds,
      NamedVolume v → NamedVolume w → volumeName v = volumeName w →
        mountedVolume v ≠ mountedVolume w
  networks_apart : ∀ a app b app', target.apps.find? a = some app →
    target.apps.find? b = some app' → a ≠ b →
    ∀ svc ∈ app.services, ∀ svc' ∈ app'.services,
    ∀ n ∈ svc.config.networks.getD [], n ∈ svc'.config.networks.getD [] →
      dockerNetworkName svc.appId n ≠ dockerNetworkName svc'.appId n ∧
        createNetwork target current a n ≠ createNetwork target current b n
  volume_kept : ∀ a b app, target.apps.find? b = some app → a ≠ b → ∀ svc ∈ app.services,
    ∀ w ∈ (createOptions svc).binds, NamedVolume w → ∀ v, removeVolume a v ≠ mountedVolume w
  network_kept : ∀ a b app, target.apps.find? b = some app → a ≠ b → ∀ svc ∈ app.services,
    ∀ m ∈ svc.config.networks.getD [], ∀ n dockerNetworks,
      createNetwork target current b m ∉ removeNetwork current a n dockerNetworks

/-- No volume is named, and networks are used only by apps whose uuid is
unset or the text of their id. -/
def NamedById (app : DeviceApp) (svc : ContainerService) : Prop :=
  (∀ v ∈ svc.config.volumes.getD [], ¬NamedVolume v) ∧
    (svc.config.networks.getD [] = [] ∨ app.appUuid = none ∨ app.appUuid = some "" ∨
      app.appUuid = some app.appId.repr)

theorem mountedVolume_named {v : String} (h : NamedVolume v) : mountedVolume v = volumeName v := by
  have hs : startsWith v "/" = false := h
  unfold mountedVolume mountOf volumeName
  simp [hs, List.headD_eq_head?_getD]

theorem createVolume_ne (a : ℕ) (v : String) : createVolume a v ≠ v := by
  intro h
  have hlen := congrArg (fun s => s.toList.length) h
  simp only [createVolume, generateDockerName, String.toList_append, List.length_append] at hlen
  have hone : "_".toList.length = 1 := by decide
  omega

theorem generateDockerName_left {x y n : String}
    (h : generateDockerName x n = generateDockerName y n) : x = y := by
  unfold generateDockerName at h
  have h' := (String.append_left_inj n).mp h
  exact (String.append_left_inj "_").mp h'

theorem dockerNetworkName_eq_generate (a : ℕ) (n : String) :
    dockerNetworkName a n = generateDockerName a.repr n := rfl

theorem appUuidOf_eq_iff {a : ℕ} {app : DeviceApp} (hid : app.appId = a) :
    appUuidOf a (some app) = a.repr ↔
      app.appUuid = none ∨ app.appUuid = some "" ∨ app.appUuid = some app.appId.repr := by
  unfold appUuidOf
  rw [hid, Option.bind_some]
  cases app.appUuid with
  | none => simp [orElse]
  | some u =>
    by_cases hu : u = ""
    · simp [orElse, hu]
    · simp [orElse, hu]

theorem createNetwork_eq {target current : DeviceState} {a : ℕ} {app : DeviceApp}
    (h : target.apps.find? a = some app) (n : String) :
    createNetwork target current a n = generateDockerName (appUuidOf a (some app)) n := by
  unfold createNetwork
  rw [h]
  rfl

/-- An app whose uuid is unset or the text of its id creates what its
containers connect to. -/
theorem createNetwork_byId {target current : DeviceState} {a : ℕ} {app : DeviceApp}
    (h : target.apps.find? a = some app) {svc : ContainerService} (hid : NamedById app svc)
    {n : String} (hn : n ∈ svc.config.networks.getD []) :
    createNetwork target current a n = generateDockerName a.repr n := by
  rw [createNetwork_eq h]
  rcases hid.2 with hnil | huuid
  · rw [hnil] at hn
    cases hn
  · rw [(appUuidOf_eq_iff (mem_find? h)).mpr huuid]

theorem removeNetwork_other {current : DeviceState} {a b : ℕ} (hab : a ≠ b) (n m : String)
    (dockerNetworks : List String) :
    generateDockerName b.repr m ∉ removeNetwork current a n dockerNetworks := by
  intro h
  have hp := (List.mem_filter.mp h).2
  cases hd : deconstructDockerName (generateDockerName b.repr m) with
  | none => simp [hd] at hp
  | some d =>
    have hids := deconstruct_id hd
    simp only [hd, hids.1, hids.2, Bool.and_eq_true, Bool.or_eq_true, decide_eq_true_eq,
      Option.some.injEq, reduceCtorEq, or_false] at hp
    exact hab hp.2.symm

theorem names_agree_iff (target current : DeviceState)
    (hown : ∀ a app, target.apps.find? a = some app → ∀ svc ∈ app.services, svc.appId = a) :
    NamesAgree target current ↔
      ∀ a app, target.apps.find? a = some app → ∀ svc ∈ app.services, NamedById app svc := by
  constructor
  · intro h a app happ svc hsvc
    constructor
    · intro v hv hnamed
      have he := h.volume_created a app happ svc hsvc v hv hnamed
      rw [mountedVolume_named hnamed] at he
      exact createVolume_ne a (volumeName v) he.symm
    · cases hnets : svc.config.networks.getD [] with
      | nil => exact Or.inl rfl
      | cons n ns =>
        have he := h.network_created a app happ svc hsvc n (by rw [hnets]; simp)
        rw [hown a app happ svc hsvc, createNetwork_eq happ, dockerNetworkName_eq_generate] at he
        exact Or.inr ((appUuidOf_eq_iff (mem_find? happ)).mp (generateDockerName_left he).symm)
  · intro h
    constructor
    · intro a app happ svc hsvc v hv hnamed
      exact absurd hnamed ((h a app happ svc hsvc).1 v hv)
    · intro a app happ svc hsvc n hn
      rw [hown a app happ svc hsvc, createNetwork_byId happ (h a app happ svc hsvc) hn]
      rfl
    · intro a app happ svc hsvc n hn
      rw [hown a app happ svc hsvc]
      exact readNetworks_own a n
    · intro a app b app' happ happ' hab svc hsvc svc' hsvc' v hv w hw hnamed
      exact absurd hnamed ((h a app happ svc hsvc).1 v hv)
    · intro a app b app' happ happ' hab svc hsvc svc' hsvc' n hn hm
      rw [hown a app happ svc hsvc, hown b app' happ' svc' hsvc',
        createNetwork_byId happ (h a app happ svc hsvc) hn,
        createNetwork_byId happ' (h b app' happ' svc' hsvc') hm]
      have hne : generateDockerName a.repr n ≠ generateDockerName b.repr n := by
        intro he
        exact hab (repr_injective (generateDockerName_left he))
      exact ⟨hne,hne⟩
    · intro a b app happ hab svc hsvc w hw hnamed
      exact absurd hnamed ((h b app happ svc hsvc).1 w hw)
    · intro a b app happ hab svc hsvc m hm n dockerNetworks
      rw [createNetwork_byId happ (h b app happ svc hsvc) hm]
      exact removeNetwork_other hab n m dockerNetworks

/-- Two apps with a volume of the same name; the first has a uuid and a
network. -/
def twoShops (firstUuid : Option String) (volumes networks : Option (List String)) :
    DeviceState where
  apps := ⟨[⟨1,"north",firstUuid,
      [{ serviceId := 1, serviceName := "db", imageName := "db:1", appId := 1, appName := "north",
         config := { volumes := volumes, networks := networks } }]⟩,
    ⟨2,"south",none,
      [{ serviceId := 1, serviceName := "db", imageName := "db:1", appId := 2, appName := "south",
         config := { volumes := volumes, networks := networks } }]⟩],by simp⟩

theorem twoShops_cases {firstUuid : Option String} {volumes networks : Option (List String)}
    {a : ℕ} {app : DeviceApp} (h : (twoShops firstUuid volumes networks).apps.find? a = some app) :
    ∀ svc ∈ app.services, svc.appId = a ∧ svc.config = { volumes := volumes, networks := networks } ∧
      (app.appUuid = firstUuid ∨ app.appUuid = none) := by
  have hid := mem_find? h
  have hmem := List.mem_of_find?_eq_some h
  simp only [twoShops, List.mem_cons, List.not_mem_nil, or_false] at hmem
  intro svc hsvc
  rcases hmem with rfl | rfl
  · simp only [List.mem_singleton] at hsvc
    subst hsvc
    exact ⟨hid,rfl,Or.inl rfl⟩
  · simp only [List.mem_singleton] at hsvc
    subst hsvc
    exact ⟨hid,rfl,Or.inr rfl⟩

theorem names_agree_without_uuid :
    NamesAgree (twoShops none (some ["/srv/db:/data"]) (some ["back"])) ⟨KeyedRecords.empty⟩ := by
  apply (names_agree_iff _ _ (fun a app happ svc hsvc => (twoShops_cases happ svc hsvc).1)).mpr
  intro a app happ svc hsvc
  have hcases := twoShops_cases happ svc hsvc
  constructor
  · rw [hcases.2.1]
    unfold NamedVolume
    decide
  · rcases hcases.2.2 with h | h
    · exact Or.inr (Or.inl h)
    · exact Or.inr (Or.inl h)

/-- Both apps mount the Docker volume `data`, none of the two created ones,
and the first connects to a network that is not created. -/
theorem shared_volume_and_missing_network :
    (∀ a app, (twoShops (some "3f2a") (some ["data:/data"]) (some ["back"])).apps.find? a =
        some app → ∀ svc ∈ app.services, svc.appId = a) ∧
      ¬NamesAgree (twoShops (some "3f2a") (some ["data:/data"]) (some ["back"]))
        ⟨KeyedRecords.empty⟩ ∧
      mountedVolume "data:/data" = "data" ∧ createVolume 1 "data" = "1_data" ∧
      createVolume 2 "data" = "2_data" ∧ dockerNetworkName 1 "back" = "1_back" ∧
      createNetwork (twoShops (some "3f2a") (some ["data:/data"]) (some ["back"]))
        ⟨KeyedRecords.empty⟩ 1 "back" = "3f2a_back" := by
  refine ⟨fun a app happ svc hsvc => (twoShops_cases happ svc hsvc).1,?_,by decide,by decide,
    by decide,by decide,by decide⟩
  intro h
  have he := h.volume_created 1 _ rfl _ (List.mem_singleton.mpr rfl) "data:/data"
    (List.mem_singleton.mpr rfl) (by unfold NamedVolume; decide)
  exact absurd he (by decide)

end Iotistica.DockerNames
