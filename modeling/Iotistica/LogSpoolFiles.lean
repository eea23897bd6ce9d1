import Iotistica.GuardedRun
import Iotistica.TextLines

/-!
# Files of the log spool

One active file takes all appends. A file that has grown too large is renamed
to a segment whose name ends in the time, and the total size is capped by
deleting the oldest segments and then the leading lines of the active file.
A flush completes before the next one starts, so a batch that is written
while a flush runs is written after it here. File operations succeed.

The last two fields of the state are kept for the statements only.
-/

set_option autoImplicit false

namespace Iotistica.LogSpoolFiles
open Iotistica Iotistica.JsText Iotistica.TextLines
open Iotistica.JsonText (Members print)

abbrev Text := List Char

/-- Sizes are whole bytes; a limit that is not acts as the next smaller one.
`readdir` lists the names in an order of its own. -/
structure Config where
  maxSpoolSize : ℕ
  maxTotalSpoolSize : ℕ
  readdir : List String → List String
  readdir_perm : ∀ names, (readdir names).Perm names

structure Spool where
  spoolWriteChunks : List Text
  spoolWriteBufferBytes : ℕ
  spoolActiveBytes : ℕ
  spoolActiveSizeKnown : Bool
  files : OrderedMap String Text
  written : List Text
  rotations : List (ℕ × Text)

def SPOOL_WRITE_FLUSH_BYTES : ℕ := 64*1024

def baseName : String := "buffer.ndjson"

def rotatedName (now : ℕ) : String := baseName++"."++now.repr

def created : Spool := ⟨[],0,0,false,OrderedMap.empty,[],[]⟩

/-- `Number` of the digits a rotation puts at the end of a name, or zero. -/
def suffixNumber (name : String) : ℕ :=
  let suffix := name.toList.drop (baseName.toList.length+1)
  if suffix.all Char.isDigit then Nat.ofDigitChars 10 suffix 0 else 0

def getSpoolFiles (cfg : Config) (files : OrderedMap String Text) : List String :=
  let names := (cfg.readdir files.keys).filter
    (fun n => n = baseName || startsWith n (baseName++"."))
  let rotated := (names.filter (fun n => n ≠ baseName)).insertionSort
    (fun a b => suffixNumber a ≤ suffixNumber b)
  rotated++(if baseName ∈ names then [baseName] else [])

def spoolLines (cfg : Config) (files : OrderedMap String Text) : List Text :=
  (getSpoolFiles cfg files).flatMap (fun file => textLines ((files.get? file).getD []))

structure FileInfo where
  file : String
  size : ℕ
  isActive : Bool

def fileInfos (cfg : Config) (files : OrderedMap String Text) : List FileInfo :=
  (getSpoolFiles cfg files).filterMap (fun file =>
    (files.get? file).map (fun text => ⟨file,byteLength text,file == baseName⟩))

def totalSize (cfg : Config) (files : OrderedMap String Text) : ℕ :=
  ((fileInfos cfg files).map FileInfo.size).sum

def dropSegments : List FileInfo → OrderedMap String Text → ℤ → OrderedMap String Text × ℤ
  | [], files, bytesToDrop => (files,bytesToDrop)
  | info::infos, files, bytesToDrop =>
    if bytesToDrop ≤ 0 then (files,bytesToDrop)
    else if info.isActive then dropSegments infos files bytesToDrop
    else dropSegments infos (files.delete info.file) (bytesToDrop-info.size)

def remainingLines (bytesToDrop : ℤ) : ℤ → List Text → List Text
  | _, [] => []
  | removedBytes, line::lines =>
    if removedBytes < bytesToDrop then
      remainingLines bytesToDrop (removedBytes+byteLength (line++['\n'])) lines
    else line::lines

def trimActive (s : Spool) (bytesToDrop : ℤ) : Spool :=
  match s.files.get? baseName with
  | none => s
  | some activeContent =>
    let lines := textLines activeContent
    if lines.isEmpty then s
    else
      let remaining := remainingLines bytesToDrop 0 lines
      let out := if remaining.isEmpty then [] else joinLines remaining++['\n']
      { s with
        files := s.files.set baseName out
        spoolActiveBytes := byteLength out
        spoolActiveSizeKnown := true }

def enforceCapCap (cfg : Config) (s : Spool) : Spool :=
  let totalBytes := totalSize cfg s.files
  if totalBytes ≤ cfg.maxTotalSpoolSize then s
  else
    let dropped := dropSegments (fileInfos cfg s.files) s.files (totalBytes-cfg.maxTotalSpoolSize)
    let s := { s with files := dropped.1 }
    if dropped.2 > 0 then trimActive s dropped.2 else s

def rotate (s : Spool) (now : ℕ) : Spool :=
  match s.files.get? baseName with
  | none => s
  | some content =>
    { s with
      files := (s.files.delete baseName).set (rotatedName now) content
      spoolActiveBytes := 0
      spoolActiveSizeKnown := true
      rotations := s.rotations++[(now,content)] }

def appendChunks (s : Spool) : Spool :=
  let activeContent := (s.files.get? baseName).getD []
  let activeBytes := if s.spoolActiveSizeKnown then s.spoolActiveBytes else byteLength activeContent
  { s with
    spoolWriteChunks := []
    spoolWriteBufferBytes := 0
    spoolActiveBytes := activeBytes+s.spoolWriteBufferBytes
    spoolActiveSizeKnown := true
    files := s.files.set baseName (activeContent++s.spoolWriteChunks.flatten) }

def flushWriteBuffer (cfg : Config) (s : Spool) (now : ℕ) : Spool :=
  if s.spoolWriteBufferBytes = 0 then s
  else
    let s := appendChunks s
    enforceCapCap cfg (if s.spoolActiveBytes > cfg.maxSpoolSize then rotate s now else s)

def batchLines (batches : List Members) : Text :=
  joinLines (batches.map (fun b => print (.obj b)))++['\n']

def write (cfg : Config) (s : Spool) (batches : List Members) (now : ℕ) : Spool :=
  let s := { s with
    spoolWriteChunks := s.spoolWriteChunks++[batchLines batches]
    spoolWriteBufferBytes := s.spoolWriteBufferBytes+byteLength (batchLines batches)
    written := s.written++batches.map (fun b => print (.obj b)) }
  if s.spoolWriteBufferBytes ≥ SPOOL_WRITE_FLUSH_BYTES then flushWriteBuffer cfg s now else s

def reopen (cfg : Config) (s : Spool) (now : ℕ) : Spool :=
  let s := flushWriteBuffer cfg s now
  enforceCapCap cfg { s with spoolActiveBytes := 0, spoolActiveSizeKnown := false }

inductive Event where
  | start
  | write (batches : List Members) (now : ℕ)
  | flush (now : ℕ)
  | reopen (now : ℕ)

def step (cfg : Config) (s : Spool) : Event → Spool
  | .start => enforceCapCap cfg s
  | .write batches now => write cfg s batches now
  | .flush now => flushWriteBuffer cfg s now
  | .reopen now => reopen cfg s now

structure Layout (files : OrderedMap String Text) (segments : List (ℕ × Text))
    (active : Option Text) : Prop where
  holds : ∀ name text, files.get? name = some text ↔
    (∃ time, (time,text) ∈ segments ∧ name = rotatedName time) ∨
      (name = baseName ∧ active = some text)
  ascending : (segments.map Prod.fst).Pairwise (· < ·)

def segmentInfos (segments : List (ℕ × Text)) : List FileInfo :=
  segments.map (fun segment => ⟨rotatedName segment.1,byteLength segment.2,false⟩)

def activeInfos (active : Option Text) : List FileInfo :=
  active.toList.map (fun text => ⟨baseName,byteLength text,true⟩)

theorem toList_rotatedName (now : ℕ) :
    (rotatedName now).toList = baseName.toList++ '.' :: now.repr.toList := by
  simp [rotatedName]

theorem suffixNumber_rotatedName (now : ℕ) : suffixNumber (rotatedName now) = now := by
  have hsuffix : (rotatedName now).toList.drop (baseName.toList.length+1) = now.repr.toList := by
    rw [toList_rotatedName, List.drop_append]
    simp
  have hall : now.repr.toList.all Char.isDigit = true :=
    List.all_eq_true.mpr (fun c hc => JsNumerals.isDigit_of_mem_repr hc)
  unfold suffixNumber
  simp only [hsuffix, hall, if_true]
  rw [Nat.toList_repr]
  exact Nat.ofDigitChars_ten_toDigits

theorem rotatedName_injective {a b : ℕ} (h : rotatedName a = rotatedName b) : a = b := by
  rw [← suffixNumber_rotatedName a, h, suffixNumber_rotatedName]

theorem rotatedName_ne_baseName (now : ℕ) : rotatedName now ≠ baseName := by
  intro h
  have hlen := congrArg (fun name => name.toList.length) h
  simp [toList_rotatedName] at hlen

theorem startsWith_rotatedName (now : ℕ) : startsWith (rotatedName now) (baseName++".") = true := by
  rw [startsWith_iff]
  exact ⟨now.repr.toList,by simp [toList_rotatedName]⟩

theorem Layout.mem_keys {files : OrderedMap String Text} {segments : List (ℕ × Text)}
    {active : Option Text} (h : Layout files segments active) (name : String) :
    name ∈ files.keys ↔
      name ∈ segments.map (fun p => rotatedName p.1) ∨ (name = baseName ∧ active.isSome) := by
  constructor
  · intro hk
    obtain ⟨⟨k,text⟩,hp,rfl⟩ := List.mem_map.mp hk
    rcases (h.holds k text).mp (OrderedMap.get?_of_mem hp) with ⟨time,hmem,rfl⟩ | ⟨rfl,rfl⟩
    · exact Or.inl (List.mem_map.mpr ⟨_,hmem,rfl⟩)
    · exact Or.inr ⟨rfl,rfl⟩
  · rintro (hn | ⟨rfl,hs⟩)
    · obtain ⟨⟨time,text⟩,hmem,rfl⟩ := List.mem_map.mp hn
      have hget := (h.holds (rotatedName time) text).mpr (Or.inl ⟨time,hmem,rfl⟩)
      exact List.mem_map_of_mem (f := Prod.fst) ((OrderedMap.get?_eq_some_iff _ _ _).mp hget)
    · obtain ⟨text,rfl⟩ := Option.isSome_iff_exists.mp hs
      have hget := (h.holds baseName text).mpr (Or.inr ⟨rfl,rfl⟩)
      exact List.mem_map_of_mem (f := Prod.fst) ((OrderedMap.get?_eq_some_iff _ _ _).mp hget)

theorem Layout.nodup_names {files : OrderedMap String Text} {segments : List (ℕ × Text)}
    {active : Option Text} (h : Layout files segments active) :
    (segments.map (fun p => rotatedName p.1)).Nodup := by
  have hmap : segments.map (fun p => rotatedName p.1) = (segments.map Prod.fst).map rotatedName := by
    simp
  rw [hmap]
  exact (h.ascending.imp (fun hlt => hlt.ne)).map rotatedName
    (fun _ _ hne heq => hne (rotatedName_injective heq))

/-- Replay order: segments by their times, then the active file, in whatever
order the directory is listed. -/
theorem Layout.getSpoolFiles {files : OrderedMap String Text} {segments : List (ℕ × Text)}
    {active : Option Text} (h : Layout files segments active) (cfg : Config) :
    getSpoolFiles cfg files = segments.map (fun p => rotatedName p.1)
      ++(if active.isSome then [baseName] else []) := by
  have hnames : (cfg.readdir files.keys).filter
      (fun n => n = baseName || startsWith n (baseName++".")) = cfg.readdir files.keys := by
    apply List.filter_eq_self.mpr
    intro name hname
    rcases (h.mem_keys name).mp ((cfg.readdir_perm _).mem_iff.mp hname) with hn | ⟨rfl,-⟩
    · obtain ⟨p,-,rfl⟩ := List.mem_map.mp hn
      simp [startsWith_rotatedName]
    · simp
  have hperm : ((cfg.readdir files.keys).filter (fun n => n ≠ baseName)).Perm
      (segments.map (fun p => rotatedName p.1)) := by
    refine (List.perm_ext_iff_of_nodup ?_ h.nodup_names).mpr ?_
    · exact ((cfg.readdir_perm _).nodup_iff.mpr files.nodup).filter _
    · intro name
      rw [List.mem_filter, (cfg.readdir_perm _).mem_iff, h.mem_keys]
      constructor
      · rintro ⟨hn | ⟨rfl,-⟩,hne⟩
        · exact hn
        · simp at hne
      · intro hn
        obtain ⟨p,-,rfl⟩ := List.mem_map.mp hn
        exact ⟨Or.inl hn,by simp [rotatedName_ne_baseName]⟩
  have hsorted : ((cfg.readdir files.keys).filter (fun n => n ≠ baseName)).insertionSort
      (fun a b => suffixNumber a ≤ suffixNumber b) = segments.map (fun p => rotatedName p.1) := by
    have : Std.Total (fun a b : String => suffixNumber a ≤ suffixNumber b) :=
      ⟨fun a b => le_total _ _⟩
    have : IsTrans String (fun a b => suffixNumber a ≤ suffixNumber b) :=
      ⟨fun _ _ _ => le_trans⟩
    have hsort := List.pairwise_insertionSort (fun a b => suffixNumber a ≤ suffixNumber b)
      ((cfg.readdir files.keys).filter (fun n => n ≠ baseName))
    refine List.Perm.eq_of_pairwise ?_ hsort ?_ ?_
    · intro a b ha hb hab hba
      obtain ⟨p,-,rfl⟩ := List.mem_map.mp (hperm.mem_iff.mp ((List.mem_insertionSort _).mp ha))
      obtain ⟨q,-,rfl⟩ := List.mem_map.mp hb
      rw [suffixNumber_rotatedName, suffixNumber_rotatedName] at hab hba
      rw [le_antisymm hab hba]
    · have hasc := List.pairwise_map.mp h.ascending
      rw [List.pairwise_map]
      refine hasc.imp (fun hlt => ?_)
      rw [suffixNumber_rotatedName, suffixNumber_rotatedName]
      exact hlt.le
    · exact (List.perm_insertionSort _ _).trans hperm
  have hactive : baseName ∈ cfg.readdir files.keys ↔ active.isSome := by
    rw [(cfg.readdir_perm _).mem_iff, h.mem_keys]
    constructor
    · rintro (hn | ⟨-,hs⟩)
      · obtain ⟨p,-,hp⟩ := List.mem_map.mp hn
        exact absurd hp (rotatedName_ne_baseName _)
      · exact hs
    · exact fun hs => Or.inr ⟨rfl,hs⟩
  unfold LogSpoolFiles.getSpoolFiles
  simp only [hnames, hsorted, hactive]

theorem Layout.get_segment {files : OrderedMap String Text} {segments : List (ℕ × Text)}
    {active : Option Text} (h : Layout files segments active) {segment : ℕ × Text}
    (hs : segment ∈ segments) : files.get? (rotatedName segment.1) = some segment.2 :=
  (h.holds _ _).mpr (Or.inl ⟨segment.1,hs,rfl⟩)

theorem Layout.get_active {files : OrderedMap String Text} {segments : List (ℕ × Text)}
    {active : Option Text} (h : Layout files segments active) : files.get? baseName = active := by
  apply Option.ext
  intro text
  rw [h.holds]
  constructor
  · rintro (⟨time,-,hname⟩ | ⟨-,ha⟩)
    · exact absurd hname.symm (rotatedName_ne_baseName _)
    · exact ha
  · exact fun ha => Or.inr ⟨rfl,ha⟩

theorem Layout.spoolLines {files : OrderedMap String Text} {segments : List (ℕ × Text)}
    {active : Option Text} (h : Layout files segments active) (cfg : Config) :
    spoolLines cfg files
      = segments.flatMap (fun p => textLines p.2)++active.toList.flatMap textLines := by
  unfold LogSpoolFiles.spoolLines
  rw [h.getSpoolFiles, List.flatMap_append, List.flatMap_map]
  congr 1
  · apply List.flatMap_congr
    intro p hp
    rw [h.get_segment hp]
    rfl
  · cases active with
    | none => rfl
    | some text => simp [h.get_active]

theorem Layout.fileInfos {files : OrderedMap String Text} {segments : List (ℕ × Text)}
    {active : Option Text} (h : Layout files segments active) (cfg : Config) :
    fileInfos cfg files = segmentInfos segments++activeInfos active := by
  unfold LogSpoolFiles.fileInfos
  rw [h.getSpoolFiles, List.filterMap_append, List.filterMap_map]
  congr 1
  · unfold segmentInfos
    rw [← List.filterMap_eq_map]
    apply List.filterMap_congr
    intro p hp
    simp [h.get_segment hp, rotatedName_ne_baseName]
  · cases active with
    | none => rfl
    | some text => simp [h.get_active, activeInfos]

def segmentBytes (segments : List (ℕ × Text)) : ℕ := (segments.map (fun p => byteLength p.2)).sum

def activeBytes (active : Option Text) : ℕ := (active.map byteLength).getD 0

theorem Layout.totalSize {files : OrderedMap String Text} {segments : List (ℕ × Text)}
    {active : Option Text} (h : Layout files segments active) (cfg : Config) :
    totalSize cfg files = segmentBytes segments+activeBytes active := by
  unfold LogSpoolFiles.totalSize
  rw [h.fileInfos]
  cases active <;> simp [segmentInfos, activeInfos, segmentBytes, activeBytes, Function.comp_def]

theorem layout_empty : Layout OrderedMap.empty [] none :=
  ⟨by simp [OrderedMap.get?, OrderedMap.empty],List.Pairwise.nil⟩

theorem Layout.setActive {files : OrderedMap String Text} {segments : List (ℕ × Text)}
    {active : Option Text} (h : Layout files segments active) (content : Text) :
    Layout (files.set baseName content) segments (some content) := by
  refine ⟨?_,h.ascending⟩
  intro name text
  rw [OrderedMap.get?_set]
  split
  · rename_i hname
    subst hname
    constructor
    · exact fun he => Or.inr ⟨rfl,he⟩
    · rintro (⟨time,-,hname⟩ | ⟨-,he⟩)
      · exact absurd hname.symm (rotatedName_ne_baseName _)
      · exact he
  · rename_i hname
    rw [h.holds]
    constructor <;> rintro (hseg | ⟨hbase,-⟩)
    · exact Or.inl hseg
    · exact absurd hbase hname
    · exact Or.inl hseg
    · exact absurd hbase hname

theorem Layout.rotateActive {files : OrderedMap String Text} {segments : List (ℕ × Text)}
    {content : Text} (h : Layout files segments (some content)) {now : ℕ}
    (hnow : ∀ p ∈ segments, p.1 < now) :
    Layout ((files.delete baseName).set (rotatedName now) content)
      (segments++[(now,content)]) none := by
  constructor
  · intro name text
    rw [OrderedMap.get?_set, OrderedMap.get?_delete]
    split
    · rename_i hname
      subst hname
      constructor
      · intro he
        exact Or.inl ⟨now,by simp [Option.some.inj he],rfl⟩
      · rintro (⟨time,hmem,hname⟩ | ⟨-,hnone⟩)
        · obtain rfl := rotatedName_injective hname
          rcases List.mem_append.mp hmem with hold | hnew
          · exact absurd (hnow _ hold) (lt_irrefl _)
          · simp only [List.mem_singleton, Prod.mk.injEq] at hnew
            rw [hnew.2]
        · cases hnone
    · rename_i hname
      split
      · rename_i hbase
        subst hbase
        constructor
        · intro hnone
          cases hnone
        · rintro (⟨time,-,hrot⟩ | ⟨-,hnone⟩)
          · exact absurd hrot.symm (rotatedName_ne_baseName _)
          · cases hnone
      · rename_i hbase
        rw [h.holds]
        constructor
        · rintro (⟨time,hmem,hrot⟩ | ⟨heq,-⟩)
          · exact Or.inl ⟨time,List.mem_append_left _ hmem,hrot⟩
          · exact absurd heq hbase
        · rintro (⟨time,hmem,hrot⟩ | ⟨-,hnone⟩)
          · rcases List.mem_append.mp hmem with hold | hnew
            · exact Or.inl ⟨time,hold,hrot⟩
            · simp only [List.mem_singleton, Prod.mk.injEq] at hnew
              rw [hrot, hnew.1] at hname
              exact absurd rfl hname
          · cases hnone
  · rw [List.map_append, List.pairwise_append]
    refine ⟨h.ascending,List.pairwise_singleton _ _,?_⟩
    intro a ha b hb
    obtain ⟨p,hp,rfl⟩ := List.mem_map.mp ha
    obtain rfl : b = now := by simpa using hb
    exact hnow p hp

theorem Layout.deleteFirst {files : OrderedMap String Text} {segment : ℕ × Text}
    {segments : List (ℕ × Text)} {active : Option Text}
    (h : Layout files (segment::segments) active) :
    Layout (files.delete (rotatedName segment.1)) segments active := by
  have hasc := List.pairwise_cons.mp h.ascending
  refine ⟨?_,hasc.2⟩
  intro name text
  rw [OrderedMap.get?_delete]
  split
  · rename_i hname
    subst hname
    constructor
    · intro hnone
      cases hnone
    · rintro (⟨time,hmem,hrot⟩ | ⟨hbase,-⟩)
      · have hlt := hasc.1 time (List.mem_map.mpr ⟨_,hmem,rfl⟩)
        rw [rotatedName_injective hrot] at hlt
        exact absurd hlt (lt_irrefl _)
      · exact absurd hbase (rotatedName_ne_baseName _)
  · rename_i hname
    rw [h.holds]
    constructor
    · rintro (⟨time,hmem,hrot⟩ | hact)
      · rcases List.mem_cons.mp hmem with heq | hmem
        · rw [← heq] at hname
          exact absurd hrot hname
        · exact Or.inl ⟨time,hmem,hrot⟩
      · exact Or.inr hact
    · rintro (⟨time,hmem,hrot⟩ | hact)
      · exact Or.inl ⟨time,List.mem_cons_of_mem _ hmem,hrot⟩
      · exact Or.inr hact

end Iotistica.LogSpoolFiles
