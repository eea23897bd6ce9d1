import Iotistica.LogSpoolFiles

/-!
# The spool keeps a suffix in order

A rotation moves the active file behind the segments and the size cap takes
away from the front, so the files in replay order and the lines that wait
for the next flush are always the end of what was written.
-/

set_option autoImplicit false

namespace Iotistica.LogSpoolFiles
open Iotistica Iotistica.JsText Iotistica.TextLines Iotistica.GuardedRun
open Iotistica.JsonText (Members print)

def pendingLines (s : Spool) : List Text := s.spoolWriteChunks.flatMap textLines

def layoutLines (segments : List (ℕ × Text)) (active : Option Text) : List Text :=
  segments.flatMap (fun p => textLines p.2)++active.toList.flatMap textLines

def rotationTimes (s : Spool) : List ℕ := s.rotations.map Prod.fst

theorem dropSegments_active (active : Option Text) (files : OrderedMap String Text)
    (bytesToDrop : ℤ) : dropSegments (activeInfos active) files bytesToDrop = (files,bytesToDrop) := by
  cases active <;> simp [activeInfos, dropSegments]

theorem Layout.dropSegments {files : OrderedMap String Text} {segments : List (ℕ × Text)}
    {active : Option Text} (h : Layout files segments active) (bytesToDrop : ℤ) :
    ∃ gone kept, segments = gone++kept ∧
      Layout (dropSegments (segmentInfos segments++activeInfos active) files bytesToDrop).1
        kept active ∧
      (LogSpoolFiles.dropSegments (segmentInfos segments++activeInfos active) files
        bytesToDrop).2 = bytesToDrop-segmentBytes gone ∧
      (bytesToDrop-segmentBytes gone ≤ 0 ∨ kept = []) := by
  induction segments generalizing files bytesToDrop with
  | nil =>
    refine ⟨[],[],rfl,?_⟩
    rw [segmentInfos, List.map_nil, List.nil_append, dropSegments_active]
    exact ⟨h,by simp [segmentBytes],Or.inr rfl⟩
  | cons segment segments ih =>
    rw [segmentInfos, List.map_cons, ← segmentInfos, List.cons_append, LogSpoolFiles.dropSegments]
    by_cases hdone : bytesToDrop ≤ 0
    · refine ⟨[],segment::segments,rfl,?_⟩
      rw [if_pos hdone]
      refine ⟨h,by simp [segmentBytes],Or.inl ?_⟩
      simpa [segmentBytes] using hdone
    · rw [if_neg hdone, if_neg Bool.false_ne_true]
      obtain ⟨gone,kept,rfl,hlayout,hbytes,hend⟩ :=
        ih h.deleteFirst (bytesToDrop-byteLength segment.2)
      have hgone : (segmentBytes (segment::gone) : ℤ)
          = byteLength segment.2+segmentBytes gone := by simp [segmentBytes]
      refine ⟨segment::gone,kept,rfl,hlayout,?_,?_⟩
      · rw [hbytes, hgone]
        omega
      · rw [hgone, ← sub_sub]
        exact hend

theorem remainingLines_spec (bytesToDrop : ℤ) (lines : List Text) (removedBytes : ℤ) :
    ∃ removed, lines = removed++remainingLines bytesToDrop removedBytes lines ∧
      (bytesToDrop ≤ removedBytes+byteLength (closeLines removed)
        ∨ remainingLines bytesToDrop removedBytes lines = []) := by
  induction lines generalizing removedBytes with
  | nil => exact ⟨[],rfl,Or.inr rfl⟩
  | cons line lines ih =>
    unfold remainingLines
    by_cases hmore : removedBytes < bytesToDrop
    · rw [if_pos hmore]
      obtain ⟨removed,hlines,hend⟩ := ih (removedBytes+byteLength (line++['\n']))
      refine ⟨line::removed,by rw [List.cons_append, ← hlines],?_⟩
      have hbytes : (byteLength (closeLines (line::removed)) : ℤ)
          = byteLength (line++['\n'])+byteLength (closeLines removed) := by
        unfold closeLines
        rw [List.flatMap_cons, byteLength_append]
        push_cast
        rfl
      rw [hbytes]
      rcases hend with hend | hend
      · exact Or.inl (by omega)
      · exact Or.inr hend
    · rw [if_neg hmore]
      exact ⟨[],rfl,Or.inl (by simp [closeLines]; omega)⟩

theorem output_remaining (remaining : List Text) :
    (if remaining.isEmpty then [] else joinLines remaining++['\n']) = closeLines remaining := by
  cases remaining with
  | nil => rfl
  | cons line lines => exact joinLines_close (by simp)

def Shown (active : Option Text) : Prop := ∀ text ∈ active, textLines text = [] → text = []

theorem Layout.trimActive {s : Spool} {active : Option Text} (h : Layout s.files [] active)
    (hclosed : ∀ text ∈ active, Terminated text) {bytesToDrop : ℤ} (hpos : 0 < bytesToDrop) :
    ∃ removed active', layoutLines [] active = removed++layoutLines [] active' ∧
      (∀ text ∈ active', Terminated text) ∧ (Shown active → Shown active') ∧
      Layout (trimActive s bytesToDrop).files [] active' ∧
      (Shown active → bytesToDrop ≤ activeBytes active →
        (activeBytes active' : ℤ) ≤ activeBytes active-bytesToDrop) := by
  unfold LogSpoolFiles.trimActive
  rw [h.get_active]
  cases active with
  | none =>
    refine ⟨[],none,rfl,hclosed,id,h,?_⟩
    intro _ hle
    simp [activeBytes] at hle
    omega
  | some text =>
    dsimp only
    have hlines : layoutLines [] (some text) = textLines text := by simp [layoutLines]
    by_cases hempty : (textLines text).isEmpty
    · rw [if_pos hempty]
      refine ⟨[],some text,rfl,hclosed,id,h,?_⟩
      intro hshown hle
      have hnil := hshown text rfl (List.isEmpty_iff.mp hempty)
      subst hnil
      simp [activeBytes] at hle
      omega
    · rw [if_neg hempty, output_remaining]
      obtain ⟨removed,hsplit,hend⟩ := remainingLines_spec bytesToDrop (textLines text) 0
      generalize hrem : remainingLines bytesToDrop 0 (textLines text) = remaining at hsplit hend
      have hplain : ∀ l ∈ remaining, PlainLine l := by
        intro l hl
        have hmem : l ∈ textLines text := by
          rw [hsplit]
          exact List.mem_append_right _ hl
        exact plainLine_of_mem hmem
      have hread := textLines_closeLines hplain
      refine ⟨removed,some (closeLines remaining),?_,?_,?_,h.setActive _,?_⟩
      · rw [hlines, hsplit]
        simp [layoutLines, hread]
      · rintro _ ⟨⟩
        exact terminated_closeLines (fun l hl => (hplain l hl).single)
      · rintro - _ ⟨⟩ hnil
        rw [hread] at hnil
        rw [hnil]
        rfl
      · intro _ hle
        have hbytes := byteLength_textLines (hclosed text rfl)
        rw [hsplit] at hbytes
        simp only [closeLines, List.flatMap_append, byteLength_append] at hbytes hend
        simp only [activeBytes, Option.map_some, Option.getD_some] at hle ⊢
        rcases hend with hend | hend
        · unfold closeLines
          omega
        · rw [hend]
          simp [closeLines]
          omega

theorem trimActive_frame (s : Spool) (bytesToDrop : ℤ) :
    (trimActive s bytesToDrop).spoolWriteChunks = s.spoolWriteChunks
      ∧ (trimActive s bytesToDrop).written = s.written
      ∧ (trimActive s bytesToDrop).rotations = s.rotations := by
  unfold trimActive
  split
  · exact ⟨rfl,rfl,rfl⟩
  · dsimp only
    split <;> exact ⟨rfl,rfl,rfl⟩

theorem enforceCapCap_frame (cfg : Config) (s : Spool) :
    (enforceCapCap cfg s).spoolWriteChunks = s.spoolWriteChunks
      ∧ (enforceCapCap cfg s).written = s.written
      ∧ (enforceCapCap cfg s).rotations = s.rotations := by
  unfold enforceCapCap
  dsimp only
  split
  · exact ⟨rfl,rfl,rfl⟩
  · split
    · exact trimActive_frame _ _
    · exact ⟨rfl,rfl,rfl⟩

structure Shape (s : Spool) (segments : List (ℕ × Text)) (active : Option Text) : Prop where
  layout : Layout s.files segments active
  closed : ∀ text ∈ active, Terminated text
  chunks : ∀ chunk ∈ s.spoolWriteChunks, Terminated chunk
  suffix : layoutLines segments active++pendingLines s <:+ s.written
  recorded : ∀ p ∈ segments, p ∈ s.rotations

def Ordered (s : Spool) : Prop := ∃ segments active, Shape s segments active

/-- Every chunk has a line, and so has an active file that is not empty; the
files are within the cap. -/
structure Capped (cfg : Config) (s : Spool) : Prop where
  chunks : ∀ chunk ∈ s.spoolWriteChunks, textLines chunk ≠ []
  active : Shown (s.files.get? baseName)
  total : totalSize cfg s.files ≤ cfg.maxTotalSpoolSize

theorem layoutLines_append (gone kept : List (ℕ × Text)) (active : Option Text) :
    layoutLines (gone++kept) active
      = gone.flatMap (fun p => textLines p.2)++layoutLines kept active := by
  simp [layoutLines]

/-- What the cap leaves is an end of what there was, and it is small enough
unless blank lines alone are too much. -/
theorem Shape.enforceCapCap {s : Spool} {segments : List (ℕ × Text)} {active : Option Text}
    (h : Shape s segments active) (cfg : Config) :
    ∃ kept active', Shape (enforceCapCap cfg s) kept active' ∧
      (Shown active → Shown active' ∧ segmentBytes kept+activeBytes active' ≤ cfg.maxTotalSpoolSize) := by
  obtain ⟨hchunks,hwritten,hrotations⟩ := enforceCapCap_frame cfg s
  have hpending : pendingLines (LogSpoolFiles.enforceCapCap cfg s) = pendingLines s := by
    rw [pendingLines, hchunks, pendingLines]
  have hshape : ∀ {kept active' gone}, segments = gone++kept →
      (∃ removed, layoutLines kept active = removed++layoutLines kept active') →
      (∀ text ∈ active', Terminated text) →
      Layout (LogSpoolFiles.enforceCapCap cfg s).files kept active' →
      Shape (LogSpoolFiles.enforceCapCap cfg s) kept active' := by
    rintro kept active' gone rfl ⟨removed,hlines⟩ hclosed hlayout
    refine ⟨hlayout,hclosed,by rw [hchunks]; exact h.chunks,?_,?_⟩
    · rw [hpending, hwritten]
      refine List.IsSuffix.trans ?_ h.suffix
      rw [layoutLines_append, hlines]
      exact ⟨gone.flatMap (fun p => textLines p.2)++removed,by simp⟩
    · intro p hp
      rw [hrotations]
      exact h.recorded p (List.mem_append_right _ hp)
  have htotal := h.layout.totalSize cfg
  by_cases hcap : totalSize cfg s.files ≤ cfg.maxTotalSpoolSize
  · have hsame : LogSpoolFiles.enforceCapCap cfg s = s := by
      unfold LogSpoolFiles.enforceCapCap
      exact if_pos hcap
    refine ⟨segments,active,by rw [hsame]; exact h,fun hshown => ⟨hshown,?_⟩⟩
    omega
  · obtain ⟨gone,kept,hsplit,hlayout,hbytes,hend⟩ :=
      h.layout.dropSegments ((totalSize cfg s.files : ℤ)-cfg.maxTotalSpoolSize)
    rw [← h.layout.fileInfos cfg] at hlayout hbytes
    have hparts : segmentBytes segments = segmentBytes gone+segmentBytes kept := by
      rw [hsplit]
      simp [segmentBytes]
    by_cases hmore : (totalSize cfg s.files : ℤ)-cfg.maxTotalSpoolSize-segmentBytes gone > 0
    · obtain rfl : kept = [] := hend.resolve_left (by omega)
      obtain ⟨removed,active',hlines,hclosed,hshown,hlayout',hle⟩ :=
        Layout.trimActive (s := { s with files := _ }) hlayout h.closed hmore
      have hfiles : (LogSpoolFiles.enforceCapCap cfg s).files = (LogSpoolFiles.trimActive
          { s with files := (LogSpoolFiles.dropSegments (LogSpoolFiles.fileInfos cfg s.files)
            s.files ((totalSize cfg s.files : ℤ)-cfg.maxTotalSpoolSize)).1 }
          ((totalSize cfg s.files : ℤ)-cfg.maxTotalSpoolSize-segmentBytes gone)).files := by
        unfold LogSpoolFiles.enforceCapCap
        simp only [if_neg hcap]
        rw [hbytes, if_pos hmore]
      rw [← hfiles] at hlayout'
      refine ⟨[],active',hshape hsplit ⟨removed,hlines⟩ hclosed hlayout',?_⟩
      intro hs
      have hzero : segmentBytes [] = 0 := rfl
      have hsmall := hle hs (by omega)
      exact ⟨hshown hs,by omega⟩
    · have hfiles : (LogSpoolFiles.enforceCapCap cfg s).files
          = (LogSpoolFiles.dropSegments (LogSpoolFiles.fileInfos cfg s.files)
            s.files ((totalSize cfg s.files : ℤ)-cfg.maxTotalSpoolSize)).1 := by
        unfold LogSpoolFiles.enforceCapCap
        simp only [if_neg hcap]
        rw [hbytes, if_neg hmore]
      rw [← hfiles] at hlayout
      refine ⟨kept,active,hshape hsplit ⟨[],rfl⟩ h.closed hlayout,fun hs => ⟨hs,?_⟩⟩
      omega

theorem Ordered.enforceCapCap {s : Spool} (h : Ordered s) (cfg : Config) :
    Ordered (enforceCapCap cfg s) := by
  obtain ⟨segments,active,hs⟩ := h
  obtain ⟨kept,active',hs',-⟩ := hs.enforceCapCap cfg
  exact ⟨kept,active',hs'⟩

theorem Ordered.capped {s : Spool} (h : Ordered s) (cfg : Config)
    (hchunks : ∀ chunk ∈ s.spoolWriteChunks, textLines chunk ≠ [])
    (hshown : Shown (s.files.get? baseName)) : Capped cfg (LogSpoolFiles.enforceCapCap cfg s) := by
  obtain ⟨segments,active,hs⟩ := h
  obtain ⟨kept,active',hs',hcap⟩ := hs.enforceCapCap cfg
  rw [hs.layout.get_active] at hshown
  obtain ⟨hshown',htotal⟩ := hcap hshown
  refine ⟨?_,?_,?_⟩
  · rw [(enforceCapCap_frame cfg s).1]
    exact hchunks
  · rw [hs'.layout.get_active]
    exact hshown'
  · rw [hs'.layout.totalSize]
    exact htotal

theorem Shape.appendChunks {s : Spool} {segments : List (ℕ × Text)} {active : Option Text}
    (h : Shape s segments active) :
    Shape (appendChunks s) segments (some (active.getD []++s.spoolWriteChunks.flatten)) := by
  have hclosed : Terminated (active.getD []) := by
    cases active with
    | none => exact terminated_nil
    | some text => exact h.closed text rfl
  have hfiles : (LogSpoolFiles.appendChunks s).files
      = s.files.set baseName (active.getD []++s.spoolWriteChunks.flatten) := by
    unfold LogSpoolFiles.appendChunks
    rw [h.layout.get_active]
  have hactive : textLines (active.getD []) = active.toList.flatMap textLines := by
    cases active <;> simp [textLines_nil]
  have hlines : layoutLines segments (some (active.getD []++s.spoolWriteChunks.flatten))
      = layoutLines segments active++pendingLines s := by
    simp only [layoutLines, Option.toList_some, List.flatMap_singleton]
    rw [textLines_append hclosed, textLines_flatten h.chunks, hactive, ← pendingLines,
      List.append_assoc]
  refine ⟨by rw [hfiles]; exact h.layout.setActive _,?_,by simp [LogSpoolFiles.appendChunks],?_,
    h.recorded⟩
  · rintro _ ⟨⟩
    exact hclosed.append (terminated_flatten h.chunks)
  · rw [hlines]
    simpa [pendingLines, LogSpoolFiles.appendChunks] using h.suffix

theorem shown_appendChunks {s : Spool} (h : Ordered s)
    (hchunks : ∀ chunk ∈ s.spoolWriteChunks, textLines chunk ≠ [])
    (hshown : Shown (s.files.get? baseName)) :
    Shown ((appendChunks s).files.get? baseName) := by
  obtain ⟨segments,active,hs⟩ := h
  rw [hs.layout.get_active] at hshown
  rw [hs.appendChunks.layout.get_active]
  rintro _ ⟨⟩ hnil
  have hclosed : Terminated (active.getD []) := by
    cases active with
    | none => exact terminated_nil
    | some text => exact hs.closed text rfl
  rw [textLines_append hclosed, textLines_flatten hs.chunks, List.append_eq_nil_iff,
    List.flatMap_eq_nil_iff] at hnil
  obtain ⟨hold,hnew⟩ := hnil
  have hempty : s.spoolWriteChunks = [] := by
    apply List.eq_nil_iff_forall_not_mem.mpr
    exact fun chunk hc => hchunks chunk hc (hnew chunk hc)
  rw [hempty, List.flatten_nil, List.append_nil]
  cases active with
  | none => rfl
  | some text => exact hshown text rfl hold

/-- The active file moves behind the segments as it is. -/
theorem Ordered.rotate {s : Spool} (h : Ordered s) {now : ℕ}
    (htimes : (rotationTimes (rotate s now)).Pairwise (· < ·)) : Ordered (rotate s now) := by
  obtain ⟨segments,active,hs⟩ := h
  unfold LogSpoolFiles.rotate at htimes ⊢
  rw [hs.layout.get_active] at htimes ⊢
  cases active with
  | none => exact ⟨segments,none,hs⟩
  | some content =>
    dsimp only [rotationTimes] at htimes ⊢
    rw [List.map_append, List.pairwise_append] at htimes
    have hnow : ∀ p ∈ segments, p.1 < now := by
      intro p hp
      exact htimes.2.2 p.1 (List.mem_map_of_mem (hs.recorded p hp)) now (by simp)
    refine ⟨segments++[(now,content)],none,hs.layout.rotateActive hnow,by simp,hs.chunks,?_,?_⟩
    · simpa [layoutLines, pendingLines] using hs.suffix
    · intro p hp
      rcases List.mem_append.mp hp with hp | hp
      · exact List.mem_append_left _ (hs.recorded p hp)
      · exact List.mem_append_right _ hp

theorem shown_rotate {s : Spool} (now : ℕ) (h : Shown (s.files.get? baseName)) :
    Shown ((rotate s now).files.get? baseName) := by
  unfold rotate
  split
  · exact h
  · dsimp only
    rw [OrderedMap.get?_set, if_neg (rotatedName_ne_baseName now).symm, OrderedMap.get?_delete,
      if_pos rfl]
    rintro _ ⟨⟩

theorem rotate_chunks (s : Spool) (now : ℕ) :
    (rotate s now).spoolWriteChunks = s.spoolWriteChunks := by
  unfold rotate
  split <;> rfl

theorem exists_beforeCap {s : Spool} (h : Ordered s) (cfg : Config) {now : ℕ}
    (hne : s.spoolWriteBufferBytes ≠ 0)
    (htimes : (rotationTimes (flushWriteBuffer cfg s now)).Pairwise (· < ·)) :
    ∃ m, flushWriteBuffer cfg s now = enforceCapCap cfg m ∧ Ordered m ∧
      m.spoolWriteChunks = [] ∧
      (Shown ((appendChunks s).files.get? baseName) → Shown (m.files.get? baseName)) := by
  have happend : Ordered (appendChunks s) := by
    obtain ⟨segments,active,hs⟩ := h
    exact ⟨_,_,hs.appendChunks⟩
  unfold LogSpoolFiles.flushWriteBuffer at htimes ⊢
  rw [if_neg hne] at htimes ⊢
  dsimp only at htimes ⊢
  rw [rotationTimes, (enforceCapCap_frame cfg _).2.2] at htimes
  split_ifs at htimes ⊢
  · exact ⟨_,rfl,happend.rotate htimes,rotate_chunks _ now,shown_rotate now⟩
  · exact ⟨_,rfl,happend,rfl,id⟩

theorem flushWriteBuffer_empty (cfg : Config) {s : Spool} (now : ℕ)
    (h : s.spoolWriteBufferBytes = 0) : flushWriteBuffer cfg s now = s := if_pos h

theorem Ordered.flushWriteBuffer {s : Spool} (h : Ordered s) (cfg : Config) {now : ℕ}
    (htimes : (rotationTimes (flushWriteBuffer cfg s now)).Pairwise (· < ·)) :
    Ordered (flushWriteBuffer cfg s now) := by
  by_cases hempty : s.spoolWriteBufferBytes = 0
  · rw [flushWriteBuffer_empty cfg now hempty]
    exact h
  · obtain ⟨m,heq,hm,-,-⟩ := exists_beforeCap h cfg hempty htimes
    rw [heq]
    exact hm.enforceCapCap cfg

theorem Capped.flushWriteBuffer {cfg : Config} {s : Spool} (hc : Capped cfg s) (h : Ordered s)
    {now : ℕ} (htimes : (rotationTimes (flushWriteBuffer cfg s now)).Pairwise (· < ·)) :
    Capped cfg (flushWriteBuffer cfg s now) := by
  by_cases hempty : s.spoolWriteBufferBytes = 0
  · rw [flushWriteBuffer_empty cfg now hempty]
    exact hc
  · obtain ⟨m,heq,hm,hchunks,hshown⟩ := exists_beforeCap h cfg hempty htimes
    rw [heq]
    exact hm.capped cfg (by simp [hchunks]) (hshown (shown_appendChunks h hc.chunks hc.active))

theorem batchLines_lines (batches : List Members) :
    Terminated (batchLines batches)
      ∧ textLines (batchLines batches) = batches.map (fun b => print (.obj b)) := by
  have hplain : ∀ l ∈ batches.map (fun b => print (.obj b)), PlainLine l := by
    intro l hl
    obtain ⟨b,-,rfl⟩ := List.mem_map.mp hl
    exact plainLine_print b
  unfold batchLines
  cases batches with
  | nil => exact ⟨⟨[[]],by simp,rfl⟩,rfl⟩
  | cons b batches =>
    rw [joinLines_close (by simp)]
    exact ⟨terminated_closeLines (fun l hl => (hplain l hl).single),textLines_closeLines hplain⟩

def queued (s : Spool) (batches : List Members) : Spool :=
  { s with
    spoolWriteChunks := s.spoolWriteChunks++[batchLines batches]
    spoolWriteBufferBytes := s.spoolWriteBufferBytes+byteLength (batchLines batches)
    written := s.written++batches.map (fun b => print (.obj b)) }

theorem write_eq (cfg : Config) (s : Spool) (batches : List Members) (now : ℕ) :
    write cfg s batches now =
      if (queued s batches).spoolWriteBufferBytes ≥ SPOOL_WRITE_FLUSH_BYTES then
        flushWriteBuffer cfg (queued s batches) now
      else queued s batches := rfl

theorem Ordered.queued {s : Spool} (h : Ordered s) (batches : List Members) :
    Ordered (queued s batches) := by
  obtain ⟨segments,active,hs⟩ := h
  obtain ⟨hclosed,hlines⟩ := batchLines_lines batches
  refine ⟨segments,active,hs.layout,hs.closed,?_,?_,hs.recorded⟩
  · intro chunk hchunk
    rcases List.mem_append.mp hchunk with hold | hnew
    · exact hs.chunks chunk hold
    · rw [List.mem_singleton.mp hnew]
      exact hclosed
  · obtain ⟨front,hfront⟩ := hs.suffix
    refine ⟨front,?_⟩
    simp only [pendingLines, LogSpoolFiles.queued, List.flatMap_append, List.flatMap_singleton,
      hlines]
    rw [← hfront]
    simp [pendingLines]

theorem Capped.queued {cfg : Config} {s : Spool} (h : Capped cfg s) {batches : List Members}
    (hne : batches ≠ []) : Capped cfg (queued s batches) := by
  refine ⟨?_,h.active,h.total⟩
  intro chunk hchunk
  rcases List.mem_append.mp hchunk with hold | hnew
  · exact h.chunks chunk hold
  · rw [List.mem_singleton.mp hnew, (batchLines_lines batches).2]
    simpa using hne

theorem Ordered.forget {s : Spool} (h : Ordered s) (bytes : ℕ) (known : Bool) :
    Ordered { s with spoolActiveBytes := bytes, spoolActiveSizeKnown := known } := by
  obtain ⟨segments,active,hs⟩ := h
  exact ⟨segments,active,hs.layout,hs.closed,hs.chunks,hs.suffix,hs.recorded⟩

def Event.Sends : Event → Prop
  | .write batches _ => batches ≠ []
  | _ => True

theorem step_ordered (cfg : Config) {s : Spool} {e : Event}
    (htimes : (rotationTimes (step cfg s e)).Pairwise (· < ·)) (h : Ordered s) :
    Ordered (step cfg s e) := by
  cases e with
  | start => exact h.enforceCapCap cfg
  | write batches now =>
    dsimp only [step] at htimes ⊢
    rw [write_eq] at htimes ⊢
    split_ifs at htimes ⊢
    · exact (h.queued batches).flushWriteBuffer cfg htimes
    · exact h.queued batches
  | flush now => exact h.flushWriteBuffer cfg htimes
  | reopen now =>
    dsimp only [step, reopen] at htimes ⊢
    rw [rotationTimes, (enforceCapCap_frame cfg _).2.2] at htimes
    exact ((h.flushWriteBuffer cfg htimes).forget 0 false).enforceCapCap cfg

theorem step_capped (cfg : Config) {s : Spool} {e : Event} (hsends : e.Sends)
    (htimes : (rotationTimes (step cfg s e)).Pairwise (· < ·)) (h : Ordered s)
    (hc : Capped cfg s) : Capped cfg (step cfg s e) := by
  cases e with
  | start => exact h.capped cfg hc.chunks hc.active
  | write batches now =>
    dsimp only [step] at htimes ⊢
    rw [write_eq] at htimes ⊢
    split_ifs at htimes ⊢
    · exact (hc.queued hsends).flushWriteBuffer (h.queued batches) htimes
    · exact hc.queued hsends
  | flush now => exact hc.flushWriteBuffer h htimes
  | reopen now =>
    dsimp only [step, reopen] at htimes ⊢
    rw [rotationTimes, (enforceCapCap_frame cfg _).2.2] at htimes
    have hflushed := hc.flushWriteBuffer h htimes
    exact ((h.flushWriteBuffer cfg htimes).forget 0 false).capped cfg hflushed.chunks
      hflushed.active

theorem rotate_rotations (s : Spool) (now : ℕ) : s.rotations <+: (rotate s now).rotations := by
  unfold rotate
  split
  · exact List.prefix_rfl
  · exact List.prefix_append _ _

theorem flushWriteBuffer_rotations (cfg : Config) (s : Spool) (now : ℕ) :
    s.rotations <+: (flushWriteBuffer cfg s now).rotations := by
  unfold flushWriteBuffer
  split
  · exact List.prefix_rfl
  · dsimp only
    rw [(enforceCapCap_frame cfg _).2.2]
    split
    · exact rotate_rotations (appendChunks s) now
    · exact List.prefix_rfl

theorem step_rotations (cfg : Config) (s : Spool) (e : Event) :
    s.rotations <+: (step cfg s e).rotations := by
  cases e with
  | start =>
    dsimp only [step]
    rw [(enforceCapCap_frame cfg s).2.2]
  | write batches now =>
    dsimp only [step]
    rw [write_eq]
    split
    · exact flushWriteBuffer_rotations cfg (queued s batches) now
    · exact List.prefix_rfl
  | flush now => exact flushWriteBuffer_rotations cfg s now
  | reopen now =>
    dsimp only [step, reopen]
    rw [(enforceCapCap_frame cfg _).2.2]
    exact flushWriteBuffer_rotations cfg s now

theorem created_ordered : Ordered created :=
  ⟨[],none,layout_empty,by simp,by simp [created],by simp [layoutLines, pendingLines, created],
    by simp⟩

theorem created_capped (cfg : Config) : Capped cfg created := by
  refine ⟨by simp [created],?_,?_⟩
  · rintro _ ⟨⟩
  · have htotal : totalSize cfg created.files = 0 := layout_empty.totalSize cfg
    rw [htotal]
    exact Nat.zero_le _

theorem run_ordered (cfg : Config) (es : List Event)
    (htimes : (rotationTimes (run (step cfg) es created)).Pairwise (· < ·)) :
    Ordered (run (step cfg) es created)
      ∧ ((∀ e ∈ es, e.Sends) → Capped cfg (run (step cfg) es created)) := by
  induction es using List.reverseRecOn with
  | nil => exact ⟨created_ordered,fun _ => created_capped cfg⟩
  | append_singleton es e ih =>
    rw [run_append, run_cons, run_nil] at htimes ⊢
    have hbefore := htimes.sublist ((step_rotations cfg (run (step cfg) es created) e).sublist.map
      Prod.fst)
    obtain ⟨hordered,hcapped⟩ := ih hbefore
    refine ⟨step_ordered cfg htimes hordered,fun hsends => ?_⟩
    have hprior := hcapped (fun e' he' => hsends e' (List.mem_append_left _ he'))
    exact step_capped cfg (hsends e (by simp)) htimes hordered hprior

/-- Over any run with rotations at ascending times, the files in replay order
and the lines that still wait are an end of all that was written, a segment
has the content its rotation gave it, and the files are within the cap, also
when it is enforced once more. -/
theorem spool_keeps_suffix (cfg : Config) (es : List Event)
    (htimes : (rotationTimes (run (step cfg) es created)).Pairwise (· < ·)) :
    let s := run (step cfg) es created
    spoolLines cfg s.files++pendingLines s <:+ s.written
      ∧ (∀ time text, s.files.get? (rotatedName time) = some text → (time,text) ∈ s.rotations)
      ∧ ((∀ e ∈ es, e.Sends) → totalSize cfg s.files ≤ cfg.maxTotalSpoolSize
        ∧ totalSize cfg (enforceCapCap cfg s).files ≤ cfg.maxTotalSpoolSize) := by
  intro s
  obtain ⟨hordered,hcapped⟩ := run_ordered cfg es htimes
  obtain ⟨segments,active,hs⟩ := hordered
  refine ⟨?_,?_,fun hsends => ⟨(hcapped hsends).total,?_⟩⟩
  · rw [hs.layout.spoolLines]
    exact hs.suffix
  · intro time text hget
    rcases (hs.layout.holds _ _).mp hget with ⟨time',hmem,hname⟩ | ⟨hname,-⟩
    · rw [rotatedName_injective hname]
      exact hs.recorded _ hmem
    · exact absurd hname (rotatedName_ne_baseName _)
  · have hc := hcapped hsends
    exact (Ordered.capped ⟨segments,active,hs⟩ cfg hc.chunks hc.active).total

def narrow : Config := ⟨5,12,List.reverse,fun names => List.reverse_perm names⟩

def busy : List Event :=
  [.start,.write [[],[]] 1,.flush 10,.write [[],[]] 12,.flush 20,.write [[]] 22,.flush 30,
    .write [[]] 31]

theorem narrow_keeps_suffix :
    rotationTimes (run (step narrow) busy created) = [10,20]
      ∧ getSpoolFiles narrow (run (step narrow) busy created).files
        = ["buffer.ndjson.20","buffer.ndjson"]
      ∧ spoolLines narrow (run (step narrow) busy created).files
          ++pendingLines (run (step narrow) busy created)
        <:+ (run (step narrow) busy created).written
      ∧ totalSize narrow (run (step narrow) busy created).files ≤ narrow.maxTotalSpoolSize := by
  have htimes : rotationTimes (run (step narrow) busy created) = [10,20] := by decide +kernel
  have hkept := spool_keeps_suffix narrow busy (by rw [htimes]; decide)
  have hsends : ∀ e ∈ busy, e.Sends := by
    simp [busy, Event.Sends]
  exact ⟨htimes,by decide +kernel,hkept.1,(hkept.2.2 hsends).1⟩

def unrotated : Config := ⟨100,5,id,fun _ => List.Perm.refl _⟩

def blankWrites : List Event := List.replicate 6 (.write [] 1)++[.flush 2]

theorem blank_writes_exceed_cap : ¬∀ (cfg : Config) (es : List Event),
    (rotationTimes (run (step cfg) es created)).Pairwise (· < ·) →
      totalSize cfg (enforceCapCap cfg (run (step cfg) es created)).files ≤
        cfg.maxTotalSpoolSize := by
  intro h
  have hcap := h unrotated blankWrites (by decide +kernel)
  revert hcap
  decide +kernel

end Iotistica.LogSpoolFiles
