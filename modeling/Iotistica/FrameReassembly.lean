import Iotistica.Framing
import Iotistica.PublishPipeline
import Iotistica.Utf8Text

/-!
# Frames out of chunks

The batcher cuts what it has read at the delimiter. A plain delimiter is
searched in the bytes; any other one is a regular expression, for which the
bytes are decoded, split as text and the tail encoded again. So a plain
delimiter finds the same frames in whatever chunks a stream comes, and any
other one does exactly when no chunk ends inside a character. The matches of
an expression are ASCII words of one width here: assertions, and classes of
characters beyond ASCII, are left out.
-/

set_option autoImplicit false

namespace Iotistica.FrameReassembly
open Iotistica.Framing Iotistica.PublishBatcher Iotistica.Utf8Text

def isPlainDelimiter (pattern : String) : Bool :=
  !pattern.toList.any (fun c => "\\^$.*+?()[]\x7b\x7d|".toList.contains c)

def isAsciiSafe (value : String) : Bool := value.toList.all (fun c => c.toNat ≤ 0x7f)

/-- A regular expression of which every match is one of some ASCII words of
one length, and what its capture groups hold then. -/
structure Pattern where
  separator : Separator Char
  ascii : ∀ w, separator.isWord w = true → ∀ c ∈ w, c.toNat < 0x80
  groups : ∀ w, separator.isWord w = true → ∀ g ∈ separator.groups w, ∀ c ∈ g, c.toNat < 0x80

def split (p : Pattern) (s : String) : List String :=
  ((cut p.separator s.toList).1++[(cut p.separator s.toList).2]).map String.ofList

structure PlainDelimiter where
  text : String
  nonempty : text ≠ ""
  asciiSafe : isAsciiSafe text = true
  plain : isPlainDelimiter text = true

def only {β : Type*} [DecidableEq β] (word : List β) (h : word ≠ []) : Separator β where
  width := word.length
  pos := List.length_pos_iff.mpr h
  isWord w := decide (w = word)
  groups _ := []

namespace PlainDelimiter
variable (d : PlainDelimiter)

def bytes : Bytes := d.text.toList.map (fun c => UInt8.ofNat c.toNat)

theorem toList_ne_nil : d.text.toList ≠ [] := fun h => d.nonempty (String.toList_eq_nil_iff.mp h)

theorem ascii : ∀ c ∈ d.text.toList, c.toNat < 0x80 := by
  have h := d.asciiSafe
  simp only [isAsciiSafe, List.all_eq_true, decide_eq_true_eq] at h
  exact fun c hc => Nat.lt_succ_of_le (h c hc)

def pattern : Pattern where
  separator := only d.text.toList d.toList_ne_nil
  ascii := by
    intro w hw
    rw [of_decide_eq_true hw]
    exact d.ascii
  groups := fun w _ g hg => absurd hg List.not_mem_nil

theorem bytes_ne_nil : d.bytes ≠ [] := fun h => d.toList_ne_nil (List.map_eq_nil_iff.mp h)

end PlainDelimiter

inductive EomDelimiter where
  | plain (d : PlainDelimiter)
  | pattern (p : Pattern)

def EomDelimiter.toDelimiter : EomDelimiter → Delimiter
  | .plain d => .literal d.bytes
  | .pattern p => .pattern (split p)

def withDelimiter (cfg : DeviceConfig) (eomDelimiter : EomDelimiter) : DeviceConfig :=
  { cfg with delimiter := eomDelimiter.toDelimiter }

section
variable {α : Type*}

/-- The runtime of the agent; what JSON its frames hold is left open. -/
def utf8 (parse : String → Option α) : Runtime α where
  decode bs := String.ofList (decode bs)
  encode s := encode s.toList
  parse := parse

/-- The frames that `appendData` passes on and the read buffer it leaves. -/
def deliver (rt : Runtime α) (cfg : DeviceConfig) (readBuffer data : Bytes) :
    List String × Bytes :=
  match receive cfg readBuffer data with
  | none => ([],[])
  | some buffered => parseFrames rt cfg buffered

def deliverAll (rt : Runtime α) (cfg : DeviceConfig) : Bytes → List Bytes → List String × Bytes
  | readBuffer, [] => ([],readBuffer)
  | readBuffer, chunk::chunks =>
    let out := deliver rt cfg readBuffer chunk
    let rest := deliverAll rt cfg out.2 chunks
    (out.1++rest.1,rest.2)

theorem appendData_eq (rt : Runtime α) (cfg : DeviceConfig) (sit : PublishPipeline.Situation)
    (s : PublishPipeline.Pipeline α) (data : Bytes) :
    PublishPipeline.appendData rt cfg sit s data =
      PublishPipeline.setReadBuffer
        ((deliver rt cfg s.batcher.readBuffer data).1.foldl
          (PublishPipeline.receiveMessage rt cfg sit) s)
        (deliver rt cfg s.batcher.readBuffer data).2 := by
  unfold PublishPipeline.appendData deliver
  cases receive cfg s.batcher.readBuffer data <;> rfl

end

theorem starts_only {β : Type*} [DecidableEq β] (word : List β) (h : word ≠ []) (xs : List β) :
    (only word h).starts xs = decide (word <+: xs) := by
  rw [Bool.eq_iff_iff, starts_iff, decide_eq_true_eq]
  constructor
  · rintro ⟨_,hword⟩
    have heq : xs.take word.length = word := of_decide_eq_true hword
    rw [← heq]
    exact List.take_prefix _ _
  · intro hpre
    exact ⟨hpre.length_le,decide_eq_true (List.prefix_iff_eq_take.mp hpre).symm⟩

theorem splitFirst_literal {delimiter : Bytes} (h : delimiter ≠ []) (bs : Bytes) :
    PublishBatcher.splitFirst delimiter bs =
      (Framing.splitFirst (only delimiter h) bs).map (fun found => (found.1,found.2.2)) := by
  induction bs with
  | nil =>
    cases delimiter with
    | nil => exact absurd rfl h
    | cons d ds => rfl
  | cons b bs ih =>
    have hstarts : (only delimiter h).starts (b::bs) = delimiter.isPrefixOf (b::bs) := by
      rw [starts_only, Bool.eq_iff_iff, decide_eq_true_eq, List.isPrefixOf_iff_prefix]
    rw [PublishBatcher.splitFirst, splitFirst_cons, hstarts, ih]
    split
    · rfl
    · cases Framing.splitFirst (only delimiter h) bs <;> rfl

theorem literalFrames_pieces {delimiter : Bytes} (h : delimiter ≠ []) (fuel : ℕ) (bs : Bytes) :
    literalFrames delimiter fuel bs = pieces (only delimiter h) fuel bs := by
  induction fuel generalizing bs with
  | zero => rfl
  | succ fuel ih =>
    rw [literalFrames, pieces, splitFirst_literal h]
    cases Framing.splitFirst (only delimiter h) bs with
    | none => rfl
    | some found =>
      simp only [Option.map_some, ih]
      rfl

theorem literalFrames_cut {delimiter : Bytes} (h : delimiter ≠ []) (bs : Bytes) :
    literalFrames delimiter bs.length bs = cut (only delimiter h) bs :=
  literalFrames_pieces h bs.length bs

theorem encode_ascii {ws : List Char} (h : ∀ c ∈ ws, c.toNat < 0x80) :
    encode ws = ws.map (fun c => UInt8.ofNat c.toNat) := by
  induction ws with
  | nil => rfl
  | cons w ws ih =>
    rw [encode, List.flatMap_cons, encodeChar_ascii (h w List.mem_cons_self), ← encode,
      ih (fun c hc => h c (List.mem_cons_of_mem w hc))]
    rfl

theorem head_encode {c : Char} {b : UInt8} {x : List UInt8}
    (h : String.utf8EncodeChar c = b::x) (hb : b.toNat < 0x80) :
    c.toNat = b.toNat ∧ x = [] := by
  by_cases hc : c.toNat < 0x80
  · rw [encodeChar_ascii hc] at h
    obtain ⟨rfl,rfl⟩ := List.cons.inj h
    exact ⟨(toNat_ofNat (by omega)).symm,rfl⟩
  · have hbig := encodeChar_foreign (Nat.le_of_not_lt hc) (h ▸ List.mem_cons_self : b ∈ _)
    omega

theorem prefix_encode {ws : List Char} (h : ∀ c ∈ ws, c.toNat < 0x80) (cs : List Char) :
    ws.map (fun c => UInt8.ofNat c.toNat) <+: encode cs ↔ ws <+: cs := by
  constructor
  · intro hpre
    induction ws generalizing cs with
    | nil => exact List.nil_prefix
    | cons w ws ih =>
      have hw := h w List.mem_cons_self
      have hbyte : (UInt8.ofNat w.toNat).toNat = w.toNat := toNat_ofNat (by omega)
      cases cs with
      | nil => exact absurd (List.prefix_nil.mp hpre) (List.cons_ne_nil _ _)
      | cons c cs =>
        obtain ⟨b,x,hx⟩ := List.exists_cons_of_ne_nil (String.utf8EncodeChar_ne_nil (c := c))
        rw [encode, List.flatMap_cons, hx, ← encode, List.map_cons, List.cons_append,
          List.cons_prefix_cons] at hpre
        obtain ⟨hb,hrest⟩ := hpre
        obtain ⟨heq,rfl⟩ := head_encode hx (by rw [← hb, hbyte]; exact hw)
        have hchar : w = c := Char.toNat_inj.mp (by rw [heq, ← hb, hbyte])
        rw [hchar, List.prefix_cons_inj]
        exact ih (fun c hc => h c (List.mem_cons_of_mem w hc)) cs hrest
  · rintro ⟨rest,rfl⟩
    rw [encode_append, encode_ascii h]
    exact List.prefix_append _ _

theorem PlainDelimiter.encodes (d : PlainDelimiter) :
    Encodes d.pattern.separator (only d.bytes d.bytes_ne_nil) String.utf8EncodeChar where
  nonempty _ := String.utf8EncodeChar_ne_nil
  starts cs := by
    have hleft : (only d.bytes d.bytes_ne_nil).starts (encode cs) = _ := starts_only _ _ _
    have hright : d.pattern.separator.starts cs = _ := starts_only _ d.toList_ne_nil _
    refine hleft.trans (Eq.trans ?_ hright.symm)
    rw [decide_eq_decide]
    exact prefix_encode d.ascii cs
  inside c x y zs hc hx hy := by
    obtain ⟨b,x,rfl⟩ := List.exists_cons_of_ne_nil hx
    obtain ⟨b',y,rfl⟩ := List.exists_cons_of_ne_nil hy
    rw [starts_only, decide_eq_false_iff_not]
    intro hpre
    have hforeign : 0x80 ≤ c.toNat := by
      by_contra hlt
      rw [encodeChar_ascii (Nat.lt_of_not_le hlt)] at hc
      have hnil := (List.cons.inj hc).2
      simp at hnil
    have hbig := encodeChar_foreign hforeign (b := b') (by simp [hc])
    obtain ⟨w,ws,hw⟩ := List.exists_cons_of_ne_nil d.toList_ne_nil
    have hsmall := d.ascii w (by simp [hw])
    rw [PlainDelimiter.bytes, hw, List.map_cons, List.cons_append, List.cons_prefix_cons] at hpre
    rw [← hpre.1, toNat_ofNat (by omega)] at hbig
    omega
  width cs hs := by
    have hword := of_decide_eq_true (starts_iff.mp hs).2
    have hlen : (encode (cs.take d.pattern.separator.width)).length = d.bytes.length := by
      rw [hword, encode_ascii d.ascii]
      rfl
    exact hlen
  groups _ _ := rfl

section
variable {α : Type*} {parse : String → Option α} {cfg : DeviceConfig}

theorem utf8ByteSize_ofList (cs : List Char) :
    (String.ofList cs).utf8ByteSize = (encode cs).length := by
  simp [← String.size_toByteArray, encode, List.utf8Encode]

theorem isEmpty_ofList (cs : List Char) : (String.ofList cs).isEmpty = cs.isEmpty := by
  rw [Bool.eq_iff_iff, String.isEmpty_iff, List.isEmpty_iff, ← String.toList_eq_nil_iff,
    String.toList_ofList]

theorem parseFrames_pattern {p : Pattern} (hcfg : cfg.delimiter = .pattern (split p))
    (readBuffer : Bytes) : parseFrames (utf8 parse) cfg readBuffer =
      (((cut p.separator (decode readBuffer)).1.filter (fun piece => !piece.isEmpty)).map
          String.ofList,
        if cfg.bufferCapacity < (encode (cut p.separator (decode readBuffer)).2).length then []
        else encode (cut p.separator (decode readBuffer)).2) := by
  have hparts : split p (String.ofList (decode readBuffer)) =
      (cut p.separator (decode readBuffer)).1.map String.ofList++
        [String.ofList (cut p.separator (decode readBuffer)).2] := by
    rw [split, String.toList_ofList, List.map_append]
    rfl
  have hempty : (fun part : String => !part.isEmpty) ∘ String.ofList =
      fun piece => !piece.isEmpty := by
    funext cs
    simp only [Function.comp, isEmpty_ofList]
  simp only [parseFrames, hcfg, utf8, hparts, List.getLast?_append, List.getLast?_singleton,
    Option.some_or, Option.getD_some, List.dropLast_concat, List.filter_map, hempty,
    utf8ByteSize_ofList, String.toList_ofList]
  split <;> rfl

theorem frames_plain {d : PlainDelimiter} (hcfg : cfg.delimiter = .literal d.bytes)
    (readBuffer : Bytes) : (parseFrames (utf8 parse) cfg readBuffer).1 =
      ((cut (only d.bytes d.bytes_ne_nil) readBuffer).1.filter (fun piece => !piece.isEmpty)).map
        (fun piece => String.ofList (decode piece)) := by
  simp only [parseFrames, hcfg, literalFrames_cut d.bytes_ne_nil]
  split
  · rfl
  · split <;> rfl

theorem readBuffer_plain {d : PlainDelimiter} (hcfg : cfg.delimiter = .literal d.bytes)
    (readBuffer : Bytes) (hfit : readBuffer.length ≤ cfg.bufferCapacity) :
    (parseFrames (utf8 parse) cfg readBuffer).2 =
      (cut (only d.bytes d.bytes_ne_nil) readBuffer).2 := by
  have hle := (tail_suffix (d := only d.bytes d.bytes_ne_nil) readBuffer).length_le
  simp only [parseFrames, hcfg, literalFrames_cut d.bytes_ne_nil]
  split
  · next hempty => exact (tail_eq (List.isEmpty_iff.mp hempty)).symm
  · rw [if_neg (by omega)]

end

theorem isEmpty_encode (cs : List Char) : (encode cs).isEmpty = cs.isEmpty := by
  cases cs with
  | nil => rfl
  | cons c cs =>
    obtain ⟨b,x,hx⟩ := List.exists_cons_of_ne_nil (String.utf8EncodeChar_ne_nil (c := c))
    rw [encode, List.flatMap_cons, hx]
    rfl

theorem decoded_frames (frames : List (List Char)) :
    ((frames.map encode).filter (fun piece => !piece.isEmpty)).map
        (fun piece => String.ofList (decode piece)) =
      (frames.filter (fun piece => !piece.isEmpty)).map String.ofList := by
  have hempty : (fun piece : Bytes => !piece.isEmpty) ∘ encode = fun piece => !piece.isEmpty := by
    funext cs
    simp only [Function.comp, isEmpty_encode]
  rw [List.filter_map, hempty, List.map_map]
  apply List.map_congr_left
  intro piece _
  simp only [Function.comp, decode_encode]

section
variable {α : Type*}

/-- Both ways pass on the same frames and keep the same tail, whatever text
has been read. The capacity only bears on a read buffer that is past it,
which `appendData` never scans. -/
theorem plain_paths_agree (parse : String → Option α) (cfg : DeviceConfig) (d : PlainDelimiter)
    (readBuffer : Bytes) (h : WellFormed readBuffer) :
    (parseFrames (utf8 parse) (withDelimiter cfg (.plain d)) readBuffer).1 =
      (parseFrames (utf8 parse) (withDelimiter cfg (.pattern d.pattern)) readBuffer).1 ∧
    (literalFrames d.bytes readBuffer.length readBuffer).2 =
      encode (cut d.pattern.separator (decode readBuffer)).2 ∧
    (readBuffer.length ≤ cfg.bufferCapacity →
      parseFrames (utf8 parse) (withDelimiter cfg (.plain d)) readBuffer =
        parseFrames (utf8 parse) (withDelimiter cfg (.pattern d.pattern))
          readBuffer) := by
  have hcut := cut_encoded d.encodes (decode readBuffer)
  rw [show (decode readBuffer).flatMap String.utf8EncodeChar = readBuffer from h] at hcut
  have hframes : (parseFrames (utf8 parse) (withDelimiter cfg (.plain d)) readBuffer).1 =
      (parseFrames (utf8 parse) (withDelimiter cfg (.pattern d.pattern))
        readBuffer).1 := by
    rw [frames_plain rfl, parseFrames_pattern rfl, hcut]
    exact decoded_frames _
  have htail : (cut (only d.bytes d.bytes_ne_nil) readBuffer).2 =
      encode (cut d.pattern.separator (decode readBuffer)).2 := by
    rw [hcut]
    rfl
  refine ⟨hframes,?_,fun hfit => Prod.ext hframes ?_⟩
  · rw [literalFrames_cut d.bytes_ne_nil]
    exact htail
  · have hle := (tail_suffix (d := only d.bytes d.bytes_ne_nil) readBuffer).length_le
    rw [htail] at hle
    refine Eq.trans (readBuffer_plain (d := d) (by rfl) readBuffer hfit) ?_
    rw [htail, parseFrames_pattern rfl]
    exact (if_neg (Nat.not_lt.mpr (hle.trans hfit))).symm

def selfOverlapping : PlainDelimiter := ⟨"aa",by decide,by decide,by decide⟩

/-- A delimiter that overlaps itself, at both ends of the buffer too. -/
theorem overlapping_agree : WellFormed (encode "aaxaaaéaa".toList) ∧
    (parseFrames (utf8 some) (withDelimiter ⟨.literal [],100,none,none,10,1000⟩
      (.plain selfOverlapping)) (encode "aaxaaaéaa".toList)).1 =
    (parseFrames (utf8 some) (withDelimiter ⟨.literal [],100,none,none,10,1000⟩
      (.pattern selfOverlapping.pattern)) (encode "aaxaaaéaa".toList)).1 :=
  ⟨by decide,(plain_paths_agree some ⟨.literal [],100,none,none,10,1000⟩
    selfOverlapping (encode "aaxaaaéaa".toList) (by decide)).1⟩

end

end Iotistica.FrameReassembly

namespace Iotistica.FrameChunks
open Iotistica.Framing Iotistica.PublishBatcher Iotistica.Utf8Text Iotistica.FrameReassembly

section
variable {α : Type*}

def tailSize (rt : Runtime α) (cfg : DeviceConfig) (readBuffer : Bytes) : ℕ :=
  match cfg.delimiter with
  | .literal delimiter => (literalFrames delimiter readBuffer.length readBuffer).2.length
  | .pattern split =>
    ((split (rt.decode readBuffer)).getLast?.getD (rt.decode readBuffer)).utf8ByteSize

/-- Neither what has been read nor the incomplete frame is past the capacity. -/
def Fits (rt : Runtime α) (cfg : DeviceConfig) (readBuffer data : Bytes) : Prop :=
  readBuffer.length+data.length ≤ cfg.bufferCapacity ∧
    tailSize rt cfg (readBuffer++data) ≤ cfg.bufferCapacity

instance (rt : Runtime α) (cfg : DeviceConfig) (readBuffer data : Bytes) :
    Decidable (Fits rt cfg readBuffer data) := inferInstanceAs (Decidable (_ ∧ _))

def Within (rt : Runtime α) (cfg : DeviceConfig) : Bytes → List Bytes → Prop
  | _, [] => True
  | readBuffer, chunk::chunks =>
    Fits rt cfg readBuffer chunk ∧ Within rt cfg (deliver rt cfg readBuffer chunk).2 chunks

instance decidableWithin (rt : Runtime α) (cfg : DeviceConfig) : ∀ (readBuffer : Bytes)
    (chunks : List Bytes), Decidable (Within rt cfg readBuffer chunks)
  | _, [] => inferInstanceAs (Decidable True)
  | readBuffer, chunk::chunks =>
    have := decidableWithin rt cfg (deliver rt cfg readBuffer chunk).2 chunks
    inferInstanceAs (Decidable (_ ∧ _))

variable {rt : Runtime α} {parse : String → Option α} {cfg : DeviceConfig} {readBuffer data : Bytes}

theorem deliver_fits (h : Fits rt cfg readBuffer data) :
    deliver rt cfg readBuffer data = parseFrames rt cfg (readBuffer++data) := by
  unfold deliver receive
  rw [if_neg (Nat.not_lt.mpr h.1)]

def byteFrames (pieces : List Bytes) : List String :=
  (pieces.filter (fun piece => !piece.isEmpty)).map (fun piece => String.ofList (decode piece))

theorem byteFrames_append (pieces more : List Bytes) :
    byteFrames (pieces++more) = byteFrames pieces++byteFrames more := by
  rw [byteFrames, List.filter_append, List.map_append]
  rfl

theorem deliver_plain {d : PlainDelimiter}
    (h : Fits (utf8 parse) (withDelimiter cfg (.plain d)) readBuffer data) :
    deliver (utf8 parse) (withDelimiter cfg (.plain d)) readBuffer data =
      (byteFrames (cut (only d.bytes d.bytes_ne_nil) (readBuffer++data)).1,
        (cut (only d.bytes d.bytes_ne_nil) (readBuffer++data)).2) := by
  rw [deliver_fits h]
  refine Prod.ext (frames_plain (by rfl) _) (readBuffer_plain (by rfl) _ ?_)
  rw [List.length_append]
  exact h.1

theorem deliverAll_plain {d : PlainDelimiter} (chunks : List Bytes)
    (h : Within (utf8 parse) (withDelimiter cfg (.plain d)) readBuffer chunks) :
    deliverAll (utf8 parse) (withDelimiter cfg (.plain d)) readBuffer chunks =
      (byteFrames (feed (only d.bytes d.bytes_ne_nil) readBuffer chunks).1,
        (feed (only d.bytes d.bytes_ne_nil) readBuffer chunks).2) := by
  induction chunks generalizing readBuffer with
  | nil => rfl
  | cons chunk chunks ih =>
    have hrest := ih h.2
    rw [deliver_plain h.1] at hrest
    rw [deliverAll, deliver_plain h.1, feed, byteFrames_append]
    dsimp only at hrest ⊢
    rw [hrest]

def textFrames (pieces : List (List Char)) : List String :=
  (pieces.filter (fun piece => !piece.isEmpty)).map String.ofList

theorem textFrames_append (pieces more : List (List Char)) :
    textFrames (pieces++more) = textFrames pieces++textFrames more := by
  rw [textFrames, List.filter_append, List.map_append]
  rfl

theorem textFrames_inj {pieces more : List (List Char)} (h : textFrames pieces = textFrames more) :
    pieces.flatten = more.flatten := by
  have hfilter : ∀ xs : List (List Char),
      (xs.filter (fun piece => !piece.isEmpty)).flatten = xs.flatten := by
    intro xs
    induction xs with
    | nil => rfl
    | cons x xs ih =>
      cases x with
      | nil => simpa using ih
      | cons c x => simpa using ih
  have hmap := List.map_injective_iff.mpr (fun _ _ heq => String.ofList_injective heq) h
  rw [← hfilter pieces, hmap, hfilter more]

theorem tailSize_pattern (p : Pattern) (readBuffer : Bytes) :
    tailSize (utf8 parse) (withDelimiter cfg (.pattern p)) readBuffer =
      (encode (cut p.separator (decode readBuffer)).2).length := by
  have hparts : split p (String.ofList (decode readBuffer)) =
      (cut p.separator (decode readBuffer)).1.map String.ofList++
        [String.ofList (cut p.separator (decode readBuffer)).2] := by
    rw [split, String.toList_ofList, List.map_append]
    rfl
  simp only [tailSize, withDelimiter, EomDelimiter.toDelimiter, utf8, hparts, List.getLast?_append,
    List.getLast?_singleton, Option.some_or, Option.getD_some, utf8ByteSize_ofList]

theorem deliver_pattern {p : Pattern}
    (h : Fits (utf8 parse) (withDelimiter cfg (.pattern p)) readBuffer data) :
    deliver (utf8 parse) (withDelimiter cfg (.pattern p)) readBuffer data =
      (textFrames (cut p.separator (decode (readBuffer++data))).1,
        encode (cut p.separator (decode (readBuffer++data))).2) := by
  have htail := h.2
  rw [tailSize_pattern] at htail
  rw [deliver_fits h, parseFrames_pattern (p := p) (by rfl), if_neg (Nat.not_lt.mpr htail)]
  rfl

theorem deliverAll_pattern {p : Pattern} (tail : List Char) (chunks : List Bytes)
    (h : Within (utf8 parse) (withDelimiter cfg (.pattern p)) (encode tail) chunks) :
    deliverAll (utf8 parse) (withDelimiter cfg (.pattern p)) (encode tail) chunks =
      (textFrames (feed p.separator tail (chunks.map decode)).1,
        encode (feed p.separator tail (chunks.map decode)).2) := by
  induction chunks generalizing tail with
  | nil => rfl
  | cons chunk chunks ih =>
    have hfirst := deliver_pattern h.1
    rw [decode_encode_append] at hfirst
    have hwithin := h.2
    rw [hfirst] at hwithin
    rw [deliverAll, hfirst, List.map_cons, feed, textFrames_append]
    dsimp only at hwithin ⊢
    rw [ih _ hwithin]

theorem foreign_cut_pieces (p : Pattern) (cs : List Char) :
    foreign (cut p.separator cs).1.flatten+foreign (cut p.separator cs).2 = foreign cs := by
  have hnone : ∀ w : List Char, (∀ c ∈ w, c.toNat < 0x80) →
      w.countP (fun c => 0x80 ≤ c.toNat) = 0 := by
    intro w hw
    rw [List.countP_eq_zero]
    intro c hc
    simpa using hw c hc
  refine countP_cut (fun w hw => hnone w (p.ascii w hw)) (fun w hw => hnone _ ?_) cs
  intro c hc
  obtain ⟨g,hg,hcg⟩ := List.mem_flatten.mp hc
  exact p.groups w hw g hg c hcg

/-- A stream that comes in chunks gives the frames and the read buffer that
it gives in one chunk exactly when the delimiter is plain or no chunk ends
inside a character. -/
theorem same_frames_iff (parse : String → Option α) (cfg : DeviceConfig)
    (eomDelimiter : EomDelimiter) (chunks : List Bytes)
    (hchunks : Within (utf8 parse) (withDelimiter cfg eomDelimiter) [] chunks)
    (hstream : Fits (utf8 parse) (withDelimiter cfg eomDelimiter) [] chunks.flatten) :
    deliverAll (utf8 parse) (withDelimiter cfg eomDelimiter) [] chunks =
        deliver (utf8 parse) (withDelimiter cfg eomDelimiter) [] chunks.flatten ↔
      (∃ d, eomDelimiter = .plain d) ∨ uncut chunks = true := by
  cases eomDelimiter with
  | plain d =>
    refine ⟨fun _ => Or.inl ⟨d,rfl⟩,fun _ => ?_⟩
    rw [deliverAll_plain chunks hchunks, deliver_plain hstream, feed_eq rfl]
  | pattern p =>
    have hall := deliverAll_pattern (p := p) [] chunks hchunks
    rw [feed_eq rfl, ← List.flatMap_def, List.nil_append] at hall
    have hone := deliver_pattern hstream
    rw [List.nil_append] at hone
    change deliverAll _ _ (encode []) chunks = _ ↔ _
    rw [hall, hone]
    constructor
    · intro h
      obtain ⟨hframes,htail⟩ := Prod.mk.inj h
      have htail' := congrArg decode htail
      rw [decode_encode, decode_encode] at htail'
      refine Or.inr ((foreign_pieces chunks).2 ?_)
      rw [← foreign_cut_pieces p (decode chunks.flatten), ← foreign_cut_pieces p (chunks.flatMap decode),
        textFrames_inj hframes, htail']
    · rintro (⟨d,hd⟩ | h)
      · cases hd
      · rw [decode_pieces h]

def semicolonOrComma : Pattern where
  separator := ⟨1,Nat.one_pos,fun w => decide (w = [';'] ∨ w = [',']),fun _ => []⟩
  ascii := by
    intro w hw c hc
    rcases of_decide_eq_true hw with rfl | rfl
    · rw [List.mem_singleton.mp hc]
      decide
    · rw [List.mem_singleton.mp hc]
      decide
  groups := fun _ _ g hg => absurd hg List.not_mem_nil

def classDelimited : DeviceConfig := withDelimiter ⟨.literal [],100,none,none,10,1000⟩
  (.pattern semicolonOrComma)

end

theorem same_frames_whole_characters :
    deliverAll (utf8 some) classDelimited [] [[0xC3,0xA9],[0x3B]] =
        deliver (utf8 some) classDelimited [] ([[0xC3,0xA9],[0x3B]] : List Bytes).flatten ↔
      (∃ d, EomDelimiter.pattern semicolonOrComma = .plain d) ∨
        uncut [[0xC3,0xA9],[0x3B]] = true :=
  same_frames_iff some ⟨.literal [],100,none,none,10,1000⟩ (.pattern semicolonOrComma)
    [[0xC3,0xA9],[0x3B]] (by decide) (by decide)

/-- The two bytes of a letter come in two chunks. -/
theorem character_cut_in_two :
    Within (utf8 some) classDelimited [] [[0xC3],[0xA9,0x3B]] ∧
    Fits (utf8 some) classDelimited [] ([[0xC3],[0xA9,0x3B]] : List Bytes).flatten ∧
    deliverAll (utf8 some) classDelimited [] [[0xC3],[0xA9,0x3B]] ≠
      deliver (utf8 some) classDelimited [] ([[0xC3],[0xA9,0x3B]] : List Bytes).flatten := by
  decide

end Iotistica.FrameChunks
