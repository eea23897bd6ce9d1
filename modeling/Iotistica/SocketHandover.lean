import Iotistica.JsonOutline

/-!
# Handing a socket over to its reader

Until the subscription acknowledgement has come, what arrives is decoded chunk
by chunk and searched for the first line; afterwards the chunks pass through.
The chunk that carries the newline is the place where the two meet: what it
holds behind the newline has been decoded and is encoded again.
-/

set_option autoImplicit false

namespace Iotistica.SocketHandover
open Iotistica.JsonText Iotistica.Utf8Text

abbrev Bytes := List UInt8

structure Connection where
  subscriptionAcked : Bool
  lineBuffer : List Char

inductive Emitted where
  | connected
  | data (buf : Bytes)

def Connection.init : Connection := ⟨false,[]⟩

/-- `JSON.parse(line)` and the look at `ok` behind it go through: there is no
member to look at in null. -/
def parses (line : List Char) : Bool :=
  match parse (String.ofList line) with
  | none => false
  | some .null => false
  | some _ => true

def emitRemaining (remaining : List Char) : List Emitted :=
  if 0 < remaining.length then [.data (encode remaining)] else []

def onData (s : Connection) (buf : Bytes) : Connection × List Emitted :=
  if s.subscriptionAcked then (s,[.data buf])
  else
    let lineBuffer := s.lineBuffer++decode buf
    match lineBuffer.idxOf? '\n' with
    | none => ({ s with lineBuffer },[])
    | some newlineIdx =>
      let line := lineBuffer.take newlineIdx
      let remaining := lineBuffer.drop (newlineIdx+1)
      let acked : Connection := ⟨true,[]⟩
      if parses line then (acked,.connected :: emitRemaining remaining)
      else (acked,.connected :: .data (encode (line++['\n'])) :: emitRemaining remaining)

def onChunks : Connection → List Bytes → Connection × List Emitted
  | s, [] => (s,[])
  | s, chunk::chunks =>
    ((onChunks (onData s chunk).1 chunks).1,(onData s chunk).2++(onChunks (onData s chunk).1 chunks).2)

def Emitted.bytes : Emitted → Bytes
  | .connected => []
  | .data buf => buf

def handedOver (chunks : List Bytes) : Bytes :=
  (onChunks .init chunks).2.flatMap Emitted.bytes

def newline : UInt8 := 0x0A

def firstLine (stream : Bytes) : Bytes := stream.takeWhile (fun b => b ≠ newline)

def afterNewline (stream : Bytes) : Bytes := (stream.dropWhile (fun b => b ≠ newline)).tail

def isJson (line : Bytes) : Bool := (parse (String.ofList (decode line))).isSome

/-- The answer to a subscription: an object whose `ok` is true. -/
def acknowledges (line : Bytes) : Bool :=
  match parse (String.ofList (decode line)) with
  | none => false
  | some v =>
    match member v "ok" with
    | some (.bool true) => true
    | _ => false

/-- The reader gets what follows the acknowledgement, and all of a stream that
does not begin with a line of JSON. -/
def Transparent (chunks : List Bytes) : Prop :=
  (acknowledges (firstLine chunks.flatten) = true →
    handedOver chunks = afterNewline chunks.flatten) ∧
  (isJson (firstLine chunks.flatten) = false → handedOver chunks = chunks.flatten)

/-- The pieces of the first line, what its last chunk holds behind the newline,
and the chunks that follow. -/
def atNewline : List Bytes → List Bytes × Bytes × List Bytes
  | [] => ([],[],[])
  | chunk::chunks =>
    if newline ∈ chunk then ([firstLine chunk],afterNewline chunk,chunks)
    else (chunk :: (atNewline chunks).1,(atNewline chunks).2)

def linePieces (chunks : List Bytes) : List Bytes := (atNewline chunks).1

def remainder (chunks : List Bytes) : Bytes := (atNewline chunks).2.1

def later (chunks : List Bytes) : List Bytes := (atNewline chunks).2.2

theorem firstLine_append {line : Bytes} (h : newline ∉ line) (rest : Bytes) :
    firstLine (line++newline :: rest) = line := by
  have hall : ∀ b ∈ line, decide (b ≠ newline) = true := by
    intro b hb
    refine decide_eq_true ?_
    rintro rfl
    exact h hb
  rw [firstLine, List.takeWhile_append_of_pos hall, List.takeWhile_cons, if_neg (by simp),
    List.append_nil]

theorem afterNewline_append {line : Bytes} (h : newline ∉ line) (rest : Bytes) :
    afterNewline (line++newline :: rest) = rest := by
  have hall : ∀ b ∈ line, decide (b ≠ newline) = true := by
    intro b hb
    refine decide_eq_true ?_
    rintro rfl
    exact h hb
  rw [afterNewline, List.dropWhile_append_of_pos hall, List.dropWhile_cons, if_neg (by simp),
    List.tail_cons]

theorem newline_notMem_firstLine (bs : Bytes) : newline ∉ firstLine bs := by
  intro h
  have hb := List.mem_takeWhile_imp h
  simp at hb

theorem chunk_eq {chunk : Bytes} (h : newline ∈ chunk) :
    firstLine chunk++newline :: afterNewline chunk = chunk := by
  obtain ⟨line,rest,rfl,hline⟩ := List.eq_append_cons_of_mem h
  rw [firstLine_append hline, afterNewline_append hline]

theorem flatten_eq {chunks : List Bytes} (h : newline ∈ chunks.flatten) :
    chunks.flatten =
      (linePieces chunks).flatten++newline :: (remainder chunks++(later chunks).flatten) := by
  induction chunks with
  | nil => cases h
  | cons chunk chunks ih =>
    unfold linePieces remainder later
    rw [atNewline]
    split
    · rename_i hmem
      conv_lhs => rw [List.flatten_cons, ← chunk_eq hmem]
      simp only [List.flatten_cons, List.flatten_nil, List.append_nil, List.append_assoc,
        List.cons_append]
    · rename_i hmem
      rw [List.flatten_cons, List.mem_append] at h
      conv_lhs => rw [List.flatten_cons, ih (h.resolve_left hmem)]
      rw [List.flatten_cons, List.append_assoc]
      rfl

theorem newline_notMem_pieces (chunks : List Bytes) :
    ∀ piece ∈ linePieces chunks, newline ∉ piece := by
  induction chunks with
  | nil => exact fun piece hpiece => absurd hpiece List.not_mem_nil
  | cons chunk chunks ih =>
    intro piece hpiece
    unfold linePieces at hpiece
    rw [atNewline] at hpiece
    split at hpiece
    · rw [List.mem_singleton.mp hpiece]
      exact newline_notMem_firstLine chunk
    · rename_i hmem
      rcases List.mem_cons.mp hpiece with rfl | hpiece
      · exact hmem
      · exact ih piece hpiece

theorem firstLine_flatten {chunks : List Bytes} (h : newline ∈ chunks.flatten) :
    firstLine chunks.flatten = (linePieces chunks).flatten := by
  rw [flatten_eq h, firstLine_append]
  intro hmem
  obtain ⟨piece,hpiece,hb⟩ := List.mem_flatten.mp hmem
  exact newline_notMem_pieces chunks piece hpiece hb

theorem afterNewline_flatten {chunks : List Bytes} (h : newline ∈ chunks.flatten) :
    afterNewline chunks.flatten = remainder chunks++(later chunks).flatten := by
  have hline := newline_notMem_firstLine chunks.flatten
  rw [firstLine_flatten h] at hline
  rw [flatten_eq h, afterNewline_append hline]

theorem decode_newline {piece : Bytes} (h : newline ∉ piece) : '\n' ∉ decode piece := by
  intro hmem
  obtain ⟨b,hb,heq⟩ := mem_decodeFrom hmem (by decide)
  have hnewline : b = newline := UInt8.toNat_inj.mp heq
  exact h (hnewline ▸ hb)

theorem encode_newline {cs : List Char} (h : '\n' ∉ cs) : newline ∉ encode cs := by
  intro hmem
  obtain ⟨c,hc,hb⟩ := List.mem_flatMap.mp hmem
  rcases Nat.lt_or_ge c.toNat 0x80 with hlt | hge
  · rw [encodeChar_ascii hlt, List.mem_singleton] at hb
    have hval := congrArg UInt8.toNat hb
    rw [toNat_ofNat (by omega)] at hval
    have heq : c = '\n' := Char.ext (UInt32.toNat_inj.mp hval.symm)
    exact h (heq ▸ hc)
  · have := encodeChar_foreign hge hb
    revert this
    decide

theorem encode_lf : encode ['\n'] = [newline] := by decide

theorem idxOf?_line {line : List Char} (h : '\n' ∉ line) (rest : List Char) :
    (line++ '\n' :: rest).idxOf? '\n' = some line.length := by
  induction line with
  | nil => rfl
  | cons c line ih =>
    rw [List.mem_cons, not_or] at h
    rw [List.cons_append, List.idxOf?_cons, ih h.2]
    simp [Ne.symm h.1]

theorem bytes_remaining (remaining : List Char) :
    (emitRemaining remaining).flatMap Emitted.bytes = encode remaining := by
  unfold emitRemaining
  split
  · exact List.append_nil _
  · rename_i h
    rw [List.length_pos_iff, not_not] at h
    rw [h]
    rfl

def settled (line : List Char) (rest : Bytes) : Bytes :=
  (if parses line then [] else encode line++[newline])++encode (decode rest)

theorem onData_waiting {buf : List Char} {chunk : Bytes} (hbuf : '\n' ∉ buf)
    (h : newline ∉ chunk) : onData ⟨false,buf⟩ chunk = (⟨false,buf++decode chunk⟩,[]) := by
  have hnone : (buf++decode chunk).idxOf? '\n' = none := by
    rw [List.idxOf?_eq_none_iff, List.mem_append]
    exact not_or.mpr ⟨hbuf,decode_newline h⟩
  unfold onData
  simp only [hnone, Bool.false_eq_true, if_false]

theorem onData_complete {buf : List Char} {chunk : Bytes} (hbuf : '\n' ∉ buf)
    (h : newline ∈ chunk) :
    (onData ⟨false,buf⟩ chunk).1 = ⟨true,[]⟩ ∧
      (onData ⟨false,buf⟩ chunk).2.flatMap Emitted.bytes =
        settled (buf++decode (firstLine chunk)) (afterNewline chunk) := by
  have hline : '\n' ∉ buf++decode (firstLine chunk) := by
    rw [List.mem_append]
    exact not_or.mpr ⟨hbuf,decode_newline (newline_notMem_firstLine chunk)⟩
  have htext : buf++decode chunk =
      (buf++decode (firstLine chunk))++ '\n' :: decode (afterNewline chunk) := by
    conv_lhs => rw [← chunk_eq h]
    rw [decode_append_ascii (by decide), List.append_assoc]
    rfl
  have hidx := idxOf?_line hline (decode (afterNewline chunk))
  rw [← htext] at hidx
  have htake : (buf++decode chunk).take (buf++decode (firstLine chunk)).length =
      buf++decode (firstLine chunk) := by
    rw [htext, List.take_left]
  have hdrop : (buf++decode chunk).drop ((buf++decode (firstLine chunk)).length+1) =
      decode (afterNewline chunk) := by
    rw [htext, ← List.drop_drop, List.drop_left]
    rfl
  unfold onData settled
  simp only [hidx, htake, hdrop, Bool.false_eq_true, if_false]
  split
  · refine ⟨rfl,?_⟩
    rw [List.flatMap_cons, bytes_remaining]
    rfl
  · refine ⟨rfl,?_⟩
    rw [List.flatMap_cons, List.flatMap_cons, bytes_remaining, encode_append, encode_lf]
    rfl

theorem onChunks_acked (chunks : List Bytes) :
    (onChunks ⟨true,[]⟩ chunks).2.flatMap Emitted.bytes = chunks.flatten := by
  induction chunks with
  | nil => rfl
  | cons chunk chunks ih =>
    rw [onChunks, List.flatMap_append, List.flatten_cons]
    refine congrArg₂ (· ++ ·) (List.append_nil _) ?_
    exact ih

theorem onChunks_bytes {buf : List Char} {chunks : List Bytes} (hbuf : '\n' ∉ buf)
    (h : newline ∈ chunks.flatten) :
    (onChunks ⟨false,buf⟩ chunks).2.flatMap Emitted.bytes =
      settled (buf++(linePieces chunks).flatMap decode) (remainder chunks)++
        (later chunks).flatten := by
  induction chunks generalizing buf with
  | nil => cases h
  | cons chunk chunks ih =>
    rw [onChunks, List.flatMap_append]
    unfold linePieces remainder later
    rw [atNewline]
    split
    · rename_i hmem
      obtain ⟨hstate,hbytes⟩ := onData_complete hbuf hmem
      rw [hstate, hbytes, onChunks_acked, List.flatMap_singleton]
    · rename_i hmem
      rw [List.flatten_cons, List.mem_append] at h
      rw [onData_waiting hbuf hmem, ih _ (h.resolve_left hmem), List.append_assoc]
      · rfl
      · rw [List.mem_append]
        exact not_or.mpr ⟨hbuf,decode_newline hmem⟩

theorem handedOver_eq {chunks : List Bytes} (h : newline ∈ chunks.flatten) :
    handedOver chunks =
      settled ((linePieces chunks).flatMap decode) (remainder chunks)++(later chunks).flatten :=
  onChunks_bytes List.not_mem_nil h

theorem cut_unique {a b x y : Bytes} (ha : newline ∉ a) (hb : newline ∉ b)
    (h : a++newline :: x = b++newline :: y) : a = b ∧ x = y := by
  refine ⟨?_,?_⟩
  · rw [← firstLine_append ha x, h, firstLine_append hb]
  · rw [← afterNewline_append ha x, h, afterNewline_append hb]

theorem newline_notMem_line (chunks : List Bytes) :
    '\n' ∉ (linePieces chunks).flatMap decode := by
  intro hmem
  obtain ⟨piece,hpiece,hc⟩ := List.mem_flatMap.mp hmem
  exact decode_newline (newline_notMem_pieces chunks piece hpiece) hc

theorem outline_line {chunks : List Bytes} (h : newline ∈ chunks.flatten) :
    outline (String.ofList ((linePieces chunks).flatMap decode)).toList =
      outline (String.ofList (decode (firstLine chunks.flatten))).toList := by
  rw [String.toList_ofList, String.toList_ofList, firstLine_flatten h, outline_decode_pieces]

theorem parses_of_acknowledges {chunks : List Bytes} (h : newline ∈ chunks.flatten)
    (hack : acknowledges (firstLine chunks.flatten) = true) :
    parses ((linePieces chunks).flatMap decode) = true := by
  unfold acknowledges at hack
  split at hack
  · cases hack
  · rename_i v hv
    obtain ⟨w,hw,hnull⟩ := parse_outline hv (outline_line h).symm
    unfold parses
    rw [hw]
    split
    · rename_i heq
      cases heq
    · rename_i heq
      rw [hnull.mpr (Option.some_inj.mp heq)] at hack
      cases hack
    · rfl

theorem parses_of_not_isJson {chunks : List Bytes} (h : newline ∈ chunks.flatten)
    (hjson : isJson (firstLine chunks.flatten) = false) :
    parses ((linePieces chunks).flatMap decode) = false := by
  have hnone := (parse_outline_none (outline_line h)).mpr
    (Option.isNone_iff_eq_none.mp (Option.isSome_eq_false_iff.mp hjson))
  unfold parses
  rw [hnone]

/-- The reader gets the bytes of the stream exactly when what the chunk with
the newline holds behind it is whole characters and, for a first line that is
data, so is every piece of this line. -/
theorem transparent_iff (chunks : List Bytes) (h : newline ∈ chunks.flatten) :
    Transparent chunks ↔
      (acknowledges (firstLine chunks.flatten) = true → WellFormed (remainder chunks)) ∧
      (isJson (firstLine chunks.flatten) = false →
        (∀ piece ∈ linePieces chunks, WellFormed piece) ∧ WellFormed (remainder chunks)) := by
  have hhanded := handedOver_eq h
  refine and_congr ?_ ?_
  · refine imp_congr_right fun hack => ?_
    rw [hhanded, settled, if_pos (parses_of_acknowledges h hack), afterNewline_flatten h,
      List.append_left_inj]
    rfl
  · refine imp_congr_right fun hjson => ?_
    have hline := encode_newline (newline_notMem_line chunks)
    have hflat : newline ∉ (linePieces chunks).flatten := by
      intro hmem
      obtain ⟨piece,hpiece,hb⟩ := List.mem_flatten.mp hmem
      exact newline_notMem_pieces chunks piece hpiece hb
    rw [hhanded, settled, if_neg (by rw [parses_of_not_isJson h hjson]; exact Bool.false_ne_true)]
    conv_lhs => rw [flatten_eq h]
    simp only [List.append_assoc, List.cons_append, List.nil_append]
    constructor
    · intro heq
      obtain ⟨hpieces,hrest⟩ := cut_unique hline hflat heq
      exact ⟨(encode_pieces_iff _).mp hpieces,List.append_cancel_right hrest⟩
    · rintro ⟨hpieces,hrest⟩
      rw [(encode_pieces_iff _).mpr hpieces, hrest]

def acknowledgement : Bytes :=
  [0x7B,0x22,0x6F,0x6B,0x22,0x3A,0x74,0x72,0x75,0x65,0x7D,newline]

theorem transparent_whole_letter :
    Transparent [acknowledgement++[0xC3,0xA9]] ↔
      (acknowledges (firstLine [acknowledgement++[0xC3,0xA9]].flatten) = true →
        WellFormed (remainder [acknowledgement++[0xC3,0xA9]])) ∧
      (isJson (firstLine [acknowledgement++[0xC3,0xA9]].flatten) = false →
        (∀ piece ∈ linePieces [acknowledgement++[0xC3,0xA9]], WellFormed piece) ∧
          WellFormed (remainder [acknowledgement++[0xC3,0xA9]])) :=
  transparent_iff [acknowledgement++[0xC3,0xA9]] (by decide)

/-- The chunk of the acknowledgement ends inside a letter. -/
theorem letter_behind_acknowledgement :
    acknowledges (firstLine ([acknowledgement++[0xC3],[0xA9]] : List Bytes).flatten) = true ∧
    ¬Transparent [acknowledgement++[0xC3],[0xA9]] := by
  have hack : acknowledges
      (firstLine ([acknowledgement++[0xC3],[0xA9]] : List Bytes).flatten) = true := by decide
  refine ⟨hack,fun h => ?_⟩
  have hsame := h.1 hack
  revert hsame
  decide

end Iotistica.SocketHandover
