import Iotistica.CopyFormat
import Iotistica.JsonText

/-!
# Readings as COPY lines

A reading is written as one line of twelve columns. An absent time, quality or
extra payload has a default; the last two JSON columns take a text that was
printed before, or print the value, so that a null there becomes the text
`null` and no absent column. A date that is none cannot be written at all.
-/

set_option autoImplicit false

namespace Iotistica.CopyReadings
open Iotistica.JsonText Iotistica.CopyFormat
open Iotistica.CopyText (escapeCopyText joinTabs copyLine)

inductive JsNumber where
  | finite (d : Decimal)
  | nan
  | infinity (negative : Bool)

def numberString : JsNumber → List Char
  | .finite d => numberText d
  | .nan => "NaN".toList
  | .infinity negative => if negative then "-Infinity".toList else "Infinity".toList

/-- Milliseconds since 1970, as far as dates go. -/
structure DateValue where
  ms : ℤ
  bound : ms.natAbs ≤ 8640000000000000

inductive Field where
  | undefined
  | null
  | number (n : JsNumber)
  | bool (b : Bool)
  | string (s : String)
  /-- None is the invalid date. -/
  | date (d : Option DateValue)
  /-- An array or an object. -/
  | object (v : Value)

def Field.orDefault (f default : Field) : Field :=
  match f with
  | .undefined => default
  | _ => f

/-- The operator `??`. -/
def Field.coalesce (f g : Field) : Field :=
  match f with
  | .undefined => g
  | .null => g
  | _ => f

/-- Year, month and day of a day since 1970, by eras of 400 years that start
in March. -/
def civilDate (days : ℤ) : ℤ × ℤ × ℤ :=
  let z := days+719468
  let era := z/146097
  let dayOfEra := z%146097
  let yearOfEra := (dayOfEra-dayOfEra/1460+dayOfEra/36524-dayOfEra/146096)/365
  let dayOfYear := dayOfEra-(365*yearOfEra+yearOfEra/4-yearOfEra/100)
  let monthFromMarch := (5*dayOfYear+2)/153
  let day := dayOfYear-(153*monthFromMarch+2)/5+1
  let month := if monthFromMarch < 10 then monthFromMarch+3 else monthFromMarch-9
  (yearOfEra+400*era+(if month ≤ 2 then 1 else 0),month,day)

def padded (width : ℕ) (n : ℤ) : List Char :=
  let digits := Nat.toDigits 10 n.natAbs
  List.replicate (width-digits.length) '0'++digits

def yearText (y : ℤ) : List Char :=
  if 0 ≤ y ∧ y ≤ 9999 then padded 4 y
  else (if 0 ≤ y then '+' else '-')::padded 6 y

def toISOString (d : DateValue) : List Char :=
  let date := civilDate (d.ms/86400000)
  let ms := d.ms%86400000
  yearText date.1++ '-'::(padded 2 date.2.1++ '-'::(padded 2 date.2.2++ 'T'::
    (padded 2 (ms/3600000)++ ':'::(padded 2 (ms/60000%60)++ ':'::
      (padded 2 (ms/1000%60)++ '.'::(padded 3 (ms%1000)++['Z']))))))

example : String.ofList (toISOString ⟨1709210096789,by decide⟩) = "2024-02-29T12:34:56.789Z" := by
  decide
example : String.ofList (toISOString ⟨-8640000000000000,by decide⟩) =
    "-271821-04-20T00:00:00.000Z" := by
  decide

/-- `JSON.stringify`; undefined has no text. -/
def jsonText : Field → Option (List Char)
  | .undefined => none
  | .null => some (print .null)
  | .number (.finite d) => some (print (.num d))
  | .number _ => some (print .null)
  | .bool b => some (print (.bool b))
  | .string s => some (print (.str s))
  | .date none => some (print .null)
  | .date (some d) => some (print (.str (String.ofList (toISOString d))))
  | .object v => some (print v)

def jsonField (f : Field) : Field :=
  match jsonText f with
  | none => .undefined
  | some text => .string (String.ofList text)

def Field.isUndefined : Field → Bool
  | .undefined => true
  | _ => false

structure ReadingInsert where
  agent_uuid : Field
  metric_name : Field
  value : Field
  quality : Field
  unit : Field
  protocol : Field
  extra : Field
  extraJson : Field
  detectionMethodsJson : Field
  time : Field
  anomaly_score : Field
  anomaly_threshold : Field
  baseline_samples : Field
  detection_methods : Field

/-- The text of an invalid date throws. -/
def copyValue : Field → Option (List Char)
  | .undefined => some ['\\', 'N']
  | .null => some ['\\', 'N']
  | .date none => none
  | .date (some d) => some (escapeCopyText (toISOString d))
  | .string s => some (escapeCopyText s.toList)
  | .number n => some (escapeCopyText (numberString n))
  | .bool b => some (escapeCopyText (if b then "true".toList else "false".toList))
  | .object v => some (escapeCopyText (print v))

def copyFields (now : DateValue) (r : ReadingInsert) : List Field :=
  [r.time.orDefault (.date (some now)),
    r.agent_uuid,
    r.metric_name,
    r.value,
    r.quality.orDefault (.string "good"),
    r.unit.orDefault .null,
    r.protocol,
    r.extraJson.coalesce (jsonField (r.extra.orDefault (.object (.obj [])))),
    if r.anomaly_score.isUndefined then .null else r.anomaly_score,
    if r.anomaly_threshold.isUndefined then .null else r.anomaly_threshold,
    if r.baseline_samples.isUndefined then .null else r.baseline_samples,
    r.detectionMethodsJson.coalesce
      (if r.detection_methods.isUndefined then .null else jsonField r.detection_methods)]

def toCopyLine (now : DateValue) (r : ReadingInsert) : Option (List Char) :=
  ((copyFields now r).mapM copyValue).map (fun texts => joinTabs texts++['\n'])

def columnText : Field → Option String
  | .undefined => none
  | .null => none
  | .number n => some (String.ofList (numberString n))
  | .bool b => some (if b then "true" else "false")
  | .string s => some s
  | .date none => some "Invalid Date"
  | .date (some d) => some (String.ofList (toISOString d))
  | .object v => some (stringify v)

/-- The text that was printed before, or else the text of the value;
`nullText` is what a null value leaves. -/
def jsonColumn (nullText : Option String) (before value : Field) : Option String :=
  match before, value with
  | .undefined, .null => nullText
  | .null, .null => nullText
  | .undefined, f => (jsonText f).map String.ofList
  | .null, f => (jsonText f).map String.ofList
  | text, _ => columnText text

def columns (nullText : Option String) (now : DateValue) (r : ReadingInsert) :
    List (Option String) :=
  [columnText (r.time.orDefault (.date (some now))),
    columnText r.agent_uuid,
    columnText r.metric_name,
    columnText r.value,
    columnText (r.quality.orDefault (.string "good")),
    columnText r.unit,
    columnText r.protocol,
    jsonColumn nullText r.extraJson (r.extra.orDefault (.object (.obj []))),
    columnText r.anomaly_score,
    columnText r.anomaly_threshold,
    columnText r.baseline_samples,
    jsonColumn nullText r.detectionMethodsJson r.detection_methods]

def ReadingInsert.fields (r : ReadingInsert) : List Field :=
  [r.agent_uuid,r.metric_name,r.value,r.quality,r.unit,r.protocol,r.extra,r.extraJson,
    r.detectionMethodsJson,r.time,r.anomaly_score,r.anomaly_threshold,r.baseline_samples,
    r.detection_methods]

def NulFreeStrings (r : ReadingInsert) : Prop := ∀ s, .string s ∈ r.fields → nul ∉ s.toList

def ValidDates (r : ReadingInsert) : Prop := .date none ∉ r.fields

/-- Every line reads back as the one row of its reading, and all lines after
one another as the rows in order; each reading comes with the time at which it
is written. -/
def Lossless (nullText : Option String) (batch : List (DateValue × ReadingInsert)) : Prop :=
  ∃ lines : List (List Char), batch.mapM (fun x => toCopyLine x.1 x.2) = some lines ∧
    lines.map readCopy = batch.map (fun x => some [columns nullText x.1 x.2]) ∧
    (∀ x ∈ batch, (columns nullText x.1 x.2).length = 12) ∧
    readCopy lines.flatten = some (batch.map (fun x => columns nullText x.1 x.2))

theorem ne_nul_of_isDigit {c : Char} (h : c.isDigit = true) : c ≠ nul := by
  rintro rfl
  exact absurd h (by decide)

theorem nul_not_mem_toDigits (n : ℕ) : nul ∉ Nat.toDigits 10 n :=
  fun h => ne_nul_of_isDigit (isDigit_toDigits h) rfl

theorem nul_not_mem_zeros (n : ℕ) : nul ∉ zeros n :=
  fun h => ne_nul_of_isDigit (isDigit_zeros h) rfl

theorem nul_not_mem_exponentText (e : ℤ) : nul ∉ exponentText e := by
  have he : nul ≠ 'e' := by decide
  have hs : nul ≠ (if 0 ≤ e then '+' else '-') := by
    split
    · decide
    · decide
  simp [exponentText, he, hs, nul_not_mem_toDigits]

theorem nul_not_mem_magnitudeText (m : ℕ) (e : ℤ) : nul ∉ magnitudeText m e := by
  have hd := nul_not_mem_toDigits m
  have htake : ∀ n, nul ∉ (Nat.toDigits 10 m).take n := fun n h => hd (List.mem_of_mem_take h)
  have hdrop : ∀ n, nul ∉ (Nat.toDigits 10 m).drop n := fun n h => hd (List.mem_of_mem_drop h)
  have hpoint : nul ≠ '.' := by decide
  have hzero : nul ≠ '0' := by decide
  unfold magnitudeText
  dsimp only
  split_ifs <;>
    simp only [List.mem_append, List.mem_cons, hd, htake, hdrop, hpoint, hzero, nul_not_mem_zeros,
      nul_not_mem_exponentText, List.not_mem_nil, or_self, not_false_eq_true]

theorem nul_not_mem_numberText (d : Decimal) : nul ∉ numberText d := by
  have hminus : nul ≠ '-' := by decide
  unfold numberText
  split <;> simp [nul_not_mem_magnitudeText, hminus]

theorem nul_not_mem_numberString (n : JsNumber) : nul ∉ numberString n := by
  cases n with
  | finite d => exact nul_not_mem_numberText d
  | nan => decide
  | infinity negative => cases negative <;> decide

theorem nul_not_mem_quote (s : String) : nul ∉ quote s := by
  have hq : nul ≠ '"' := by decide
  have hhex : ∀ n < 16, nul ≠ ByteText.hexChar n := by decide
  have hc : ∀ c, nul ∉ JsonText.escapeChar c := by
    intro c
    unfold JsonText.escapeChar
    split_ifs with h1 h2 h3 h4 h5 h6 h7 h8
    · decide
    · decide
    · decide
    · decide
    · decide
    · decide
    · decide
    · have hhigh := hhex (c.toNat/16) (by omega)
      have hlow := hhex (c.toNat%16) (by omega)
      have hb : nul ≠ '\\' ∧ nul ≠ 'u' ∧ nul ≠ '0' := by decide
      simp [hhigh, hlow, hb.1, hb.2.1, hb.2.2]
    · intro h
      rw [List.mem_singleton] at h
      exact h8 (by rw [← h]; decide)
  simp [quote, hq, hc]

mutual
theorem nul_not_mem_print : ∀ v : Value, nul ∉ print v
  | .null => by decide
  | .bool true => by decide
  | .bool false => by decide
  | .num d => nul_not_mem_numberText d
  | .str s => nul_not_mem_quote s
  | .arr [] => by decide
  | .arr (v::vs) => by
    have hb : nul ≠ '[' := by decide
    simp [print, hb, nul_not_mem_print v, nul_not_mem_printItems vs]
  | .obj [] => by decide
  | .obj ((k,v)::ms) => by
    have hb : nul ≠ '\x7b' ∧ nul ≠ ':' := by decide
    simp [print, hb.1, hb.2, nul_not_mem_quote k, nul_not_mem_print v, nul_not_mem_printMembers ms]

theorem nul_not_mem_printItems : ∀ vs : List Value, nul ∉ printItems vs
  | [] => by decide
  | v::vs => by
    have hb : nul ≠ ',' := by decide
    simp [printItems, hb, nul_not_mem_print v, nul_not_mem_printItems vs]

theorem nul_not_mem_printMembers : ∀ ms : Members, nul ∉ printMembers ms
  | [] => by decide
  | (k,v)::ms => by
    have hb : nul ≠ ',' ∧ nul ≠ ':' := by decide
    simp [printMembers, hb.1, hb.2, nul_not_mem_quote k, nul_not_mem_print v,
      nul_not_mem_printMembers ms]
end

theorem nul_not_mem_padded (width : ℕ) (n : ℤ) : nul ∉ padded width n := by
  have hzero : nul ≠ '0' := by decide
  simp [padded, nul_not_mem_toDigits, hzero]

theorem nul_not_mem_toISOString (d : DateValue) : nul ∉ toISOString d := by
  have hyear : ∀ y, nul ∉ yearText y := by
    intro y
    have hsign : nul ≠ '+' ∧ nul ≠ '-' := by decide
    unfold yearText
    split_ifs <;> simp [nul_not_mem_padded, hsign.1, hsign.2]
  have hsep : nul ≠ '-' ∧ nul ≠ 'T' ∧ nul ≠ ':' ∧ nul ≠ '.' ∧ nul ≠ 'Z' := by decide
  obtain ⟨h1,h2,h3,h4,h5⟩ := hsep
  simp [toISOString, hyear, nul_not_mem_padded, h1, h2, h3, h4, h5]

theorem columnText_nulFree {f : Field} (h : ∀ s, f = .string s → nul ∉ s.toList) :
    NulFree (columnText f) := by
  intro text ht
  cases f with
  | undefined => cases ht
  | null => cases ht
  | number n =>
    cases ht
    simpa using nul_not_mem_numberString n
  | bool b =>
    cases ht
    cases b <;> decide
  | string s =>
    cases ht
    exact h _ rfl
  | date d =>
    cases d with
    | none =>
      cases ht
      decide
    | some d =>
      cases ht
      simpa using nul_not_mem_toISOString d
  | object v =>
    cases ht
    simpa [stringify] using nul_not_mem_print v

theorem jsonText_nulFree {f : Field} {text : List Char} (h : jsonText f = some text) :
    nul ∉ text := by
  cases f with
  | undefined => cases h
  | null =>
    cases h
    decide
  | number n =>
    cases n with
    | finite d =>
      cases h
      exact nul_not_mem_print _
    | nan =>
      cases h
      decide
    | infinity negative =>
      cases h
      decide
  | bool b =>
    cases h
    exact nul_not_mem_print _
  | string s =>
    cases h
    exact nul_not_mem_print _
  | date d =>
    cases d with
    | none =>
      cases h
      decide
    | some d =>
      cases h
      exact nul_not_mem_print _
  | object v =>
    cases h
    exact nul_not_mem_print v

theorem copyValue_eq {f : Field} (h : f ≠ .date none) :
    copyValue f = some (CopyText.copyValue (columnText f)) := by
  cases f with
  | undefined => rfl
  | null => rfl
  | number n => simp [copyValue, CopyText.copyValue, columnText]
  | bool b => cases b <;> rfl
  | string s => rfl
  | date d =>
    cases d with
    | none => exact absurd rfl h
    | some d => simp [copyValue, CopyText.copyValue, columnText]
  | object v => simp [copyValue, CopyText.copyValue, columnText, stringify]

theorem mapM_copyValue {fields : List Field} (h : .date none ∉ fields) :
    fields.mapM copyValue = some (fields.map (fun f => CopyText.copyValue (columnText f))) := by
  induction fields with
  | nil => rfl
  | cons f fields ih =>
    obtain ⟨hf,hfs⟩ := List.ne_and_not_mem_of_not_mem_cons h
    simp [copyValue_eq (Ne.symm hf), ih hfs]

theorem columnText_jsonField (f : Field) :
    columnText (jsonField f) = (jsonText f).map String.ofList := by
  unfold jsonField
  cases jsonText f with
  | none => rfl
  | some text => rfl

theorem columnText_coalesce (before value : Field) :
    columnText (before.coalesce (jsonField value)) = jsonColumn (some "null") before value := by
  cases before with
  | undefined =>
    show columnText (jsonField value) = _
    rw [columnText_jsonField]
    cases value <;> rfl
  | null =>
    show columnText (jsonField value) = _
    rw [columnText_jsonField]
    cases value <;> rfl
  | _ => rfl

theorem columns_eq (now : DateValue) (r : ReadingInsert) :
    (copyFields now r).map columnText = columns (some "null") now r := by
  have hunit : columnText (r.unit.orDefault .null) = columnText r.unit := by
    cases r.unit <;> rfl
  have hscore : ∀ f : Field, columnText (if f.isUndefined then .null else f) = columnText f := by
    intro f
    cases f <;> rfl
  have hmethods : columnText (r.detectionMethodsJson.coalesce
      (if r.detection_methods.isUndefined then .null else jsonField r.detection_methods)) =
      jsonColumn (some "null") r.detectionMethodsJson r.detection_methods := by
    rw [← columnText_coalesce]
    cases r.detection_methods with
    | undefined => cases r.detectionMethodsJson <;> rfl
    | _ => rfl
  simp only [copyFields, columns, List.map_cons, List.map_nil, hunit, hscore, hmethods,
    columnText_coalesce]

theorem copyFields_valid {r : ReadingInsert} (h : ValidDates r) (now : DateValue) :
    .date none ∉ copyFields now r := by
  have hdefault : ∀ f d : Field, f ∈ r.fields → d ≠ .date none → f.orDefault d ≠ .date none := by
    intro f d hf hd he
    cases f with
    | undefined => exact hd he
    | _ => exact h (he ▸ hf)
  have hjson : ∀ f : Field, jsonField f ≠ .date none := by
    intro f
    unfold jsonField
    split <;> simp
  have hcoalesce : ∀ f g : Field, f ∈ r.fields → g ≠ .date none → f.coalesce g ≠ .date none := by
    intro f g hf hg he
    cases f with
    | undefined => exact hg he
    | null => exact hg he
    | _ => exact h (he ▸ hf)
  have hscore : ∀ f : Field, f ∈ r.fields →
      (if f.isUndefined then .null else f) ≠ .date none := by
    intro f hf he
    split at he
    · cases he
    · exact h (he ▸ hf)
  have hfield : ∀ f : Field, f ∈ r.fields → f ≠ .date none := fun f hf he => h (he ▸ hf)
  have hmethods : (if r.detection_methods.isUndefined then .null
      else jsonField r.detection_methods) ≠ .date none := by
    split
    · simp
    · exact hjson _
  simp only [ReadingInsert.fields, List.mem_cons, List.not_mem_nil, or_false] at hdefault hcoalesce hscore hfield
  simp only [copyFields, List.mem_cons, List.not_mem_nil, or_false, not_or]
  refine ⟨Ne.symm (hdefault _ _ (by simp) (by simp)),Ne.symm (hfield _ (by simp)),
    Ne.symm (hfield _ (by simp)),Ne.symm (hfield _ (by simp)),
    Ne.symm (hdefault _ _ (by simp) (by simp)),Ne.symm (hdefault _ _ (by simp) (by simp)),
    Ne.symm (hfield _ (by simp)),Ne.symm (hcoalesce _ _ (by simp) (hjson _)),
    Ne.symm (hscore _ (by simp)),Ne.symm (hscore _ (by simp)),Ne.symm (hscore _ (by simp)),
    Ne.symm (hcoalesce _ _ (by simp) hmethods)⟩

theorem toCopyLine_eq {r : ReadingInsert} (h : ValidDates r) (now : DateValue) :
    toCopyLine now r = some (copyLine (columns (some "null") now r)) := by
  unfold toCopyLine
  rw [mapM_copyValue (copyFields_valid h now), Option.map_some, ← columns_eq, copyLine,
    List.map_map]
  rfl

theorem jsonColumn_nulFree {before : Field} (value : Field)
    (h : ∀ s, before = .string s → nul ∉ s.toList) :
    NulFree (jsonColumn (some "null") before value) := by
  rw [← columnText_coalesce]
  apply columnText_nulFree
  intro s hs
  have hjson : jsonField value = .string s → nul ∉ s.toList := by
    intro hj
    unfold jsonField at hj
    split at hj
    · cases hj
    · rename_i text ht
      cases hj
      simpa using jsonText_nulFree ht
  cases before with
  | undefined => exact hjson hs
  | null => exact hjson hs
  | _ => exact h s hs

theorem columns_nulFree {r : ReadingInsert} (h : NulFreeStrings r) (now : DateValue) :
    ∀ c ∈ columns (some "null") now r, NulFree c := by
  have hdefault : ∀ f d : Field, f ∈ r.fields → (∀ s, d = .string s → nul ∉ s.toList) →
      NulFree (columnText (f.orDefault d)) := by
    intro f d hf hd
    apply columnText_nulFree
    intro s hs
    cases f with
    | undefined => exact hd s hs
    | _ => exact h s (hs ▸ hf)
  have hfield : ∀ f : Field, f ∈ r.fields → NulFree (columnText f) :=
    fun f hf => columnText_nulFree (fun s hs => h s (hs ▸ hf))
  have hjson : ∀ f value : Field, f ∈ r.fields → NulFree (jsonColumn (some "null") f value) :=
    fun f value hf => jsonColumn_nulFree value (fun s hs => h s (hs ▸ hf))
  have hgood : ∀ s, Field.string "good" = .string s → nul ∉ s.toList := by
    intro s hs
    cases hs
    decide
  simp only [ReadingInsert.fields, List.mem_cons, List.not_mem_nil, or_false] at hdefault hfield hjson
  simp only [columns, List.forall_mem_cons, List.not_mem_nil, false_implies, implies_true, and_true]
  refine ⟨hdefault _ _ (by simp) (by simp),hfield _ (by simp),hfield _ (by simp),
    hfield _ (by simp),hdefault _ _ (by simp) hgood,hfield _ (by simp),hfield _ (by simp),
    hjson _ _ (by simp),hfield _ (by simp),hfield _ (by simp),hfield _ (by simp),
    hjson _ _ (by simp)⟩

theorem columns_ne_nil (nullText : Option String) (now : DateValue) (r : ReadingInsert) :
    columns nullText now r ≠ [] := by
  simp [columns]

theorem mapM_toCopyLine {batch : List (DateValue × ReadingInsert)}
    (h : ∀ x ∈ batch, ValidDates x.2) :
    batch.mapM (fun x => toCopyLine x.1 x.2) =
      some (batch.map (fun x => copyLine (columns (some "null") x.1 x.2))) := by
  induction batch with
  | nil => rfl
  | cons x batch ih =>
    have ih' := ih (fun y hy => h y (List.mem_cons_of_mem _ hy))
    simp [toCopyLine_eq (h x List.mem_cons_self), ih']

theorem readCopy_line {r : ReadingInsert} (h : NulFreeStrings r) (now : DateValue) :
    readCopy (copyLine (columns (some "null") now r)) = some [columns (some "null") now r] := by
  have hrows : ∀ row ∈ [columns (some "null") now r], row ≠ [] ∧ ∀ f ∈ row, NulFree f := by
    intro row hrow
    rw [List.mem_singleton.mp hrow]
    exact ⟨columns_ne_nil _ _ _,columns_nulFree h now⟩
  have hread := readCopy_copyLines (fun row hrow => (hrows row hrow).1)
    (fun row hrow => (hrows row hrow).2)
  rwa [List.flatMap_cons, List.flatMap_nil, List.append_nil] at hread

/-- A null value of a JSON column becomes the text `null`. -/
theorem copy_lossless (batch : List (DateValue × ReadingInsert))
    (hdates : ∀ x ∈ batch, ValidDates x.2) (hnul : ∀ x ∈ batch, NulFreeStrings x.2) :
    Lossless (some "null") batch := by
  refine ⟨_,mapM_toCopyLine hdates,?_,fun x _ => rfl,?_⟩
  · rw [List.map_map]
    apply List.map_congr_left
    intro x hx
    exact readCopy_line (hnul x hx) x.1
  · rw [← List.flatMap_def, ← List.flatMap_map]
    apply readCopy_copyLines
    · intro row hrow
      obtain ⟨x,-,rfl⟩ := List.mem_map.mp hrow
      exact columns_ne_nil _ _ _
    · intro row hrow
      obtain ⟨x,hx,rfl⟩ := List.mem_map.mp hrow
      exact columns_nulFree (hnul x hx) x.1

def epoch : DateValue := ⟨0,by decide⟩

def plainReading : ReadingInsert where
  agent_uuid := .string "a"
  metric_name := .string "m\\N"
  value := .null
  quality := .undefined
  unit := .null
  protocol := .string "mqtt"
  extra := .undefined
  extraJson := .undefined
  detectionMethodsJson := .undefined
  time := .date (some epoch)
  anomaly_score := .undefined
  anomaly_threshold := .undefined
  baseline_samples := .undefined
  detection_methods := .undefined

theorem nulFree_plain {r : ReadingInsert}
    (h : ∀ s, .string s ∈ r.fields → s ∈ ["a","m\\N","mqtt"]) : NulFreeStrings r := by
  have hall : ∀ s ∈ ["a","m\\N","mqtt"], nul ∉ s.toList := by decide
  exact fun s hs => hall s (h s hs)

theorem plainReading_lossless : Lossless (some "null") [(epoch,plainReading)] := by
  apply copy_lossless
  · intro x hx
    rw [List.mem_singleton.mp hx]
    simp [ValidDates, ReadingInsert.fields, plainReading]
  · intro x hx
    rw [List.mem_singleton.mp hx]
    exact nulFree_plain (by simp [ReadingInsert.fields, plainReading])

/-- A null among the detection methods is stored as a text, and an invalid
date has no line. -/
theorem null_methods_kept :
    (¬∀ batch : List (DateValue × ReadingInsert), (∀ x ∈ batch, ValidDates x.2) →
      (∀ x ∈ batch, NulFreeStrings x.2) → Lossless none batch) ∧
    ¬∀ batch : List (DateValue × ReadingInsert),
      (∀ x ∈ batch, NulFreeStrings x.2) → Lossless (some "null") batch := by
  have hfree : ∀ methods time : Field, (∀ s, methods ≠ .string s) → (∀ s, time ≠ .string s) →
      NulFreeStrings { plainReading with detection_methods := methods, time := time } := by
    intro methods time hm ht
    apply nulFree_plain
    intro s hs
    simpa [ReadingInsert.fields, plainReading, Ne.symm (hm s), Ne.symm (ht s)] using hs
  constructor
  · intro h
    let r : ReadingInsert := { plainReading with detection_methods := .null }
    have hdates : ValidDates r := by simp [ValidDates, ReadingInsert.fields, plainReading, r]
    have hr : NulFreeStrings r := hfree .null _ (by simp) (by simp [plainReading])
    obtain ⟨lines,hl,hread,-,-⟩ := h [(epoch,r)] (by simpa using hdates) (by simpa using hr)
    rw [mapM_toCopyLine (by simpa using hdates)] at hl
    cases hl
    have hone : readCopy (copyLine (columns (some "null") epoch r)) =
        some [columns none epoch r] := by simpa using hread
    rw [readCopy_line hr epoch] at hone
    simp [columns, jsonColumn, r, plainReading] at hone
  · intro h
    obtain ⟨lines,hl,-⟩ := h [(epoch,{ plainReading with time := .date none })]
      (by simpa using hfree _ (.date none) (by simp [plainReading]) (by simp))
    cases hl

end Iotistica.CopyReadings
