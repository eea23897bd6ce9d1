import Iotistica.JsonText

/-!
# JSON values in the runtime

The runtime reads a numeral as a double and prints the shortest decimal that
reads as the same one, or `null` for an infinite one. It holds the members
that are named like the places of an array before the others, in ascending
order. Two values are the same if their numbers are the same doubles and
their objects have the same members in any order.
-/

set_option autoImplicit false

namespace Iotistica.JsonDoubles
open Iotistica.JsonText

structure Doubles (D : Type*) where
  nearest : Decimal → D
  shown : D → Option Decimal
  nearest_shown : ∀ x d, shown x = some d → nearest d = x

def exactDoubles : Doubles Decimal := ⟨id,some,fun _ _ h => (Option.some.inj h).symm⟩

variable {D : Type*} (R : Doubles D)

def Doubles.finite (d : Decimal) : Bool := (R.shown (R.nearest d)).isSome

theorem Doubles.nearest_printed {d e : Decimal} (h : R.shown (R.nearest d) = some e) :
    R.nearest e = R.nearest d := R.nearest_shown _ e h

theorem Doubles.finite_printed {d e : Decimal} (h : R.shown (R.nearest d) = some e) :
    R.finite e = true := by
  rw [Doubles.finite, R.nearest_printed h, h]
  rfl

def arrayIndex (name : String) : Option ℕ :=
  match name.toList with
  | [] => none
  | ['0'] => some 0
  | '0' :: _ => none
  | cs =>
    if cs.all Char.isDigit then
      let n := Nat.ofDigitChars 10 cs 0
      if n < 4294967295 then some n else none
    else none

def arrange (members : Members) : Members :=
  (members.filter (fun m => (arrayIndex m.1).isSome)).insertionSort
      (fun a b => (arrayIndex a.1).getD 0 ≤ (arrayIndex b.1).getD 0) ++
    members.filter (fun m => !(arrayIndex m.1).isSome)

theorem arrange_perm (members : Members) : (arrange members).Perm members :=
  ((List.perm_insertionSort _ _).append_right _).trans (List.filter_append_perm _ members)

mutual
def printed : Value → Value
  | .num d =>
    match R.shown (R.nearest d) with
    | none => .null
    | some e => .num e
  | .arr items => .arr (printedItems items)
  | .obj members => .obj (arrange (printedMembers members))
  | v => v

def printedItems : List Value → List Value
  | [] => []
  | v :: vs => printed v :: printedItems vs

def printedMembers : Members → Members
  | [] => []
  | m :: ms => (m.1,printed m.2) :: printedMembers ms
end

theorem map_fst_printedMembers (ms : Members) :
    (printedMembers R ms).map Prod.fst = ms.map Prod.fst := by
  induction ms with
  | nil => rfl
  | cons m ms ih => rw [printedMembers, List.map_cons, List.map_cons, ih]

theorem mem_printedMembers {ms : Members} {m : String × Value} (h : m ∈ ms) :
    (m.1,printed R m.2) ∈ printedMembers R ms := by
  induction ms with
  | nil => cases h
  | cons a ms ih =>
    rw [printedMembers]
    rcases List.mem_cons.mp h with rfl | h
    · exact List.mem_cons_self
    · exact List.mem_cons_of_mem _ (ih h)

theorem filter_printedMembers (p : String → Bool) (ms : Members) :
    (printedMembers R ms).filter (fun m => p m.1) =
      printedMembers R (ms.filter (fun m => p m.1)) := by
  induction ms with
  | nil => rfl
  | cons m ms ih =>
    rw [printedMembers, List.filter_cons, List.filter_cons]
    split
    · rw [printedMembers, ih]
    · exact ih

theorem properMembers_iff (ms : Members) : ProperMembers ms ↔ ∀ m ∈ ms, Proper m.2 := by
  induction ms with
  | nil => simp [ProperMembers]
  | cons m ms ih => rw [ProperMembers, ih, List.forall_mem_cons]

theorem properItems_iff (vs : List Value) : ProperItems vs ↔ ∀ v ∈ vs, Proper v := by
  induction vs with
  | nil => simp [ProperItems]
  | cons v vs ih => rw [ProperItems, ih, List.forall_mem_cons]

theorem proper_collect {ms : Members} (h : ProperMembers ms) : Proper (.obj (collect ms)) := by
  rw [Proper]
  refine ⟨(OrderedMap.empty.assignAll ms).nodup,(properMembers_iff _).mpr fun m hm => ?_⟩
  rcases OrderedMap.of_mem_entries_assignAll _ _ hm with hm | hm
  · cases hm
  · exact (properMembers_iff ms).mp h m hm

mutual
theorem proper_printed : ∀ {v : Value}, Proper v → Proper (printed R v)
  | .null, _ => trivial
  | .bool _, _ => trivial
  | .str _, _ => trivial
  | .num d, _ => by
    rw [printed]
    split <;> exact trivial
  | .arr items, h => by
    rw [Proper] at h
    rw [printed, Proper]
    exact proper_printedItems h
  | .obj members, h => by
    rw [Proper] at h
    rw [printed, Proper]
    have hperm := arrange_perm (printedMembers R members)
    refine ⟨?_,?_⟩
    · rw [(hperm.map Prod.fst).nodup_iff, map_fst_printedMembers]
      exact h.1
    · rw [properMembers_iff]
      have hall := (properMembers_iff _).mp (proper_printedMembers h.2)
      exact fun m hm => hall m (hperm.mem_iff.mp hm)

theorem proper_printedItems : ∀ {vs : List Value}, ProperItems vs → ProperItems (printedItems R vs)
  | [], _ => trivial
  | _ :: _, h => ⟨proper_printed h.1,proper_printedItems h.2⟩

theorem proper_printedMembers : ∀ {ms : Members}, ProperMembers ms →
    ProperMembers (printedMembers R ms)
  | [], _ => trivial
  | _ :: _, h => ⟨proper_printed h.1,proper_printedMembers h.2⟩
end

structure ReadsProper (n : ℕ) : Prop where
  value : ∀ {cs x}, readValue n cs = some x → Proper x.1
  items : ∀ {cs x}, readItems n cs = some x → ProperItems x.1
  members : ∀ {cs x}, readMembers n cs = some x → ProperMembers x.1

theorem readsProper (n : ℕ) : ReadsProper n := by
  induction n with
  | zero => exact ⟨fun {_ _} h => (by cases h),fun {_ _} h => (by cases h),
    fun {_ _} h => (by cases h)⟩
  | succ n ih =>
    refine ⟨?_,?_,?_⟩
    · intro cs x h
      rw [readValue] at h
      split at h
      · obtain rfl := Option.some.inj h
        trivial
      · obtain rfl := Option.some.inj h
        trivial
      · obtain rfl := Option.some.inj h
        trivial
      · obtain ⟨y,_,rfl⟩ := Option.map_eq_some_iff.mp h
        trivial
      · split at h
        · obtain rfl := Option.some.inj h
          trivial
        · obtain ⟨y,hy,h⟩ := Option.bind_eq_some_iff.mp h
          obtain ⟨z,hz,rfl⟩ := Option.map_eq_some_iff.mp h
          exact ⟨ih.value hy,ih.items hz⟩
      · split at h
        · obtain rfl := Option.some.inj h
          exact ⟨List.nodup_nil,trivial⟩
        · obtain ⟨k,_,h⟩ := Option.bind_eq_some_iff.mp h
          obtain ⟨y,hy,h⟩ := Option.bind_eq_some_iff.mp h
          obtain ⟨z,hz,rfl⟩ := Option.map_eq_some_iff.mp h
          exact proper_collect ⟨ih.value hy,ih.members hz⟩
      · obtain ⟨y,_,rfl⟩ := Option.map_eq_some_iff.mp h
        trivial
    · intro cs x h
      rw [readItems] at h
      split at h
      · obtain rfl := Option.some.inj h
        trivial
      · obtain ⟨y,hy,h⟩ := Option.bind_eq_some_iff.mp h
        obtain ⟨z,hz,rfl⟩ := Option.map_eq_some_iff.mp h
        exact ⟨ih.value hy,ih.items hz⟩
      · cases h
    · intro cs x h
      rw [readMembers] at h
      split at h
      · obtain rfl := Option.some.inj h
        trivial
      · obtain ⟨k,_,h⟩ := Option.bind_eq_some_iff.mp h
        obtain ⟨y,hy,h⟩ := Option.bind_eq_some_iff.mp h
        obtain ⟨z,hz,rfl⟩ := Option.map_eq_some_iff.mp h
        exact ⟨ih.value hy,ih.members hz⟩
      · cases h

theorem proper_parse {text : String} {v : Value} (h : parse text = some v) : Proper v := by
  obtain ⟨x,hx,h⟩ := Option.bind_eq_some_iff.mp h
  split at h
  · obtain rfl := Option.some.inj h
    exact (readsProper _).value hx
  · cases h

mutual
def Same : Value → Value → Prop
  | .num d, w => ∃ e, w = .num e ∧ R.nearest d = R.nearest e
  | .arr items, w => ∃ items', w = .arr items' ∧ SameItems items items'
  | .obj members, w =>
    ∃ members' held, w = .obj held ∧ members'.Perm held ∧ SameMembers members members'
  | v, w => w = v

def SameItems : List Value → List Value → Prop
  | [], ws => ws = []
  | v :: vs, ws => ∃ w rest, ws = w :: rest ∧ Same v w ∧ SameItems vs rest

def SameMembers : Members → Members → Prop
  | [], ns => ns = []
  | m :: ms, ns => ∃ w rest, ns = (m.1,w) :: rest ∧ Same m.2 w ∧ SameMembers ms rest
end

mutual
def AllFinite : Value → Prop
  | .num d => R.finite d = true
  | .arr items => AllFiniteItems items
  | .obj members => AllFiniteMembers members
  | _ => True

def AllFiniteItems : List Value → Prop
  | [] => True
  | v :: vs => AllFinite v ∧ AllFiniteItems vs

def AllFiniteMembers : Members → Prop
  | [] => True
  | m :: ms => AllFinite m.2 ∧ AllFiniteMembers ms
end

theorem finiteMembers_iff (ms : Members) : AllFiniteMembers R ms ↔ ∀ m ∈ ms, AllFinite R m.2 := by
  induction ms with
  | nil => simp [AllFiniteMembers]
  | cons m ms ih => rw [AllFiniteMembers, ih, List.forall_mem_cons]

theorem finiteMembers_perm {ms ns : Members} (h : ms.Perm ns) :
    AllFiniteMembers R ms ↔ AllFiniteMembers R ns := by
  rw [finiteMembers_iff, finiteMembers_iff]
  exact ⟨fun hall m hm => hall m (h.mem_iff.mpr hm),fun hall m hm => hall m (h.mem_iff.mp hm)⟩

mutual
theorem finite_of_same : ∀ {v w : Value}, Same R v w → AllFinite R w → AllFinite R v
  | .null, _, _, _ => trivial
  | .bool _, _, _, _ => trivial
  | .str _, _, _, _ => trivial
  | .num d, w, h, hw => by
    rw [Same] at h
    obtain ⟨e,rfl,he⟩ := h
    rw [AllFinite, Doubles.finite] at hw ⊢
    rw [he]
    exact hw
  | .arr vs, w, h, hw => by
    rw [Same] at h
    obtain ⟨ws,rfl,h⟩ := h
    rw [AllFinite] at hw ⊢
    exact finite_of_sameItems h hw
  | .obj ms, w, h, hw => by
    rw [Same] at h
    obtain ⟨ns,held,rfl,hperm,h⟩ := h
    rw [AllFinite] at hw ⊢
    exact finite_of_sameMembers h ((finiteMembers_perm R hperm).mpr hw)

theorem finite_of_sameItems : ∀ {vs ws : List Value}, SameItems R vs ws → AllFiniteItems R ws →
    AllFiniteItems R vs
  | [], _, _, _ => trivial
  | _ :: _, _, h, hw => by
    rw [SameItems] at h
    obtain ⟨w,rest,rfl,hv,hvs⟩ := h
    exact ⟨finite_of_same hv hw.1,finite_of_sameItems hvs hw.2⟩

theorem finite_of_sameMembers : ∀ {ms ns : Members}, SameMembers R ms ns → AllFiniteMembers R ns →
    AllFiniteMembers R ms
  | [], _, _, _ => trivial
  | _ :: _, _, h, hw => by
    rw [SameMembers] at h
    obtain ⟨w,rest,rfl,hv,hvs⟩ := h
    exact ⟨finite_of_same hv hw.1,finite_of_sameMembers hvs hw.2⟩
end

mutual
theorem finite_printed : ∀ v : Value, AllFinite R (printed R v)
  | .null => trivial
  | .bool _ => trivial
  | .str _ => trivial
  | .num d => by
    rw [printed]
    split
    · trivial
    · rename_i e he
      exact R.finite_printed he
  | .arr vs => by
    rw [printed, AllFinite]
    exact finite_printedItems vs
  | .obj ms => by
    rw [printed, AllFinite, finiteMembers_perm R (arrange_perm _)]
    exact finite_printedMembers ms

theorem finite_printedItems : ∀ vs : List Value, AllFiniteItems R (printedItems R vs)
  | [] => trivial
  | v :: vs => ⟨finite_printed v,finite_printedItems vs⟩

theorem finite_printedMembers : ∀ ms : Members, AllFiniteMembers R (printedMembers R ms)
  | [] => trivial
  | m :: ms => ⟨finite_printed m.2,finite_printedMembers ms⟩
end

mutual
theorem same_printed : ∀ {v : Value}, AllFinite R v → Same R v (printed R v)
  | .null, _ => rfl
  | .bool _, _ => rfl
  | .str _, _ => rfl
  | .num d, h => by
    rw [AllFinite, Doubles.finite, Option.isSome_iff_exists] at h
    obtain ⟨e,he⟩ := h
    rw [printed, he, Same]
    exact ⟨e,rfl,(R.nearest_printed he).symm⟩
  | .arr vs, h => by
    rw [printed, Same]
    exact ⟨_,rfl,same_printedItems h⟩
  | .obj ms, h => by
    rw [printed, Same]
    exact ⟨_,_,rfl,(arrange_perm _).symm,same_printedMembers h⟩

theorem same_printedItems : ∀ {vs : List Value}, AllFiniteItems R vs →
    SameItems R vs (printedItems R vs)
  | [], _ => rfl
  | _ :: _, h => ⟨_,_,rfl,same_printed h.1,same_printedItems h.2⟩

theorem same_printedMembers : ∀ {ms : Members}, AllFiniteMembers R ms →
    SameMembers R ms (printedMembers R ms)
  | [], _ => rfl
  | _ :: _, h => ⟨_,_,rfl,same_printed h.1,same_printedMembers h.2⟩
end

theorem same_printed_iff (v : Value) : Same R v (printed R v) ↔ AllFinite R v :=
  ⟨fun h => finite_of_same R h (finite_printed R v),same_printed R⟩

end Iotistica.JsonDoubles
