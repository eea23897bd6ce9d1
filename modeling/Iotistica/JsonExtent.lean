import Iotistica.JsonText

/-!
# Where a JSON value ends

A reader takes characters from the front, so what it leaves is a suffix of
its text. The last character that an object takes is its bracket. Of the
control characters it takes the white space only.
-/

set_option autoImplicit false

namespace Iotistica.JsonText

theorem suffix_of_cut {cs u r : List Char} {c : Char} (h : cs = u++c::r) : r <:+ cs :=
  ⟨u++[c],by rw [h, List.append_assoc]; rfl⟩

theorem skipBlanks_suffix {cs r : List Char} (h : skipBlanks cs = r) : r <:+ cs :=
  h ▸ List.dropWhile_suffix _

theorem cons_suffix {cs r : List Char} {c : Char} (h : c::r <:+ cs) : r <:+ cs :=
  (List.suffix_cons c r).trans h

theorem cut_suffix {cs ds r : List Char} {c : Char} (hs : ds <:+ cs)
    (h : ∃ u, ds = u++c::r) : ∃ u, cs = u++c::r := by
  obtain ⟨front,rfl⟩ := hs
  obtain ⟨u,rfl⟩ := h
  exact ⟨front++u,(List.append_assoc _ _ _).symm⟩

theorem readUnits_suffix {cs : List Char} {x : List ℕ × List Char}
    (h : readUnits cs = some x) : x.2 <:+ cs := by
  induction cs using readUnits.induct generalizing x with
  | case1 => cases h
  | case2 r =>
    rw [readUnits, Option.some_inj] at h
    subst h
    exact List.suffix_cons _ _
  | case3 a b c d r ih =>
    rw [readUnits] at h
    obtain ⟨u,-,h⟩ := Option.bind_eq_some_iff.mp h
    obtain ⟨y,hy,rfl⟩ := Option.map_eq_some_iff.mp h
    exact (ih hy).trans ⟨['\\','u',a,b,c,d],rfl⟩
  | case4 e r hne ih =>
    rw [readUnits] at h
    · obtain ⟨u,-,h⟩ := Option.bind_eq_some_iff.mp h
      obtain ⟨y,hy,rfl⟩ := Option.map_eq_some_iff.mp h
      exact (ih hy).trans ⟨['\\',e],rfl⟩
    · exact hne
  | case5 c r hq hu he hctl =>
    rw [readUnits, if_pos hctl] at h
    · cases h
    · exact hq
    · exact hu
    · exact he
  | case6 c r hq hu he hctl ih =>
    rw [readUnits, if_neg hctl] at h
    · obtain ⟨y,hy,rfl⟩ := Option.map_eq_some_iff.mp h
      exact (ih hy).trans (List.suffix_cons c r)
    · exact hq
    · exact hu
    · exact he

theorem readString_suffix {cs : List Char} {x : String × List Char}
    (h : readString cs = some x) : x.2 <:+ cs := by
  obtain ⟨y,hy,rfl⟩ := Option.map_eq_some_iff.mp h
  exact readUnits_suffix hy

theorem readKey_suffix {cs : List Char} {x : String × List Char}
    (h : readKey cs = some x) : x.2 <:+ cs := by
  unfold readKey at h
  split at h
  · rename_i r heq
    obtain ⟨s,hs,h⟩ := Option.bind_eq_some_iff.mp h
    split at h
    · rename_i r' heq'
      obtain rfl := Option.some_inj.mp h
      have hcolon : r' <:+ s.2 := cons_suffix (skipBlanks_suffix heq')
      exact (hcolon.trans (readString_suffix hs)).trans (cons_suffix (skipBlanks_suffix heq))
    · cases h
  · cases h

theorem spanDigits_suffix (cs : List Char) : (spanDigits cs).2 <:+ cs := List.dropWhile_suffix _

theorem readFraction_suffix {cs : List Char} {x : List Char × List Char}
    (h : readFraction cs = some x) : x.2 <:+ cs := by
  unfold readFraction at h
  split at h
  · split at h
    · cases h
    · obtain rfl := Option.some_inj.mp h
      exact (spanDigits_suffix _).trans (List.suffix_cons _ _)
  · obtain rfl := Option.some_inj.mp h
    exact List.suffix_rfl

theorem readExponentDigits_suffix {sign : ℤ} {cs : List Char} {x : ℤ × List Char}
    (h : readExponentDigits sign cs = some x) : x.2 <:+ cs := by
  unfold readExponentDigits at h
  split at h
  · cases h
  · obtain rfl := Option.some_inj.mp h
    exact spanDigits_suffix cs

theorem readExponent_suffix {cs : List Char} {x : ℤ × List Char}
    (h : readExponent cs = some x) : x.2 <:+ cs := by
  unfold readExponent at h
  split at h
  · split at h
    · split at h
      · exact (readExponentDigits_suffix h).trans ((List.suffix_cons _ _).trans (List.suffix_cons _ _))
      · exact (readExponentDigits_suffix h).trans ((List.suffix_cons _ _).trans (List.suffix_cons _ _))
      · exact (readExponentDigits_suffix h).trans (List.suffix_cons _ _)
    · obtain rfl := Option.some_inj.mp h
      exact List.suffix_rfl
  · obtain rfl := Option.some_inj.mp h
    exact List.suffix_rfl

theorem readMagnitude_suffix {negative : Bool} {cs : List Char} {x : Decimal × List Char}
    (h : readMagnitude negative cs = some x) : x.2 <:+ cs := by
  simp only [readMagnitude] at h
  split at h
  · cases h
  · obtain ⟨f,hf,h⟩ := Option.bind_eq_some_iff.mp h
    obtain ⟨e,he,rfl⟩ := Option.map_eq_some_iff.mp h
    exact ((readExponent_suffix he).trans (readFraction_suffix hf)).trans (spanDigits_suffix cs)

theorem readNumber_suffix {cs : List Char} {x : Decimal × List Char}
    (h : readNumber cs = some x) : x.2 <:+ cs := by
  unfold readNumber at h
  split at h
  · exact (readMagnitude_suffix h).trans (List.suffix_cons _ _)
  · exact readMagnitude_suffix h

def ValueEnds (n : ℕ) : Prop := ∀ (cs : List Char) (x : Value × List Char),
  readValue n cs = some x → x.2 <:+ cs

def ItemsEnd (n : ℕ) : Prop := ∀ (cs : List Char) (x : List Value × List Char),
  readItems n cs = some x → ∃ u, cs = u++ ']'::x.2

def MembersEnd (n : ℕ) : Prop := ∀ (cs : List Char) (x : Members × List Char),
  readMembers n cs = some x → ∃ u, cs = u++ '}'::x.2

theorem items_end {n : ℕ} (hv : ValueEnds n) (hi : ItemsEnd n) : ItemsEnd (n+1) := by
  intro cs x h
  unfold readItems at h
  split at h
  · rename_i r heq
    obtain rfl := Option.some_inj.mp h
    exact cut_suffix (skipBlanks_suffix heq) ⟨[],rfl⟩
  · rename_i r heq
    obtain ⟨v,hread,h⟩ := Option.bind_eq_some_iff.mp h
    obtain ⟨vs,hreads,rfl⟩ := Option.map_eq_some_iff.mp h
    have hrest : v.2 <:+ cs := (hv r v hread).trans (cons_suffix (skipBlanks_suffix heq))
    exact cut_suffix hrest (hi v.2 vs hreads)
  · cases h

theorem members_end {n : ℕ} (hv : ValueEnds n) (hm : MembersEnd n) : MembersEnd (n+1) := by
  intro cs x h
  unfold readMembers at h
  split at h
  · rename_i r heq
    obtain rfl := Option.some_inj.mp h
    exact cut_suffix (skipBlanks_suffix heq) ⟨[],rfl⟩
  · rename_i r heq
    obtain ⟨k,hkey,h⟩ := Option.bind_eq_some_iff.mp h
    obtain ⟨v,hread,h⟩ := Option.bind_eq_some_iff.mp h
    obtain ⟨ms,hreads,rfl⟩ := Option.map_eq_some_iff.mp h
    have hkeyed : v.2 <:+ r := (hv k.2 v hread).trans (readKey_suffix hkey)
    exact cut_suffix (hkeyed.trans (cons_suffix (skipBlanks_suffix heq))) (hm v.2 ms hreads)
  · cases h

theorem object_extent {n : ℕ} (hv : ValueEnds n) (hm : MembersEnd n) {cs r : List Char}
    {x : Value × List Char} (hcs : skipBlanks cs = '\x7b'::r) (h : readValue (n+1) cs = some x) :
    ∃ u, r = u++ '}'::x.2 := by
  rw [readValue] at h
  simp only [hcs] at h
  split at h
  · rename_i r' heq
    obtain rfl := Option.some_inj.mp h
    exact cut_suffix (skipBlanks_suffix heq) ⟨[],rfl⟩
  · obtain ⟨k,hkey,h⟩ := Option.bind_eq_some_iff.mp h
    obtain ⟨v,hread,h⟩ := Option.bind_eq_some_iff.mp h
    obtain ⟨ms,hreads,rfl⟩ := Option.map_eq_some_iff.mp h
    exact cut_suffix ((hv k.2 v hread).trans (readKey_suffix hkey)) (hm v.2 ms hreads)

theorem array_extent {n : ℕ} (hv : ValueEnds n) (hi : ItemsEnd n) {cs r : List Char}
    {x : Value × List Char} (hcs : skipBlanks cs = '['::r) (h : readValue (n+1) cs = some x) :
    ∃ u, r = u++ ']'::x.2 := by
  rw [readValue] at h
  simp only [hcs] at h
  split at h
  · rename_i r' heq
    obtain rfl := Option.some_inj.mp h
    exact cut_suffix (skipBlanks_suffix heq) ⟨[],rfl⟩
  · obtain ⟨v,hread,h⟩ := Option.bind_eq_some_iff.mp h
    obtain ⟨vs,hreads,rfl⟩ := Option.map_eq_some_iff.mp h
    exact cut_suffix (hv r v hread) (hi v.2 vs hreads)

theorem value_ends {n : ℕ} (hv : ValueEnds n) (hi : ItemsEnd n) (hm : MembersEnd n) :
    ValueEnds (n+1) := by
  intro cs x h
  have hread := h
  unfold readValue at h
  split at h
  · rename_i r heq
    obtain rfl := Option.some_inj.mp h
    exact (List.suffix_append ['n','u','l','l'] r).trans (skipBlanks_suffix heq)
  · rename_i r heq
    obtain rfl := Option.some_inj.mp h
    exact (List.suffix_append ['t','r','u','e'] r).trans (skipBlanks_suffix heq)
  · rename_i r heq
    obtain rfl := Option.some_inj.mp h
    exact (List.suffix_append ['f','a','l','s','e'] r).trans (skipBlanks_suffix heq)
  · rename_i r heq
    obtain ⟨s,hs,rfl⟩ := Option.map_eq_some_iff.mp h
    exact (readString_suffix hs).trans (cons_suffix (skipBlanks_suffix heq))
  · rename_i r heq
    obtain ⟨u,hu⟩ := array_extent hv hi heq hread
    exact (suffix_of_cut hu).trans (cons_suffix (skipBlanks_suffix heq))
  · rename_i r heq
    obtain ⟨u,hu⟩ := object_extent hv hm heq hread
    exact (suffix_of_cut hu).trans (cons_suffix (skipBlanks_suffix heq))
  · obtain ⟨d,hd,rfl⟩ := Option.map_eq_some_iff.mp h
    exact (readNumber_suffix hd).trans (skipBlanks_suffix rfl)

theorem all_end (n : ℕ) : ValueEnds n ∧ ItemsEnd n ∧ MembersEnd n := by
  induction n with
  | zero => exact ⟨nofun,nofun,nofun⟩
  | succ n ih =>
    obtain ⟨hv,hi,hm⟩ := ih
    exact ⟨value_ends hv hi hm,items_end hv hi,members_end hv hm⟩

theorem readValue_obj {n : ℕ} {cs r : List Char} {ms : Members}
    (h : readValue (n+1) cs = some (.obj ms,r)) : ∃ r', skipBlanks cs = '\x7b'::r' := by
  unfold readValue at h
  split at h
  · cases h
  · cases h
  · cases h
  · obtain ⟨s,-,heq⟩ := Option.map_eq_some_iff.mp h
    cases heq
  · split at h
    · cases h
    · obtain ⟨v,-,h⟩ := Option.bind_eq_some_iff.mp h
      obtain ⟨vs,-,heq⟩ := Option.map_eq_some_iff.mp h
      cases heq
  · rename_i r' heq
    exact ⟨r',heq⟩
  · obtain ⟨d,-,heq⟩ := Option.map_eq_some_iff.mp h
    cases heq

theorem parse_obj_text {s : String} {ms : Members} (h : parse s = some (.obj ms))
    (hfirst : ∀ c ∈ s.toList.head?, blank c = false)
    (hlast : ∀ c ∈ s.toList.getLast?, blank c = false) :
    ∃ u, s.toList = '\x7b'::(u++['}']) := by
  obtain ⟨⟨v,r⟩,hread,h⟩ := Option.bind_eq_some_iff.mp h
  split at h
  · rename_i hend
    obtain rfl := Option.some_inj.mp h
    obtain ⟨r',hopen⟩ := readValue_obj hread
    obtain ⟨hv,-,hm⟩ := all_end s.toList.length
    obtain ⟨u,hu⟩ := object_extent hv hm hopen hread
    have hfront : s.toList = '\x7b'::r' := by
      cases hs : s.toList with
      | nil =>
        rw [hs] at hopen
        cases hopen
      | cons c cs =>
        rw [hs] at hopen hfirst
        rw [← hopen, skipBlanks_cons (hfirst c rfl)]
    have hnone : r = [] := by
      cases hr : r.getLast? with
      | none => exact List.getLast?_eq_none_iff.mp hr
      | some c =>
        have hin : c ∈ s.toList.getLast? := by
          rw [hfront, hu, ← List.cons_append, List.getLast?_append, List.getLast?_cons, hr]
          rfl
        have hall : ∀ x ∈ r, blank x = true :=
          List.dropWhile_eq_nil_iff.mp (List.isEmpty_iff.mp hend)
        have hblank := hall c (List.mem_of_getLast? hr)
        rw [hlast c hin] at hblank
        cases hblank
    exact ⟨u,by rw [hfront, hu, hnone]⟩
  · cases h

section
variable {z : Char} (hz : z.toNat < 32)
include hz

theorem mem_behind {u r : List Char} (hu : ∀ c ∈ u, 32 ≤ c.toNat) (h : z ∈ u++r) : z ∈ r := by
  rcases List.mem_append.mp h with h | h
  · exact absurd (hu z h) (Nat.not_le.mpr hz)
  · exact h

theorem mem_behind_one {c : Char} {r : List Char} (hc : 32 ≤ c.toNat) (h : z ∈ c::r) : z ∈ r :=
  mem_behind hz (u := [c]) (by simpa using hc) h

omit hz in
theorem hexNibble_printable {c : Char} {n : ℕ} (h : ByteText.hexNibble c = some n) :
    32 ≤ c.toNat := by
  unfold ByteText.hexNibble at h
  split at h
  · rename_i hd
    exact (by decide : 32 ≤ '0'.toNat).trans (Char.isDigit_iff_toNat.mp hd).1
  · split at h
    · rename_i hc
      exact (by decide : 32 ≤ 'a'.toNat).trans hc.1
    · split at h
      · rename_i hc
        exact (by decide : 32 ≤ 'A'.toNat).trans hc.1
      · cases h

omit hz in
theorem escapeUnit_printable {c : Char} {u : ℕ} (h : escapeUnit c = some u) : 32 ≤ c.toNat := by
  unfold escapeUnit at h
  split_ifs at h with hq hb ht hn hf hr
  · rcases hq with rfl | rfl | rfl <;> decide
  · subst hb; decide
  · subst ht; decide
  · subst hn; decide
  · subst hf; decide
  · subst hr; decide

theorem readUnits_leaves {cs : List Char} {x : List ℕ × List Char}
    (h : readUnits cs = some x) (hmem : z ∈ cs) : z ∈ x.2 := by
  induction cs using readUnits.induct generalizing x with
  | case1 => cases h
  | case2 r =>
    rw [readUnits, Option.some_inj] at h
    subst h
    exact mem_behind_one hz (by decide) hmem
  | case3 a b c d r ih =>
    rw [readUnits] at h
    obtain ⟨u,hu,h⟩ := Option.bind_eq_some_iff.mp h
    obtain ⟨y,hy,rfl⟩ := Option.map_eq_some_iff.mp h
    obtain ⟨a',ha,hu⟩ := Option.bind_eq_some_iff.mp hu
    obtain ⟨b',hb,hu⟩ := Option.bind_eq_some_iff.mp hu
    obtain ⟨c',hc,hu⟩ := Option.bind_eq_some_iff.mp hu
    obtain ⟨d',hd,-⟩ := Option.map_eq_some_iff.mp hu
    refine ih (x := y) hy (mem_behind hz (u := ['\\','u',a,b,c,d]) (fun e he => ?_) hmem)
    simp only [List.mem_cons, List.not_mem_nil, or_false] at he
    rcases he with rfl | rfl | rfl | rfl | rfl | rfl
    · decide
    · decide
    · exact hexNibble_printable ha
    · exact hexNibble_printable hb
    · exact hexNibble_printable hc
    · exact hexNibble_printable hd
  | case4 e r hne ih =>
    rw [readUnits] at h
    · obtain ⟨u,hu,h⟩ := Option.bind_eq_some_iff.mp h
      obtain ⟨y,hy,rfl⟩ := Option.map_eq_some_iff.mp h
      have htail := mem_behind_one hz (by decide) hmem
      exact ih (x := y) hy (mem_behind_one hz (escapeUnit_printable hu) htail)
    · exact hne
  | case5 c r hq hu he hctl =>
    rw [readUnits, if_pos hctl] at h
    · cases h
    · exact hq
    · exact hu
    · exact he
  | case6 c r hq hu he hctl ih =>
    rw [readUnits, if_neg hctl] at h
    · obtain ⟨y,hy,rfl⟩ := Option.map_eq_some_iff.mp h
      exact ih (x := y) hy (mem_behind_one hz (by omega) hmem)
    · exact hq
    · exact hu
    · exact he

theorem readString_leaves {cs : List Char} {x : String × List Char}
    (h : readString cs = some x) (hmem : z ∈ cs) : z ∈ x.2 := by
  obtain ⟨y,hy,rfl⟩ := Option.map_eq_some_iff.mp h
  exact readUnits_leaves hz hy hmem

theorem spanDigits_leaves {cs : List Char} (hmem : z ∈ cs) : z ∈ (spanDigits cs).2 := by
  refine mem_behind hz (u := (spanDigits cs).1) (fun c hc => ?_) ?_
  · have hd := (Char.isDigit_iff_toNat.mp (List.mem_takeWhile_imp hc)).1
    exact (by decide : 32 ≤ '0'.toNat).trans hd
  · rwa [spanDigits, List.takeWhile_append_dropWhile]

theorem readFraction_leaves {cs : List Char} {x : List Char × List Char}
    (h : readFraction cs = some x) (hmem : z ∈ cs) : z ∈ x.2 := by
  unfold readFraction at h
  split at h
  · split at h
    · cases h
    · obtain rfl := Option.some_inj.mp h
      exact spanDigits_leaves hz (mem_behind_one hz (by decide) hmem)
  · obtain rfl := Option.some_inj.mp h
    exact hmem

theorem readExponentDigits_leaves {sign : ℤ} {cs : List Char} {x : ℤ × List Char}
    (h : readExponentDigits sign cs = some x) (hmem : z ∈ cs) : z ∈ x.2 := by
  unfold readExponentDigits at h
  split at h
  · cases h
  · obtain rfl := Option.some_inj.mp h
    exact spanDigits_leaves hz hmem

theorem readExponent_leaves {cs : List Char} {x : ℤ × List Char}
    (h : readExponent cs = some x) (hmem : z ∈ cs) : z ∈ x.2 := by
  unfold readExponent at h
  split at h
  · rename_i c r
    split at h
    · rename_i he
      have hr : z ∈ r := mem_behind_one hz (by rcases he with rfl | rfl <;> decide) hmem
      split at h
      · exact readExponentDigits_leaves hz h (mem_behind_one hz (by decide) hr)
      · exact readExponentDigits_leaves hz h (mem_behind_one hz (by decide) hr)
      · exact readExponentDigits_leaves hz h hr
    · obtain rfl := Option.some_inj.mp h
      exact hmem
  · obtain rfl := Option.some_inj.mp h
    exact hmem

theorem readMagnitude_leaves {negative : Bool} {cs : List Char} {x : Decimal × List Char}
    (h : readMagnitude negative cs = some x) (hmem : z ∈ cs) : z ∈ x.2 := by
  simp only [readMagnitude] at h
  split at h
  · cases h
  · obtain ⟨f,hf,h⟩ := Option.bind_eq_some_iff.mp h
    obtain ⟨e,he,rfl⟩ := Option.map_eq_some_iff.mp h
    exact readExponent_leaves hz he (readFraction_leaves hz hf (spanDigits_leaves hz hmem))

theorem readNumber_leaves {cs : List Char} {x : Decimal × List Char}
    (h : readNumber cs = some x) (hmem : z ∈ cs) : z ∈ x.2 := by
  unfold readNumber at h
  split at h
  · exact readMagnitude_leaves hz h (mem_behind_one hz (by decide) hmem)
  · exact readMagnitude_leaves hz h hmem

end

def Control (z : Char) : Prop := z.toNat < 32 ∧ blank z = false

def ValueLeaves (z : Char) (n : ℕ) : Prop := ∀ (cs : List Char) (x : Value × List Char),
  readValue n cs = some x → z ∈ cs → z ∈ x.2

def ItemsLeave (z : Char) (n : ℕ) : Prop := ∀ (cs : List Char) (x : List Value × List Char),
  readItems n cs = some x → z ∈ cs → z ∈ x.2

def MembersLeave (z : Char) (n : ℕ) : Prop := ∀ (cs : List Char) (x : Members × List Char),
  readMembers n cs = some x → z ∈ cs → z ∈ x.2

section
variable {z : Char} (hz : Control z)
include hz

theorem skipBlanks_leaves {cs : List Char} (hmem : z ∈ cs) : z ∈ skipBlanks cs := by
  rw [← List.takeWhile_append_dropWhile (p := blank) (l := cs)] at hmem
  rcases List.mem_append.mp hmem with h | h
  · exact absurd (List.mem_takeWhile_imp h) (by simp [hz.2])
  · exact h

theorem token_leaves {cs u r : List Char} (hcs : skipBlanks cs = u++r)
    (hu : ∀ c ∈ u, 32 ≤ c.toNat) (hmem : z ∈ cs) : z ∈ r :=
  mem_behind hz.1 hu (hcs ▸ skipBlanks_leaves hz hmem)

theorem readKey_leaves {cs : List Char} {x : String × List Char}
    (h : readKey cs = some x) (hmem : z ∈ cs) : z ∈ x.2 := by
  unfold readKey at h
  split at h
  · rename_i r heq
    obtain ⟨s,hs,h⟩ := Option.bind_eq_some_iff.mp h
    have hname := readString_leaves hz.1 hs (token_leaves hz (u := ['"']) heq (by simp) hmem)
    split at h
    · rename_i r' heq'
      obtain rfl := Option.some_inj.mp h
      exact token_leaves hz (u := [':']) heq' (by simp) hname
    · cases h
  · cases h

theorem items_leave {n : ℕ} (hv : ValueLeaves z n) (hi : ItemsLeave z n) :
    ItemsLeave z (n+1) := by
  intro cs x h hmem
  unfold readItems at h
  split at h
  · rename_i r heq
    obtain rfl := Option.some_inj.mp h
    exact token_leaves hz (u := [']']) heq (by simp) hmem
  · rename_i r heq
    obtain ⟨v,hread,h⟩ := Option.bind_eq_some_iff.mp h
    obtain ⟨vs,hreads,rfl⟩ := Option.map_eq_some_iff.mp h
    exact hi v.2 vs hreads (hv r v hread (token_leaves hz (u := [',']) heq (by simp) hmem))
  · cases h

theorem members_leave {n : ℕ} (hv : ValueLeaves z n) (hm : MembersLeave z n) :
    MembersLeave z (n+1) := by
  intro cs x h hmem
  unfold readMembers at h
  split at h
  · rename_i r heq
    obtain rfl := Option.some_inj.mp h
    exact token_leaves hz (u := ['\x7d']) heq (by simp) hmem
  · rename_i r heq
    obtain ⟨k,hkey,h⟩ := Option.bind_eq_some_iff.mp h
    obtain ⟨v,hread,h⟩ := Option.bind_eq_some_iff.mp h
    obtain ⟨ms,hreads,rfl⟩ := Option.map_eq_some_iff.mp h
    have hnamed := readKey_leaves hz hkey (token_leaves hz (u := [',']) heq (by simp) hmem)
    exact hm v.2 ms hreads (hv k.2 v hread hnamed)
  · cases h

theorem value_leaves {n : ℕ} (hv : ValueLeaves z n) (hi : ItemsLeave z n)
    (hm : MembersLeave z n) : ValueLeaves z (n+1) := by
  intro cs x h hmem
  unfold readValue at h
  split at h
  · rename_i r heq
    obtain rfl := Option.some_inj.mp h
    exact token_leaves hz (u := ['n','u','l','l']) heq (by simp) hmem
  · rename_i r heq
    obtain rfl := Option.some_inj.mp h
    exact token_leaves hz (u := ['t','r','u','e']) heq (by simp) hmem
  · rename_i r heq
    obtain rfl := Option.some_inj.mp h
    exact token_leaves hz (u := ['f','a','l','s','e']) heq (by simp) hmem
  · rename_i r heq
    obtain ⟨s,hs,rfl⟩ := Option.map_eq_some_iff.mp h
    exact readString_leaves hz.1 hs (token_leaves hz (u := ['"']) heq (by simp) hmem)
  · rename_i r heq
    have hr : z ∈ r := token_leaves hz (u := ['[']) heq (by simp) hmem
    split at h
    · rename_i r' heq'
      obtain rfl := Option.some_inj.mp h
      exact token_leaves hz (u := [']']) heq' (by simp) hr
    · obtain ⟨v,hread,h⟩ := Option.bind_eq_some_iff.mp h
      obtain ⟨vs,hreads,rfl⟩ := Option.map_eq_some_iff.mp h
      exact hi v.2 vs hreads (hv r v hread hr)
  · rename_i r heq
    have hr : z ∈ r := token_leaves hz (u := ['\x7b']) heq (by simp) hmem
    split at h
    · rename_i r' heq'
      obtain rfl := Option.some_inj.mp h
      exact token_leaves hz (u := ['\x7d']) heq' (by simp) hr
    · obtain ⟨k,hkey,h⟩ := Option.bind_eq_some_iff.mp h
      obtain ⟨v,hread,h⟩ := Option.bind_eq_some_iff.mp h
      obtain ⟨ms,hreads,rfl⟩ := Option.map_eq_some_iff.mp h
      exact hm v.2 ms hreads (hv k.2 v hread (readKey_leaves hz hkey hr))
  · obtain ⟨d,hd,rfl⟩ := Option.map_eq_some_iff.mp h
    exact readNumber_leaves hz.1 hd (skipBlanks_leaves hz hmem)

theorem all_leave (n : ℕ) : ValueLeaves z n ∧ ItemsLeave z n ∧ MembersLeave z n := by
  induction n with
  | zero => exact ⟨nofun,nofun,nofun⟩
  | succ n ih =>
    obtain ⟨hv,hi,hm⟩ := ih
    exact ⟨value_leaves hz hv hi hm,items_leave hz hv hi,members_leave hz hv hm⟩

theorem not_mem_of_parse {s : String} {v : Value} (h : parse s = some v) : z ∉ s.toList := by
  intro hmem
  obtain ⟨x,hread,h⟩ := Option.bind_eq_some_iff.mp h
  split at h
  · rename_i hend
    have hrest := (all_leave hz (s.toList.length+1)).1 s.toList x hread hmem
    have hskip := skipBlanks_leaves hz hrest
    rw [List.isEmpty_iff.mp hend] at hskip
    cases hskip
  · cases h

end

end Iotistica.JsonText
