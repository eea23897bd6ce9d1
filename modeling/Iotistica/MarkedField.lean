import Mathlib.Data.List.Basic
import Mathlib.Data.Option.Basic

/-!
# A value told through a lossy channel

A sender remembers the value it last handed over and puts a value into its
next message only if it differs from that mark. A message may arrive, or
fail and be kept in a queue; a queued message arrives at any later time. The
receiver keeps the value that arrived last.

Nothing is lost as long as the value was never withdrawn, a failed message
keeps the field, and only messages that agree with the mark are taken out of
the queue: then an empty channel leaves the receiver with the mark.
-/

set_option autoImplicit false

namespace Iotistica.MarkedField

variable {R V : Type*}

def changed [DecidableEq V] (mark value : Option V) : Option V :=
  if value = mark then none else value

/-- The mark is with the receiver or under way. `field` reads the value out
of a message, `held` is what the receiver has. -/
structure Marked (field : R → Option V) (mark held : Option V) (flight : Option R)
    (queue : List R) : Prop where
  covered : ∀ v, mark = some v →
    held = some v ∨ (∃ r ∈ flight, field r = some v) ∨ ∃ r ∈ queue, field r = some v
  unset : mark = none → held = none ∧ ∀ r ∈ queue, field r = none
  current : ∀ r ∈ flight, field r = none ∨ field r = mark

namespace Marked
variable {field : R → Option V} {mark held : Option V} {queue : List R}

theorem initial (field : R → Option V) : Marked field none none none [] where
  covered v hv := absurd hv.symm (Option.some_ne_none v)
  unset _ := ⟨rfl,fun _ hr => absurd hr List.not_mem_nil⟩
  current _ hr := absurd hr (Option.not_mem_none _)

theorem start [DecidableEq V] (h : Marked field mark held none queue) (value : Option V) (r : R)
    (hr : field r = changed mark value) (hgone : value = none → mark = none) :
    Marked field value held (some r) queue := by
  by_cases hv : value = mark
  · have hn : field r = none := hr.trans (if_pos hv)
    subst hv
    refine ⟨fun v hm => ?_,h.unset,fun r' hr' => ?_⟩
    · rcases h.covered v hm with h1 | ⟨r',hr',_⟩ | h1
      · exact .inl h1
      · exact absurd hr' (Option.not_mem_none r')
      · exact .inr (.inr h1)
    · cases hr'
      exact .inl hn
  · have hn : field r = value := hr.trans (if_neg hv)
    refine ⟨fun v hm => ?_,fun hm => ?_,fun r' hr' => ?_⟩
    · exact .inr (.inl ⟨r,rfl,hn.trans hm⟩)
    · exact absurd (hm.trans (hgone hm).symm) hv
    · cases hr'
      exact .inr hn

theorem arrives {r : R} (h : Marked field mark held (some r) queue) :
    Marked field mark ((field r).or held) none queue := by
  refine ⟨fun v hm => ?_,fun hm => ?_,fun r' hr' => absurd hr' (Option.not_mem_none r')⟩
  · rcases h.current r rfl with hn | hn
    · rw [hn, Option.none_or]
      rcases h.covered v hm with h1 | ⟨r',hr',h1⟩ | h1
      · exact .inl h1
      · cases hr'
        exact absurd (h1.symm.trans hn) (Option.some_ne_none v)
      · exact .inr (.inr h1)
    · rw [hn, hm]
      exact .inl rfl
  · rcases h.current r rfl with hn | hn
    · rw [hn, Option.none_or]
      exact h.unset hm
    · rw [hn, hm, Option.none_or]
      exact h.unset hm

theorem fails {r r' : R} (h : Marked field mark held (some r) queue) (hr : field r' = field r) :
    Marked field mark held none (queue++[r']) := by
  refine ⟨fun v hm => ?_,fun hm => ⟨(h.unset hm).1,fun x hx => ?_⟩,
    fun x hx => absurd hx (Option.not_mem_none x)⟩
  · rcases h.covered v hm with h1 | ⟨x,hx,h1⟩ | ⟨x,hx,h1⟩
    · exact .inl h1
    · cases hx
      exact .inr (.inr ⟨r',List.mem_append_right _ (List.mem_singleton.mpr rfl),hr.trans h1⟩)
    · exact .inr (.inr ⟨x,List.mem_append_left _ hx,h1⟩)
  · rcases List.mem_append.mp hx with hx | hx
    · exact (h.unset hm).2 x hx
    · rw [List.mem_singleton.mp hx, hr]
      rcases h.current r rfl with h1 | h1
      · exact h1
      · exact h1.trans hm

theorem mem_or_mem_eraseIdx {x y : R} {k : ℕ} (hx : queue[k]? = some x) (hy : y ∈ queue) :
    y = x ∨ y ∈ queue.eraseIdx k := by
  obtain ⟨j,hj⟩ := List.mem_iff_getElem?.mp hy
  by_cases hk : j = k
  · rw [hk, hx] at hj
    exact .inl (Option.some.inj hj).symm
  · exact .inr (List.mem_eraseIdx_iff_getElem?.mpr ⟨j,hk,hj⟩)

theorem replay {flight : Option R} {x : R} {k : ℕ} (h : Marked field mark held flight queue)
    (hx : queue[k]? = some x) (hok : field x = none ∨ field x = mark) :
    Marked field mark ((field x).or held) flight (queue.eraseIdx k) := by
  refine ⟨fun v hm => ?_,fun hm => ⟨?_,fun y hy => ?_⟩,h.current⟩
  · rcases hok with hn | hn
    · rw [hn, Option.none_or]
      rcases h.covered v hm with h1 | h1 | ⟨y,hy,h1⟩
      · exact .inl h1
      · exact .inr (.inl h1)
      · rcases mem_or_mem_eraseIdx hx hy with rfl | hy
        · exact absurd (h1.symm.trans hn) (Option.some_ne_none v)
        · exact .inr (.inr ⟨y,hy,h1⟩)
    · rw [hn, hm]
      exact .inl rfl
  · have hn : field x = none := (h.unset hm).2 x (List.mem_of_getElem? hx)
    rw [hn, Option.none_or]
    exact (h.unset hm).1
  · exact (h.unset hm).2 y (List.mem_of_mem_eraseIdx hy)

theorem settled {flight : Option R} (h : Marked field mark held flight [])
    (hf : ∀ r ∈ flight, field r = none) : held = mark := by
  cases hm : mark with
  | none => exact (h.unset hm).1
  | some v =>
    rcases h.covered v hm with h1 | ⟨r,hr,h1⟩ | ⟨r,hr,_⟩
    · exact h1
    · exact absurd (h1.symm.trans (hf r hr)) (Option.some_ne_none v)
    · exact absurd hr List.not_mem_nil

end Marked

end Iotistica.MarkedField
