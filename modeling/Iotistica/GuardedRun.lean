import Mathlib.Data.List.Basic

/-!
# Runs of a state machine under a per-step condition

A machine is a total step function, and a run folds it over a list of
events. `Meets` asks a condition of every event in the state in which that
event is taken, so a condition may speak of the state before a step and
never of the result. The rules below turn one step of an invariant into
all states of all runs whose steps meet the condition.
-/

set_option autoImplicit false

namespace Iotistica.GuardedRun

variable {S E : Type*}

def run (step : S → E → S) (es : List E) (s : S) : S := es.foldl step s

def Meets (step : S → E → S) (ok : S → E → Prop) : List E → S → Prop
  | [], _ => True
  | e::es, s => ok s e ∧ Meets step ok es (step s e)

instance Meets.decidable (step : S → E → S) (ok : S → E → Prop) [∀ s e, Decidable (ok s e)] :
    (es : List E) → (s : S) → Decidable (Meets step ok es s)
  | [], _ => .isTrue trivial
  | e::es, s =>
    have := Meets.decidable step ok es (step s e)
    inferInstanceAs (Decidable (ok s e ∧ Meets step ok es (step s e)))

@[simp] theorem run_nil (step : S → E → S) (s : S) : run step [] s = s := rfl

@[simp] theorem run_cons (step : S → E → S) (e : E) (es : List E) (s : S) :
    run step (e::es) s = run step es (step s e) := rfl

theorem run_append (step : S → E → S) (es fs : List E) (s : S) :
    run step (es++fs) s = run step fs (run step es s) := List.foldl_append

theorem meets_append (step : S → E → S) (ok : S → E → Prop) (es fs : List E) (s : S) :
    Meets step ok (es++fs) s ↔ Meets step ok es s ∧ Meets step ok fs (run step es s) := by
  induction es generalizing s with
  | nil => simp [Meets]
  | cons e es ih => simp [Meets, ih, and_assoc]

theorem meets_any (step : S → E → S) (es : List E) (s : S) :
    Meets step (fun _ _ => True) es s := by
  induction es generalizing s with
  | nil => trivial
  | cons e es ih => exact ⟨trivial,ih _⟩

theorem meets_of_split {step : S → E → S} {ok : S → E → Prop} (es : List E) (s : S)
    (h : ∀ pre e post, es = pre++e::post → ok (run step pre s) e) : Meets step ok es s := by
  induction es generalizing s with
  | nil => trivial
  | cons e es ih =>
    refine ⟨h [] e es rfl,ih _ (fun pre e' post he => ?_)⟩
    exact h (e::pre) e' post (by rw [he]; rfl)

theorem meets_iff_split {step : S → E → S} {ok : S → E → Prop} (es : List E) (s : S) :
    Meets step ok es s ↔ ∀ pre e post, es = pre++e::post → ok (run step pre s) e := by
  refine ⟨?_,meets_of_split es s⟩
  rintro h pre e post rfl
  exact ((meets_append step ok pre (e::post) s).mp h).2.1

/-- One step suffices: an invariant that every admitted step keeps holds
after every admitted run. Runs are prefix closed by `meets_append`, so this
covers each intermediate state as well. -/
theorem run_invariant {step : S → E → S} {ok : S → E → Prop} {I : S → Prop}
    (hstep : ∀ s e, ok s e → I s → I (step s e)) (es : List E) (s : S)
    (hm : Meets step ok es s) (hi : I s) : I (run step es s) := by
  induction es generalizing s with
  | nil => exact hi
  | cons e es ih => exact ih _ hm.2 (hstep s e hm.1 hi)

theorem meets_mono {step : S → E → S} {ok ok' : S → E → Prop}
    (h : ∀ s e, ok s e → ok' s e) (es : List E) (s : S)
    (hm : Meets step ok es s) : Meets step ok' es s := by
  induction es generalizing s with
  | nil => trivial
  | cons e es ih => exact ⟨h s e hm.1,ih _ hm.2⟩

/-- Two conditions that agree on the steps a third one admits admit the
same runs among those. -/
theorem meets_congr {step : S → E → S} {reg ok ok' : S → E → Prop}
    (h : ∀ s e, reg s e → (ok s e ↔ ok' s e)) (es : List E) (s : S)
    (hm : Meets step reg es s) : Meets step ok es s ↔ Meets step ok' es s := by
  induction es generalizing s with
  | nil => exact Iff.rfl
  | cons e es ih => exact and_congr (h s e hm.1) (ih _ hm.2)

/-- Two conditions that agree wherever an invariant holds, which the steps
of one of them keep, admit the same runs. -/
theorem meets_iff_of_inv {step : S → E → S} {ok law : S → E → Prop} {I : S → Prop}
    (hI : ∀ s e, I s → ok s e → I (step s e)) (h : ∀ s e, I s → (law s e ↔ ok s e))
    (es : List E) (s : S) (hi : I s) : Meets step law es s ↔ Meets step ok es s := by
  induction es generalizing s with
  | nil => exact Iff.rfl
  | cons e es ih =>
    constructor
    · rintro ⟨hlaw,hm⟩
      have hok := (h s e hi).mp hlaw
      exact ⟨hok,(ih _ (hI s e hi hok)).mp hm⟩
    · rintro ⟨hok,hm⟩
      exact ⟨(h s e hi).mpr hok,(ih _ (hI s e hi hok)).mpr hm⟩

/-- When a property is kept by exactly the steps that meet a condition, it
holds in every state of a run exactly when all its steps meet it. -/
theorem always_iff_meets {step : S → E → S} {ok : S → E → Prop} {I P : S → Prop}
    (hI : ∀ s e, I s → I (step s e)) (hP : ∀ s e, I s → P s → (P (step s e) ↔ ok s e))
    (es : List E) (s : S) (hi : I s) (hp : P s) :
    (∀ pre, pre <+: es → P (run step pre s)) ↔ Meets step ok es s := by
  induction es generalizing s with
  | nil => simp [Meets, hp]
  | cons e es ih =>
    constructor
    · intro h
      have h1 : P (step s e) := h [e] ⟨es,rfl⟩
      refine ⟨(hP s e hi hp).mp h1,(ih _ (hI s e hi) h1).mp (fun pre hpre => ?_)⟩
      exact h (e::pre) (List.cons_prefix_cons.mpr ⟨rfl,hpre⟩)
    · rintro ⟨hok,hm⟩ pre hpre
      have h1 : P (step s e) := (hP s e hi hp).mpr hok
      cases pre with
      | nil => exact hp
      | cons a pre =>
        obtain ⟨rfl,hrest⟩ := List.cons_prefix_cons.mp hpre
        exact (ih _ (hI s a hi) h1).mpr hm pre hrest

/-- An invariant that only the admitted steps keep, and that implies a
property which no other step leaves true. -/
theorem always_iff_meets_of_inv {step : S → E → S} {ok : S → E → Prop} {I P : S → Prop}
    (hI : ∀ s e, I s → ok s e → I (step s e)) (hP : ∀ s, I s → P s)
    (hok : ∀ s e, I s → P (step s e) → ok s e) (es : List E) (s : S) (hi : I s) :
    (∀ pre, pre <+: es → P (run step pre s)) ↔ Meets step ok es s := by
  induction es generalizing s with
  | nil => simp [Meets, hP s hi]
  | cons e es ih =>
    constructor
    · intro h
      have hone : ok s e := hok s e hi (h [e] ⟨es,rfl⟩)
      refine ⟨hone,(ih _ (hI s e hi hone)).mp (fun pre hpre => ?_)⟩
      exact h (e::pre) (List.cons_prefix_cons.mpr ⟨rfl,hpre⟩)
    · rintro ⟨hone,hm⟩ pre hpre
      cases pre with
      | nil => exact hP s hi
      | cons a pre =>
        obtain ⟨rfl,hrest⟩ := List.cons_prefix_cons.mp hpre
        exact (ih _ (hI s a hi hone)).mpr hm pre hrest

end Iotistica.GuardedRun
