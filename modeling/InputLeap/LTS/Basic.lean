import Mathlib.Logic.Relation

/-!
# Executable transition systems

A component that reacts to events is described by its initial states and by a function that
gives the state after each event.  The function is partial: an event that cannot happen in a
state, or whose handler does not return, has no successor.  All nondeterminism (the order of
events, what the environment answers) is in the labels, so a run is determined by its list of
labels and can be evaluated.

## Main definitions

* `LTS S L` : initial states and a partial step function `S → L → Option S`.
* `LTS.ReachableVia G s` : some run reaches `s` and every step of it satisfies the condition
  `G` on the state before the step and the label.
* `LTS.Reachable s` : the same with no condition.
* `LTS.exec` : the state after a list of labels, used to evaluate runs.

## Main results

* `ReachableVia.invariant` : a property of the initial states that every admitted step
  preserves holds in every state reached.
* `exec_invariant` : the same for the state after a list of labels.
* `exec_simulate` : steps of one system that are matched by steps of another with corresponding
  labels.
* `ReachableVia.simulate` : when every admitted step of one system is matched by a run of
  another, every state reached is related to one the other system reaches.
* `ReachableVia.of_exec` : evaluating a list of labels yields a reachable state.
-/

namespace InputLeap

/-- A transition system with states `S` and labels `L`, given by its step function. -/
structure LTS (S : Type*) (L : Type*) where
  /-- The initial states. -/
  init : S → Prop
  /-- The state after the event `l`, if the event can happen and its handling returns. -/
  step : S → L → Option S

namespace LTS

variable {S L : Type*} (A : LTS S L)

/-- `s` ends some run whose steps all satisfy `G` (a condition on the state before the step
and the label). -/
inductive ReachableVia (G : S → L → Prop) : S → Prop
  | init {s : S} (h : A.init s) : ReachableVia G s
  | step {s s' : S} {l : L} (hs : ReachableVia G s) (hG : G s l) (hst : A.step s l = some s') :
      ReachableVia G s'

/-- `s` ends some run. -/
def Reachable (s : S) : Prop := A.ReachableVia (fun _ _ => True) s

/-- The state after the labels `ls`, in order. -/
def exec : S → List L → Option S
  | s, [] => some s
  | s, l :: ls => (A.step s l).bind fun s' => exec s' ls

/-- The labels `ls` satisfy `G` at each of the states they pass through. -/
def Admits (G : S → L → Prop) : S → List L → Prop
  | _, [] => True
  | s, l :: ls =>
    G s l ∧
      match A.step s l with
      | none => True
      | some s' => Admits G s' ls

instance decidableAdmits (G : S → L → Prop) [∀ s l, Decidable (G s l)] :
    ∀ s ls, Decidable (A.Admits G s ls)
  | _, [] => .isTrue trivial
  | s, l :: ls =>
    have : Decidable (match A.step s l with
        | none => True
        | some s' => A.Admits G s' ls) :=
      match A.step s l with
      | none => .isTrue trivial
      | some s' => decidableAdmits G s' ls
    inferInstanceAs (Decidable (_ ∧ _))

variable {A}

/-- A property that every admitted step preserves still holds after admitted labels. -/
theorem exec_invariant {G : S → L → Prop} {I : S → Prop} {s s' : S} {ls : List L} (hI : I s)
    (hadm : A.Admits G s ls) (he : A.exec s ls = some s')
    (hstep : ∀ s l s', I s → G s l → A.step s l = some s' → I s') : I s' := by
  induction ls generalizing s with
  | nil =>
    cases he
    exact hI
  | cons l ls ih =>
    obtain ⟨hG, hrest⟩ := hadm
    obtain ⟨t, ht, he⟩ := Option.bind_eq_some_iff.1 he
    rw [ht] at hrest
    exact ih (hstep s l t hI hG ht) hrest he

/-- **Simulation by labels.**  When every admitted step of `A` from related states is matched by
the step of `B` with the corresponding label, the states after corresponding labels are related. -/
theorem exec_simulate {T M : Type*} {B : LTS T M} {G : S → L → Prop} {R : S → T → Prop}
    {f : L → M} {s s' : S} {t : T} {ls : List L} (hR : R s t) (hadm : A.Admits G s ls)
    (he : A.exec s ls = some s')
    (hstep : ∀ s l s' t, R s t → G s l → A.step s l = some s' →
      ∃ t', B.step t (f l) = some t' ∧ R s' t') :
    ∃ t', B.exec t (ls.map f) = some t' ∧ R s' t' := by
  induction ls generalizing s t with
  | nil =>
    cases he
    exact ⟨t, rfl, hR⟩
  | cons l ls ih =>
    obtain ⟨hG, hrest⟩ := hadm
    obtain ⟨u, hu, he⟩ := Option.bind_eq_some_iff.1 he
    rw [hu] at hrest
    obtain ⟨v, hv, hR⟩ := hstep s l u t hR hG hu
    obtain ⟨t', ht', hR⟩ := ih hR hrest he
    refine ⟨t', ?_, hR⟩
    rw [List.map_cons, exec, hv]
    exact ht'

namespace ReachableVia

variable {G H : S → L → Prop} {I : S → Prop} {s s' : S}

theorem mono (hs : A.ReachableVia G s) (hGH : ∀ s l, G s l → H s l) : A.ReachableVia H s := by
  induction hs with
  | init h => exact .init h
  | step _ hG hst ih => exact .step ih (hGH _ _ hG) hst

theorem reachable (hs : A.ReachableVia G s) : A.Reachable s := hs.mono fun _ _ _ => trivial

/-- A property that holds initially and is preserved by every admitted step holds in every
state reached by admitted steps. -/
theorem invariant (hs : A.ReachableVia G s) (h₀ : ∀ s, A.init s → I s)
    (hstep : ∀ s l s', I s → G s l → A.step s l = some s' → I s') : I s := by
  induction hs with
  | init h => exact h₀ _ h
  | step _ hG hst ih => exact hstep _ _ _ ih hG hst

/-- **Simulation.**  If the initial states of `A` are related to initial states of `B` and every
admitted step of `A` from related states leads to related states that `B` can reach, then every
state that `A` reaches is related to one that `B` reaches. -/
theorem simulate {T M : Type*} {B : LTS T M} {H : T → M → Prop} {R : S → T → Prop}
    (hs : A.ReachableVia G s) (h₀ : ∀ s, A.init s → ∃ t, B.init t ∧ R s t)
    (hstep : ∀ s l s' t, R s t → B.ReachableVia H t → G s l → A.step s l = some s' →
      ∃ t', B.ReachableVia H t' ∧ R s' t') :
    ∃ t, B.ReachableVia H t ∧ R s t := by
  induction hs with
  | init h =>
    obtain ⟨t, ht, hR⟩ := h₀ _ h
    exact ⟨t, .init ht, hR⟩
  | step _ hG hst ih =>
    obtain ⟨t, ht, hR⟩ := ih
    exact hstep _ _ _ t hR ht hG hst

/-- A run from a reachable state, given by its labels, reaches a reachable state. -/
theorem of_exec (hs : A.ReachableVia G s) {ls : List L} (hadm : A.Admits G s ls)
    (he : A.exec s ls = some s') : A.ReachableVia G s' :=
  exec_invariant hs hadm he fun _ _ _ h hG hst => .step h hG hst

end ReachableVia

theorem admits_of_forall {G : S → L → Prop} {ls : List L} (h : ∀ l ∈ ls, ∀ s, G s l) (s : S) :
    A.Admits G s ls := by
  induction ls generalizing s with
  | nil => trivial
  | cons l ls ih =>
    obtain ⟨hl, hls⟩ := List.forall_mem_cons.1 h
    refine ⟨hl s, ?_⟩
    cases A.step s l with
    | none => trivial
    | some s' => exact ih hls s'

/-- Labels that satisfy two conditions satisfy both together. -/
theorem Admits.and {G H : S → L → Prop} {s : S} {ls : List L} (hG : A.Admits G s ls)
    (hH : A.Admits H s ls) : A.Admits (fun s l => G s l ∧ H s l) s ls := by
  induction ls generalizing s with
  | nil => trivial
  | cons l ls ih =>
    obtain ⟨hGl, hG⟩ := hG
    obtain ⟨hHl, hH⟩ := hH
    refine ⟨⟨hGl, hHl⟩, ?_⟩
    revert hG hH
    cases A.step s l with
    | none => exact fun _ _ => trivial
    | some s' => exact fun hG hH => ih hG hH

theorem admits_true (s : S) (ls : List L) : A.Admits (fun _ _ => True) s ls :=
  admits_of_forall (fun _ _ _ => trivial) s

theorem Reachable.of_exec {s s' : S} {ls : List L} (hs : A.init s)
    (he : A.exec s ls = some s') : A.Reachable s' :=
  ReachableVia.of_exec (.init hs) (admits_true s ls) he

end LTS

end InputLeap
