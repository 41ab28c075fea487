import Mathlib.Data.List.Basic

/-!
# Lists of words that a mark surrounds

Words are written one behind the other, with a mark before the first and behind each of them.  A
word is found among them by a search for the word between two marks.

## Main definitions

* `Text.marked` : the words, with the mark behind each.
* `Text.surrounded` : the same with a mark before the first; nothing if there are no words.

## Main results

* `Text.infix_surrounded_iff` : the word between two marks is in the list if and only if it is one
  of the words, where no word has the mark in it.
* `Text.map_of_marked_prefix` : the word before the first mark, up to a comparison of values.
-/

namespace InputLeap

namespace Text

variable {α : Type*} (d : α)

/-- The words with the mark behind each. -/
def marked (ws : List (List α)) : List α := ws.flatMap (· ++ [d])

/-- The words with marks around them. -/
def surrounded : List (List α) → List α
  | [] => []
  | w :: ws => d :: marked d (w :: ws)

variable {d} {w x p t : List α} {ws : List (List α)}

@[simp] theorem marked_nil : marked d [] = [] := rfl

@[simp] theorem marked_cons : marked d (w :: ws) = w ++ d :: marked d ws := by
  rw [marked, List.flatMap_cons, List.append_assoc]
  rfl

/-- A value in the list is in a word, or it is the mark. -/
theorem exists_mem_of_mem_surrounded {c : α} (hc : c ≠ d) (h : c ∈ surrounded d ws) :
    ∃ w ∈ ws, c ∈ w := by
  cases ws with
  | nil => exact absurd h List.not_mem_nil
  | cons w ws =>
    have hmem := (List.mem_cons.1 h).resolve_left hc
    obtain ⟨x, hx, hcx⟩ := List.mem_flatMap.1 hmem
    rcases List.mem_append.1 hcx with hcx | hcd
    · exact ⟨x, hx, hcx⟩
    · exact absurd (List.mem_singleton.1 hcd) hc

theorem head?_surrounded (d : α) (ws : List (List α)) :
    (surrounded d ws).head? = none ∨ (surrounded d ws).head? = some d := by
  cases ws with
  | nil => exact .inl rfl
  | cons w ws => exact .inr rfl

/-- A word up to the first mark, and what is behind it, where values are compared by `f`. -/
theorem map_of_marked_prefix {β : Type*} {f : α → β} {a b s t : List α} (ha : ∀ c ∈ a, f c ≠ f d)
    (hb : ∀ c ∈ b, f c ≠ f d) (h : (a ++ d :: s).map f <+: (b ++ d :: t).map f) :
    a.map f = b.map f ∧ s.map f <+: t.map f := by
  induction a generalizing b with
  | nil =>
    cases b with
    | nil => exact ⟨rfl, (List.cons_prefix_cons.1 h).2⟩
    | cons y b => exact absurd (List.cons_prefix_cons.1 h).1.symm (hb y List.mem_cons_self)
  | cons x a ih =>
    cases b with
    | nil => exact absurd (List.cons_prefix_cons.1 h).1 (ha x List.mem_cons_self)
    | cons y b =>
      obtain ⟨hxy, hrest⟩ := List.cons_prefix_cons.1 h
      obtain ⟨hword, hbehind⟩ := ih (fun c hc => ha c (List.mem_cons_of_mem _ hc))
        (fun c hc => hb c (List.mem_cons_of_mem _ hc)) hrest
      exact ⟨by rw [List.map_cons, List.map_cons, hxy, hword], hbehind⟩

/-- What starts with the mark does not start in a word. -/
theorem cons_infix_append_iff (h : d ∉ x) : d :: p <:+: x ++ t ↔ d :: p <:+: t := by
  induction x with
  | nil => rfl
  | cons c x ih =>
    rw [List.mem_cons, not_or] at h
    rw [List.cons_append, List.infix_cons_iff, List.cons_prefix_cons, ih h.2,
      or_iff_right (not_and_of_not_left _ h.1)]

/-- A word that reaches the mark of another goes no further than that. -/
theorem eq_nil_of_cons_eq {c r : List α} (h : d :: r = c ++ d :: t) (hc : d ∉ c) :
    c = [] := by
  cases c with
  | nil => rfl
  | cons a c =>
    obtain ⟨rfl, -⟩ := List.cons.inj h
    exact absurd List.mem_cons_self hc

theorem append_prefix_append_iff (hw : d ∉ w) (hx : d ∉ x) :
    w ++ [d] <+: x ++ d :: t ↔ w = x := by
  constructor
  · rintro ⟨r, hr⟩
    rw [List.append_assoc, List.singleton_append] at hr
    obtain ⟨c, rfl, hc⟩ | ⟨c, rfl, hc⟩ := List.append_eq_append_iff.1 hr
    · rw [eq_nil_of_cons_eq hc fun hmem => hx (List.mem_append_right _ hmem), List.append_nil]
    · rw [eq_nil_of_cons_eq hc fun hmem => hw (List.mem_append_right _ hmem), List.append_nil]
  · rintro rfl
    exact ⟨t, by rw [List.append_assoc, List.singleton_append]⟩

theorem infix_cons_marked_iff (hw : d ∉ w) (hws : ∀ x ∈ ws, d ∉ x) :
    d :: (w ++ [d]) <:+: d :: marked d ws ↔ w ∈ ws := by
  induction ws with
  | nil =>
    refine iff_of_false (fun h => ?_) List.not_mem_nil
    have hle := h.length_le
    simp at hle
  | cons x ws ih =>
    obtain ⟨hx, hws⟩ := List.forall_mem_cons.1 hws
    rw [marked_cons, List.infix_cons_iff, List.cons_prefix_cons, and_iff_right rfl,
      append_prefix_append_iff hw hx, cons_infix_append_iff hx, ih hws, List.mem_cons]

/-- **A search finds the words.** -/
theorem infix_surrounded_iff (hw : d ∉ w) (hws : ∀ x ∈ ws, d ∉ x) :
    d :: (w ++ [d]) <:+: surrounded d ws ↔ w ∈ ws := by
  cases ws with
  | nil => exact iff_of_false (fun h => by simpa [surrounded] using h.length_le) List.not_mem_nil
  | cons x ws => exact infix_cons_marked_iff hw hws

end Text

end InputLeap
