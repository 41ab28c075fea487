import Mathlib.Data.List.Nodup

/-!
# Lists whose nodes stay

A linked list hands out the nodes of its elements.  A node stays the node of its element while
others are put in, moved and taken out.  A loop goes through such a list with an element of its
own, which it moves behind the one that it is at.

## Main definitions

* `Nodes α` : elements with their nodes, which are different.
* `Nodes.set`, `Nodes.erase`, `Nodes.pushFront`, `Nodes.pushBack` : changes at one node.
* `Nodes.next` : moves a node behind the next element of a kind.

## Main results

* `Nodes.set_of_split`, `Nodes.erase_of_split` : what a change does where the node stands.
* `Nodes.next_cases` : how a node moves.
-/

namespace InputLeap

/-- Elements in a list, each with its node. -/
structure Nodes (α : Type*) where
  entries : List (ℕ × α)
  nodup : (entries.map Prod.fst).Nodup

namespace Nodes

variable {α : Type*}

/-- A number that no node has. -/
def freshNode : List ℕ → ℕ
  | [] => 0
  | n :: ns => max (n + 1) (freshNode ns)

theorem lt_freshNode {n : ℕ} {ns : List ℕ} (h : n ∈ ns) : n < freshNode ns := by
  induction ns with
  | nil => exact absurd h List.not_mem_nil
  | cons m ns ih =>
    rcases List.mem_cons.1 h with rfl | h
    · exact Nat.lt_of_succ_le (Nat.le_max_left _ _)
    · exact Nat.lt_of_lt_of_le (ih h) (Nat.le_max_right _ _)

/-- Moves a node behind the first element of a kind. -/
def moveBehind (p : α → Bool) (cur : ℕ × α) : List (ℕ × α) → Option (ℕ × List (ℕ × α))
  | [] => none
  | e :: rest =>
    if p e.2 then some (e.1, e :: cur :: rest)
    else (moveBehind p cur rest).map fun r => (r.1, e :: r.2)

/-- Moves a node behind the next element of a kind that stands behind it. -/
def advance (p : α → Bool) (c : ℕ) : List (ℕ × α) → Option (ℕ × List (ℕ × α))
  | [] => none
  | e :: rest =>
    if e.1 = c then moveBehind p e rest else (advance p c rest).map fun r => (r.1, e :: r.2)

theorem perm_of_moveBehind {p : α → Bool} {cur : ℕ × α} {es : List (ℕ × α)}
    {r : ℕ × List (ℕ × α)} (h : moveBehind p cur es = some r) : r.2.Perm (cur :: es) := by
  induction es generalizing r with
  | nil => cases h
  | cons e rest ih =>
    rw [moveBehind] at h
    split_ifs at h
    · cases h
      exact List.Perm.swap _ _ _
    · obtain ⟨r, hr, rfl⟩ := Option.map_eq_some_iff.1 h
      exact ((ih hr).cons e).trans (List.Perm.swap _ _ _)

theorem perm_of_advance {p : α → Bool} {c : ℕ} {es : List (ℕ × α)} {r : ℕ × List (ℕ × α)}
    (h : advance p c es = some r) : r.2.Perm es := by
  induction es generalizing r with
  | nil => cases h
  | cons e rest ih =>
    rw [advance] at h
    split_ifs at h
    · exact perm_of_moveBehind h
    · obtain ⟨r, hr, rfl⟩ := Option.map_eq_some_iff.1 h
      exact (ih hr).cons e

/-! ### Operations -/

/-- No elements. -/
def empty : Nodes α := ⟨[], List.nodup_nil⟩

variable (l : Nodes α)

/-- A node for a new element. -/
def fresh : ℕ := freshNode (l.entries.map Prod.fst)

theorem fresh_not_mem : l.fresh ∉ l.entries.map Prod.fst := fun h =>
  Nat.lt_irrefl _ (lt_freshNode h)

/-- A new element before all others. -/
def pushFront (a : α) : Nodes α :=
  ⟨(l.fresh, a) :: l.entries, List.nodup_cons.2 ⟨l.fresh_not_mem, l.nodup⟩⟩

/-- A new element behind all others. -/
def pushBack (a : α) : Nodes α where
  entries := l.entries ++ [(l.fresh, a)]
  nodup := by
    rw [List.map_append]
    refine List.nodup_append_comm.1 ?_
    exact List.nodup_cons.2 ⟨l.fresh_not_mem, l.nodup⟩

/-- The element of a node. -/
def get? (n : ℕ) : Option α := (l.entries.find? fun e => e.1 == n).map Prod.snd

/-- Another element for a node. -/
def set (n : ℕ) (a : α) : Nodes α where
  entries := l.entries.map fun e => if e.1 = n then (n, a) else e
  nodup := by
    have hsame : ∀ e : ℕ × α, (if e.1 = n then (n, a) else e).1 = e.1 := by
      intro e
      split_ifs with h
      · exact h.symm
      · rfl
    rw [List.map_map]
    exact (List.map_congr_left fun e _ => hsame e).symm ▸ l.nodup

/-- The elements without the one of a node. -/
def erase (n : ℕ) : Nodes α where
  entries := l.entries.filter fun e => e.1 != n
  nodup := l.nodup.sublist (List.filter_sublist.map _)

/-- Moves the node behind the next element of a kind, whose node is handed out; it stays if there is
none. -/
def next (p : α → Bool) (c : ℕ) : Option ℕ × Nodes α where
  fst := (advance p c l.entries).map Prod.fst
  snd :=
    { entries := ((advance p c l.entries).map Prod.snd).getD l.entries
      nodup := by
        cases h : advance p c l.entries with
        | none => exact l.nodup
        | some r => exact ((perm_of_advance h).map _).nodup_iff.2 l.nodup }

variable {l} {n c : ℕ} {x y : α} {a b : List (ℕ × α)}

theorem ext {l l' : Nodes α} (h : l.entries = l'.entries) : l = l' := by
  cases l
  cases l'
  cases h
  rfl

/-! ### Where a node stands -/

/-- The other nodes, where one stands. -/
theorem ne_of_split (h : l.entries = a ++ (n, x) :: b) :
    (∀ e ∈ a, e.1 ≠ n) ∧ ∀ e ∈ b, e.1 ≠ n := by
  have hnodup := l.nodup
  rw [h, List.map_append, List.map_cons] at hnodup
  have hout := List.nodup_middle.1 hnodup
  rw [List.nodup_cons, List.mem_append, not_or] at hout
  obtain ⟨⟨ha, hb⟩, -⟩ := hout
  refine ⟨fun e he hen => ha ?_, fun e he hen => hb ?_⟩
  · exact List.mem_map.2 ⟨e, he, hen⟩
  · exact List.mem_map.2 ⟨e, he, hen⟩

theorem get?_of_split (h : l.entries = a ++ (n, x) :: b) : l.get? n = some x := by
  obtain ⟨ha, -⟩ := ne_of_split h
  have hskip : a.find? (fun e => e.1 == n) = none :=
    List.find?_eq_none.2 fun e he hen => ha e he (beq_iff_eq.1 hen)
  rw [get?, h, List.find?_append, hskip, Option.none_or, List.find?_cons_of_pos]
  · rfl
  · exact beq_self_eq_true n

/-- A node that has an element stands somewhere. -/
theorem exists_split (h : l.get? n = some x) : ∃ a b, l.entries = a ++ (n, x) :: b := by
  obtain ⟨e, he, rfl⟩ := Option.map_eq_some_iff.1 h
  obtain ⟨hn, a, b, hsplit, -⟩ := List.find?_eq_some_iff_append.1 he
  obtain rfl : e.1 = n := beq_iff_eq.1 hn
  exact ⟨a, b, hsplit⟩

theorem set_of_split (h : l.entries = a ++ (n, x) :: b) (y : α) :
    (l.set n y).entries = a ++ (n, y) :: b := by
  obtain ⟨ha, hb⟩ := ne_of_split h
  have hkeep : ∀ t : List (ℕ × α), (∀ e ∈ t, e.1 ≠ n) →
      t.map (fun e => if e.1 = n then (n, y) else e) = t := by
    intro t ht
    exact (List.map_congr_left fun e he => if_neg (ht e he)).trans (List.map_id t)
  change l.entries.map _ = _
  rw [h, List.map_append, List.map_cons, hkeep a ha, hkeep b hb, if_pos rfl]

theorem erase_of_split (h : l.entries = a ++ (n, x) :: b) : (l.erase n).entries = a ++ b := by
  obtain ⟨ha, hb⟩ := ne_of_split h
  have hkeep : ∀ t : List (ℕ × α), (∀ e ∈ t, e.1 ≠ n) → t.filter (fun e => e.1 != n) = t := by
    intro t ht
    exact List.filter_eq_self.2 fun e he => bne_iff_ne.2 (ht e he)
  change l.entries.filter _ = _
  rw [h, List.filter_append, List.filter_cons_of_neg (by simp), hkeep a ha, hkeep b hb]

/-! ### Loops -/

theorem moveBehind_eq {p : α → Bool} {cur : ℕ × α} (hb : ∀ e ∈ a, p e.2 = false) (hy : p y = true) :
    moveBehind p cur (a ++ (n, y) :: b) = some (n, a ++ (n, y) :: cur :: b) := by
  induction a with
  | nil => exact if_pos hy
  | cons e a ih =>
    obtain ⟨he, ha⟩ := List.forall_mem_cons.1 hb
    rw [List.cons_append, moveBehind, if_neg (Bool.eq_false_iff.1 he), ih ha]
    rfl

theorem moveBehind_eq_none {p : α → Bool} {cur : ℕ × α} (hb : ∀ e ∈ b, p e.2 = false) :
    moveBehind p cur b = none := by
  induction b with
  | nil => rfl
  | cons e b ih =>
    obtain ⟨he, hb⟩ := List.forall_mem_cons.1 hb
    rw [moveBehind, if_neg (Bool.eq_false_iff.1 he), ih hb]
    rfl

theorem advance_append {p : α → Bool} (ha : ∀ e ∈ a, e.1 ≠ c) :
    advance p c (a ++ (c, x) :: b) =
      (moveBehind p (c, x) b).map fun r => (r.1, a ++ r.2) := by
  induction a with
  | nil =>
    rw [List.nil_append, advance, if_pos rfl]
    exact (congrFun Option.map_id _).symm
  | cons e a ih =>
    obtain ⟨he, ha⟩ := List.forall_mem_cons.1 ha
    rw [List.cons_append, advance, if_neg he, ih ha, Option.map_map]
    rfl

/-- The elements up to the first of a kind. -/
theorem first_cases (p : α → Bool) (t : List (ℕ × α)) :
    (∀ e ∈ t, p e.2 = false) ∨
      ∃ a n y b, t = a ++ (n, y) :: b ∧ (∀ e ∈ a, p e.2 = false) ∧ p y = true := by
  induction t with
  | nil => exact .inl nofun
  | cons e t ih =>
    cases he : p e.2 with
    | true => exact .inr ⟨[], e.1, e.2, t, rfl, nofun, he⟩
    | false =>
      rcases ih with hall | ⟨a, n, y, b, rfl, ha, hy⟩
      · exact .inl (List.forall_mem_cons.2 ⟨he, hall⟩)
      · exact .inr ⟨e :: a, n, y, b, rfl, List.forall_mem_cons.2 ⟨he, ha⟩, hy⟩

/-- No element is lost or doubled. -/
theorem perm_next (l : Nodes α) (p : α → Bool) (c : ℕ) :
    (l.next p c).2.entries.Perm l.entries := by
  change (((advance p c l.entries).map Prod.snd).getD l.entries).Perm l.entries
  cases h : advance p c l.entries with
  | none => exact List.Perm.refl _
  | some r => exact perm_of_advance h

/-- **How a node moves.** -/
theorem next_cases {p : α → Bool} {t : List (ℕ × α)} (h : l.entries = a ++ (c, x) :: t) :
    (l.next p c = (none, l) ∧ ∀ e ∈ t, p e.2 = false) ∨
      ∃ b n y d, t = b ++ (n, y) :: d ∧ (∀ e ∈ b, p e.2 = false) ∧ p y = true ∧
        (l.next p c).1 = some n ∧ (l.next p c).2.entries = a ++ (b ++ (n, y) :: (c, x) :: d) := by
  obtain ⟨ha, -⟩ := ne_of_split h
  rcases first_cases p t with hall | ⟨b, n, y, d, rfl, hb, hy⟩
  · have hadvance : advance p c l.entries = none := by
      rw [h, advance_append ha, moveBehind_eq_none hall]
      rfl
    left
    refine ⟨Prod.ext ?_ (ext ?_), hall⟩
    · exact congrArg (Option.map Prod.fst) hadvance
    · change ((advance p c l.entries).map Prod.snd).getD l.entries = _
      rw [hadvance]
      rfl
  · have hadvance : advance p c l.entries = some (n, a ++ (b ++ (n, y) :: (c, x) :: d)) := by
      rw [h, advance_append ha, moveBehind_eq hb hy]
      rfl
    right
    refine ⟨b, n, y, d, rfl, hb, hy, ?_, ?_⟩
    · exact congrArg (Option.map Prod.fst) hadvance
    · change ((advance p c l.entries).map Prod.snd).getD l.entries = _
      rw [hadvance]
      rfl

end Nodes

end InputLeap
