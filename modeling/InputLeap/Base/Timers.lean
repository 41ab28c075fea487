import InputLeap.LTS.Basic
import InputLeap.Maps.Heap
import Mathlib.Algebra.Order.Floor.Semiring
import Mathlib.Data.Finset.Basic
import Mathlib.Data.Rat.Floor
import Mathlib.Tactic.Linarith

/-!
# Timers

The queue of events keeps its timers in a heap, ordered by the time that is left.  A poll counts
down all of them by what has passed since the last one and reports a timer that has expired.

## Main definitions

* `Timers` : the timers, and when they were last counted down.
* `Timers.newTimer`, `Timers.deleteTimer`, `Timers.hasTimerExpired` : the calls.
* `TimerRun.lts` : the calls in any order, with a clock that does not go back.
* `TimerRun.life` : what a history says of a timer: how long it runs, and since when.
* `TimerRun.Faithful` : the first timer has the least time left, and no report is too early.

## Main results

* `TimerRun.timers_faithful_of_reachable` : this holds throughout runs, whatever the algorithms of
  the heap do within what is promised of them.
-/

namespace InputLeap

namespace Timers

/-- A timer of the queue. -/
structure Timer where
  /-- The address of the timer. -/
  timer : ℕ
  timeout : ℚ
  target : ℕ
  oneShot : Bool
  /-- The time that is left. -/
  time : ℚ
  deriving DecidableEq

/-- The data of an event. -/
structure TimerEvent where
  timer : ℕ
  count : ℕ
  deriving DecidableEq

/-- An event that a timer expired. -/
structure Expiry where
  target : ℕ
  data : TimerEvent
  deriving DecidableEq

namespace Timer

variable (t : Timer)

def reset : Timer := { t with time := t.timeout }

/-- Counts down. -/
def sub (dt : ℚ) : Timer := { t with time := t.time - dt }

/-- How often the timer expired since it was reset; a count over `uint32_t` is not defined. -/
def fillEvent : TimerEvent where
  timer := t.timer
  count := if t.time ≤ 0 then ⌊(t.timeout - t.time) / t.timeout⌋₊ else 0

end Timer

end Timers

open Timers (Timer TimerEvent Expiry)

/-- The timers of a queue of events. -/
structure Timers where
  /-- When the stopwatch was reset. -/
  mark : ℚ
  /-- The timers that were not deleted. -/
  timers : Finset ℕ := ∅
  timerQueue : List Timer := []

namespace Timers

variable (a : Heap.Algorithms Timer.time) (q : Timers)

/-- Adds a timer.  What is on the stopwatch is added to its time, as the next poll takes that
off. -/
def newTimer (timer : ℕ) (duration : ℚ) (target : Option ℕ) (oneShot : Bool) (now : ℚ) : Timers :=
  { q with
    timers := insert timer q.timers
    timerQueue := a.push q.timerQueue
      ⟨timer, duration, target.getD timer, oneShot, duration + (now - q.mark)⟩ }

/-- Removes a timer. -/
def deleteTimer (timer : ℕ) : Timers :=
  { q with
    timerQueue :=
      match q.timerQueue.findIdx? (·.timer == timer) with
      | none => q.timerQueue
      | some index => a.erase q.timerQueue index
    timers := q.timers.erase timer }

/-- Counts the timers down, at the time `now`, and reports the first one if it has expired.  The
stopwatch is reset at the time `now'`. -/
def hasTimerExpired (now now' : ℚ) : Timers × Option Expiry :=
  match q.timerQueue with
  | [] => (q, none)
  | first :: rest =>
    let time := now - q.mark
    let timerQueue := (first :: rest).map (·.sub time)
    let timer := first.sub time
    if 0 < timer.time then ({ q with mark := now', timerQueue := timerQueue }, none)
    else
      let timerQueue := a.pop timerQueue
      let event := ⟨timer.target, timer.fillEvent⟩
      let timerQueue := if timer.oneShot then timerQueue else a.push timerQueue timer.reset
      ({ q with mark := now', timerQueue := timerQueue }, some event)

/-- The time until the next timer expires; negative if there is none. -/
def getNextTimerTimeout : ℚ :=
  match q.timerQueue.head? with
  | none => -1
  | some timer => if timer.time ≤ 0 then 0 else timer.time

end Timers

/-- What happened to a timer. -/
inductive TimerRun.Entry
  | created (timer : ℕ) (duration : ℚ) (oneShot : Bool) (now : ℚ)
  | deleted (timer : ℕ)
  /-- The poll read the clock at the times `now` and `now'`. -/
  | reported (timer : ℕ) (now now' : ℚ)
  deriving DecidableEq

open TimerRun (Entry)

/-- Timers and their history. -/
structure TimerRun where
  queue : Timers
  /-- The last reading of the clock. -/
  clock : ℚ
  /-- Newest first. -/
  log : List Entry := []

namespace TimerRun

/-- The calls, with the readings of the clock and the address of a timer that is made. -/
inductive Action
  | newTimer (timer : ℕ) (duration : ℚ) (target : Option ℕ) (oneShot : Bool) (now : ℚ)
  | deleteTimer (timer : ℕ)
  | poll (now now' : ℚ)

variable (a : Heap.Algorithms Timer.time)

/-- One step.  A timer has another address than those that were not deleted. -/
def step (s : TimerRun) : Action → Option TimerRun
  | .newTimer timer duration target oneShot now =>
    if s.clock ≤ now ∧ 0 < duration ∧ timer ∉ s.queue.timers then
      some
        { queue := s.queue.newTimer a timer duration target oneShot now
          clock := now
          log := .created timer duration oneShot now :: s.log }
    else none
  | .deleteTimer timer =>
    some { s with queue := s.queue.deleteTimer a timer, log := .deleted timer :: s.log }
  | .poll now now' =>
    if s.clock ≤ now ∧ now ≤ now' then
      some
        { queue := (s.queue.hasTimerExpired a now now').1
          clock := now'
          log :=
            match (s.queue.hasTimerExpired a now now').2 with
            | none => s.log
            | some event => .reported event.data.timer now now' :: s.log }
    else none

/-- The runs of the timers. -/
def lts : LTS TimerRun Action where
  init s := ∃ start, s = { queue := { mark := start }, clock := start }
  step := step a

/-- A timer that was made and not deleted. -/
structure Life where
  duration : ℚ
  oneShot : Bool
  /-- When it was made or last reported. -/
  since : ℚ
  reported : Bool
  deriving DecidableEq

/-- What a history says of a timer. -/
def life (timer : ℕ) : List Entry → Option Life
  | [] => none
  | .created timer' duration oneShot now :: log =>
    if timer' = timer then some ⟨duration, oneShot, now, false⟩ else life timer log
  | .deleted timer' :: log => if timer' = timer then none else life timer log
  | .reported timer' _ now' :: log =>
    if timer' = timer then
      (life timer log).map fun l => { l with since := now', reported := true }
    else life timer log

/-- The timer may be reported at the time `now`: it was not deleted, its duration has elapsed, and
if it is one for one report, there was none. -/
def Due (log : List Entry) (timer : ℕ) (now : ℚ) : Prop :=
  ∃ l, life timer log = some l ∧ l.duration ≤ now - l.since ∧
    (l.oneShot = true → l.reported = false)

variable (s : TimerRun)

/-- **The timers are in order.** -/
structure Faithful : Prop where
  top : ∀ x ∈ s.queue.timerQueue.head?, ∀ y ∈ s.queue.timerQueue, x.time ≤ y.time
  reports : ∀ newer timer now now' older, s.log = newer ++ .reported timer now now' :: older →
    Due older timer now

/-- What is left of the time of a timer is what the history says, or more. -/
structure Matches (mark : ℚ) (x : Timer) (l : Life) : Prop where
  timeout : x.timeout = l.duration
  oneShot : x.oneShot = l.oneShot
  reported : l.oneShot = true → l.reported = false
  time : l.duration + l.since ≤ x.time + mark

/-- The timers are those that the history says. -/
structure Agrees (mark : ℚ) (timers : Finset ℕ) (log : List Entry) (c : List Timer) : Prop where
  nodup : (c.map Timer.timer).Nodup
  live : ∀ x ∈ c, x.timer ∈ timers
  known : ∀ x ∈ c, ∃ l, life x.timer log = some l ∧ Matches mark x l

/-- Each report was due. -/
def Reports (log : List Entry) : Prop :=
  ∀ newer timer now now' older, log = newer ++ .reported timer now now' :: older →
    Due older timer now

/-- The invariant. -/
structure Inv : Prop where
  heap : Heap.IsHeap Timer.time s.queue.timerQueue
  agrees : Agrees s.queue.mark s.queue.timers s.log s.queue.timerQueue
  reports : Reports s.log

variable {s} {s' : TimerRun} {mark : ℚ} {timers : Finset ℕ} {log : List Entry} {c c' : List Timer}
variable {timer : ℕ} {now now' : ℚ} {x : Timer} {l : Life} {e : Entry}

theorem Inv.faithful (h : Inv s) : Faithful s := by
  refine ⟨fun x hx y hy => ?_, h.reports⟩
  have hheap := h.heap
  cases hqueue : s.queue.timerQueue with
  | nil =>
    rw [hqueue] at hy
    cases hy
  | cons first rest =>
    rw [hqueue] at hx hy hheap
    cases hx
    exact hheap.least hy

/-! ### Histories -/

theorem reports_nil : Reports [] := by
  intro newer timer now now' older h
  exact absurd h.symm (List.append_ne_nil_of_right_ne_nil _ (List.cons_ne_nil _ _))

/-- One more entry. -/
theorem Reports.cons (h : Reports log) (hdue : ∀ timer now now', e = .reported timer now now' →
    Due log timer now) : Reports (e :: log) := by
  intro newer timer now now' older heq
  cases newer with
  | nil =>
    obtain ⟨he, rfl⟩ := List.cons.inj heq
    exact hdue _ _ _ he
  | cons e' newer =>
    obtain ⟨-, hlog⟩ := List.cons.inj heq
    exact h _ _ _ _ _ hlog

/-- An entry about another timer. -/
theorem Agrees.cons (h : Agrees mark timers log c)
    (hlife : ∀ x ∈ c, life x.timer (e :: log) = life x.timer log) :
    Agrees mark timers (e :: log) c :=
  ⟨h.nodup, h.live, fun x hx => by rw [hlife x hx]; exact h.known x hx⟩

theorem Agrees.of_perm (h : Agrees mark timers log c) (hperm : c'.Perm c) :
    Agrees mark timers log c' :=
  ⟨(hperm.map _).nodup_iff.2 h.nodup, fun x hx => h.live x (hperm.mem_iff.1 hx),
    fun x hx => h.known x (hperm.mem_iff.1 hx)⟩

theorem Agrees.of_sublist (h : Agrees mark timers log c) (hsub : c'.Sublist c) :
    Agrees mark timers log c' :=
  ⟨h.nodup.sublist (hsub.map _), fun x hx => h.live x (hsub.subset hx),
    fun x hx => h.known x (hsub.subset hx)⟩

/-- One more timer. -/
theorem Agrees.insert (h : Agrees mark timers log c) (hfresh : ∀ y ∈ c, y.timer ≠ x.timer)
    (hlive : x.timer ∈ timers) (hl : life x.timer log = some l) (hx : Matches mark x l) :
    Agrees mark timers log (x :: c) := by
  refine ⟨?_, List.forall_mem_cons.2 ⟨hlive, h.live⟩, List.forall_mem_cons.2 ⟨⟨l, hl, hx⟩, h.known⟩⟩
  rw [List.map_cons, List.nodup_cons]
  refine ⟨fun hmem => ?_, h.nodup⟩
  obtain ⟨y, hy, heq⟩ := List.mem_map.1 hmem
  exact hfresh y hy heq

/-- The timers are counted down. -/
theorem Agrees.map_sub (h : Agrees mark timers log c) (hle : now ≤ now') :
    Agrees now' timers log (c.map (·.sub (now - mark))) := by
  refine ⟨?_, fun x hx => ?_, fun x hx => ?_⟩
  · rw [List.map_map]
    exact h.nodup
  · obtain ⟨y, hy, rfl⟩ := List.mem_map.1 hx
    exact h.live y hy
  · obtain ⟨y, hy, rfl⟩ := List.mem_map.1 hx
    obtain ⟨l, hl, hmatches⟩ := h.known y hy
    refine ⟨l, hl, hmatches.timeout, hmatches.oneShot, hmatches.reported, ?_⟩
    have htime := hmatches.time
    show l.duration + l.since ≤ y.time - (now - mark) + now'
    linarith

theorem isHeap_map_sub (h : Heap.IsHeap Timer.time c) (dt : ℚ) :
    Heap.IsHeap Timer.time (c.map (·.sub dt)) :=
  h.map fun _ _ hle => sub_le_sub_right hle dt

/-! ### Steps -/

variable {a : Heap.Algorithms Timer.time}

theorem Inv.newTimer (h : Inv s) {duration : ℚ} {target : Option ℕ} {oneShot : Bool}
    (hfresh : timer ∉ s.queue.timers) :
    Inv
      { queue := s.queue.newTimer a timer duration target oneShot now
        clock := now
        log := .created timer duration oneShot now :: s.log } := by
  obtain ⟨hheap, hperm⟩ := a.push_spec h.heap
    ⟨timer, duration, target.getD timer, oneShot, duration + (now - s.queue.mark)⟩
  have hother : ∀ x ∈ s.queue.timerQueue, x.timer ≠ timer := by
    rintro x hx rfl
    exact hfresh (h.agrees.live x hx)
  refine ⟨hheap, Agrees.of_perm ?_ hperm, h.reports.cons nofun⟩
  have hold : Agrees s.queue.mark (insert timer s.queue.timers)
      (.created timer duration oneShot now :: s.log) s.queue.timerQueue := by
    refine Agrees.cons ⟨h.agrees.nodup, fun x hx => ?_, h.agrees.known⟩ fun x hx => ?_
    · exact Finset.mem_insert_of_mem (h.agrees.live x hx)
    · exact if_neg (Ne.symm (hother x hx))
  refine hold.insert hother (Finset.mem_insert_self _ _) (if_pos rfl)
    ⟨rfl, rfl, fun _ => rfl, ?_⟩
  show duration + now ≤ duration + (now - s.queue.mark) + s.queue.mark
  linarith

/-- The timer that is removed is the only one with its address. -/
theorem forall_mem_eraseP (h : (c.map Timer.timer).Nodup) :
    ∀ x ∈ c.eraseP (·.timer == timer), x.timer ≠ timer := by
  induction c with
  | nil => exact fun x hx => absurd hx List.not_mem_nil
  | cons y c ih =>
    rw [List.map_cons, List.nodup_cons] at h
    by_cases hy : y.timer = timer
    · rw [List.eraseP_cons_of_pos (p := fun z : Timer => z.timer == timer)
        (beq_iff_eq.2 hy)]
      rintro x hx rfl
      exact h.1 (hy ▸ List.mem_map_of_mem hx)
    · rw [List.eraseP_cons_of_neg (by rwa [beq_iff_eq])]
      exact List.forall_mem_cons.2 ⟨hy, ih h.2⟩

theorem deleteTimer_spec (h : Heap.IsHeap Timer.time s.queue.timerQueue) (timer : ℕ) :
    Heap.IsHeap Timer.time (s.queue.deleteTimer a timer).timerQueue ∧
      (s.queue.deleteTimer a timer).timerQueue.Perm
        (s.queue.timerQueue.eraseP (·.timer == timer)) := by
  rw [List.eraseP_eq_eraseIdx]
  unfold Timers.deleteTimer
  cases s.queue.timerQueue.findIdx? (·.timer == timer) with
  | none => exact ⟨h, .refl _⟩
  | some index => exact a.erase_spec _ _

theorem Inv.deleteTimer (h : Inv s) (timer : ℕ) :
    Inv { s with queue := s.queue.deleteTimer a timer, log := .deleted timer :: s.log } := by
  obtain ⟨hheap, hperm⟩ := deleteTimer_spec (a := a) h.heap timer
  have hother : ∀ x ∈ s.queue.timerQueue.eraseP (·.timer == timer), x.timer ≠ timer :=
    forall_mem_eraseP h.agrees.nodup
  have hrest := h.agrees.of_sublist (List.eraseP_sublist (p := (·.timer == timer)))
  refine ⟨hheap, Agrees.of_perm ?_ hperm, h.reports.cons nofun⟩
  refine Agrees.cons ⟨hrest.nodup, fun x hx => ?_, hrest.known⟩ fun x hx => ?_
  · exact Finset.mem_erase.2 ⟨hother x hx, hrest.live x hx⟩
  · exact if_neg (Ne.symm (hother x hx))

/-- What a poll does: nothing without timers, else it counts down, and the first timer may have
expired. -/
theorem hasTimerExpired_cases (a : Heap.Algorithms Timer.time) (q : Timers) (now now' : ℚ) :
    q.hasTimerExpired a now now' = (q, none) ∧ q.timerQueue = [] ∨
    ∃ first rest, q.timerQueue.map (·.sub (now - q.mark)) = first :: rest ∧
      (0 < first.time ∧ q.hasTimerExpired a now now' =
        ({ q with mark := now', timerQueue := first :: rest }, none) ∨
      first.time ≤ 0 ∧ q.hasTimerExpired a now now' =
        ({ q with
          mark := now'
          timerQueue :=
            if first.oneShot then a.pop (first :: rest)
            else a.push (a.pop (first :: rest)) first.reset },
          some ⟨first.target, first.fillEvent⟩)) := by
  unfold Timers.hasTimerExpired
  cases q.timerQueue with
  | nil => exact .inl ⟨rfl, rfl⟩
  | cons first rest =>
    refine .inr ⟨_, _, List.map_cons .., ?_⟩
    by_cases htime : 0 < (first.sub (now - q.mark)).time
    · exact .inl ⟨htime, if_pos htime⟩
    · exact .inr ⟨not_lt.1 htime, if_neg htime⟩

theorem Inv.poll (h : Inv s) (hle : now ≤ now') :
    Inv
      { queue := (s.queue.hasTimerExpired a now now').1
        clock := now'
        log :=
          match (s.queue.hasTimerExpired a now now').2 with
          | none => s.log
          | some event => .reported event.data.timer now now' :: s.log } := by
  obtain ⟨heq, -⟩ | ⟨first, rest, hmap, hcase⟩ := hasTimerExpired_cases a s.queue now now'
  · rw [heq]
    exact ⟨h.heap, h.agrees, h.reports⟩
  have hheap := isHeap_map_sub h.heap (now - s.queue.mark)
  have hagrees := h.agrees.map_sub hle
  rw [hmap] at hheap hagrees
  obtain ⟨-, heq⟩ | ⟨htime, heq⟩ := hcase
  · rw [heq]
    exact ⟨hheap, hagrees, h.reports⟩
  -- The first timer has expired.
  rw [heq]
  obtain ⟨hpop, hperm⟩ := a.pop_spec hheap
  have hother : ∀ x ∈ rest, x.timer ≠ first.timer := by
    have hnodup := hagrees.nodup
    rw [List.map_cons, List.nodup_cons] at hnodup
    intro x hx heq
    exact hnodup.1 (heq ▸ List.mem_map_of_mem hx)
  obtain ⟨y, hy, hfirst⟩ := List.mem_map.1
    (show first ∈ s.queue.timerQueue.map (·.sub (now - s.queue.mark)) by
      rw [hmap]
      exact List.mem_cons_self)
  obtain ⟨l, hl, hmatches⟩ := h.agrees.known y hy
  have htimer : first.timer = y.timer := by rw [← hfirst]; rfl
  have hdue : Due s.log first.timer now := by
    refine ⟨l, htimer ▸ hl, ?_, hmatches.reported⟩
    have hleft := hmatches.time
    have hexpired : y.time - (now - s.queue.mark) ≤ 0 := by
      rw [← hfirst] at htime
      exact htime
    linarith
  have hrest : Agrees now' s.queue.timers (.reported first.timer now now' :: s.log) rest := by
    refine (hagrees.of_sublist (List.sublist_cons_self _ _)).cons fun x hx => ?_
    exact if_neg (Ne.symm (hother x hx))
  have hreports : Reports (.reported first.timer now now' :: s.log) := by
    refine h.reports.cons fun timer t t' hentry => ?_
    cases hentry
    exact hdue
  show Inv { queue := _, clock := now', log := .reported first.timer now now' :: s.log }
  cases honeShot : first.oneShot with
  | true => exact ⟨hpop, hrest.of_perm hperm, hreports⟩
  | false =>
    obtain ⟨hpush, hperm'⟩ := a.push_spec hpop first.reset
    refine ⟨hpush, Agrees.of_perm ?_ (hperm'.trans (hperm.cons _)), hreports⟩
    have hlife : life first.timer (.reported first.timer now now' :: s.log) =
        some { l with since := now', reported := true } := by
      rw [life, if_pos rfl, htimer, hl]
      rfl
    have hkind : l.oneShot = false := by
      rw [← hmatches.oneShot, ← honeShot, ← hfirst]
      rfl
    have htimeout : first.timeout = l.duration := by
      rw [← hmatches.timeout, ← hfirst]
      rfl
    refine hrest.insert hother (hagrees.live first List.mem_cons_self) hlife
      ⟨htimeout, honeShot.trans hkind.symm, fun hone => ?_, ?_⟩
    · rw [show l.oneShot = true from hone] at hkind
      cases hkind
    · show l.duration + now' ≤ first.timeout + now'
      rw [htimeout]

theorem Inv.step {action : Action} (h : Inv s) (hst : s.step a action = some s') : Inv s' := by
  cases action with
  | newTimer timer duration target oneShot now =>
    obtain ⟨⟨-, -, hfresh⟩, hst⟩ := Option.ite_none_right_eq_some.1 hst
    cases hst
    exact h.newTimer hfresh
  | deleteTimer timer =>
    cases hst
    exact h.deleteTimer timer
  | poll now now' =>
    obtain ⟨⟨-, hle⟩, hst⟩ := Option.ite_none_right_eq_some.1 hst
    cases hst
    exact h.poll hle

/-- **The timers are in order** throughout runs. -/
theorem timers_faithful_of_reachable (a : Heap.Algorithms Timer.time) (hs : (lts a).Reachable s) :
    Faithful s := by
  have h : Inv s := by
    refine LTS.ReachableVia.invariant hs (I := Inv) ?_ ?_
    · rintro s ⟨start, rfl⟩
      exact ⟨Heap.isHeap_nil, ⟨List.nodup_nil, nofun, nofun⟩, reports_nil⟩
    · intro s action s' h _ hst
      exact h.step hst
  exact h.faithful

/-- A wait that ends with the next timer goes past the expiry of none. -/
theorem getNextTimerTimeout_le (h : Faithful s) {y : Timer} (hy : y ∈ s.queue.timerQueue) :
    s.queue.getNextTimerTimeout ≤ max y.time 0 := by
  unfold Timers.getNextTimerTimeout
  cases hhead : s.queue.timerQueue.head? with
  | none =>
    rw [List.head?_eq_none_iff.1 hhead] at hy
    cases hy
  | some x =>
    dsimp only
    split_ifs with htime
    · exact le_max_right _ _
    · exact (h.top x hhead y hy).trans (le_max_left _ _)

/-- A timer that is reported again and again and one that is reported once; both are counted down
before they expire. -/
def pollTwice : List Action :=
  [.newTimer 1 2 none false 0, .newTimer 2 3 none true 1, .poll 1 1, .poll 3 3, .poll 5 (11 / 2),
    .poll 6 6, .deleteTimer 1, .poll 9 9]

theorem timers_faithful_of_reachable_pollTwice :
    ∃ s : TimerRun, Faithful s ∧ s.queue.timerQueue = [] ∧
      s.log = [.deleted 1, .reported 1 6 6, .reported 2 5 (11 / 2), .reported 1 3 3,
        .created 2 3 true 1, .created 1 2 false 0] := by
  have hrun : ((lts (Heap.Algorithms.sorting Timer.time)).exec
      { queue := { mark := 0 }, clock := 0 } pollTwice).map
        (fun s => (s.queue.timerQueue, s.log)) =
      some ([], [.deleted 1, .reported 1 6 6, .reported 2 5 (11 / 2), .reported 1 3 3,
        .created 2 3 true 1, .created 1 2 false 0]) := by decide +kernel
  obtain ⟨s, hs, hend⟩ := Option.map_eq_some_iff.1 hrun
  obtain ⟨hqueue, hlog⟩ := Prod.mk.inj hend
  exact ⟨s, timers_faithful_of_reachable _ (.of_exec ⟨0, rfl⟩ hs), hqueue, hlog⟩

end TimerRun

end InputLeap
