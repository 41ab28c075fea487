import InputLeap.Keyboard.KeyMap
import Mathlib.Algebra.Group.Nat.Defs
import Mathlib.Data.List.SplitBy
import Mathlib.Data.List.TakeWhile

/-!
# Playing keystrokes

`KeyState::fakeKeys` sends keystrokes. Those of an autorepeat stand next to each other in the list,
and they are to be sent a number of times. The loop comes back to the first of them as long as a
counter allows it, and it uses one counter for the whole list.

## Main definitions

* `KeyState.fakeKeys` : the loop.
* `KeyState.groups`, `KeyState.play` : the groups of a list, and what playing each a number of
  times sends.

## Main results

* `KeyState.fakeKeys_eq` : what the loop sends. The first group of repeats is played as often as
  asked, those after it 2 ^ 32 - 1 times, because the counter has wrapped around.
* `KeyState.fakeKeys_plays` : a list with at most one group of repeats is played as asked.
-/

namespace InputLeap

open KeyMap

/-- The keystroke is one of an autorepeat. -/
def KeyMap.Keystroke.isRepeat : Keystroke → Bool
  | .button _ _ isRepeat _ => isRepeat
  | .group .. => false

namespace KeyState

/-- The largest `std::uint32_t`, which a counter has after it was counted down past zero. -/
def wrapped : ℕ := 2 ^ 32 - 1

/-- `while (count-- > 0)`: the repeats from `start` are sent `count` times. It returns what was sent
and where `k` is then. -/
def sendRepeats (start : List Keystroke) : ℕ → List Keystroke → List Keystroke × List Keystroke
  | 0, k => ([], k)
  | count + 1, _ =>
    let rest := sendRepeats start count (start.dropWhile Keystroke.isRepeat)
    (start.takeWhile Keystroke.isRepeat ++ rest.1, rest.2)

theorem sendRepeats_eq (start k : List Keystroke) (count : ℕ) :
    sendRepeats start count k =
      ((List.replicate count (start.takeWhile Keystroke.isRepeat)).flatten,
        if count = 0 then k else start.dropWhile Keystroke.isRepeat) := by
  induction count generalizing k with
  | zero => rfl
  | succ count ih =>
    rw [sendRepeats, ih]
    simp [List.replicate_succ]

theorem length_dropWhile_lt {key : Keystroke} {rest : List Keystroke}
    (h : key.isRepeat = true) :
    ((key :: rest).dropWhile Keystroke.isRepeat).length < (key :: rest).length := by
  rw [List.dropWhile_cons_of_pos h, List.length_cons]
  exact Nat.lt_succ_of_le (List.dropWhile_suffix _).length_le

/-- The loop over the keystrokes, from `k` on. -/
def fakeKeysLoop (k : List Keystroke) (count : ℕ) : List Keystroke :=
  match k with
  | [] => []
  | key :: rest =>
    if key.isRepeat then
      let sent := sendRepeats (key :: rest) count (key :: rest)
      sent.1 ++ fakeKeysLoop sent.2 wrapped
    else key :: fakeKeysLoop rest count
termination_by (k.length, if count = 0 then 1 else 0)
decreasing_by
  · rename_i hrepeat
    rw [sendRepeats_eq]
    dsimp only
    split_ifs with hcount hwrapped
    · cases hwrapped
    · exact Prod.Lex.right _ Nat.zero_lt_one
    · exact Prod.Lex.left _ _ (length_dropWhile_lt hrepeat)
    · exact Prod.Lex.left _ _ (length_dropWhile_lt hrepeat)
  · exact Prod.Lex.left _ _ (Nat.lt_succ_self _)

/-- The keystrokes that are sent. -/
def fakeKeys (keys : List Keystroke) (count : ℕ) : List Keystroke :=
  if count = 0 ∨ keys = [] then [] else fakeKeysLoop keys count

/-- The maximal groups of repeats next to each other, and every other keystroke alone. -/
def groups (keys : List Keystroke) : List (List Keystroke) :=
  keys.splitBy fun a b => a.isRepeat && b.isRepeat

/-- The group is one of repeats. -/
def isRepeats (group : List Keystroke) : Bool := group.any Keystroke.isRepeat

/-- What is sent when the groups of repeats are played `times 0`, `times 1`, and so on, and
everything else once. -/
def play : (times : ℕ → ℕ) → List (List Keystroke) → List Keystroke
  | _, [] => []
  | times, group :: rest =>
    if isRepeats group then
      (List.replicate (times 0) group).flatten ++ play (fun n => times (n + 1)) rest
    else group ++ play times rest

/-- What is to be sent: every group of repeats `count` times, and everything else once. -/
def played (count : ℕ) (keys : List Keystroke) : List Keystroke :=
  play (fun _ => count) (groups keys)

variable {key : Keystroke} {keys rest : List Keystroke} {count : ℕ} {times : ℕ → ℕ}

/-! ### Groups -/

/-- A keystroke that is no repeat is a group. -/
theorem groups_other (h : key.isRepeat = false) : groups (key :: keys) = [key] :: groups keys := by
  have hsplit := List.splitBy_append (r := fun a b : Keystroke => a.isRepeat && b.isRepeat)
    (l := [key]) (m := keys)
  rw [List.singleton_append] at hsplit
  refine hsplit fun x hx y _ => ?_
  obtain rfl : key = x := Option.some.inj hx
  rw [h, Bool.false_and]

/-- Repeats go up to the first keystroke that is none. -/
theorem groups_repeat (h : key.isRepeat = true) :
    groups (key :: keys) = (key :: keys).takeWhile Keystroke.isRepeat ::
      groups ((key :: keys).dropWhile Keystroke.isRepeat) := by
  have hne : (key :: keys).takeWhile Keystroke.isRepeat ≠ [] := by
    rw [List.takeWhile_cons_of_pos h]
    exact List.cons_ne_nil _ _
  have hall : ∀ k ∈ (key :: keys).takeWhile Keystroke.isRepeat, k.isRepeat = true :=
    fun k hk => List.mem_takeWhile_imp hk
  have hchain : ((key :: keys).takeWhile Keystroke.isRepeat).IsChain
      fun a b => (a.isRepeat && b.isRepeat) = true := by
    refine List.Pairwise.isChain (List.Pairwise.imp_of_mem (R := fun _ _ => True) ?_ ?_)
    · intro a b ha hb _
      rw [hall a ha, hall b hb]
      rfl
    · exact List.pairwise_of_forall fun _ _ => trivial
  -- a group ends where the next keystroke is no repeat
  have hend : ∀ k ∈ ((key :: keys).dropWhile Keystroke.isRepeat).head?, k.isRepeat = false := by
    intro k hk
    have hnot := List.head?_dropWhile_not Keystroke.isRepeat (key :: keys)
    rw [Option.mem_def.1 hk] at hnot
    simpa using hnot
  have hsplit := List.splitBy_append (r := fun a b : Keystroke => a.isRepeat && b.isRepeat)
    (l := (key :: keys).takeWhile Keystroke.isRepeat)
    (m := (key :: keys).dropWhile Keystroke.isRepeat) fun x _ y hy => by
      rw [hend y hy, Bool.and_false]
  rw [List.takeWhile_append_dropWhile, List.splitBy_of_isChain hne hchain] at hsplit
  exact hsplit

/-- Playing a list that starts with repeats. -/
theorem play_repeat (h : key.isRepeat = true) :
    play times (groups (key :: keys)) =
      (List.replicate (times 0) ((key :: keys).takeWhile Keystroke.isRepeat)).flatten ++
        play (fun n => times (n + 1)) (groups ((key :: keys).dropWhile Keystroke.isRepeat)) := by
  have hany : isRepeats ((key :: keys).takeWhile Keystroke.isRepeat) = true := by
    rw [List.takeWhile_cons_of_pos h, isRepeats, List.any_cons, h, Bool.true_or]
  rw [groups_repeat h, play, if_pos hany]

/-- Playing a list that starts with something else. -/
theorem play_other (h : key.isRepeat = false) :
    play times (groups (key :: keys)) = key :: play times (groups keys) := by
  have hany : ¬isRepeats [key] = true := by simp [isRepeats, h]
  rw [groups_other h, play, if_neg hany, List.singleton_append]

/-- Without repeats it does not matter how often they are played. -/
theorem play_of_none {gs : List (List Keystroke)} (h : gs.countP isRepeats = 0)
    (times times' : ℕ → ℕ) : play times gs = play times' gs := by
  induction gs with
  | nil => rfl
  | cons g gs ih =>
    have hg : ¬isRepeats g = true := List.countP_eq_zero.1 h g List.mem_cons_self
    rw [List.countP_cons_of_neg hg] at h
    rw [play, play, if_neg hg, if_neg hg, ih h]

/-- With one group of repeats only the first number matters. -/
theorem play_congr {gs : List (List Keystroke)} {times' : ℕ → ℕ} (h : times 0 = times' 0)
    (hone : gs.countP isRepeats ≤ 1) : play times gs = play times' gs := by
  induction gs with
  | nil => rfl
  | cons g gs ih =>
    by_cases hg : isRepeats g = true
    · have hnone : gs.countP isRepeats = 0 := by
        rw [List.countP_cons_of_pos hg] at hone
        omega
      rw [play, play, if_pos hg, if_pos hg, h, play_of_none hnone]
    · rw [List.countP_cons_of_neg hg] at hone
      rw [play, play, if_neg hg, if_neg hg, ih hone]

/-! ### The loop -/

/-- A group of repeats is sent as often as the counter says, which then has its largest value. -/
theorem fakeKeysLoop_repeat (h : key.isRepeat = true) (hcount : 0 < count) :
    fakeKeysLoop (key :: rest) count =
      (List.replicate count ((key :: rest).takeWhile Keystroke.isRepeat)).flatten ++
        fakeKeysLoop ((key :: rest).dropWhile Keystroke.isRepeat) wrapped := by
  rw [fakeKeysLoop, if_pos h, sendRepeats_eq]
  dsimp only
  rw [if_neg (Nat.ne_of_gt hcount)]

theorem fakeKeysLoop_other (h : key.isRepeat = false) :
    fakeKeysLoop (key :: rest) count = key :: fakeKeysLoop rest count := by
  rw [fakeKeysLoop, if_neg (by rw [h]; exact Bool.false_ne_true)]

/-- How often each group is played: the first as the counter says at first. -/
def repeatsOf (count : ℕ) : ℕ → ℕ
  | 0 => count
  | _ + 1 => wrapped

theorem fakeKeysLoop_eq (keys : List Keystroke) (hcount : 0 < count) :
    fakeKeysLoop keys count = play (repeatsOf count) (groups keys) := by
  -- by induction on the length, as a turn takes all repeats at the start
  induction hn : keys.length using Nat.strong_induction_on generalizing keys count with
  | _ n ih =>
    subst hn
    cases keys with
    | nil => rw [fakeKeysLoop, groups, List.splitBy_nil, play]
    | cons key keys =>
      cases hkey : key.isRepeat with
      | true =>
        have hwrapped : (fun n => repeatsOf count (n + 1)) = repeatsOf wrapped := by
          funext n
          cases n <;> rfl
        rw [fakeKeysLoop_repeat hkey hcount, play_repeat hkey, hwrapped,
          ih _ (length_dropWhile_lt hkey) _ (by decide) rfl]
        rfl
      | false =>
        rw [fakeKeysLoop_other hkey, play_other hkey,
          ih _ (Nat.lt_succ_self keys.length) keys hcount rfl]

/-- **What is sent.** Groups of repeats after the first are played 2 ^ 32 - 1 times. -/
theorem fakeKeys_eq (keys : List Keystroke) (count : ℕ) :
    fakeKeys keys count = if count = 0 then [] else play (repeatsOf count) (groups keys) := by
  rw [fakeKeys]
  by_cases hcount : count = 0
  · rw [if_pos (.inl hcount), if_pos hcount]
  · rw [if_neg hcount]
    by_cases hkeys : keys = []
    · rw [if_pos (.inr hkeys), hkeys, groups, List.splitBy_nil, play]
    · rw [if_neg (not_or.2 ⟨hcount, hkeys⟩)]
      exact fakeKeysLoop_eq keys (Nat.pos_of_ne_zero hcount)

/-- Nothing is sent for a count of zero. Otherwise every keystroke that is no repeat is sent once in
its place and every group of repeats a number of times, the first as often as asked; so a list with
at most one group is played as asked. -/
theorem fakeKeys_plays (keys : List Keystroke) (count : ℕ) :
    (count = 0 → fakeKeys keys count = []) ∧
    (count ≠ 0 →
      (∃ times : ℕ → ℕ, times 0 = count ∧ fakeKeys keys count = play times (groups keys)) ∧
      ((groups keys).countP isRepeats ≤ 1 → fakeKeys keys count = played count keys)) := by
  refine ⟨fun hcount => ?_, fun hcount => ⟨⟨repeatsOf count, rfl, ?_⟩, fun hone => ?_⟩⟩
  · rw [fakeKeys_eq, if_pos hcount]
  · rw [fakeKeys_eq, if_neg hcount]
  · rw [fakeKeys_eq, if_neg hcount, played]
    exact play_congr rfl hone

/-- With a count of zero, keystrokes that are no repeats are not sent either. -/
theorem not_fakeKeys_played :
    ¬∀ (keys : List Keystroke) (count : ℕ), fakeKeys keys count = played count keys := by
  intro h
  have hsent := h [.button 38 true false 0] 0
  rw [fakeKeys_eq, if_pos rfl, played, play_other rfl] at hsent
  cases hsent

end KeyState

end InputLeap
