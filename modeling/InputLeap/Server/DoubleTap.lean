import InputLeap.Server.Watch

/-!
# A double tap is two taps

With a double tap delay, a motion across an edge leaves the active screen only if it is the second
tap: since the screen became active the cursor crossed the same edge before, and came back inside.
The first tap is noted in the pending switch, which `forceLeaveClient` keeps when it moves the
cursor to the primary screen and the pending switch is to another screen than the one that is gone.

## Main definitions

* `Motion` : a motion of the cursor on the active screen.
* `Tapped` : a server with the motions since the active screen became active.
* `DoubleTapped` : two of the motions make a motion that comes now the second tap.
* `Server.Forgets` : no first tap is kept when the screen is forced out.

## Main results

* `Tapped.doubleTapped_of_reachable` : in runs that keep no first tap when a screen is forced out,
  a motion that leaves the active screen is a second tap.
* `Tapped.not_doubleTapped_of_reachable` : not in all runs.
-/

namespace InputLeap

/-- A motion of the cursor on the active screen. -/
structure Motion where
  time : ℚ
  /-- The edges that it crossed. -/
  edges : List Direction
  /-- It ended inside of the screen, beyond the tap zone, and went away from the edge. -/
  away : Direction → Bool

/-- Of the motions, newest first, one crossed the edge at most `delay` before `now`, and a later
one came back inside. -/
def DoubleTapped (delay now : ℚ) (d : Direction) (motions : List Motion) : Prop :=
  ∃ tap away : Motion, [away, tap].Sublist motions ∧ d ∈ tap.edges ∧ away.away d = true ∧
    now - tap.time ≤ delay

namespace Server

variable (s : Server)

/-! ### Motions -/

/-- The position is inside of the screen, beyond the tap zone. -/
def beyondTapZone (env : Env) (i : ScreenInfo) (x y : ℤ) : Bool :=
  let tapZone := max env.jumpZoneSize 3
  i.x + tapZone ≤ x ∧ x < i.x + i.w - tapZone ∧ i.y + tapZone ≤ y ∧ y < i.y + i.h - tapZone

/-- The motion goes away from the edge. -/
def goesAway (dx dy : ℤ) : Direction → Bool
  | .left => 0 < dx
  | .right => dx < 0
  | .top => 0 < dy
  | .bottom => dy < 0

/-- The mouse moves on the primary screen. -/
def primaryMotion (env : Env) (x y : ℤ) : Option Motion :=
  if s.focus.active ≠ primaryClient then none
  else
    let i := s.info s.focus.active
    some
      { time := env.now
        edges := (touchedEdges i (getJumpZoneSize env s.focus.active) x y).map Prod.fst
        away := fun d => beyondTapZone env i x y && goesAway (x - s.mouse.x) (y - s.mouse.y) d }

/-- The mouse moves on a secondary screen. -/
def secondaryMotion (env : Env) (dx dy : ℤ) : Option Motion :=
  if s.focus.active = primaryClient ∨ s.options.relativeMoves ∧ s.lockedToScreen then none
  else
    let i := s.info s.focus.active
    let x := s.mouse.x + dx
    let y := s.mouse.y + dy
    some
      { time := env.now
        edges := (exitSide i x y).toList
        away := fun d => beyondTapZone env i x y && goesAway dx dy d }

/-- The motion that an event is, or that handling it makes. -/
def motion (env : Env) : Event → Option Motion
  | .motionPrimary x y => s.primaryMotion env x y
  | .motionSecondary dx dy => s.secondaryMotion env dx dy
  | .shapeChanged c =>
    if c = primaryClient ∧ s.registry.clientSet.contains c then
      if c = s.focus.active then (s.refreshed c).primaryMotion env (s.info c).mx (s.info c).my
      else (s.refreshed c).secondaryMotion env 0 0
    else none
  | _ => none

/-- The first of the edges across which the cursor may switch now. -/
def switchEdge (env : Env) (xc yc : ℤ) : Server → List (Direction × ℤ × ℤ) → Option Direction
  | _, [] => none
  | s, (dir, p) :: rest =>
    match s.tryEdge env dir p xc yc with
    | none => none
    | some (_, some _) => some dir
    | some (s', none) => switchEdge env xc yc s' rest

/-- The edge across which a motion on the primary screen switches. -/
def primaryEdge (env : Env) (x y : ℤ) : Option Direction :=
  let i := s.info s.focus.active
  let zone := getJumpZoneSize env s.focus.active
  switchEdge env (clampZone x i.x i.w zone) (clampZone y i.y i.h zone)
    (s.moveMouse x y (x - s.mouse.x) (y - s.mouse.y)) (touchedEdges i zone x y)

/-- The edge across which a motion on a secondary screen switches. -/
def secondaryEdge (env : Env) (dx dy : ℤ) : Option Direction :=
  let i := s.info s.focus.active
  let x := s.mouse.x + dx
  let y := s.mouse.y + dy
  (exitSide i x y).bind fun dir =>
    switchEdge env (clampTo x i.x i.w) (clampTo y i.y i.h) (s.moveMouse x y dx dy) [(dir, x, y)]

/-- The edge across which an event switches. -/
def crossedEdge (env : Env) : Event → Option Direction
  | .motionPrimary x y => s.primaryEdge env x y
  | .motionSecondary dx dy => s.secondaryEdge env dx dy
  | .shapeChanged c =>
    if c = s.focus.active then (s.refreshed c).primaryEdge env (s.info c).mx (s.info c).my
    else (s.refreshed c).secondaryEdge env 0 0
  | _ => none

/-! ### Screens that are forced out -/

/-- If the screen `c` has the cursor and is forced out, no first tap is kept. -/
def Forgets (s : Server) (c : ClientID) : Prop :=
  s.focusClient = c → s.focus.active ≠ primaryClient → s.pending.twoTapEngaged = true →
    s.pending.switchScreen = some c

instance (c : ClientID) : Decidable (s.Forgets c) := inferInstanceAs (Decidable (_ → _ → _ → _))

/-- No first tap is kept when the event forces a screen out. -/
def ForgetsTaps : Event → Prop
  | .adoptClient c | .clientDisconnected c => s.Forgets c
  | .reloadConfig cfg => ∀ c ∈ droppedClients { s with config := cfg } cfg, s.Forgets c
  | .disconnect => ∀ c ∈ s.droppedClients {}, s.Forgets c
  | _ => True

instance : ∀ e, Decidable (s.ForgetsTaps e)
  | .adoptClient _ | .clientDisconnected _ => inferInstanceAs (Decidable (Forgets ..))
  | .reloadConfig _ => inferInstanceAs (Decidable (∀ _ ∈ _, _))
  | .disconnect => inferInstanceAs (Decidable (∀ _ ∈ _, _))
  | .clientConnected .. | .clientCloseTimeout _ | .screensaver _ | .switchToScreen _
  | .toggleScreen | .switchInDirection _ | .lockCursorToScreen _ | .motionPrimary ..
  | .motionSecondary .. | .switchWait | .info .. | .shapeChanged _ | .clipboardGrabbed ..
  | .clipboardReceived .. | .clipboardChanged .. | .filePasteRequested .. | .filePasteStatus ..
  | .mouseDown | .dragInfoSent => .isTrue trivial

end Server

/-- A server with the motions since the active screen became active, newest first. -/
structure Tapped where
  server : Server
  motions : List Motion

namespace Tapped

/-- One step. -/
def step (t : Tapped) (l : Env × Server.Event) : Option Tapped :=
  (t.server.step l.1 l.2).map fun s =>
    ⟨s, if s.focus.active = t.server.focus.active then
        (t.server.motion l.1 l.2).toList ++ t.motions
      else []⟩

/-- The runs of a server with its motions. -/
def lts : LTS Tapped (Env × Server.Event) where
  init t := Server.lts.init t.server ∧ t.motions = []
  step := step

/-- Switches need a double tap. -/
def Delayed (t : Tapped) : Prop := 0 < t.server.options.twoTapDelay

instance (t : Tapped) : Decidable t.Delayed := inferInstanceAs (Decidable (_ < _))

end Tapped

/-! ### What the pending switch notes -/

namespace Pending

variable {p : Pending} {ms ms' : List Motion}

/-- A first tap that is noted is one of the motions, and if it is armed a later motion came back
inside. -/
def Noted (p : Pending) (ms : List Motion) : Prop :=
  p.twoTapEngaged = true → p.switchScreen ≠ none ∧
    ∃ d, ∃ tap ∈ ms, p.switchDir = some d ∧ d ∈ tap.edges ∧ tap.time = p.twoTapTimer ∧
      (p.twoTapArmed = true → ∃ away : Motion, [away, tap].Sublist ms ∧ away.away d = true)

theorem Noted.mono (h : p.Noted ms) (hms : ms.Sublist ms') : p.Noted ms' := by
  intro hengaged
  obtain ⟨hscreen, d, tap, hmem, hdir, hedge, htime, harmed⟩ := h hengaged
  refine ⟨hscreen, d, tap, hms.subset hmem, hdir, hedge, htime, fun harm => ?_⟩
  obtain ⟨away, hsub, haway⟩ := harmed harm
  exact ⟨away, hsub.trans hms, haway⟩

theorem noted_of_not_engaged (h : p.twoTapEngaged = false) : p.Noted ms := by
  intro hengaged
  rw [h] at hengaged
  cases hengaged

/-- No first tap is left. -/
theorem Noted.stopSwitch (h : p.Noted ms) : p.stopSwitch.twoTapEngaged = false := by
  unfold Pending.stopSwitch
  split_ifs with hnone
  · exact Bool.eq_false_iff.2 fun hengaged => (h hengaged).1 hnone
  · rfl

theorem Noted.stopSwitchWait (h : p.Noted ms) : p.stopSwitchWait.Noted ms := h

theorem Noted.process (h : p.Noted ms) (options : List (OptionID × ℤ)) :
    (options.foldl Pending.process p).Noted ms := by
  induction options generalizing p with
  | nil => exact h
  | cons option options ih =>
    refine ih ?_
    unfold Pending.process
    split
    · exact h
    · exact noted_of_not_engaged rfl
    · exact h

/-- A motion across an edge is noted as a first tap. -/
theorem noted_start {cur : Motion} {env : Env} {dir : Direction} {c : ClientID}
    (hcur : cur ∈ ms) (hedge : dir ∈ cur.edges) (htime : cur.time = env.now) :
    ((p.aim dir c).startSwitchTwoTap env).Noted ms := by
  have haim : (p.aim dir c).switchScreen ≠ none ∧ (p.aim dir c).switchDir = some dir := by
    unfold Pending.aim
    split_ifs with hnew
    · exact ⟨Option.some_ne_none c, rfl⟩
    · obtain ⟨hdir, hscreen⟩ := not_or.1 hnew
      exact ⟨hscreen, not_not.1 hdir⟩
  intro _
  exact ⟨haim.1, dir, cur, hcur, haim.2, hedge, htime, fun harmed => by cases harmed⟩

end Pending

namespace Server

variable {s s' s'' : Server} {env : Env} {ms : List Motion} {cur : Motion}

/-- A motion that goes on with the switch is the second tap. -/
theorem doubleTapped_of_allowSwitch {dir : Direction} (h : s.pending.Noted ms)
    (hallow : s.allowSwitch env dir = true) :
    DoubleTapped s.options.twoTapDelay env.now dir ms := by
  simp only [allowSwitch, Pending.shouldSwitchTwoTap, Bool.and_eq_true, beq_iff_eq,
    decide_eq_true_eq] at hallow
  obtain ⟨⟨⟨-, hdir⟩, hengaged⟩, harmed, htime⟩ := hallow
  obtain ⟨-, d, tap, -, hd, hedge, htap, hinside⟩ := h hengaged
  obtain rfl : dir = d := Option.some.inj (hdir.symm.trans hd)
  obtain ⟨away, hsub, haway⟩ := hinside harmed
  refine ⟨tap, away, hsub, hedge, haway, ?_⟩
  rw [htap]
  exact htime

/-- The double tap is armed by a motion that comes back inside. -/
theorem noted_noSwitch {x y : ℤ} (h : s.pending.Noted ms)
    (haway : ∀ d, beyondTapZone env (s.info s.focus.active) x y = true →
      goesAway s.mouse.xDelta s.mouse.yDelta d = true → cur.away d = true) :
    (s.noSwitch env x y).pending.Noted (cur :: ms) := by
  have hmono := h.mono (List.sublist_cons_self cur ms)
  have harm : (s.armSwitchTwoTap env x y).pending.Noted (cur :: ms) := by
    unfold armSwitchTwoTap
    split_ifs with hoff hlate harmed
    · exact hmono
    · exact Pending.noted_of_not_engaged rfl
    · exact hmono
    · dsimp only
      split_ifs with hinside
      · intro hengaged
        obtain ⟨hscreen, d, tap, hmem, hdir, hedge, htime, -⟩ := h hengaged
        refine ⟨hscreen, d, tap, List.mem_cons_of_mem _ hmem, hdir, hedge, htime, fun hleft => ?_⟩
        refine ⟨cur, (List.singleton_sublist.2 hmem).cons_cons cur,
          haway d (by simpa [beyondTapZone] using hinside) ?_⟩
        -- Both of the last two motions went away from the edge.
        have hleft : s.leftTapZone s.pending.switchDir = true := hleft
        rw [hdir] at hleft
        cases d with
        | left | right | top | bottom => exact (Bool.and_eq_true_iff.1 hleft).1
      · exact hmono
  exact harm

/-- The pending switch after a motion across an edge: goes on if it is the second tap, and is a
first tap otherwise. -/
theorem noted_prepareSwitch (c : ClientID) {dir : Direction} (x y : ℤ)
    (hdelay : 0 < s.options.twoTapDelay) (h : s.pending.Noted ms) (hcur : cur ∈ ms)
    (hedge : dir ∈ cur.edges) (htime : cur.time = env.now) :
    (s.prepareSwitch env c dir x y).Noted ms ∧
      (s.allowSwitch env dir = false → (s.prepareSwitch env c dir x y).twoTapArmed = false) := by
  have hwait (p : Pending) (hp : p.Noted ms ∧ p.twoTapArmed = false) :
      (p.startSwitchWait x y).Noted ms ∧ (p.startSwitchWait x y).twoTapArmed = false := hp
  cases hallow : s.allowSwitch env dir with
  | true =>
    -- The second tap goes on with the switch that is pending.
    have haim : s.pending.aim dir c = s.pending := by
      simp only [allowSwitch, Bool.and_eq_true, beq_iff_eq] at hallow
      obtain ⟨⟨⟨-, hdir⟩, hengaged⟩, -⟩ := hallow
      refine if_neg (not_or.2 ⟨not_not.2 hdir, (h hengaged).1⟩)
    simp only [prepareSwitch, hallow, haim, Bool.not_true, Bool.false_eq_true, and_false,
      false_and, if_false]
    exact ⟨h, fun hfalse => by cases hfalse⟩
  | false =>
    have hstart : ((s.pending.aim dir c).startSwitchTwoTap env).Noted ms ∧
        ((s.pending.aim dir c).startSwitchTwoTap env).twoTapArmed = false :=
      ⟨Pending.noted_start hcur hedge htime, rfl⟩
    simp only [prepareSwitch, hallow, hdelay, Bool.not_false, and_self, if_true, true_and]
    split_ifs
    · exact ⟨(hwait _ hstart).1, fun _ => (hwait _ hstart).2⟩
    · exact ⟨hstart.1, fun _ => hstart.2⟩

/-- After an edge is tried: the switch goes on only at the second tap, and otherwise no double tap
is armed. -/
structure Tried (s s' : Server) (env : Env) (dir : Direction) (ms : List Motion) (okay : Bool) :
    Prop where
  noted : s'.pending.Noted ms
  allowed : okay = true → s.allowSwitch env dir = true
  unarmed : okay = false → s'.pending.twoTapEngaged = true → s'.pending.twoTapArmed = false

/-- Giving a switch up leaves no first tap. -/
theorem noted_stopIf {b : Bool} (h : s.pending.Noted ms) :
    (if b then s.stopSwitch else s).pending.Noted ms ∧
      ((if b then s.stopSwitch else s).pending.twoTapEngaged = true → b = false) := by
  cases b with
  | false => exact ⟨h, fun _ => rfl⟩
  | true =>
    have hoff := h.stopSwitch
    refine ⟨Pending.noted_of_not_engaged hoff, fun hengaged => ?_⟩
    exact absurd (hoff.symm.trans hengaged) Bool.false_ne_true

theorem tried_isSwitchOkay (newScreen : Option ClientID) (dir : Direction) (x y xc yc : ℤ)
    (hdelay : 0 < s.options.twoTapDelay) (h : s.pending.Noted ms) (hcur : cur ∈ ms)
    (hedge : dir ∈ cur.edges) (htime : cur.time = env.now) :
    Tried s (s.isSwitchOkay env newScreen dir x y xc yc).1 env dir ms
      (s.isSwitchOkay env newScreen dir x y xc yc).2 := by
  cases newScreen with
  | none =>
    have hoff := h.stopSwitch
    refine ⟨Pending.noted_of_not_engaged hoff, fun hokay => (by cases hokay),
      fun _ hengaged => ?_⟩
    exact absurd (hoff.symm.trans hengaged) Bool.false_ne_true
  | some c =>
    obtain ⟨hnoted, harmed⟩ := noted_prepareSwitch c x y hdelay h hcur hedge htime
    simp only [isSwitchOkay]
    set q := s.setPending (s.prepareSwitch env c dir x y)
    set prevent := !s.allowSwitch env dir && (decide (0 < s.options.twoTapDelay) ||
      decide (0 < s.options.waitDelay))
    have hprevent : prevent = !s.allowSwitch env dir := by simp [prevent, hdelay]
    have hq : q.pending.Noted ms := hnoted
    obtain ⟨hn₁, he₁⟩ := noted_stopIf (b := q.inLockedCorner xc yc) hq
    set corner := q.inLockedCorner xc yc
    set q₁ := if corner = true then q.stopSwitch else q
    obtain ⟨hn₂, he₂⟩ := noted_stopIf (b := !(prevent || corner) && q₁.isLockedToScreen env) hn₁
    set locked := !(prevent || corner) && q₁.isLockedToScreen env
    set q₂ := if locked = true then q₁.stopSwitch else q₁
    obtain ⟨hn₃, he₃⟩ :=
      noted_stopIf (b := !(prevent || corner || locked) && q₂.needsModifiers env) hn₂
    set modifiers := !(prevent || corner || locked) && q₂.needsModifiers env
    refine ⟨hn₃, fun hokay => ?_, fun hokay hengaged => ?_⟩
    · cases hallow : s.allowSwitch env dir with
      | true => rfl
      | false =>
        rw [hprevent, hallow] at hokay
        cases hokay
    · -- Where a first tap is left, the switch was not given up: this motion is the first tap.
      have hm := he₃ hengaged
      rw [hm] at hengaged hokay ⊢
      have hl := he₂ hengaged
      simp only [q₂, hl, Bool.false_eq_true, if_false] at hengaged hokay ⊢
      have hc := he₁ hengaged
      simp only [q₁, hc, Bool.false_eq_true, if_false] at hengaged hokay ⊢
      refine harmed ?_
      rw [hprevent] at hokay
      cases hallow : s.allowSwitch env dir with
      | false => rfl
      | true =>
        rw [hallow] at hokay
        cases hokay

/-- The edge `dir` of the active screen is tried. -/
theorem tried_tryEdge {dir : Direction} {p : ℤ × ℤ} {xc yc : ℤ}
    {t : Option (ClientID × ℤ × ℤ)} (hdelay : 0 < s.options.twoTapDelay)
    (h : s.pending.Noted ms) (hcur : cur ∈ ms) (hedge : dir ∈ cur.edges)
    (htime : cur.time = env.now) (htry : s.tryEdge env dir p xc yc = some (s', t)) :
    s'.pending.Noted ms ∧ (t ≠ none → s.allowSwitch env dir = true) ∧
      (t = none → s'.pending.twoTapEngaged = true → s'.pending.twoTapArmed = false) := by
  obtain ⟨r, -, hr⟩ := Option.map_eq_some_iff.1 htry
  have hnote : (s.noteMapped r).pending = s.pending ∧ (s.noteMapped r).options = s.options := by
    cases r with
    | none => exact ⟨rfl, rfl⟩
    | some m => exact ⟨rfl, rfl⟩
  have hallow : (s.noteMapped r).allowSwitch env dir = s.allowSwitch env dir := by
    unfold allowSwitch
    rw [hnote.1, hnote.2]
  obtain ⟨hnoted, hallowed, hunarmed⟩ := tried_isSwitchOkay (s := s.noteMapped r)
    (r.map Prod.fst) dir ((r.map Prod.snd).getD p).1 ((r.map Prod.snd).getD p).2 xc yc
    (hnote.2 ▸ hdelay) (hnote.1 ▸ h) hcur hedge htime
  obtain ⟨rfl, rfl⟩ := Prod.mk.inj hr
  refine ⟨hnoted, fun ht => ?_, fun ht => ?_⟩
  · split_ifs at ht with hokay
    · exact hallow ▸ hallowed hokay
    · exact absurd rfl ht
  · split_ifs at ht with hokay
    · subst ht
      cases hokay
    · exact hunarmed (Bool.eq_false_iff.2 hokay)

/-- An edge that is tried while no double tap is armed is not crossed. -/
theorem noted_tryEdges_of_unarmed {xc yc : ℤ} {edges : List (Direction × ℤ × ℤ)}
    (hdelay : 0 < s.options.twoTapDelay) (h : s.pending.Noted ms)
    (hunarmed : s.pending.twoTapEngaged = true → s.pending.twoTapArmed = false) (hcur : cur ∈ ms)
    (hedges : ∀ e ∈ edges, e.1 ∈ cur.edges) (htime : cur.time = env.now)
    (hts : tryEdges env xc yc s edges = some s') :
    s'.focus = s.focus ∧ s'.pending.Noted ms := by
  induction edges generalizing s with
  | nil =>
    cases hts
    exact ⟨rfl, h⟩
  | cons e rest ih =>
    obtain ⟨dir, p⟩ := e
    obtain ⟨hedge, hrest⟩ := List.forall_mem_cons.1 hedges
    simp only [tryEdges] at hts
    split at hts
    · cases hts
    · rename_i s₁ c x y htry
      obtain ⟨-, hallowed, -⟩ := tried_tryEdge hdelay h hcur hedge htime htry
      have hallow := hallowed (Option.some_ne_none _)
      simp only [allowSwitch, Pending.shouldSwitchTwoTap, Bool.and_eq_true] at hallow
      obtain ⟨⟨-, hengaged⟩, harmed, -⟩ := hallow
      exact absurd ((hunarmed hengaged).symm.trans harmed) Bool.false_ne_true
    · rename_i s₁ htry
      obtain ⟨hnoted, -, hunarmed⟩ := tried_tryEdge hdelay h hcur hedge htime htry
      have hdelay₁ : 0 < s₁.options.twoTapDelay := (keeps_tryEdge htry).options ▸ hdelay
      obtain ⟨hfocus, hnoted'⟩ := ih hdelay₁ hnoted (hunarmed rfl) hrest hts
      exact ⟨hfocus.trans (aimed_tryEdge htry).1.focus, hnoted'⟩

/-- **The screen is left at the second tap only**, and otherwise the motion is noted. -/
theorem noted_tryEdges {xc yc : ℤ} {edges : List (Direction × ℤ × ℤ)}
    (hdelay : 0 < s.options.twoTapDelay) (h : s.pending.Noted ms)
    (hedges : ∀ e ∈ edges, e.1 ∈ cur.edges) (htime : cur.time = env.now)
    (hts : tryEdges env xc yc s edges = some s') :
    s'.pending.Noted (if s'.focus.active = s.focus.active then cur :: ms else []) ∧
      (s'.focus.active ≠ s.focus.active → ∃ d, switchEdge env xc yc s edges = some d ∧
        DoubleTapped s.options.twoTapDelay env.now d ms) := by
  have hmono := h.mono (List.sublist_cons_self cur ms)
  have hcur : cur ∈ cur :: ms := List.mem_cons_self
  have hstay {t : Server} (hfocus : t.focus = s.focus) (ht : t.pending.Noted (cur :: ms)) :
      t.pending.Noted (if t.focus.active = s.focus.active then cur :: ms else []) ∧
        (t.focus.active ≠ s.focus.active → ∃ d, switchEdge env xc yc s edges = some d ∧
          DoubleTapped s.options.twoTapDelay env.now d ms) := by
    rw [if_pos (congrArg Focus.active hfocus)]
    exact ⟨ht, fun hleft => absurd (congrArg Focus.active hfocus) hleft⟩
  cases edges with
  | nil =>
    cases hts
    exact hstay rfl hmono
  | cons e rest =>
    obtain ⟨dir, p⟩ := e
    obtain ⟨hedge, hrest⟩ := List.forall_mem_cons.1 hedges
    simp only [tryEdges] at hts
    split at hts
    · cases hts
    · rename_i s₁ c x y htry
      obtain ⟨hnoted, hallowed, -⟩ := tried_tryEdge hdelay hmono hcur hedge htime htry
      have hfocus := (aimed_tryEdge htry).1.focus
      cases hts
      obtain hstill | hswitched := switched_switchAcross s₁ env c x y
      · refine hstay (hstill.focus.trans hfocus) ?_
        rw [hstill.pending]
        exact hnoted
      · have hoff : (s₁.switchAcross env c x y).pending.twoTapEngaged = false := by
          rw [hswitched.pending]
          exact hnoted.stopSwitch
        refine ⟨Pending.noted_of_not_engaged hoff, fun _ => ⟨dir, ?_, ?_⟩⟩
        · simp only [switchEdge, htry]
        · exact doubleTapped_of_allowSwitch h (hallowed (Option.some_ne_none _))
    · rename_i s₁ htry
      obtain ⟨hnoted, -, hunarmed⟩ := tried_tryEdge hdelay hmono hcur hedge htime htry
      have hdelay₁ : 0 < s₁.options.twoTapDelay := (keeps_tryEdge htry).options ▸ hdelay
      obtain ⟨hfocus, hnoted'⟩ :=
        noted_tryEdges_of_unarmed hdelay₁ hnoted (hunarmed rfl) hcur hrest htime hts
      exact hstay (hfocus.trans (aimed_tryEdge htry).1.focus) hnoted'

/-- What handling a motion makes of the noted taps: the motion is noted, and the screen is left at
the second tap only. -/
structure Handled (s s' : Server) (env : Env) (cur : Motion) (ms : List Motion)
    (edge : Option Direction) : Prop where
  noted : s'.pending.Noted (if s'.focus.active = s.focus.active then cur :: ms else [])
  left : s'.focus.active ≠ s.focus.active →
    ∃ d, edge = some d ∧ DoubleTapped s.options.twoTapDelay env.now d ms

theorem Handled.stay {edge : Option Direction} (hfocus : s'.focus = s.focus)
    (h : s'.pending.Noted (cur :: ms)) : Handled s s' env cur ms edge := by
  have hactive := congrArg Focus.active hfocus
  refine ⟨?_, fun hleft => absurd hactive hleft⟩
  rw [if_pos hactive]
  exact h

theorem handled_onMouseMovePrimary {x y : ℤ} (hdelay : 0 < s.options.twoTapDelay)
    (h : s.pending.Noted ms) (hcur : s.primaryMotion env x y = some cur)
    (hst : s.onMouseMovePrimary env x y = some s') :
    Handled s s' env cur ms (s.primaryEdge env x y) := by
  unfold primaryMotion at hcur
  unfold onMouseMovePrimary at hst
  split_ifs at hcur hst with hactive
  dsimp only at hst
  have hmove : (s.moveMouse x y (x - s.mouse.x) (y - s.mouse.y)).pending.Noted ms := h
  split at hst
  · cases hst
    have haimed := aimed_noSwitch (s.moveMouse x y (x - s.mouse.x) (y - s.mouse.y)) env x y
    refine .stay haimed.focus (noted_noSwitch hmove fun d hinside haway => ?_)
    rw [← Option.some.inj hcur]
    exact Bool.and_eq_true_iff.2 ⟨hinside, haway⟩
  · have hedges : ∀ e ∈ touchedEdges (s.info s.focus.active) (getJumpZoneSize env s.focus.active)
        x y, e.1 ∈ cur.edges := by
      intro e he
      rw [← Option.some.inj hcur]
      exact List.mem_map_of_mem he
    have htime : cur.time = env.now := by rw [← Option.some.inj hcur]
    have hdelay₁ : 0 < (s.moveMouse x y (x - s.mouse.x) (y - s.mouse.y)).options.twoTapDelay :=
      hdelay
    obtain ⟨hnoted, hleft⟩ := noted_tryEdges hdelay₁ hmove hedges htime hst
    exact ⟨hnoted, hleft⟩

theorem handled_onMouseMoveSecondary {dx dy : ℤ} (hdelay : 0 < s.options.twoTapDelay)
    (h : s.pending.Noted ms) (hcur : s.secondaryMotion env dx dy = some cur)
    (hst : s.onMouseMoveSecondary env dx dy = some s') :
    Handled s s' env cur ms (s.secondaryEdge env dx dy) := by
  unfold secondaryMotion at hcur
  split_ifs at hcur with hstill
  obtain ⟨hactive, hrelative⟩ := not_or.1 hstill
  unfold onMouseMoveSecondary at hst
  rw [if_neg hactive, if_neg hrelative] at hst
  dsimp only at hst
  have hmove : (s.moveMouse (s.mouse.x + dx) (s.mouse.y + dy) dx dy).pending.Noted ms := h
  have hmono := hmove.mono (List.sublist_cons_self cur ms)
  have hdelay₁ : 0 < (s.moveMouse (s.mouse.x + dx) (s.mouse.y + dy) dx dy).options.twoTapDelay :=
    hdelay
  split at hst
  · cases hst
    set t := s.moveMouse (s.mouse.x + dx) (s.mouse.y + dy) dx dy
    have hborder := aimed_leaveBorder t env (s.info s.focus.active) (s.mouse.x + dx)
      (s.mouse.y + dy)
    have hstay := still_stayOnScreen (t.leaveBorder env (s.info s.focus.active) (s.mouse.x + dx)
      (s.mouse.y + dy)) s.mouse.x s.mouse.y dx dy
    refine .stay (hstay.focus.trans hborder.focus) ?_
    rw [hstay.pending]
    unfold leaveBorder
    split_ifs
    · refine noted_noSwitch hmove fun d hinside haway => ?_
      rw [← Option.some.inj hcur]
      exact Bool.and_eq_true_iff.2 ⟨hinside, haway⟩
    · exact hmono
  · rename_i dir hexit
    have hedge : dir ∈ cur.edges := by
      rw [← Option.some.inj hcur]
      show dir ∈ (exitSide (s.info s.focus.active) (s.mouse.x + dx) (s.mouse.y + dy)).toList
      rw [hexit]
      exact List.mem_singleton_self dir
    have htime : cur.time = env.now := by rw [← Option.some.inj hcur]
    split at hst
    · cases hst
    · rename_i s₁ c x y htry
      cases hst
      obtain ⟨hnoted, hallowed, -⟩ :=
        tried_tryEdge hdelay₁ hmono List.mem_cons_self hedge htime htry
      have hswitched := switched_switchScreen s₁ env c x y false
      have hoff : (s₁.switchScreen env c x y false).pending.twoTapEngaged = false := by
        rw [hswitched.pending]
        exact hnoted.stopSwitch
      refine ⟨Pending.noted_of_not_engaged hoff, fun _ => ⟨dir, ?_, ?_⟩⟩
      · unfold secondaryEdge
        dsimp only
        rw [hexit]
        show switchEdge .. = some dir
        simp only [switchEdge, htry]
      · exact doubleTapped_of_allowSwitch hmove (hallowed (Option.some_ne_none _))
    · rename_i s₁ htry
      cases hst
      obtain ⟨hnoted, -, -⟩ := tried_tryEdge hdelay₁ hmono List.mem_cons_self hedge htime htry
      have hstay := still_stayOnScreen s₁ s.mouse.x s.mouse.y dx dy
      refine .stay (hstay.focus.trans (aimed_tryEdge htry).1.focus) ?_
      rw [hstay.pending]
      exact hnoted

/-! ### Other events -/

/-- No tap is noted, and none is left when another screen becomes active. -/
def Quiet (s s' : Server) : Prop :=
  ∀ ms, s.pending.Noted ms →
    s'.pending.Noted (if s'.focus.active = s.focus.active then ms else [])

namespace Quiet

theorem trans (h : Quiet s s') (h' : Quiet s' s'') : Quiet s s'' := by
  intro ms hms
  have hnoted := h' _ (h ms hms)
  by_cases h₁ : s''.focus.active = s'.focus.active
  · rw [if_pos h₁] at hnoted
    rw [h₁]
    exact hnoted
  · rw [if_neg h₁] at hnoted
    exact hnoted.mono (List.nil_sublist _)

theorem foldl {α : Type*} {f : Server → α → Server} (hf : ∀ s a, Quiet s (f s a)) (l : List α)
    (s : Server) : Quiet s (l.foldl f s) := by
  induction l generalizing s with
  | nil =>
    intro ms hms
    rw [List.foldl_nil, if_pos rfl]
    exact hms
  | cons a l ih => exact (hf s a).trans (ih _)

/-- The same screen stays active. -/
theorem of_pending (hactive : s'.focus.active = s.focus.active)
    (hpending : ∀ ms, s.pending.Noted ms → s'.pending.Noted ms) : Quiet s s' := by
  intro ms hms
  rw [if_pos hactive]
  exact hpending ms hms

theorem refl (s : Server) : Quiet s s := .of_pending rfl fun _ h => h

/-- The pending switch is given up. -/
theorem of_stopSwitch (hpending : s'.pending = s.pending.stopSwitch) : Quiet s s' := by
  intro ms hms
  rw [hpending]
  exact Pending.noted_of_not_engaged hms.stopSwitch

end Quiet

theorem Still.quiet (h : Still s s') : Quiet s s' := by
  refine .of_pending (by rw [h.focus]) fun ms hms => ?_
  rw [h.pending]
  exact hms

theorem Switched.quiet {dst : ClientID} (h : Switched s s' dst) : Quiet s s' :=
  .of_stopSwitch h.pending

/-- The screen that is forced out leaves no first tap. -/
theorem ForcedOut.quiet {c : ClientID} (h : ForcedOut s s' c) (hc : s.Forgets c) :
    Quiet s s' := by
  obtain ⟨-, hfocus, hpending, -⟩ | ⟨hfocus, hfocus', hpending, -⟩ := h.cursor
  · refine .of_pending (by rw [hfocus]) fun ms hms => ?_
    rw [hpending]
    exact hms
  · intro ms hms
    rw [hpending]
    split_ifs with hscreen hactive hactive
    · exact Pending.noted_of_not_engaged hms.stopSwitch
    · exact Pending.noted_of_not_engaged hms.stopSwitch
    · exact hms
    · have hne : s.focus.active ≠ primaryClient := by
        rintro heq
        rw [hfocus', heq] at hactive
        exact hactive rfl
      refine Pending.noted_of_not_engaged (Bool.eq_false_iff.2 fun hengaged => ?_)
      exact hscreen (hc hfocus hne hengaged)

/-- Another screen that is forced out later leaves none either. -/
theorem ForcedOut.forgets {c d : ClientID} (h : ForcedOut s s' c) (hd : s.Forgets d) :
    s'.Forgets d := by
  obtain ⟨-, hfocus, hpending, -⟩ | ⟨-, hfocus', -, -⟩ := h.cursor
  · unfold Forgets focusClient at hd ⊢
    rw [hfocus, hpending]
    exact hd
  · intro _ hne
    rw [hfocus'] at hne
    exact absurd rfl hne

theorem quiet_setFocus (s : Server) {f : Focus} (hf : f.active = s.focus.active) :
    Quiet s (s.setFocus f) := .of_pending hf fun _ h => h

theorem quiet_without (s : Server) (c : ClientID) (o : Std.TreeSet ClientID) :
    Quiet s (s.without c o) := .of_pending rfl fun _ h => h

theorem quiet_closeClient {c : ClientID} (hc : s.Forgets c) (msg : String) :
    Quiet s (s.closeClient env c msg) := by
  have hc' : (s.without c (s.registry.oldClients.insert c)).Forgets c := hc
  exact (quiet_without s c _).trans ((forcedOut_closeClient s env c msg).quiet hc')

theorem quiet_closeClients {l : List ClientID} {msg : String} (hl : ∀ c ∈ l, s.Forgets c) :
    Quiet s (l.foldl (fun s c => s.closeClient env c msg) s) := by
  induction l generalizing s with
  | nil => exact .refl s
  | cons c l ih =>
    obtain ⟨hc, hrest⟩ := List.forall_mem_cons.1 hl
    refine (quiet_closeClient hc msg).trans (ih fun d hd => ?_)
    have hd' : (s.without c (s.registry.oldClients.insert c)).Forgets d := hrest d hd
    exact (forcedOut_closeClient s env c msg).forgets hd'

theorem quiet_enterSaver (s : Server) (env : Env) : Quiet s (s.enterSaver env) := by
  simp only [enterSaver]
  have hfocus := quiet_setFocus s (f := ⟨s.focus.active, some s.focus.active, s.mouse.x,
    s.mouse.y⟩) rfl
  split_ifs
  · exact hfocus.trans (switched_switchScreen _ env _ _ _ _).quiet
  · exact hfocus

theorem quiet_leaveSaver (s : Server) (env : Env) : Quiet s (s.leaveSaver env) := by
  unfold leaveSaver
  split
  · exact .refl s
  · split_ifs
    · exact .refl s
    · refine Quiet.trans ?_ (switched_switchScreen _ env _ _ _ _).quiet
      exact quiet_setFocus s rfl

theorem quiet_onScreensaver (s : Server) (env : Env) (activated : Bool) :
    Quiet s (s.onScreensaver env activated) := by
  simp only [onScreensaver]
  refine Quiet.trans ?_ (Still.foldl (fun s c => still_notice s _) _ _).quiet
  split_ifs
  · exact quiet_enterSaver s env
  · exact (quiet_leaveSaver s env).trans (quiet_setFocus _ rfl)

theorem quiet_handleToggleScreenEvent (s : Server) (env : Env) :
    Quiet s (s.handleToggleScreenEvent env) := by
  simp only [handleToggleScreenEvent]
  split_ifs
  · split
    · exact .refl s
    · exact (switched_jumpToScreen s env _).quiet
  · exact .refl s

theorem quiet_handleSwitchWaitEvent (h : s.handleSwitchWaitEvent env = some s') :
    Quiet s s' := by
  simp only [handleSwitchWaitEvent] at h
  split_ifs at h
  · cases h
    exact .of_stopSwitch rfl
  · obtain ⟨c, -, rfl⟩ := Option.map_eq_some_iff.1 h
    exact (switched_switchScreen s env c _ _ false).quiet

theorem quiet_adoptClient {c : ClientID} (hc : s.Forgets c) : Quiet s (s.adoptClient env c) := by
  have hdequeue : Quiet s (s.dequeue c) := .of_pending rfl fun _ h => h
  obtain ⟨msg, hclose⟩ | ⟨s₂, hadd, hstill, -⟩ := adoptClient_cases s env c
  · rw [hclose]
    have hc' : (s.dequeue c).Forgets c := hc
    exact hdequeue.trans (quiet_closeClient hc' msg)
  · obtain ⟨-, hadded, -⟩ := addClient_spec hadd
    have hregister : Quiet (s.dequeue c) ((s.dequeue c).withClient c) :=
      .of_pending rfl fun _ h => h
    exact ((hdequeue.trans hregister).trans hadded.quiet).trans hstill.quiet

theorem quiet_removeOldClient (s : Server) (c : ClientID) : Quiet s (s.removeOldClient c) := by
  simp only [removeOldClient]
  split_ifs
  · exact .refl s
  · exact .of_pending rfl fun _ h => h
  · exact .of_pending rfl fun _ h => h

theorem quiet_handleClientDisconnected {c : ClientID} (hc : s.Forgets c) :
    Quiet s (s.handleClientDisconnected env c) := by
  refine Quiet.trans ?_ (quiet_removeOldClient _ c)
  by_cases hmem : c ∈ s.registry.clientSet
  · have hc' : (s.without c s.registry.oldClients).Forgets c := hc
    exact (quiet_without s c _).trans ((forcedOut_removeActiveClient s env hmem).quiet hc')
  · have hcontains : s.registry.clientSet.contains c = false := Bool.eq_false_iff.2 hmem
    simp only [removeActiveClient, hcontains, Bool.not_false, if_true]
    exact .refl s

theorem quiet_processOptions (s : Server) : Quiet s s.processOptions := by
  simp only [processOptions]
  split
  · exact .refl s
  · rename_i options _
    have hset (s' : Server) (hs' : Still (s.setPending
        (options.toList.foldl Pending.process s.pending)) s') :
        Quiet s { s' with options := s.options.processAll options } := by
      refine .of_pending (congrArg Focus.active hs'.focus) fun ms hms => ?_
      have hpending : s'.pending = options.toList.foldl Pending.process s.pending := hs'.pending
      show s'.pending.Noted ms
      rw [hpending]
      exact hms.process _
    split_ifs
    · exact hset _ (still_stopRelativeMoves _)
    · exact hset _ (.refl _)

theorem quiet_setConfig (hc : ∀ c ∈ s.droppedClients s.config, s.Forgets c)
    (h : s.setConfig env = some s') : Quiet s s' := by
  obtain ⟨s₁, s₂, s₃, hclose, hprocess, hrule, rfl⟩ := setConfig_stages h
  have hclosed : Quiet s s₁ := by
    rw [hclose]
    exact quiet_closeClients hc
  have hprocessed : Quiet s₁ s₂ := by
    rw [hprocess]
    exact quiet_processOptions s₁
  have hruled : Quiet s₂ s₃ := by
    rw [hrule, addScrollLockRule]
    split_ifs
    · exact .refl _
    · exact .of_pending rfl fun _ h => h
  have hsent := (Still.foldl (fun s c => still_sendOptions s c) s₃.reconfigure.clientList
    s₃.reconfigure).quiet
  have hreconfigured : Quiet s₃ s₃.reconfigure :=
    (still_notice s₃ (.reconfigure s₃.getActivePrimarySides)).quiet
  exact (((hclosed.trans hprocessed).trans hruled).trans hreconfigured).trans hsent

theorem quiet_reloadConfig {cfg : Config} (hc : s.ForgetsTaps (.reloadConfig cfg)) :
    Quiet s (s.reloadConfig env cfg) := by
  have hcfg : Quiet s { s with config := cfg } := .of_pending rfl fun _ h => h
  simp only [reloadConfig]
  cases hset : setConfig { s with config := cfg } env with
  | none => exact hcfg
  | some s' => exact hcfg.trans (quiet_setConfig hc hset)

theorem quiet_disconnect (hc : s.ForgetsTaps .disconnect) : Quiet s (s.disconnect env) := by
  unfold disconnect
  split_ifs
  · exact quiet_closeClients hc
  · exact (still_notice s _).quiet

/-- No motion is heard: the position is not used, or relative motions are passed on. -/
theorem quiet_onMouseMovePrimary {x y : ℤ} (hmotion : s.primaryMotion env x y = none)
    (h : s.onMouseMovePrimary env x y = some s') : Quiet s s' := by
  unfold primaryMotion at hmotion
  unfold onMouseMovePrimary at h
  split_ifs at hmotion h
  cases h
  exact .refl s

theorem quiet_onMouseMoveSecondary {dx dy : ℤ} (hmotion : s.secondaryMotion env dx dy = none)
    (h : s.onMouseMoveSecondary env dx dy = some s') : Quiet s s' := by
  unfold secondaryMotion at hmotion
  split_ifs at hmotion with hstill
  unfold onMouseMoveSecondary at h
  split_ifs at h with hactive hrelative
  · cases h
    exact .refl s
  · cases h
    exact (still_notice s _).quiet
  · exact absurd hstill (not_or.2 ⟨hactive, hrelative⟩)

theorem refreshed_pending (s : Server) (c : ClientID) : (s.refreshed c).focus = s.focus ∧
    (s.refreshed c).pending = s.pending ∧ (s.refreshed c).options = s.options := by
  obtain ⟨-, -, -, hoptions, hfocus, hpending, -⟩ := refreshed_spec s c
  exact ⟨hfocus, hpending, hoptions⟩

theorem quiet_handleShapeChanged {c : ClientID} (hmotion : s.motion env (.shapeChanged c) = none)
    (h : s.handleShapeChanged env c = some s') : Quiet s s' := by
  obtain ⟨hfocus, hpending, -⟩ := refreshed_pending s c
  have hrefresh : Quiet s (s.refreshed c) := by
    refine .of_pending (by rw [hfocus]) fun ms hms => ?_
    rw [hpending]
    exact hms
  by_cases hc : s.registry.clientSet.contains c = true
  · rw [handleShapeChanged_eq env hc] at h
    simp only [motion, hc, and_true] at hmotion
    split_ifs at h with hprimary hactive
    · rw [if_pos hprimary, if_pos hactive] at hmotion
      exact hrefresh.trans (quiet_onMouseMovePrimary hmotion h)
    · rw [if_pos hprimary, if_neg hactive] at hmotion
      exact hrefresh.trans (quiet_onMouseMoveSecondary hmotion h)
    · cases h
      exact hrefresh
  · unfold handleShapeChanged at h
    rw [if_pos (by rw [Bool.eq_false_iff.2 hc]; rfl)] at h
    cases h
    exact .refl s

/-- A motion that the server makes itself, when the shape of the primary screen changed. -/
theorem handled_handleShapeChanged {c : ClientID} (hdelay : 0 < s.options.twoTapDelay)
    (h : s.pending.Noted ms) (hcur : s.motion env (.shapeChanged c) = some cur)
    (hst : s.handleShapeChanged env c = some s') :
    Handled s s' env cur ms (s.crossedEdge env (.shapeChanged c)) := by
  obtain ⟨hfocus, hpending, hoptions⟩ := refreshed_pending s c
  have hback {edge : Option Direction} (hh : Handled (s.refreshed c) s' env cur ms edge) :
      Handled s s' env cur ms edge := by
    obtain ⟨hnoted, hleft⟩ := hh
    rw [hfocus] at hnoted hleft
    rw [hoptions] at hleft
    exact ⟨hnoted, hleft⟩
  have hdelay' : 0 < (s.refreshed c).options.twoTapDelay := by rw [hoptions]; exact hdelay
  have hnoted : (s.refreshed c).pending.Noted ms := by rw [hpending]; exact h
  simp only [motion] at hcur
  obtain ⟨⟨hprimary, hc⟩, hcur⟩ := Option.ite_none_right_eq_some.1 hcur
  rw [handleShapeChanged_eq env hc, if_pos hprimary] at hst
  simp only [crossedEdge]
  by_cases hactive : c = s.focus.active
  · rw [if_pos hactive] at hcur hst ⊢
    exact hback (handled_onMouseMovePrimary hdelay' hnoted hcur hst)
  · rw [if_neg hactive] at hcur hst ⊢
    exact hback (handled_onMouseMoveSecondary hdelay' hnoted hcur hst)

end Server

namespace Tapped

variable {t t' : Tapped} {l : Env × Server.Event}

/-- Every event that is no motion notes no tap, and keeps none for another screen. -/
theorem quiet_step {s s' : Server} {env : Env} {e : Server.Event} (hforgets : s.ForgetsTaps e)
    (hmotion : s.motion env e = none) (hst : s.step env e = some s') : s.Quiet s' := by
  cases e with
  | clientConnected ident info =>
    cases hst
    exact .of_pending rfl fun _ h => h
  | adoptClient c =>
    simp only [Server.step] at hst
    split_ifs at hst
    cases hst
    exact Server.quiet_adoptClient hforgets
  | clientDisconnected c =>
    simp only [Server.step] at hst
    split_ifs at hst
    · cases hst
      exact .of_pending rfl fun _ h => h
    · cases hst
      exact Server.quiet_handleClientDisconnected hforgets
  | clientCloseTimeout c =>
    simp only [Server.step] at hst
    split_ifs at hst
    cases hst
    exact Server.quiet_removeOldClient s c
  | reloadConfig cfg =>
    cases hst
    exact Server.quiet_reloadConfig hforgets
  | disconnect =>
    cases hst
    exact Server.quiet_disconnect hforgets
  | screensaver activated =>
    cases hst
    exact Server.quiet_onScreensaver s env activated
  | switchToScreen screen =>
    cases hst
    unfold Server.handleSwitchToScreenEvent
    split
    · exact .refl s
    · exact (s.switched_jumpToScreen env _).quiet
  | toggleScreen =>
    cases hst
    exact Server.quiet_handleToggleScreenEvent s env
  | switchInDirection dir =>
    obtain ⟨r, -, rfl⟩ := Option.map_eq_some_iff.1 hst
    cases r with
    | none => exact .refl s
    | some m => exact (s.switched_jumpToScreen env m.1).quiet
  | lockCursorToScreen mode =>
    cases hst
    exact (s.still_handleLockCursorToScreenEvent mode).quiet
  | motionPrimary x y => exact Server.quiet_onMouseMovePrimary hmotion hst
  | motionSecondary dx dy => exact Server.quiet_onMouseMoveSecondary hmotion hst
  | switchWait =>
    simp only [Server.step] at hst
    split_ifs at hst
    exact Server.quiet_handleSwitchWaitEvent hst
  | info c info =>
    cases hst
    exact (s.still_setProxy c _).quiet
  | shapeChanged c => exact Server.quiet_handleShapeChanged hmotion hst
  | clipboardGrabbed c id seqNum =>
    cases hst
    exact (s.still_handleClipboardGrabbed c id seqNum).quiet
  | clipboardReceived c id seqNum data =>
    simp only [Server.step] at hst
    split_ifs at hst
    obtain ⟨clipboard, -, rfl⟩ := Option.map_eq_some_iff.1 hst
    exact (s.still_setProxy c _).quiet
  | clipboardChanged c id seqNum =>
    cases hst
    exact (s.still_handleClipboardChanged env c id seqNum).quiet
  | filePasteRequested c request =>
    simp only [Server.step] at hst
    split_ifs at hst
    cases hst
    exact (s.still_filePasteRequested c request).quiet
  | filePasteStatus c status =>
    simp only [Server.step] at hst
    split_ifs at hst
    cases hst
    exact (s.still_filePasteStatus c status).quiet
  | mouseDown =>
    cases hst
    exact .of_pending rfl fun _ h => h
  | dragInfoSent =>
    cases hst
    exact .of_pending rfl fun _ h => h

/-- Every motion is noted, and leaves the screen at the second tap only. -/
theorem handled_step {s s' : Server} {env : Env} {e : Server.Event} {ms : List Motion}
    {cur : Motion} (hdelay : 0 < s.options.twoTapDelay) (h : s.pending.Noted ms)
    (hmotion : s.motion env e = some cur) (hst : s.step env e = some s') :
    s.Handled s' env cur ms (s.crossedEdge env e) := by
  cases e with
  | motionPrimary x y => exact Server.handled_onMouseMovePrimary hdelay h hmotion hst
  | motionSecondary dx dy => exact Server.handled_onMouseMoveSecondary hdelay h hmotion hst
  | shapeChanged c => exact Server.handled_handleShapeChanged hdelay h hmotion hst
  | _ => cases hmotion

/-- The run keeps no first tap when a screen is forced out. -/
def Careful (t : Tapped) (l : Env × Server.Event) : Prop :=
  t.Delayed ∧ t.server.ForgetsTaps l.2

instance (t : Tapped) (l : Env × Server.Event) : Decidable (t.Careful l) :=
  inferInstanceAs (Decidable (_ ∧ _))

/-- The server that the constructor makes notes no tap. -/
theorem noted_create {env : Env} {cfg : Config} {primary : Ident} {info : ScreenInfo}
    {enableDragDrop : Bool} {s : Server}
    (h : Server.create env cfg primary info enableDragDrop = some s) : s.pending.Noted [] := by
  obtain ⟨s₁, s₂, hadd, hset, rfl⟩ := Server.create_spec h
  obtain ⟨-, hstill, -⟩ := Server.addClient_spec hadd
  have hblank : s₁.pending.Noted [] := by
    rw [hstill.pending]
    exact Pending.noted_of_not_engaged rfl
  have hactive : s₁.focus.active = primaryClient := by rw [hstill.focus]; rfl
  have hquiet := Server.quiet_setConfig (fun c _ _ hne => absurd hactive hne) hset
  have hnoted := hquiet [] hblank
  rw [ite_self] at hnoted
  exact hnoted

/-- **A motion leaves the active screen only at the second tap**: since the screen became active,
the cursor crossed the same edge within the delay, and then came back inside.  This holds in every
run with a double tap delay in which no screen is forced out while a first tap is kept. -/
theorem doubleTapped_of_reachable (ht : lts.ReachableVia Careful t) (hdelay : t.Delayed)
    (hst : lts.step t l = some t') (hmotion : (t.server.motion l.1 l.2).isSome)
    (hleft : t'.server.focus.active ≠ t.server.focus.active) :
    ∃ d, t.server.crossedEdge l.1 l.2 = some d ∧
      DoubleTapped t.server.options.twoTapDelay l.1.now d t.motions := by
  have h : t.server.pending.Noted t.motions := by
    refine ht.invariant (I := fun t => t.server.pending.Noted t.motions) ?_ ?_
    · rintro ⟨s, _⟩ ⟨⟨env, cfg, primary, info, enableDragDrop, hcreate⟩, rfl⟩
      exact noted_create hcreate
    · rintro t l t' h ⟨hdelay, hforgets⟩ hst
      obtain ⟨s', hs', rfl⟩ := Option.map_eq_some_iff.1 hst
      show s'.pending.Noted (if _ then _ else [])
      cases hmotion : t.server.motion l.1 l.2 with
      | none => exact quiet_step hforgets hmotion hs' _ h
      | some cur => exact (handled_step hdelay h hmotion hs').noted
  obtain ⟨s', hs', rfl⟩ := Option.map_eq_some_iff.1 hst
  obtain ⟨cur, hcur⟩ := Option.isSome_iff_exists.1 hmotion
  exact (handled_step hdelay h hcur hs').left hleft

/-! ### Runs -/

/-- The state after a run from the server that the constructor makes. -/
def run (env : Env) (cfg : Config) (primary : Ident) (info : ScreenInfo) (enableDragDrop : Bool)
    (events : List (Env × Server.Event)) : Option Tapped :=
  (Server.create env cfg primary info enableDragDrop).bind fun s => lts.exec ⟨s, []⟩ events

theorem reachableVia_of_run {env : Env} {cfg : Config} {primary : Ident} {info : ScreenInfo}
    {enableDragDrop : Bool} {events : List (Env × Server.Event)}
    {G : Tapped → Env × Server.Event → Prop}
    (h : run env cfg primary info enableDragDrop events = some t)
    (hG : ∀ s ∈ Server.create env cfg primary info enableDragDrop, lts.Admits G ⟨s, []⟩ events) :
    lts.ReachableVia G t := by
  obtain ⟨s, hcreate, hexec⟩ := Option.bind_eq_some_iff.1 h
  exact .of_exec (.init ⟨⟨env, cfg, primary, info, enableDragDrop, hcreate⟩, rfl⟩) (hG s hcreate)
    hexec

/-- Three screens in a row, with a double tap delay of a quarter of a second. -/
def rowOfThree : Config :=
  ((({} : Config).addScreen "p").bind (·.addScreen "b") |>.bind (·.addScreen "c") |>.bind
    (·.connect "p" .right (0, 1) "b" (0, 1)) |>.bind
    (·.connect "b" .right (0, 1) "c" (0, 1))).getD {} |>.addGlobalOption .screenSwitchTwoTap 250

/-- A motion, or another event, at a time. -/
def tapAt (now : ℚ) (e : Server.Event) : Env × Server.Event :=
  ({ jumpZoneSize := 1, fuel := 4, now := now }, e)

/-- The clients `b` and `c` connect. -/
def rowConnects : List (Env × Server.Event) :=
  [({}, .clientConnected ⟨"b", true⟩ ⟨0, 0, 100, 100, 50, 50⟩), ({}, .adoptClient 1),
    ({}, .clientConnected ⟨"c", true⟩ ⟨0, 0, 100, 100, 50, 50⟩), ({}, .adoptClient 2)]

/-- The cursor taps the right edge of the primary screen and comes back inside. -/
def firstTap : List (Env × Server.Event) :=
  rowConnects ++ [tapAt 0 (.motionPrimary 99 50), tapAt (1 / 10) (.motionPrimary 80 50),
    tapAt (1 / 10) (.motionPrimary 60 50)]

/-- The second tap goes to `b`. -/
theorem doubleTapped_of_reachable_firstTap :
    ∃ t t' : Tapped, lts.step t (tapAt (1 / 5) (.motionPrimary 99 50)) = some t' ∧
      t'.server.focus.active ≠ t.server.focus.active ∧
      ∃ d, t.server.crossedEdge (tapAt (1 / 5) (.motionPrimary 99 50)).1
        (.motionPrimary 99 50) = some d ∧
        DoubleTapped t.server.options.twoTapDelay (1 / 5) d t.motions := by
  have hrun : (run {} rowOfThree ⟨"p", true⟩ ⟨0, 0, 100, 100, 50, 50⟩ false firstTap).map
      (fun t => (decide t.Delayed, t.server.focus.active,
        (t.server.motion (tapAt (1 / 5) (.motionPrimary 99 50)).1 (.motionPrimary 99 50)).isSome,
        (lts.step t (tapAt (1 / 5) (.motionPrimary 99 50))).map (fun t => t.server.focus.active))) =
      some (true, 0, true, some 1) := by decide +kernel
  obtain ⟨t, ht, h⟩ := Option.map_eq_some_iff.1 hrun
  obtain ⟨hdelay, h⟩ := Prod.mk.inj h
  obtain ⟨hactive, h⟩ := Prod.mk.inj h
  obtain ⟨hmotion, hnext⟩ := Prod.mk.inj h
  obtain ⟨t', hst, hactive'⟩ := Option.map_eq_some_iff.1 hnext
  have hleft : t'.server.focus.active ≠ t.server.focus.active := by
    rw [hactive, hactive']
    decide
  exact ⟨t, t', hst, hleft, doubleTapped_of_reachable (l := tapAt (1 / 5) (.motionPrimary 99 50))
    (reachableVia_of_run ht (by decide +kernel)) (of_decide_eq_true hdelay) hst hmotion hleft⟩

/-- The cursor taps the right edge of `b`, towards `c`, and comes back inside; then `b`
disconnects. -/
def tapAndDisconnect : List (Env × Server.Event) :=
  rowConnects ++ [tapAt 0 (.switchToScreen "b"), tapAt 0 (.motionSecondary 50 0),
    tapAt (1 / 10) (.motionSecondary (-20) 0), tapAt (1 / 10) (.motionSecondary (-20) 0),
    tapAt (1 / 10) (.clientDisconnected 1)]

/-- The first tap on the primary screen goes to `c`. -/
theorem not_doubleTapped_of_reachable :
    ¬∀ t t' : Tapped, ∀ l,
      lts.ReachableVia (fun t _ => t.Delayed ∧ t.server.options.waitDelay = 0) t → t.Delayed →
      t.server.options.waitDelay = 0 → lts.step t l = some t' →
      (t.server.motion l.1 l.2).isSome → t'.server.focus.active ≠ t.server.focus.active →
      ∃ d, t.server.crossedEdge l.1 l.2 = some d ∧
        DoubleTapped t.server.options.twoTapDelay l.1.now d t.motions := by
  intro hall
  have hrun : (run {} rowOfThree ⟨"p", true⟩ ⟨0, 0, 100, 100, 50, 50⟩ false tapAndDisconnect).map
      (fun t => (decide (t.Delayed ∧ t.server.options.waitDelay = 0), t.server.focus.active,
        t.motions.length,
        (t.server.motion (tapAt (1 / 5) (.motionPrimary 99 50)).1 (.motionPrimary 99 50)).isSome,
        (lts.step t (tapAt (1 / 5) (.motionPrimary 99 50))).map (fun t => t.server.focus.active))) =
      some (true, 0, 0, true, some 2) := by decide +kernel
  obtain ⟨t, ht, h⟩ := Option.map_eq_some_iff.1 hrun
  obtain ⟨hoptions, h⟩ := Prod.mk.inj h
  obtain ⟨hactive, h⟩ := Prod.mk.inj h
  obtain ⟨hnone, h⟩ := Prod.mk.inj h
  obtain ⟨hmotion, hnext⟩ := Prod.mk.inj h
  obtain ⟨t', hst, hactive'⟩ := Option.map_eq_some_iff.1 hnext
  obtain ⟨hdelay, hwait⟩ := of_decide_eq_true hoptions
  have hleft : t'.server.focus.active ≠ t.server.focus.active := by
    rw [hactive, hactive']
    decide
  obtain ⟨d, -, tap, away, hsub, -⟩ := hall t t' (tapAt (1 / 5) (.motionPrimary 99 50))
    (reachableVia_of_run ht (by decide +kernel)) hdelay hwait hst hmotion hleft
  have hlength := hsub.length_le
  rw [hnone] at hlength
  exact absurd hlength (Nat.not_succ_le_zero 1)

end Tapped

end InputLeap
