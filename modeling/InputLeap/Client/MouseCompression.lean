import InputLeap.LTS.Basic
import Mathlib.Algebra.Group.Prod
import Mathlib.Algebra.Ring.Int.Defs
import Mathlib.Tactic.SplitIfs

/-!
# Mouse compression

While more input follows, the client keeps mouse motions back and makes one motion of them.  The
last absolute position and the sum of the relative motions are kept apart, each with a flag of its
own.  A client that applies the messages one at a time is kept beside it.

## Main definitions

* `Pointer` : where the pointer is and what was done there.
* `ServerProxy` : the members that concern the mouse.
* `PlainProxy` : the same without compression.
* `MouseTwin` : both, fed with the same messages.
* `MouseTwin.Same` : what was done was done at the same positions, and while no data is handled
  the pointers are at the same position.
* `MouseTwin.InOrder` : a motion is not forwarded past one that is kept back, and nothing that is
  kept back is lost.

## Main results

* `MouseTwin.same_of_reachableVia` : runs in order are the same with and without compression, and
  the first message that is not in order leaves the pointers apart.
-/

namespace InputLeap

/-- A position, or the difference of two. -/
abbrev Point := ℤ × ℤ

/-- What is done where the pointer is. -/
inductive InputKind
  | keyDown
  | keyRepeat
  | keyUp
  | mouseDown
  | mouseUp
  | mouseWheel
  | leave
  deriving DecidableEq

/-- A call of the client that is not a motion, with its arguments. -/
structure InputCall where
  kind : InputKind
  args : List ℤ := []
  deriving DecidableEq

/-- Where the calls of the client put the pointer, and the positions at which input was applied,
newest first. -/
structure Pointer where
  pos : Point
  seen : List (InputCall × Point) := []
  deriving DecidableEq

namespace Pointer

variable (p : Pointer)

def mouseMove (pos : Point) : Pointer := { p with pos := pos }

def mouseRelativeMove (d : Point) : Pointer := { p with pos := p.pos + d }

/-- Applies input. -/
def input (i : InputCall) : Pointer := { p with seen := (i, p.pos) :: p.seen }

end Pointer

/-- A message for the client, as its handler reads it. -/
inductive ServerMessage
  | mouseMove (pos : Point)
  | mouseRelativeMove (d : Point)
  | enter (pos : Point) (seqNum : ℕ)
  /-- A key, a button, the wheel, or the client is left. -/
  | input (i : InputCall)
  | infoAcknowledgment
  /-- Any other message that is handled. -/
  | other
  /-- A message that ends the connection, or is invalid. -/
  | disconnect
  deriving DecidableEq

/-- The members of `ServerProxy` that concern the mouse, and the pointer. -/
structure ServerProxy where
  screen : Pointer
  seqNum : ℕ := 0
  compressMouse : Bool := false
  compressMouseRelative : Bool := false
  mouse : Point := 0
  dMouse : Point := 0
  ignoreMouse : Bool := false
  deriving DecidableEq

namespace ServerProxy

variable (p : ServerProxy)

def flushCompressedMouse : ServerProxy :=
  let p :=
    if p.compressMouse then
      { p with compressMouse := false, screen := p.screen.mouseMove p.mouse }
    else p
  if p.compressMouseRelative then
    { p with
      compressMouseRelative := false
      screen := p.screen.mouseRelativeMove p.dMouse
      dMouse := 0 }
  else p

/-- Where the motions that are kept back lead. -/
def target : Point :=
  (if p.compressMouse then p.mouse else p.screen.pos) +
    if p.compressMouseRelative then p.dMouse else 0

/-- `ready` says that more input follows. -/
def mouseMove (pos : Point) (ready : Bool) : ServerProxy :=
  let ignore := p.ignoreMouse
  let p := if !ignore && !p.compressMouse && ready then { p with compressMouse := true } else p
  if p.compressMouse then { p with compressMouseRelative := false, mouse := pos, dMouse := 0 }
  else if ignore then p
  else { p with screen := p.screen.mouseMove pos }

def mouseRelativeMove (d : Point) (ready : Bool) : ServerProxy :=
  let ignore := p.ignoreMouse
  let p :=
    if !ignore && !p.compressMouseRelative && ready then { p with compressMouseRelative := true }
    else p
  if p.compressMouseRelative then { p with dMouse := p.dMouse + d }
  else if ignore then p
  else { p with screen := p.screen.mouseRelativeMove d }

def enter (pos : Point) (seqNum : ℕ) : ServerProxy :=
  { p with
    compressMouse := false
    compressMouseRelative := false
    dMouse := 0
    seqNum := seqNum
    screen := p.screen.mouseMove pos }

/-- Input is applied after the motions that were kept back. -/
def input (i : InputCall) : ServerProxy :=
  let p := p.flushCompressedMouse
  { p with screen := p.screen.input i }

/-- Handles a message.  One that ends the connection leaves what is kept back alone. -/
def handle (m : ServerMessage) (ready : Bool) : ServerProxy :=
  match m with
  | .mouseMove pos => p.mouseMove pos ready
  | .mouseRelativeMove d => p.mouseRelativeMove d ready
  | .enter pos seqNum => p.enter pos seqNum
  | .input i => p.input i
  | .infoAcknowledgment => { p with ignoreMouse := false }
  | .other | .disconnect => p

end ServerProxy

/-- A client that applies each motion at once. -/
structure PlainProxy where
  screen : Pointer
  ignoreMouse : Bool := false
  deriving DecidableEq

/-- Handles a message. -/
def PlainProxy.handle (p : PlainProxy) : ServerMessage → PlainProxy
  | .mouseMove pos => if p.ignoreMouse then p else { p with screen := p.screen.mouseMove pos }
  | .mouseRelativeMove d =>
    if p.ignoreMouse then p else { p with screen := p.screen.mouseRelativeMove d }
  | .enter pos _ => { p with screen := p.screen.mouseMove pos }
  | .input i => { p with screen := p.screen.input i }
  | .infoAcknowledgment => { p with ignoreMouse := false }
  | .other | .disconnect => p

/-- A client with compression and one without. -/
structure MouseTwin where
  proxy : ServerProxy
  plain : PlainProxy
  /-- `handle_data` is not running. -/
  resting : Bool := true
  /-- The connection ended. -/
  closed : Bool := false
  deriving DecidableEq

namespace MouseTwin

/-- What can happen. -/
inductive Event
  /-- `handle_data` reads a message; `ready` is the answer if it asks whether more follows. -/
  | message (m : ServerMessage) (ready : Bool)
  /-- `handle_data` finds no more messages. -/
  | endOfData
  /-- The shape of the screen changed (`onInfoChanged`). -/
  | infoChanged
  deriving DecidableEq

variable (t : MouseTwin)

def step : Event → Option MouseTwin
  | .message m ready =>
    if t.closed then none
    else
      let ends := decide (m = .disconnect)
      some
        { proxy := t.proxy.handle m ready, plain := t.plain.handle m
          resting := ends, closed := ends }
  | .endOfData =>
    if t.closed then none
    else some { t with proxy := t.proxy.flushCompressedMouse, resting := true }
  | .infoChanged =>
    if t.closed ∨ ¬t.resting then none
    else some
      { t with
        proxy := { t.proxy with ignoreMouse := true }
        plain := { t.plain with ignoreMouse := true } }

/-- Two clients that connected, with their pointers at one position. -/
def create (pos : Point) : MouseTwin :=
  { proxy := { screen := ⟨pos, []⟩ }, plain := { screen := ⟨pos, []⟩ } }

/-- The messages in any order and cut into data in any way. -/
def lts : LTS MouseTwin Event where
  init t := ∃ pos, t = create pos
  step := step

/-- Compression does not show. -/
structure Same : Prop where
  seen : t.proxy.screen.seen = t.plain.screen.seen
  pos : t.resting = true → t.proxy.screen.pos = t.plain.screen.pos

/-- It does not show if the data ends here. -/
def Settles : Prop := t.Same ∧ ∀ t', t.step .endOfData = some t' → t'.Same

/-- The message does not overtake what is kept back: an absolute motion that is forwarded meets no
relative motion, a relative motion that is forwarded meets no absolute one, and what ends the
connection meets nothing that would move the pointer. -/
def InOrder : Event → Prop
  | .message (.mouseMove _) ready =>
    t.proxy.ignoreMouse = false → t.proxy.compressMouse = false → ready = false →
      t.proxy.compressMouseRelative = true → t.proxy.dMouse = 0
  | .message (.mouseRelativeMove d) ready =>
    t.proxy.ignoreMouse = false → t.proxy.compressMouseRelative = false → ready = false →
      t.proxy.compressMouse = true → d = 0
  | .message .disconnect _ => t.proxy.target = t.proxy.screen.pos
  | _ => True

instance : ∀ e : Event, Decidable (t.InOrder e)
  | .message (.mouseMove _) _ | .message (.mouseRelativeMove _) _ =>
    inferInstanceAs (Decidable (_ → _ → _ → _ → _))
  | .message .disconnect _ => inferInstanceAs (Decidable (_ = _))
  | .message (.enter _ _) _ | .message (.input _) _ | .message .infoAcknowledgment _
  | .message .other _ | .endOfData | .infoChanged => inferInstanceAs (Decidable True)

end MouseTwin

/-! ### The two clients side by side -/

namespace ServerProxy

variable {p : ServerProxy} {q : PlainProxy}

/-- What `p` keeps back leads to where `q` is. -/
structure Tracks (p : ServerProxy) (q : PlainProxy) : Prop where
  target : p.target = q.screen.pos
  seen : p.screen.seen = q.screen.seen
  ignore : p.ignoreMouse = q.ignoreMouse
  /-- While motions are ignored none is kept back. -/
  idle : p.ignoreMouse = true → p.compressMouse = false ∧ p.compressMouseRelative = false
  zero : p.compressMouseRelative = false → p.dMouse = 0

theorem flushCompressedMouse_eq (hzero : p.compressMouseRelative = false → p.dMouse = 0) :
    p.flushCompressedMouse =
      { p with
        compressMouse := false, compressMouseRelative := false, dMouse := 0
        screen := { p.screen with pos := p.target } } := by
  obtain ⟨⟨pos, seen⟩, seqNum, a, r, mouse, d, ignore⟩ := p
  cases r with
  | false =>
    obtain rfl : d = 0 := hzero rfl
    cases a <;> simp [flushCompressedMouse, target, Pointer.mouseMove]
  | true =>
    cases a <;>
      simp [flushCompressedMouse, target, Pointer.mouseMove, Pointer.mouseRelativeMove]

/-- Nothing is kept back after a flush, and the pointers are at the same position. -/
theorem Tracks.flush (h : p.Tracks q) :
    p.flushCompressedMouse.Tracks q ∧ p.flushCompressedMouse.compressMouse = false ∧
      p.flushCompressedMouse.compressMouseRelative = false ∧
      p.flushCompressedMouse.screen = q.screen := by
  rw [flushCompressedMouse_eq h.zero]
  refine ⟨⟨?_, h.seen, h.ignore, fun _ => ⟨rfl, rfl⟩, fun _ => rfl⟩, rfl, rfl, ?_⟩
  · simpa [ServerProxy.target] using h.target
  · exact congrArg₂ Pointer.mk h.target h.seen

theorem pos_flushCompressedMouse (p : ServerProxy) :
    p.flushCompressedMouse.screen.pos = p.target := by
  unfold flushCompressedMouse target
  split_ifs <;> simp_all [Pointer.mouseMove, Pointer.mouseRelativeMove]

section motion

variable {pos d : Point} {ready : Bool}

theorem mouseMove_ignored (hi : p.ignoreMouse = true) (ha : p.compressMouse = false) :
    p.mouseMove pos ready = p := by
  simp [mouseMove, hi, ha]

theorem mouseMove_kept (hi : p.ignoreMouse = false)
    (hkept : p.compressMouse = true ∨ ready = true) :
    p.mouseMove pos ready =
      { p with
        compressMouse := true
        compressMouseRelative := false
        mouse := pos
        dMouse := 0 } := by
  cases ha : p.compressMouse with
  | true => simp [mouseMove, ha]
  | false =>
    obtain rfl : ready = true := by simpa [ha] using hkept
    simp [mouseMove, hi, ha]

theorem mouseMove_forwarded (hi : p.ignoreMouse = false) (ha : p.compressMouse = false) :
    p.mouseMove pos false = { p with screen := p.screen.mouseMove pos } := by
  simp [mouseMove, hi, ha]

theorem mouseRelativeMove_ignored (hi : p.ignoreMouse = true)
    (hr : p.compressMouseRelative = false) : p.mouseRelativeMove d ready = p := by
  simp [mouseRelativeMove, hi, hr]

theorem mouseRelativeMove_kept (hi : p.ignoreMouse = false)
    (hkept : p.compressMouseRelative = true ∨ ready = true) :
    p.mouseRelativeMove d ready =
      { p with compressMouseRelative := true, dMouse := p.dMouse + d } := by
  cases hr : p.compressMouseRelative with
  | true => simp [mouseRelativeMove, hr]
  | false =>
    obtain rfl : ready = true := by simpa [hr] using hkept
    simp [mouseRelativeMove, hi, hr]

theorem mouseRelativeMove_forwarded (hi : p.ignoreMouse = false)
    (hr : p.compressMouseRelative = false) :
    p.mouseRelativeMove d false = { p with screen := p.screen.mouseRelativeMove d } := by
  simp [mouseRelativeMove, hi, hr]

/-- An absolute motion that is forwarded is right exactly if no relative one is kept back. -/
theorem Tracks.mouseMove (h : p.Tracks q) (pos : Point) (ready : Bool) :
    let q' := q.handle (.mouseMove pos)
    let order := p.ignoreMouse = false → p.compressMouse = false → ready = false →
      p.compressMouseRelative = true → p.dMouse = 0
    (order → (p.mouseMove pos ready).Tracks q') ∧
      (¬order → (p.mouseMove pos ready).target ≠ q'.screen.pos) := by
  intro q' order
  cases hi : p.ignoreMouse with
  | true =>
    have hq : q' = q := by simp [q', PlainProxy.handle, ← h.ignore, hi]
    rw [mouseMove_ignored hi (h.idle hi).1, hq]
    refine ⟨fun _ => h, fun horder => absurd (fun hi' => ?_) horder⟩
    rw [hi] at hi'
    cases hi'
  | false =>
    have hq : q' = { q with screen := q.screen.mouseMove pos } := by
      simp [q', PlainProxy.handle, ← h.ignore, hi]
    rw [hq]
    by_cases hkept : p.compressMouse = true ∨ ready = true
    · rw [mouseMove_kept hi hkept]
      refine ⟨fun _ => ⟨?_, h.seen, h.ignore, ?_, fun _ => rfl⟩, fun horder => absurd ?_ horder⟩
      · simp [ServerProxy.target, Pointer.mouseMove]
      · intro hi'
        rw [hi] at hi'
        cases hi'
      · intro _ ha hready
        simp [ha, hready] at hkept
    · obtain ⟨ha, rfl⟩ : p.compressMouse = false ∧ ready = false := by simpa using hkept
      rw [mouseMove_forwarded hi ha]
      have htarget : ({ p with screen := p.screen.mouseMove pos } : ServerProxy).target =
          pos + if p.compressMouseRelative then p.dMouse else 0 := by
        simp [ServerProxy.target, ha, Pointer.mouseMove]
      refine ⟨fun horder => ⟨?_, h.seen, h.ignore, h.idle, h.zero⟩, fun horder heq => ?_⟩
      · rw [htarget]
        cases hr : p.compressMouseRelative with
        | true => simp [horder hi ha rfl hr, Pointer.mouseMove]
        | false => simp [Pointer.mouseMove]
      · refine horder fun _ _ _ hr => ?_
        rw [htarget, if_pos hr] at heq
        exact add_eq_left.1 heq

/-- A relative motion that is forwarded is right exactly if no absolute one is kept back. -/
theorem Tracks.mouseRelativeMove (h : p.Tracks q) (d : Point) (ready : Bool) :
    let q' := q.handle (.mouseRelativeMove d)
    let order := p.ignoreMouse = false → p.compressMouseRelative = false → ready = false →
      p.compressMouse = true → d = 0
    (order → (p.mouseRelativeMove d ready).Tracks q') ∧
      (¬order → (p.mouseRelativeMove d ready).target ≠ q'.screen.pos) := by
  intro q' order
  cases hi : p.ignoreMouse with
  | true =>
    have hq : q' = q := by simp [q', PlainProxy.handle, ← h.ignore, hi]
    rw [mouseRelativeMove_ignored hi (h.idle hi).2, hq]
    refine ⟨fun _ => h, fun horder => absurd (fun hi' => ?_) horder⟩
    rw [hi] at hi'
    cases hi'
  | false =>
    have hq : q' = { q with screen := q.screen.mouseRelativeMove d } := by
      simp [q', PlainProxy.handle, ← h.ignore, hi]
    have hpos : q'.screen.pos = p.target + d := by
      rw [hq, h.target]
      rfl
    by_cases hkept : p.compressMouseRelative = true ∨ ready = true
    · rw [mouseRelativeMove_kept hi hkept]
      refine ⟨fun _ => ⟨?_, ?_, ?_, ?_, ?_⟩, fun horder => absurd ?_ horder⟩
      · rw [hpos]
        cases hr : p.compressMouseRelative with
        | true => simp [ServerProxy.target, hr, add_assoc]
        | false => simp [ServerProxy.target, hr, h.zero hr]
      · rw [hq]
        exact h.seen
      · rw [hq]
        exact h.ignore
      · intro hi'
        rw [hi] at hi'
        cases hi'
      · nofun
      · intro _ hr hready
        simp [hr, hready] at hkept
    · obtain ⟨hr, rfl⟩ : p.compressMouseRelative = false ∧ ready = false := by simpa using hkept
      rw [mouseRelativeMove_forwarded hi hr]
      have htarget : ({ p with screen := p.screen.mouseRelativeMove d } : ServerProxy).target =
          if p.compressMouse then p.target else p.target + d := by
        cases ha : p.compressMouse <;>
          simp [ServerProxy.target, ha, hr, Pointer.mouseRelativeMove]
      refine ⟨fun horder => ⟨?_, ?_, ?_, h.idle, h.zero⟩, fun horder heq => ?_⟩
      · rw [htarget, hpos]
        cases ha : p.compressMouse with
        | true => simp [horder hi hr rfl ha]
        | false => simp
      · rw [hq]
        exact h.seen
      · rw [hq]
        exact h.ignore
      · refine horder fun _ _ _ ha => ?_
        rw [htarget, hpos, if_pos ha] at heq
        exact left_eq_add.1 heq

end motion

theorem Tracks.enter (h : p.Tracks q) (pos : Point) (seqNum : ℕ) :
    (p.enter pos seqNum).Tracks (q.handle (.enter pos seqNum)) := by
  refine ⟨?_, h.seen, h.ignore, fun _ => ⟨rfl, rfl⟩, fun _ => rfl⟩
  simp [ServerProxy.target, ServerProxy.enter, PlainProxy.handle, Pointer.mouseMove]

theorem Tracks.input (h : p.Tracks q) (i : InputCall) :
    (p.input i).Tracks (q.handle (.input i)) := by
  obtain ⟨hflush, ha, hr, hscreen⟩ := h.flush
  refine ⟨?_, ?_, hflush.ignore, hflush.idle, hflush.zero⟩
  · simpa [ServerProxy.target, ServerProxy.input, ha, hr, PlainProxy.handle, Pointer.input]
      using congrArg Pointer.pos hscreen
  · simp [ServerProxy.input, PlainProxy.handle, Pointer.input, hscreen]

theorem Tracks.infoAcknowledgment (h : p.Tracks q) :
    ({ p with ignoreMouse := false } : ServerProxy).Tracks (q.handle .infoAcknowledgment) :=
  ⟨h.target, h.seen, rfl, nofun, h.zero⟩

end ServerProxy

namespace MouseTwin

variable {t t' : MouseTwin}

/-- A run in order: what the client keeps back leads to where the other is, and after the end of
the connection the two are at the same position. -/
structure Inv (t : MouseTwin) : Prop where
  same : t.Same
  tracks : t.closed = false → t.proxy.Tracks t.plain
  rest : t.closed = false → t.resting = true →
    t.proxy.compressMouse = false ∧ t.proxy.compressMouseRelative = false

/-- A state in which data is handled. -/
theorem inv_of_tracks (h : t.proxy.Tracks t.plain) (hrest : t.resting = false) : t.Inv :=
  ⟨⟨h.seen, fun hr => absurd hr (by simp [hrest])⟩, fun _ => h, fun _ hr =>
    absurd hr (by simp [hrest])⟩

theorem same_of_endOfData (h : t.proxy.Tracks t.plain) (hst : t.step .endOfData = some t') :
    t'.Same := by
  simp only [step] at hst
  split_ifs at hst
  obtain rfl := Option.some.inj hst
  obtain ⟨-, -, -, hscreen⟩ := h.flush
  exact ⟨congrArg Pointer.seen hscreen, fun _ => congrArg Pointer.pos hscreen⟩

theorem Inv.settles (h : t.Inv) : t.Settles := by
  refine ⟨h.same, fun t' hst => ?_⟩
  cases hclosed : t.closed with
  | true => simp [step, hclosed] at hst
  | false => exact same_of_endOfData (h.tracks hclosed) hst

/-- Pointers that are bound for different positions are apart at the end of the data. -/
theorem not_settles (hclosed : t.closed = false)
    (hne : t.proxy.target ≠ t.plain.screen.pos) : ¬t.Settles := by
  intro hsettles
  have hst : t.step .endOfData =
      some { t with proxy := t.proxy.flushCompressedMouse, resting := true } := by
    simp [step, hclosed]
  have hpos := (hsettles.2 _ hst).pos rfl
  rw [ServerProxy.pos_flushCompressedMouse] at hpos
  exact hne hpos

/-- The event leads to `t'`, which is right if it is in order, and is not otherwise. -/
def Decides (t : MouseTwin) (e : Event) (t' : MouseTwin) : Prop :=
  (t.InOrder e → t'.Inv) ∧ (¬t.InOrder e → ¬t'.Settles)

theorem decides_message (h : t.Inv) {m : ServerMessage} {ready : Bool}
    (hst : t.step (.message m ready) = some t') : t.Decides (.message m ready) t' := by
  simp only [step] at hst
  split_ifs at hst with hclosed
  obtain rfl := Option.some.inj hst
  have htracks : t.proxy.Tracks t.plain := h.tracks (by simpa using hclosed)
  cases m with
  | mouseMove pos =>
    obtain ⟨hright, hwrong⟩ := htracks.mouseMove pos ready
    exact ⟨fun ho => inv_of_tracks (hright ho) rfl, fun ho => not_settles rfl (hwrong ho)⟩
  | mouseRelativeMove d =>
    obtain ⟨hright, hwrong⟩ := htracks.mouseRelativeMove d ready
    exact ⟨fun ho => inv_of_tracks (hright ho) rfl, fun ho => not_settles rfl (hwrong ho)⟩
  | enter pos seqNum =>
    exact ⟨fun _ => inv_of_tracks (htracks.enter pos seqNum) rfl, fun ho => absurd trivial ho⟩
  | input i => exact ⟨fun _ => inv_of_tracks (htracks.input i) rfl, fun ho => absurd trivial ho⟩
  | infoAcknowledgment =>
    exact ⟨fun _ => inv_of_tracks htracks.infoAcknowledgment rfl, fun ho => absurd trivial ho⟩
  | other => exact ⟨fun _ => inv_of_tracks htracks rfl, fun ho => absurd trivial ho⟩
  | disconnect =>
    -- what is kept back is lost
    refine ⟨fun ho => ⟨⟨htracks.seen, fun _ => ?_⟩, nofun, nofun⟩, fun ho hsettles => ho ?_⟩
    · exact (Eq.symm ho).trans htracks.target
    · exact htracks.target.trans (hsettles.1.pos rfl).symm

theorem Inv.decides (h : t.Inv) {e : Event} (hst : t.step e = some t') : t.Decides e t' := by
  cases e with
  | message m ready => exact decides_message h hst
  | endOfData =>
    refine ⟨fun _ => ?_, fun ho => absurd trivial ho⟩
    have hsame : t'.Same := by
      cases hclosed : t.closed with
      | true => simp [step, hclosed] at hst
      | false => exact same_of_endOfData (h.tracks hclosed) hst
    simp only [step] at hst
    split_ifs at hst with hclosed
    obtain rfl := Option.some.inj hst
    obtain ⟨hflush, ha, hr, -⟩ := (h.tracks (by simpa using hclosed)).flush
    exact ⟨hsame, fun _ => hflush, fun _ _ => ⟨ha, hr⟩⟩
  | infoChanged =>
    refine ⟨fun _ => ?_, fun ho => absurd trivial ho⟩
    simp only [step] at hst
    split_ifs at hst with hbusy
    obtain rfl := Option.some.inj hst
    obtain ⟨hclosed, hresting⟩ : t.closed = false ∧ t.resting = true := by simpa using hbusy
    obtain ⟨ha, hr⟩ := h.rest hclosed hresting
    have htracks := h.tracks hclosed
    refine ⟨⟨h.same.seen, h.same.pos⟩, fun _ => ?_, fun _ _ => ⟨ha, hr⟩⟩
    exact ⟨htracks.target, htracks.seen, rfl, fun _ => ⟨ha, hr⟩, htracks.zero⟩

theorem inv_create (pos : Point) : (create pos).Inv := by
  refine ⟨⟨rfl, fun _ => rfl⟩, fun _ => ⟨?_, rfl, rfl, nofun, fun _ => rfl⟩, fun _ _ => ⟨rfl, rfl⟩⟩
  simp [ServerProxy.target, create]

theorem inv_of_reachableVia (ht : lts.ReachableVia InOrder t) : t.Inv := by
  refine ht.invariant ?_ fun t e t' h ho hst => (h.decides hst).1 ho
  rintro _ ⟨pos, rfl⟩
  exact inv_create pos

/-- Throughout runs in order compression does not show, and an event is in order exactly if data
that ends with it leaves no difference. -/
theorem same_of_reachableVia (ht : lts.ReachableVia InOrder t) :
    t.Same ∧ ∀ e t', lts.step t e = some t' → (t'.Settles ↔ t.InOrder e) := by
  have h : t.Inv := inv_of_reachableVia ht
  refine ⟨h.same, fun e t' hst => ⟨fun hsettles => ?_, fun ho => ?_⟩⟩
  · by_contra ho
    exact (h.decides hst).2 ho hsettles
  · exact ((h.decides hst).1 ho).settles

/-- Relative motions that are kept back after an absolute one, and a key. -/
def draggedKey : List Event :=
  [.message (.mouseMove (10, 10)) true, .message (.mouseRelativeMove (2, 3)) true,
    .message (.mouseRelativeMove (1, 1)) false, .message (.input ⟨.keyDown, [65, 0, 38]⟩) false,
    .endOfData]

/-- The key goes down at the position that the three motions lead to. -/
theorem same_draggedKey : ∃ t : MouseTwin,
    t.proxy.screen = ⟨(13, 14), [(⟨.keyDown, [65, 0, 38]⟩, (13, 14))]⟩ ∧ t.Same ∧
      ∀ e t', lts.step t e = some t' → (t'.Settles ↔ t.InOrder e) := by
  have hrun : (lts.exec (create (0, 0)) draggedKey).map (fun t => t.proxy.screen) =
      some ⟨(13, 14), [(⟨.keyDown, [65, 0, 38]⟩, (13, 14))]⟩ := by decide +kernel
  obtain ⟨t, ht, hscreen⟩ := Option.map_eq_some_iff.1 hrun
  exact ⟨t, hscreen, same_of_reachableVia (.of_exec (.init ⟨_, rfl⟩) (by decide +kernel) ht)⟩

/-- A relative motion without more input is forwarded past an absolute one. -/
theorem not_same_of_reachable : ¬∀ t : MouseTwin, lts.Reachable t → t.Same := by
  intro h
  have hrun : (lts.exec (create (0, 0))
      [.message (.mouseMove (10, 10)) true, .message (.mouseRelativeMove (5, 5)) false,
        .endOfData]).map (fun t => (t.proxy.screen.pos, t.plain.screen.pos, t.resting)) =
      some ((10, 10), (15, 15), true) := by decide +kernel
  obtain ⟨t, ht, hpos⟩ := Option.map_eq_some_iff.1 hrun
  obtain ⟨hproxy, hplain, hresting⟩ : t.proxy.screen.pos = (10, 10) ∧
      t.plain.screen.pos = (15, 15) ∧ t.resting = true := by simpa using hpos
  have hsame := (h t (.of_exec ⟨_, rfl⟩ ht)).pos hresting
  rw [hproxy, hplain] at hsame
  exact absurd hsame (by decide)

end MouseTwin

end InputLeap
