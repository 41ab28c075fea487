import InputLeap.Client.Grabs

/-!
# Clipboards that the client does not send

The client does not send a clipboard that is over the limit of the server, and none while sharing
is off.  It notes the time of a clipboard before it looks at the size, and it does not note a grab
at all while sharing is off, so what it notes decides whether the clipboard is sent later.

## Main definitions

* `Client.Skip` : the ways in which a send is skipped because of the limit or because sharing is
  off.
* `Client.Quiet` : an event at which the client does not look at the clipboard.

## Main results

* `Client.sentAtLeave_iff_kept` : when a skipped clipboard is sent at the next leave that may send
  it.
-/

namespace InputLeap

namespace Client

variable (c : Client)

/-- `sendClipboard` sends the content. -/
def Sends (screen : ScreenClipboards) (id : ClipboardID) (content : Clipboard) : Prop :=
  (c.sendClipboard screen id).out = .clipboardChanged id content.marshall :: c.out

/-- A send that does not take place because of the limit or because sharing is off. -/
inductive Skip
  /-- The screen is left, and the content is over the limit. -/
  | leaveOverLimit
  /-- The clipboard is grabbed while the screen is not active, and the content is over the
  limit. -/
  | grabOverLimit
  /-- The screen is left while sharing is off. -/
  | leaveOff
  /-- The clipboard is grabbed while sharing is off or the limit is zero. -/
  | grabOff
  deriving DecidableEq

namespace Skip

/-- The event at which the send is skipped. -/
def event (id : ClipboardID) : Skip → Event
  | leaveOverLimit | leaveOff => .leave
  | grabOverLimit | grabOff => .clipboardGrabbed id

/-- The content would be sent at this event but for the limit, or but for sharing being off. -/
def Happens (c : Client) (id : ClipboardID) (content : Clipboard) : Skip → Prop
  | leaveOverLimit =>
    c.enableClipboard = true ∧ c.ownClipboard id = true ∧ c.Due id content ∧
      c.maximumClipboardSize ≤ content.marshall.length
  | grabOverLimit =>
    c.enableClipboard = true ∧ c.maximumClipboardSize ≠ 0 ∧ c.active = false ∧
      c.maximumClipboardSize ≤ content.marshall.length
  | leaveOff => c.enableClipboard = false ∧ c.ownClipboard id = true ∧ c.Due id content
  | grabOff => c.enableClipboard = false ∨ c.maximumClipboardSize = 0

/-- The client will send the content later. -/
def Kept (c : Client) (id : ClipboardID) (content : Clipboard) : Skip → Prop
  | leaveOverLimit | grabOverLimit => content.timeOwned = 0
  | leaveOff => True
  | grabOff => c.ownClipboard id = true ∧ c.Due id content

end Skip

/-- At the event the client does not look at the clipboard, the server does not take it, and the
connection is not replaced. -/
def Quiet (id : ClipboardID) (l : ScreenClipboards × Event) : Prop :=
  match l.2 with
  | .connected => False
  | .leave => c.enableClipboard = false
  | .setClipboard id' | .grabClipboard id' => id' ≠ id
  | .clipboardGrabbed id' =>
    id' ≠ id ∨ c.enableClipboard = false ∨ c.maximumClipboardSize = 0
  | _ => True

variable {c} {c' c'' : Client} {screen : ScreenClipboards} {id id' : ClipboardID}
  {ids : List ClipboardID} {content : Clipboard}

theorem sends_iff (hscreen : screen id = some content) :
    c.Sends screen id content ↔
      c.Due id content ∧ content.marshall.length < c.maximumClipboardSize := by
  unfold Sends
  rw [out_sendClipboard_eq, getClipboard_eq hscreen]
  split_ifs with hsend
  · exact iff_of_true rfl hsend
  · exact iff_of_false (List.cons_ne_self _ _).symm hsend

/-- What is noted when the content is over the limit: its time. -/
theorem sendClipboard_overLimit (hscreen : screen id = some content) (hdue : c.Due id content)
    (hlimit : c.maximumClipboardSize ≤ content.marshall.length) :
    c.sendClipboard screen id =
      { c with timeClipboard := Function.update c.timeClipboard id content.timeOwned } := by
  unfold sendClipboard
  rw [getClipboard_eq hscreen]
  dsimp only
  rw [if_pos hdue.1, if_pos hlimit]

theorem sameNotes_sendOwned (hid : id ∉ ids) : SameNotes id c (c.sendOwned screen ids) := by
  induction ids generalizing c with
  | nil => exact .refl id c
  | cons id' ids ih =>
    obtain ⟨hne, hids⟩ := not_or.1 (List.mem_cons.not.1 hid)
    rw [sendOwned_cons]
    split_ifs
    · exact (sameNotes_sendClipboard hne).trans (ih hids)
    · exact ih hids

/-- What the loop notes of a clipboard over the limit: its time. -/
theorem notes_sendOwned_overLimit (hnodup : ids.Nodup) (hmem : id ∈ ids)
    (hown : c.ownClipboard id = true) (hscreen : screen id = some content)
    (hdue : c.Due id content) (hlimit : c.maximumClipboardSize ≤ content.marshall.length) :
    SameNotes id
      { c with timeClipboard := Function.update c.timeClipboard id content.timeOwned }
      (c.sendOwned screen ids) := by
  induction ids generalizing c with
  | nil => cases hmem
  | cons id' ids ih =>
    obtain ⟨hid', hnodup⟩ := List.nodup_cons.1 hnodup
    rw [sendOwned_cons]
    by_cases hid : id = id'
    · subst hid
      rw [if_pos hown, sendClipboard_overLimit hscreen hdue hlimit]
      -- the later turns are those of other clipboards
      exact sameNotes_sendOwned hid'
    · have hmem := (List.mem_cons.1 hmem).resolve_left hid
      split_ifs with hown'
      · have hnotes : SameNotes id c (c.sendClipboard screen id') := sameNotes_sendClipboard hid
        have hlimit' := (keepsBut_sendClipboard c screen id').limit
        have hlater := ih hnodup hmem (hnotes.own.trans hown) (hnotes.due_iff.2 hdue)
          (Nat.le_trans (Nat.le_of_eq hlimit') hlimit)
        exact ⟨hlater.own.trans hnotes.own, hlater.sent.trans hnotes.sent,
          hlater.time.trans (by simp only [Function.update_self]),
          hlater.data.trans hnotes.data⟩
      · exact ih hnodup hmem hown hdue hlimit

/-! ### Skipped sends -/

theorem sameNotes_readOptions (options : List ℕ) (c : Client) :
    SameNotes id c (readOptions options c) := by
  fun_induction readOptions options c with
  | case1 c | case2 c | case4 => exact .refl id _
  | case3 => exact ⟨rfl, rfl, rfl, rfl⟩
  | case5 _ _ _ _ ih => exact ⟨ih.own, ih.sent, ih.time, ih.data⟩
  | case6 _ _ _ _ _ ih => exact ih

theorem sameNotes_noteGrab (hne : id ≠ id') : SameNotes id c (c.noteGrab id') :=
  ⟨Function.update_of_ne hne .., Function.update_of_ne hne .., Function.update_of_ne hne .., rfl⟩

/-- A grab that is skipped, or of another clipboard, leaves the notes alone. -/
theorem sameNotes_handleClipboardGrabbed
    (hne : id' ≠ id ∨ c.enableClipboard = false ∨ c.maximumClipboardSize = 0) :
    SameNotes id c (c.handleClipboardGrabbed screen id') := by
  rw [handleClipboardGrabbed_eq]
  split_ifs with hoff hactive
  · exact .refl id c
  · have hid : id ≠ id' := by
      rintro rfl
      simp only [Bool.or_eq_true, Bool.not_eq_true', decide_eq_true_eq] at hoff
      exact hoff (hne.resolve_left fun h => h rfl)
    exact sameNotes_noteGrab hid
  · have hid : id ≠ id' := by
      rintro rfl
      simp only [Bool.or_eq_true, Bool.not_eq_true', decide_eq_true_eq] at hoff
      exact hoff (hne.resolve_left fun h => h rfl)
    exact (sameNotes_noteGrab hid).trans (sameNotes_sendClipboard hid)

theorem sameNotes_of_quiet {l : ScreenClipboards × Event} (hquiet : c.Quiet id l)
    (hst : lts.step c l = some c') : SameNotes id c c' := by
  obtain ⟨screen, e⟩ := l
  cases e with
  | connected => cases hquiet
  | connect =>
    obtain rfl := Option.some.inj hst
    unfold connect
    split_ifs <;> exact ⟨rfl, rfl, rfl, rfl⟩
  | resume =>
    obtain rfl := Option.some.inj hst
    simp only [handleResume, connect]
    split_ifs <;> exact ⟨rfl, rfl, rfl, rfl⟩
  | disconnect | suspend =>
    obtain rfl := Option.some.inj hst
    exact ⟨rfl, rfl, rfl, rfl⟩
  | connectionFailed | hello | handshakeComplete | disconnected | enter =>
    obtain ⟨-, hst⟩ := Option.ite_none_right_eq_some.1 hst
    obtain rfl := Option.some.inj hst
    exact ⟨rfl, rfl, rfl, rfl⟩
  | setOptions options =>
    obtain ⟨-, hst⟩ := Option.ite_none_right_eq_some.1 hst
    obtain rfl := Option.some.inj hst
    obtain ⟨hown, hsent, htime, hdata⟩ : SameNotes id c (readOptions options c) :=
      sameNotes_readOptions options c
    simp only [Client.setOptions]
    split_ifs <;> exact ⟨hown, hsent, htime, hdata⟩
  | leave =>
    obtain ⟨-, hst⟩ := Option.ite_none_right_eq_some.1 hst
    obtain rfl := Option.some.inj hst
    have hoff : c.enableClipboard = false := hquiet
    rw [leave_eq, if_neg (by simp [hoff])]
    exact ⟨rfl, rfl, rfl, rfl⟩
  | setClipboard id' | grabClipboard id' =>
    obtain ⟨-, hst⟩ := Option.ite_none_right_eq_some.1 hst
    obtain rfl := Option.some.inj hst
    have hne : id ≠ id' := Ne.symm hquiet
    exact ⟨Function.update_of_ne hne .., Function.update_of_ne hne .., rfl, rfl⟩
  | clipboardGrabbed id' =>
    obtain ⟨-, hst⟩ := Option.ite_none_right_eq_some.1 hst
    obtain rfl := Option.some.inj hst
    exact sameNotes_handleClipboardGrabbed hquiet

/-- What the client notes when it skips a send. -/
theorem due_iff_kept (k : Skip) (hskip : k.Happens c id content)
    (hscreen : screen id = some content) (hst : c.step screen (k.event id) = some c') :
    (c'.ownClipboard id = true ∧ c'.Due id content) ↔ k.Kept c id content := by
  cases k with
  | leaveOverLimit =>
    -- the content is not noted as sent, so at the next leave only its time counts
    obtain ⟨henable, hown, hdue, hlimit⟩ := hskip
    obtain ⟨-, hst⟩ := Option.ite_none_right_eq_some.1 hst
    obtain rfl := Option.some.inj hst
    have hnotes := notes_sendOwned_overLimit (c := c.noteLeave) ClipboardID.nodup_all
      (ClipboardID.mem_all id) hown hscreen hdue hlimit
    rw [leave_eq, if_pos henable, hnotes.own, hnotes.due_iff]
    simp [Skip.Kept, Due, noteLeave, hown, hdue.2]
  | grabOverLimit =>
    obtain ⟨henable, hsize, hactive, hlimit⟩ := hskip
    obtain ⟨-, hst⟩ := Option.ite_none_right_eq_some.1 hst
    obtain rfl := Option.some.inj hst
    -- a grab resets the time and the sent flag
    have hdue : (c.noteGrab id).Due id content := by
      simp [Due, noteGrab]
    have hover := sendClipboard_overLimit (c := c.noteGrab id) hscreen hdue hlimit
    rw [handleClipboardGrabbed_eq]
    simp only [henable, hsize, hactive, Bool.not_true, decide_false, Bool.or_self,
      Bool.false_eq_true, if_false]
    rw [hover]
    simp [Skip.Kept, Due, noteGrab]
  | leaveOff =>
    obtain ⟨henable, hown, hdue⟩ := hskip
    obtain ⟨-, hst⟩ := Option.ite_none_right_eq_some.1 hst
    obtain rfl := Option.some.inj hst
    rw [leave_eq, if_neg (by simp [henable])]
    exact iff_of_true ⟨hown, hdue⟩ trivial
  | grabOff =>
    have hnotes : SameNotes id c c' := by
      obtain ⟨-, hst⟩ := Option.ite_none_right_eq_some.1 hst
      obtain rfl := Option.some.inj hst
      exact sameNotes_handleClipboardGrabbed (.inr hskip)
    rw [hnotes.own, hnotes.due_iff]
    rfl

/-- When a send was skipped, the next leave at which the clipboard may be sent sends it exactly if
it was kept. -/
theorem sentAtLeave_iff_kept {screen' : ScreenClipboards} {ls : List (ScreenClipboards × Event)}
    (k : Skip) (hskip : k.Happens c id content) (hscreen : screen id = some content)
    (hst : c.step screen (k.event id) = some c')
    (hquiet : lts.Admits (fun c l => c.Quiet id l) c' ls) (he : lts.exec c' ls = some c'')
    (hready : c''.phase = .ready) (hshares : c''.Shares screen' id content) :
    c''.SentAtLeave screen' id content ↔ k.Kept c id content := by
  have hnotes : SameNotes id c' c'' :=
    LTS.exec_invariant (I := SameNotes id c') (.refl id c') hquiet he
      fun c₁ l c₂ h hl hst => h.trans (sameNotes_of_quiet hl hst)
  rw [sentAtLeave_iff_due hready hshares, hnotes.own, hnotes.due_iff]
  exact due_iff_kept k hskip hscreen hst

end Client

end InputLeap
