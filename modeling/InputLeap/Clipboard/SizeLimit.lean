import InputLeap.Client.SkippedSends
import InputLeap.Server.Delivery

/-!
# The size limit on clipboards

The server tells its clients how large a clipboard may be, and the size is tested in three places:
by the client before it sends a clipboard (`Client::sendClipboard`), by the server when it receives
one (`Server::onClipboardChanged`) and when it passes the stored ones on to a screen that is entered
(`Server::switchScreen`).  The client refuses a clipboard of exactly the limit, the server does not.

## Main definitions

* `Server.StoresAndForwards`, `Server.ForwardsAtSwitch` : what the server does with a clipboard.
* `SizeLimit.Offered` : a clipboard of one size on its way from a client to the screens.

## Main results

* `SizeLimit.agree_iff` : the three tests agree on all sizes but the limit.
* `SizeLimit.agree_and_kept_iff` : and when a clipboard that the client skipped is sent later.
-/

namespace InputLeap

namespace Server

variable (s : Server)

/-- Content that arrives from `d` is stored, and it is sent to the active screen unless that is
where it comes from. -/
def StoresAndForwards (env : Env) (d : ClientID) (id : ClipboardID) (seqNum : ℕ)
    (clipboard : Clipboard) : Prop :=
  let s' := s.onClipboardChanged env d id seqNum
  (s'.clipboards id).data = clipboard.marshall ∧
    (s.focus.active ∈ s.clientList → s.focus.active ≠ d →
      s'.delivered s.focus.active id = some clipboard.copy)

/-- What is stored is sent to the screen that was entered. -/
def ForwardsAtSwitch (id : ClipboardID) : Prop :=
  ∃ calls, s.sendClipboards.log.screens = calls ++ s.log.screens ∧
    .setClipboard s.focus.active id (s.clipboards id).clipboard.copy ∈ calls

variable {s} {env : Env} {d : ClientID} {id : ClipboardID} {seqNum : ℕ} {clipboard : Clipboard}

/-- New content is stored and forwarded up to the limit. -/
theorem storesAndForwards_iff (haccept : s.AcceptsData env d id seqNum clipboard)
    (hnew : clipboard.marshall ≠ (s.clipboards id).data) :
    s.StoresAndForwards env d id seqNum clipboard ↔
      clipboard.marshall.length ≤ s.options.maximumClipboardSize := by
  obtain ⟨hrefused, -⟩ | ⟨clipboard', haccept', hcases⟩ :=
    onClipboardChanged_cases s env d id seqNum
  · exact absurd haccept (hrefused clipboard)
  · obtain rfl : clipboard' = clipboard := Option.some.inj (haccept'.2.symm.trans haccept.2)
    unfold StoresAndForwards
    rcases hcases with ⟨hover, heq⟩ | ⟨⟨hlimit, -⟩, heq⟩
    · -- it is refused for its size, and the old content stays
      have hover := hover.resolve_right hnew
      refine iff_of_false (fun h => hnew ?_) (not_le.2 hover)
      rw [← h.1, heq, clipboards_withInfo, if_pos rfl]
    · refine iff_of_true ⟨?_, fun hactive hother => ?_⟩ hlimit
      · rw [heq, clipboards_setClipboard]
        have htold := ((tells_setClipboardDirty id d).foldl (s.withInfo id
          { s.clipboards id with
            clipboard := clipboard', data := clipboard'.marshall }).clientList
          (s.withInfo id { s.clipboards id with
            clipboard := clipboard', data := clipboard'.marshall })).2.2.1
        rw [tellDirty, htold, clipboards_withInfo, if_pos rfl]
      · rw [heq, delivered_setClipboard, if_pos]
        refine ⟨rfl, rfl, ?_⟩
        have hdirty := ((tells_setClipboardDirty id d).foldl (s.withInfo id
          { s.clipboards id with
            clipboard := clipboard', data := clipboard'.marshall }).clientList
          (s.withInfo id { s.clipboards id with
            clipboard := clipboard', data := clipboard'.marshall })).2.2.2.2
        -- every screen but the sender was told that its clipboard is dirty
        rw [tellDirty, hdirty, if_pos ⟨hactive, rfl⟩]
        simpa using hother

/-- One turn of the loop that sends the clipboards to the screen that was entered. -/
def forwardClipboard (s : Server) (id : ClipboardID) : Server :=
  if s.options.maximumClipboardSize < (s.clipboards id).clipboard.marshall.length then s
  else s.setClipboard s.focus.active id (s.clipboards id).clipboard

theorem sendClipboards_eq (s : Server) :
    s.sendClipboards = ClipboardID.all.foldl forwardClipboard s := rfl

theorem screens_forwardClipboard (s : Server) (id : ClipboardID) :
    (s.forwardClipboard id).log.screens =
      (if s.WithinLimit id ∧ s.dirty s.focus.active id = true then
        [.setClipboard s.focus.active id (s.clipboards id).clipboard.copy] else []) ++
        s.log.screens := by
  unfold forwardClipboard WithinLimit setClipboard dirty
  by_cases hlimit : s.options.maximumClipboardSize < (s.clipboards id).clipboard.marshall.length
  · rw [if_pos hlimit, if_neg fun h => not_le.2 hlimit h.1]
    rfl
  · rw [if_neg hlimit]
    dsimp only
    split_ifs with hdirty hsend hsend
    · rfl
    · exact absurd ⟨not_lt.1 hlimit, hdirty⟩ hsend
    · exact absurd hsend.2 hdirty
    · rfl

/-- A turn changes nothing that the turns for other clipboards look at. -/
theorem forwardClipboard_other (s : Server) {id' : ClipboardID} (hne : id ≠ id') :
    (s.forwardClipboard id').focus = s.focus ∧
      (s.forwardClipboard id').clipboards = s.clipboards ∧
      ((s.forwardClipboard id').WithinLimit id ↔ s.WithinLimit id) ∧
      (s.forwardClipboard id').dirty s.focus.active id = s.dirty s.focus.active id := by
  unfold forwardClipboard
  split_ifs
  · exact ⟨rfl, rfl, Iff.rfl, rfl⟩
  · have hclipboards := clipboards_setClipboard s s.focus.active id' (s.clipboards id').clipboard
    have hkeeps := keeps_setClipboard s s.focus.active id' (s.clipboards id').clipboard
    refine ⟨(still_setClipboard s s.focus.active id' _).focus, hclipboards, ?_, ?_⟩
    · simp only [WithinLimit, hclipboards, hkeeps.options]
    · rw [dirty_setClipboard, if_neg fun h => hne h.2]

/-- What the loop sends to the screen that was entered. -/
theorem mem_forwarded_iff (s : Server) {ids : List ClipboardID} (hnodup : ids.Nodup)
    (id : ClipboardID) :
    ∃ calls, (ids.foldl forwardClipboard s).log.screens = calls ++ s.log.screens ∧
      (.setClipboard s.focus.active id (s.clipboards id).clipboard.copy ∈ calls ↔
        id ∈ ids ∧ s.WithinLimit id ∧ s.dirty s.focus.active id = true) ∧
      (id ∉ ids → ∀ c clipboard, .setClipboard c id clipboard ∉ calls) := by
  induction ids generalizing s with
  | nil => exact ⟨[], rfl, by simp, fun _ _ _ => List.not_mem_nil⟩
  | cons id' ids ih =>
    obtain ⟨hid', hnodup⟩ := List.nodup_cons.1 hnodup
    obtain ⟨rest, hrest, hmem, hnot⟩ := ih (s.forwardClipboard id') hnodup
    rw [screens_forwardClipboard, ← List.append_assoc] at hrest
    refine ⟨_, hrest, ?_, ?_⟩
    · rw [List.mem_append]
      by_cases hid : id = id'
      · -- the turn of the clipboard itself
        subst hid
        rw [or_iff_right (hnot hid' _ _)]
        split_ifs with hsend <;> simp [hsend]
      · obtain ⟨hfocus, hclipboards, hlimit, hdirty⟩ := s.forwardClipboard_other hid
        rw [hfocus, hclipboards, hlimit, hdirty] at hmem
        rw [hmem]
        split_ifs <;> simp [hid]
    · intro hids c clipboard hin
      obtain ⟨hid, hids⟩ := not_or.1 (List.mem_cons.not.1 hids)
      rcases List.mem_append.1 hin with hin | hin
      · exact hnot hids c clipboard hin
      · split_ifs at hin <;> simp [hid] at hin

/-- At a switch a clipboard is sent up to the limit, if the screen that is entered does not have
it. -/
theorem forwardsAtSwitch_iff (hdirty : s.dirty s.focus.active id = true) :
    s.ForwardsAtSwitch id ↔
      (s.clipboards id).clipboard.marshall.length ≤ s.options.maximumClipboardSize := by
  obtain ⟨calls, hcalls, hmem, -⟩ := s.mem_forwarded_iff ClipboardID.nodup_all id
  rw [← sendClipboards_eq] at hcalls
  constructor
  · rintro ⟨calls', hcalls', hin⟩
    obtain rfl : calls' = calls := List.append_cancel_right (hcalls'.symm.trans hcalls)
    exact (hmem.1 hin).2.1
  · exact fun hlimit => ⟨calls, hcalls, hmem.2 ⟨ClipboardID.mem_all id, hlimit, hdirty⟩⟩

end Server

namespace SizeLimit

/-- A clipboard of `n` bytes on its way while the limit is `L` everywhere: it is new to the client,
to the server that receives it, and to the screen that is entered when it is stored. -/
structure Passage (n L : ℕ) where
  client : Client
  screen : ScreenClipboards
  id : ClipboardID
  content : Clipboard
  held : screen id = some content
  due : client.Due id content
  content_size : content.marshall.length = n
  client_limit : client.maximumClipboardSize = L
  receiving : Server
  env : Env
  sender : ClientID
  seqNum : ℕ
  received : Clipboard
  accepted : receiving.AcceptsData env sender id seqNum received
  new : received.marshall ≠ (receiving.clipboards id).data
  received_size : received.marshall.length = n
  receiving_limit : receiving.options.maximumClipboardSize = L
  /-- The server when a screen was entered. -/
  switching : Server
  dirty : switching.dirty switching.focus.active id = true
  stored_size : (switching.clipboards id).clipboard.marshall.length = n
  switching_limit : switching.options.maximumClipboardSize = L

/-- The client sends the clipboard exactly when the server stores and forwards it, and exactly when
it passes it on at a switch. -/
def Passage.Agree {n L : ℕ} (p : Passage n L) : Prop :=
  (p.client.Sends p.screen p.id p.content ↔
    p.receiving.StoresAndForwards p.env p.sender p.id p.seqNum p.received) ∧
  (p.client.Sends p.screen p.id p.content ↔ p.switching.ForwardsAtSwitch p.id)

/-- The three tests agree on all sizes but the limit. -/
theorem agree_iff {n L : ℕ} (p : Passage n L) : p.Agree ↔ n ≠ L := by
  have hsends : p.client.Sends p.screen p.id p.content ↔ n < L := by
    rw [Client.sends_iff p.held, p.content_size, p.client_limit]
    exact and_iff_right p.due
  have hstores : p.receiving.StoresAndForwards p.env p.sender p.id p.seqNum p.received ↔
      n ≤ L := by
    rw [Server.storesAndForwards_iff p.accepted p.new, p.received_size, p.receiving_limit]
  have hforwards : p.switching.ForwardsAtSwitch p.id ↔ n ≤ L := by
    rw [Server.forwardsAtSwitch_iff p.dirty, p.stored_size, p.switching_limit]
  unfold Passage.Agree
  rw [hsends, hstores, hforwards]
  omega

/-- **The two ends agree on the size except at the limit itself; and a skipped clipboard is sent at
the next opportunity exactly if it was kept.**  A clipboard that is over the limit is kept if its
time is zero; one that was not sent at a leave because sharing was off is always kept; one that was
grabbed while sharing was off is kept if the client owned the clipboard before and takes the content
for a new one. -/
theorem agree_and_kept_iff {n L : ℕ} (p : Passage n L) (k : Client.Skip) {c c' c'' : Client}
    {screen screen' : ScreenClipboards} {id : ClipboardID} {content : Clipboard}
    {ls : List (ScreenClipboards × Client.Event)} (hskip : k.Happens c id content)
    (hscreen : screen id = some content) (hst : c.step screen (k.event id) = some c')
    (hquiet : Client.lts.Admits (fun c l => c.Quiet id l) c' ls)
    (he : Client.lts.exec c' ls = some c'') (hready : c''.phase = .ready)
    (hshares : c''.Shares screen' id content) :
    (p.Agree ↔ n ≠ L) ∧ (c''.SentAtLeave screen' id content ↔ k.Kept c id content) :=
  ⟨agree_iff p, Client.sentAtLeave_iff_kept k hskip hscreen hst hquiet he hready hshares⟩

/-! ### A text of the size of the limit -/

/-- The client grabs the clipboard while the limit is `L` and its screen is active. -/
def grabbing (L : ℕ) : List Client.Event :=
  Client.connecting ++ [.setOptions [OptionID.clipboardSharingSize.code, L], .enter,
    .clipboardGrabbed .clipboard]

/-- The data of the text arrives from `c`. -/
def arrival : List (Env × Server.Event) :=
  [({}, .clipboardReceived 2 .clipboard 0 Client.copiedText.marshall)]

/-- The client `c` grabs the clipboard and sends the text, and the server has not looked at it. -/
def receiving : List (Env × Server.Event) := Server.bothConnect ++ Server.grabOnC ++ arrival

/-- The screens with a limit. -/
def limited (L : ℕ) : Config :=
  { Server.threeScreens with
    globalOptions := (∅ : ScreenOptions).insert .clipboardSharingSize L }

/-- The server stores the text, and the screen `b` is entered. -/
def entering (s : Server) : Server :=
  let s := s.onClipboardChanged {} 2 .clipboard 0
  s.setFocus { s.focus with active := 1 }

/-- What has to be looked at to see that the server is given the text. -/
def Given (L : ℕ) (s : Server) : Prop :=
  ((s.clipboards .clipboard).seqNum = 0 ∧
    (s.getClipboard {} 2 .clipboard).map Clipboard.marshall = some Client.copiedText.marshall ∧
    Client.copiedText.marshall ≠ (s.clipboards .clipboard).data ∧
    s.options.maximumClipboardSize = L) ∧
  ((entering s).dirty 1 .clipboard = true ∧
    ((entering s).clipboards .clipboard).clipboard.marshall.length = 14 ∧
    (entering s).options.maximumClipboardSize = L)

instance (L : ℕ) (s : Server) : Decidable (Given L s) :=
  inferInstanceAs (Decidable ((_ ∧ _ ∧ _ ∧ _) ∧ _ ∧ _ ∧ _))

/-- The text of 14 bytes on its way, between a client and a server that can be reached. -/
theorem exists_passage (L : ℕ)
    (hclient : (Client.lts.exec {} (Client.withText (grabbing L))).map (fun c =>
      decide (c.Due .clipboard Client.copiedText ∧ c.maximumClipboardSize = L)) = some true)
    (hserver : (Server.run {} (limited L) ⟨"p", true⟩ ⟨0, 0, 100, 100, 50, 50⟩ false
      receiving).map (fun s => decide (Given L s)) = some true) :
    ∃ p : Passage 14 L, Client.lts.Reachable p.client ∧ Server.lts.Reachable p.receiving := by
  obtain ⟨c, hc, hfields⟩ := Option.map_eq_some_iff.1 hclient
  obtain ⟨hdue, hlimit⟩ := of_decide_eq_true hfields
  obtain ⟨s, hs, hgiven⟩ := Option.map_eq_some_iff.1 hserver
  obtain ⟨⟨hseq, hget, hnew, hlimit'⟩, hdirty, hstored, hlimit''⟩ := of_decide_eq_true hgiven
  obtain ⟨received, hget, hmarshall⟩ := Option.map_eq_some_iff.1 hget
  have hsize : Client.copiedText.marshall.length = 14 := by decide
  refine ⟨{
    client := c
    screen := Client.textScreen
    id := .clipboard
    content := Client.copiedText
    held := rfl
    due := hdue
    content_size := hsize
    client_limit := hlimit
    receiving := s
    env := {}
    sender := 2
    seqNum := 0
    received := received
    accepted := ⟨hseq.le, hget⟩
    new := by rwa [hmarshall]
    received_size := by rw [hmarshall, hsize]
    receiving_limit := hlimit'
    switching := entering s
    dirty := hdirty
    stored_size := hstored
    switching_limit := hlimit'' }, .of_exec rfl hc, Server.reachable_of_run hs⟩

/-- Sharing is switched off before the clipboard that was grabbed is sent, and on again after the
leave. -/
def leftWhileOff : List Client.Event :=
  Client.connecting ++
    [.enter, .clipboardGrabbed .clipboard, .setOptions [OptionID.clipboardSharing.code, 0]]

/-- Sharing is switched on again, and the screen is entered. -/
def onAgain : List Client.Event := [.setOptions [OptionID.clipboardSharing.code, 1], .enter]

/-- With a limit of 20 bytes the two ends agree on the text, and a client that was left while
sharing was off sends it at the next leave. -/
theorem agree_and_kept_iff_text : (∃ p : Passage 14 20, p.Agree) ∧
    ∃ c : Client, c.SentAtLeave Client.textScreen .clipboard Client.copiedText := by
  obtain ⟨p, -, -⟩ := exists_passage 20 (by decide +kernel) (by decide +kernel)
  have hrun : ∃ c c' c'', Client.lts.exec {} (Client.withText leftWhileOff) = some c ∧
      c.step Client.textScreen .leave = some c' ∧
      Client.lts.exec c' (Client.withText onAgain) = some c'' ∧
      Client.Skip.leaveOff.Happens c .clipboard Client.copiedText ∧
      Client.lts.Admits (fun c l => c.Quiet .clipboard l) c' (Client.withText onAgain) ∧
      c''.phase = .ready ∧ c''.Shares Client.textScreen .clipboard Client.copiedText := by
    refine ⟨_, _, _, rfl, rfl, rfl, ?_, ?_, rfl, ?_⟩
    · exact ⟨rfl, rfl, by decide⟩
    · exact ⟨trivial, trivial, trivial⟩
    · exact ⟨rfl, rfl, by decide⟩
  obtain ⟨c, c', c'', -, hst, he, hskip, hquiet, hready, hshares⟩ := hrun
  obtain ⟨hagree, hsent⟩ := agree_and_kept_iff p .leaveOff hskip rfl hst hquiet he hready hshares
  exact ⟨⟨p, hagree.2 (by decide)⟩, c'', hsent.2 trivial⟩

/-- The limit is 14 bytes. -/
def limit14 : List Client.Event :=
  Client.connecting ++ [.setOptions [OptionID.clipboardSharingSize.code, 14]]

/-- The limit is raised, and the screen is entered. -/
def raised : List Client.Event :=
  [.setOptions [OptionID.clipboardSharingSize.code, 100], .enter]

/-- The client does not send a text of 14 bytes although the server would take it, and when the
limit is raised the text that it skipped is not sent: its time was noted. -/
theorem not_agree_and_not_kept :
    (¬ ∀ (n L : ℕ) (p : Passage n L), Client.lts.Reachable p.client →
      Server.lts.Reachable p.receiving → p.Agree) ∧
    ¬ ∀ (k : Client.Skip) (c c' c'' : Client) (screen screen' : ScreenClipboards)
      (id : ClipboardID) (content : Clipboard) (ls : List (ScreenClipboards × Client.Event)),
      Client.lts.Reachable c → k.Happens c id content → screen id = some content →
      c.step screen (k.event id) = some c' →
      Client.lts.Admits (fun c l => c.Quiet id l) c' ls → Client.lts.exec c' ls = some c'' →
      c''.phase = .ready → c''.Shares screen' id content → c''.SentAtLeave screen' id content := by
  refine ⟨fun h => ?_, fun h => ?_⟩
  · obtain ⟨p, hclient, hserver⟩ := exists_passage 14 (by decide +kernel) (by decide +kernel)
    exact (agree_iff p).1 (h 14 14 p hclient hserver) rfl
  · have hrun : ∃ c c' c'', Client.lts.exec {} (Client.withText limit14) = some c ∧
        c.step Client.textScreen (.clipboardGrabbed .clipboard) = some c' ∧
        Client.lts.exec c' (Client.withText raised) = some c'' ∧
        Client.Skip.grabOverLimit.Happens c .clipboard Client.copiedText ∧
        Client.lts.Admits (fun c l => c.Quiet .clipboard l) c' (Client.withText raised) ∧
        c''.phase = .ready ∧ c''.Shares Client.textScreen .clipboard Client.copiedText := by
      refine ⟨_, _, _, rfl, rfl, rfl, ?_, ?_, rfl, ?_⟩
      · exact ⟨rfl, by decide, rfl, by decide⟩
      · exact ⟨trivial, trivial, trivial⟩
      · exact ⟨rfl, rfl, by decide⟩
    obtain ⟨c, c', c'', hc, hst, he, hskip, hquiet, hready, hshares⟩ := hrun
    have hsent := h .grabOverLimit c c' c'' _ _ _ _ _ (.of_exec rfl hc) hskip rfl hst hquiet he
      hready hshares
    have hkept : Client.copiedText.timeOwned = 0 :=
      (Client.sentAtLeave_iff_kept .grabOverLimit hskip rfl hst hquiet he hready hshares).1 hsent
    exact absurd hkept (by decide)

end SizeLimit

end InputLeap
