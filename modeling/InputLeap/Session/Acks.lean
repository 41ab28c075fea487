import InputLeap.Session.Order

/-!
# Acknowledged reports

The server acknowledges each report of the client's screen as it saves it.  As the messages of the
server stay in order, the acknowledgements that the client has handled tell it which report the
server had when it sent the next message.

## Main definitions

* `Session.marksOf` : what the server had saved at each of its calls, from the acknowledgements.
* `Session.Acked` : what is known about reports and acknowledgements.
* `Session.Settled` : all reports were acknowledged.

## Main results

* `Session.obeyed_current` : the moves that the client obeys are for the shape that it has reported
  last, if the screen gets another shape only when all reports were acknowledged.
* `Session.agreed_of_runs` : when all messages were handled, the ends agree.
-/

namespace InputLeap

namespace Session

open ClientConnection (Call)

/-- The first `n` reports, seen by the server. -/
def savedOf (reports : List Report) (n : ℕ) : Option Report :=
  ((reports.take n).getLast?).map Report.onWire

/-- The number of acknowledgements among the calls. -/
def acks (calls : List Call) : ℕ := calls.countP (· = .infoAck)

/-- What the server had saved at each of its calls, when it had made `n` acknowledgements before. -/
def marksOf (reports : List Report) : ℕ → List Call → List (Option Report)
  | _, [] => []
  | n, call :: calls =>
    savedOf reports (n + acks [call]) :: marksOf reports (n + acks [call]) calls

variable {s s' : Session} {e : Ends}

/-- The reports that the server has handled. -/
def saves (s : Session) : List Report := (s.up.take s.read).filterMap Report.ofCall?

/-- The acknowledgements that the client has handled. -/
def heardAcks (s : Session) : ℕ := acks (s.down.take s.heard)

/-- All reports were acknowledged. -/
def Settled (s : Session) : Prop := s.heardAcks = s.reports.length

instance (s : Session) : Decidable s.Settled := inferInstanceAs (Decidable (_ = _))

/-! ### Acknowledgements and marks -/

@[simp] theorem acks_append (cs ds : List Call) : acks (cs ++ ds) = acks cs + acks ds :=
  List.countP_append

theorem acks_cons (c : Call) (cs : List Call) : acks (c :: cs) = acks [c] + acks cs :=
  acks_append [c] cs

theorem marksOf_append (reports : List Report) (n : ℕ) (cs ds : List Call) :
    marksOf reports n (cs ++ ds) = marksOf reports n cs ++ marksOf reports (n + acks cs) ds := by
  induction cs generalizing n with
  | nil => rfl
  | cons c cs ih => rw [List.cons_append, marksOf, marksOf, ih, acks_cons c cs, Nat.add_assoc]; rfl

/-- Reports that come later do not change the marks. -/
theorem marksOf_later {reports : List Report} {n : ℕ} {cs : List Call} (later : List Report)
    (h : n + acks cs ≤ reports.length) :
    marksOf (reports ++ later) n cs = marksOf reports n cs := by
  induction cs generalizing n with
  | nil => rfl
  | cons c cs ih =>
    rw [acks_cons] at h
    rw [marksOf, marksOf, ih (by omega), savedOf, savedOf, List.take_append_of_le_length (by omega)]

theorem getElem?_marksOf (reports : List Report) (n : ℕ) (cs : List Call) (i : ℕ) :
    (marksOf reports n cs)[i]? =
      (cs[i]?).map fun _ => savedOf reports (n + acks (cs.take (i + 1))) := by
  induction cs generalizing n i with
  | nil => rfl
  | cons c cs ih =>
    cases i with
    | zero => rfl
    | succ i =>
      rw [marksOf, List.getElem?_cons_succ, List.getElem?_cons_succ, ih, List.take_succ_cons,
        acks_cons c (cs.take (i + 1)), Nat.add_assoc]

theorem acks_take_le (cs : List Call) (n : ℕ) : acks (cs.take n) ≤ acks cs :=
  (List.take_sublist n cs).countP_le

theorem acks_take_succ {cs : List Call} {i : ℕ} {c : Call} (h : cs[i]? = some c) :
    acks (cs.take (i + 1)) = acks (cs.take i) + acks [c] := by
  rw [List.take_add_one, h, Option.toList_some, acks_append]

/-- What is known about reports and acknowledgements: the server acknowledges each report as it
saves it, and moves of the mouse come after the first one. -/
structure Acked (s : Session) : Prop where
  readLe : s.read ≤ s.up.length
  heardLe : s.heard ≤ s.down.length
  count : acks s.down = s.saves.length
  saved : s.ends.saved = savedOf s.reports s.saves.length
  marks : s.marks = marksOf s.reports 0 s.down
  stage : s.ends.stage ≠ .unknown ↔ s.saves ≠ []
  query : ∀ i, s.down[i]? = some .queryInfo → i = 0
  moves : ∀ i x y, s.down[i]? = some (.mouseMove x y) → 0 < acks (s.down.take i)

theorem saves_isPrefix (s : Session) : s.saves <+: s.reports := by
  rw [saves, reports]
  nth_rewrite 2 [← List.take_append_drop s.read s.up]
  rw [List.filterMap_append]
  exact List.prefix_append _ _

theorem saves_le (s : Session) : s.saves.length ≤ s.reports.length := s.saves_isPrefix.length_le

theorem savedOf_append {reports : List Report} {n : ℕ} (later : List Report)
    (h : n ≤ reports.length) : savedOf (reports ++ later) n = savedOf reports n := by
  rw [savedOf, savedOf, List.take_append_of_le_length h]

theorem marksOf_of_acks_eq_zero {reports : List Report} {n : ℕ} {cs : List Call}
    (h : acks cs = 0) : marksOf reports n cs = cs.map fun _ => savedOf reports n := by
  induction cs with
  | nil => rfl
  | cons c cs ih =>
    rw [acks_cons] at h
    have hc : acks [c] = 0 := by omega
    rw [marksOf, hc, Nat.add_zero, ih (by omega), List.map_cons]

theorem acked_start (screen : Report) : Acked (start screen) where
  readLe := Nat.le_refl _
  heardLe := Nat.zero_le _
  count := rfl
  saved := rfl
  marks := rfl
  stage := ⟨fun hne => absurd rfl hne, fun hne => absurd rfl hne⟩
  query i h := by
    cases i with
    | zero => rfl
    | succ i => simp [start] at h
  moves i x y h := by cases i <;> simp [start] at h

/-- Calls of the server other than acknowledgements. -/
theorem Acked.writes {e' : Ends} {calls : List Call} (h : Acked s)
    (hsaved : e'.saved = s.ends.saved) (hstage : e'.stage ≠ .unknown ↔ s.saves ≠ [])
    (hacks : acks calls = 0) (hquery : .queryInfo ∉ calls)
    (hmoves : calls ≠ [] → s.saves ≠ []) : Acked (s.writes e' calls) where
  readLe := h.readLe
  heardLe := h.heardLe.trans (by simp [Session.writes])
  count := by
    show acks (s.down ++ calls) = s.saves.length
    rw [acks_append, hacks, Nat.add_zero, h.count]
  saved := hsaved.trans h.saved
  marks := by
    show s.marks ++ calls.map (fun _ => e'.saved) = marksOf s.reports 0 (s.down ++ calls)
    rw [marksOf_append, ← h.marks, marksOf_of_acks_eq_zero hacks, hsaved, h.saved, Nat.zero_add,
      h.count]
  stage := hstage
  query i hi := by
    rcases Nat.lt_or_ge i s.down.length with hlt | hge
    · have hget : (s.down ++ calls)[i]? = s.down[i]? := List.getElem?_append_left hlt
      exact h.query i (hget ▸ hi)
    · exact absurd (List.mem_of_getElem? ((List.getElem?_append_right hge).symm.trans hi)) hquery
  moves i x y hi := by
    show 0 < acks ((s.down ++ calls).take i)
    rcases Nat.lt_or_ge i s.down.length with hlt | hge
    · rw [List.take_append_of_le_length hlt.le]
      have hget : (s.down ++ calls)[i]? = s.down[i]? := List.getElem?_append_left hlt
      exact h.moves i x y (hget ▸ hi)
    · have hmem := List.mem_of_getElem? ((List.getElem?_append_right hge).symm.trans hi)
      have hpos := List.length_pos_of_ne_nil (hmoves (List.ne_nil_of_mem hmem))
      rw [List.take_append, List.take_of_length_le hge, acks_append, h.count]
      omega

theorem acks_of_relays {call : Call} (h : relays call) :
    acks [call] = 0 ∧ call ≠ .queryInfo := by
  cases call with
  | queryInfo | infoAck | keepAlive | close msg => cases h
  | _ => exact ⟨rfl, by simp⟩

/-- The server acknowledges nothing of its own, and does not ask for the shape again. -/
theorem acks_of_serverActs {act : ServerAct} {calls : List Call} {e' : Ends}
    (h : e.serverActs act = some (e', calls)) :
    e' = { e with stage := e'.stage } ∧ acks calls = 0 ∧ .queryInfo ∉ calls := by
  cases act with
  | keepAlive =>
    simp only [Ends.serverActs] at h
    split_ifs at h
    cases h
    exact ⟨rfl, rfl, by simp⟩
  | refuse msg =>
    simp only [Ends.serverActs] at h
    split_ifs at h
    cases h
    exact ⟨rfl, rfl, by simp⟩
  | accept options saver =>
    simp only [Ends.serverActs] at h
    split_ifs at h
    cases h
    cases saver <;> exact ⟨rfl, rfl, by simp [welcome]⟩
  | relay call =>
    simp only [Ends.serverActs] at h
    split_ifs at h with hadopted
    cases h
    obtain ⟨hacks, hne⟩ := acks_of_relays hadopted.2
    exact ⟨rfl, hacks, by simpa using hne.symm⟩
  | close =>
    simp only [Ends.serverActs] at h
    split_ifs at h
    cases h
    exact ⟨rfl, rfl, by simp⟩

/-- Calls of the client. -/
theorem Acked.replies {calls : List ServerProxy.Call} (h : Acked s)
    (hsaved : e.saved = s.ends.saved) (hstage : e.stage = s.ends.stage) :
    Acked (s.replies e calls) := by
  have hreports : (s.replies e calls).reports = s.reports ++ calls.filterMap Report.ofCall? :=
    List.filterMap_append
  have hsaves : (s.replies e calls).saves = s.saves := by
    show ((s.up ++ calls).take s.read).filterMap Report.ofCall? = s.saves
    rw [List.take_append_of_le_length h.readLe]
    rfl
  exact
    { readLe := h.readLe.trans (by simp [Session.replies])
      heardLe := h.heardLe
      count := hsaves ▸ h.count
      saved := by
        rw [hsaves, hreports, savedOf_append _ s.saves_le]
        exact hsaved.trans h.saved
      marks := by
        rw [hreports]
        show s.marks = marksOf _ 0 s.down
        rw [marksOf_later _ (by rw [Nat.zero_add, h.count]; exact s.saves_le)]
        exact h.marks
      stage := by
        rw [hsaves]
        show e.stage ≠ .unknown ↔ _
        rw [hstage]
        exact h.stage
      query := h.query
      moves := h.moves }

/-- The server reads a report. -/
theorem saves_read {call : ServerProxy.Call} (hcall : s.up[s.read]? = some call) :
    saves { s with read := s.read + 1 } = s.saves ++ (Report.ofCall? call).toList := by
  show ((s.up.take (s.read + 1)).filterMap Report.ofCall?) = _
  rw [List.take_add_one, hcall, Option.toList_some, List.filterMap_append, saves]
  cases hreport : Report.ofCall? call <;> simp [hreport]

theorem onWire_call (r : Report) : ServerProxy.onWire r.call = r.onWire.call := by
  rw [Report.call, ServerProxy.onWire, Report.onWire]
  cases (ServerProxy.infoMessage r.x r.y r.w r.h r.mx r.my).stored <;> rfl

theorem Acked.serverHears {call : ServerProxy.Call} (h : Acked s)
    (hcall : s.up[s.read]? = some call) :
    Acked ({ s with read := s.read + 1 }.writes
      (s.ends.serverHears (ServerProxy.onWire call)).1
      (s.ends.serverHears (ServerProxy.onWire call)).2) := by
  have hlt : s.read < s.up.length := (List.getElem?_eq_some_iff.1 hcall).1
  have hread := saves_read hcall
  cases hreport : Report.ofCall? call with
  | none =>
    rw [hreport, Option.toList_none, List.append_nil] at hread
    have hother : s.ends.serverHears (ServerProxy.onWire call) = (s.ends, []) := by
      cases call with
      | sendInfo x y w h' mx my => cases hreport
      | _ => rfl
    have hsame : Acked { s with read := s.read + 1 } :=
      ⟨hlt, h.heardLe, hread ▸ h.count, hread ▸ h.saved, h.marks, hread ▸ h.stage, h.query, h.moves⟩
    rw [hother]
    exact hsame.writes rfl (hread ▸ h.stage) rfl (by simp) (by simp)
  | some r =>
    rw [hreport, Option.toList_some] at hread
    obtain rfl : call = r.call := by
      cases call with
      | sendInfo x y w h' mx my =>
        cases hreport
        rfl
      | _ => cases hreport
    rw [onWire_call]
    have hprefix : s.saves ++ [r] <+: s.reports :=
      hread ▸ saves_isPrefix { s with read := s.read + 1 }
    have htake : savedOf s.reports (s.saves.length + 1) = some r.onWire := by
      obtain ⟨later, hlater⟩ := hprefix
      rw [savedOf, ← hlater, List.take_append_of_le_length (by simp),
        List.take_of_length_le (by simp)]
      simp
    exact
      { readLe := hlt
        heardLe := by
          show s.heard ≤ (s.down ++ [Call.infoAck]).length
          rw [List.length_append]
          exact Nat.le_add_right_of_le h.heardLe
        count := by
          show acks (s.down ++ [Call.infoAck]) = (saves { s with read := s.read + 1 }).length
          rw [acks_append, h.count, hread, List.length_append]
          rfl
        saved := by
          show some r.onWire = savedOf s.reports (saves { s with read := s.read + 1 }).length
          rw [hread, List.length_append, List.length_singleton, htake]
        marks := by
          show s.marks ++ [some r.onWire] = marksOf s.reports 0 (s.down ++ [Call.infoAck])
          rw [marksOf_append, ← h.marks, Nat.zero_add, h.count]
          exact congrArg (fun m => s.marks ++ [m]) htake.symm
        stage := by
          refine iff_of_true ?_ ?_
          · show (if s.ends.stage = .unknown then Stage.ready else s.ends.stage) ≠ .unknown
            split_ifs with hstage
            · simp
            · exact hstage
          · show saves { s with read := s.read + 1 } ≠ []
            simp [hread]
        query := fun i hi => by
          rcases Nat.lt_or_ge i s.down.length with hlt | hge
          · have hget : (s.down ++ [Call.infoAck])[i]? = s.down[i]? :=
              List.getElem?_append_left hlt
            exact h.query i (hget ▸ hi)
          · have hmem : Call.queryInfo ∈ [Call.infoAck] :=
              List.mem_of_getElem? ((List.getElem?_append_right hge).symm.trans hi)
            simp at hmem
        moves := fun i x y hi => by
          show 0 < acks ((s.down ++ [Call.infoAck]).take i)
          rcases Nat.lt_or_ge i s.down.length with hlt | hge
          · rw [List.take_append_of_le_length hlt.le]
            have hget : (s.down ++ [Call.infoAck])[i]? = s.down[i]? :=
              List.getElem?_append_left hlt
            exact h.moves i x y (hget ▸ hi)
          · have hmem : Call.mouseMove x y ∈ [Call.infoAck] :=
              List.mem_of_getElem? ((List.getElem?_append_right hge).symm.trans hi)
            simp at hmem }

/-- The message that the client hears is not one of its own calls. -/
theorem saved_clientHears (e : Ends) (call : Call) :
    (e.clientHears call).1.saved = e.saved ∧ (e.clientHears call).1.stage = e.stage ∧
      (e.clientHears call).1.screen = e.screen := by
  cases call <;> exact ⟨rfl, rfl, rfl⟩

theorem saved_clientActs {act : ClientAct} {calls : List ServerProxy.Call} {e' : Ends}
    (h : e.clientActs act = some (e', calls)) : e'.saved = e.saved ∧ e'.stage = e.stage := by
  cases act with
  | moved mx my =>
    cases h
    exact ⟨rfl, rfl⟩
  | resized x y w h' =>
    cases h
    exact ⟨rfl, rfl⟩
  | shapeChanged | send call =>
    simp only [Ends.clientActs] at h
    split_ifs at h
    cases h
    exact ⟨rfl, rfl⟩

theorem Acked.step {ev : Event} (h : Acked s) (hadm : Admits s ev)
    (hst : step s ev = some s') : Acked s' := by
  cases ev with
  | server act =>
    obtain ⟨⟨e', calls⟩, hacts, rfl⟩ := Option.map_eq_some_iff.1 hst
    obtain ⟨hends, hacks, hquery⟩ := acks_of_serverActs hacts
    obtain ⟨-, hstage, hstage'⟩ := writes_of_serverActs hacts hadm
    have hsaves := h.stage.1 hstage
    exact h.writes (by rw [hends]) (iff_of_true hstage' hsaves) hacks hquery fun _ => hsaves
  | client act =>
    obtain ⟨⟨e', calls⟩, hacts, rfl⟩ := Option.map_eq_some_iff.1 hst
    obtain ⟨hsaved, hstage⟩ := saved_clientActs hacts
    exact h.replies hsaved hstage
  | serverHears =>
    obtain ⟨call, hcall, rfl⟩ := Option.map_eq_some_iff.1 hst
    exact h.serverHears hcall
  | clientHears =>
    simp only [Session.step] at hst
    split_ifs at hst
    obtain ⟨call, hcall, rfl⟩ := Option.map_eq_some_iff.1 hst
    have hheard : Acked { s with heard := s.heard + 1, obeyed := s.obeyed ++ s.obeys call } :=
      ⟨h.readLe, (List.getElem?_eq_some_iff.1 hcall).1, h.count, h.saved, h.marks, h.stage, h.query,
        h.moves⟩
    obtain ⟨hsaved, hstage, -⟩ := saved_clientHears s.ends (ClientConnection.onWire call)
    exact hheard.replies hsaved hstage

theorem acked_of_runs (hs : lts.ReachableVia Admits s) : Acked s := by
  refine hs.invariant (I := Acked) ?_ fun s ev s' h hadm hst => h.step hadm hst
  rintro _ ⟨screen, -, rfl⟩
  exact acked_start screen

/-! ### Moves of the mouse -/

/-- The screen gets another shape only when all reports were acknowledged. -/
def AdmitsSettled (s : Session) (ev : Event) : Prop :=
  Admits s ev ∧
    match ev with
    | .client (.resized ..) => s.Settled
    | _ => True

instance (s : Session) (ev : Event) : Decidable (AdmitsSettled s ev) :=
  match ev with
  | .client (.resized ..) => inferInstanceAs (Decidable (_ ∧ s.Settled))
  | .client (.moved ..) | .client .shapeChanged | .client (.send _) | .server _ | .serverHears
  | .clientHears => inferInstanceAs (Decidable (_ ∧ True))

/-- The server had the shape that the client has reported last. -/
def Current (p : Option Report × Option Report) : Prop :=
  ∃ r t, p = (some r, some t) ∧ t.SameShape r.onWire

/-- The reports that were not acknowledged are about the shape that the screen has, and so is the
last one that was, if the client obeys moves and waits for more acknowledgements. -/
structure Recent (s : Session) : Prop where
  pending : ∀ r ∈ s.reports.drop s.heardAcks, r.SameShape s.ends.screen
  last : s.ends.ignoring = false → s.heardAcks < s.reports.length →
    ∀ r ∈ (s.reports.take s.heardAcks).getLast?, r.SameShape s.ends.screen
  obeyed : ∀ p ∈ s.obeyed, Current p

/-- The client waits for an acknowledgement while it ignores moves. -/
def Owed (s : Session) : Prop := s.ends.ignoring = true → s.heardAcks < s.reports.length

theorem Report.SameShape.symm {r t : Report} (h : r.SameShape t) : t.SameShape r :=
  ⟨h.1.symm, h.2.1.symm, h.2.2.1.symm, h.2.2.2.symm⟩

theorem Report.SameShape.trans {r t u : Report} (h : r.SameShape t) (h' : t.SameShape u) :
    r.SameShape u :=
  ⟨h.1.trans h'.1, h.2.1.trans h'.2.1, h.2.2.1.trans h'.2.2.1, h.2.2.2.trans h'.2.2.2⟩

theorem stored_eq_some {m : InfoMessage} {info : ScreenInfo} (h : m.stored = some info) :
    info.x = m.x.toInt ∧ info.y = m.y.toInt ∧ info.w = m.w.toInt ∧ info.h = m.h.toInt := by
  by_cases hsize : m.w.toInt ≤ 0 ∨ m.h.toInt ≤ 0
  · rw [InfoMessage.stored, if_pos hsize] at h
    cases h
  · rw [InfoMessage.stored, if_neg hsize] at h
    cases h
    exact ⟨rfl, rfl, rfl, rfl⟩

/-- What the server saves of the shape does not depend on the cursor. -/
theorem Report.SameShape.onWire {r t : Report} (h : r.SameShape t) :
    r.onWire.SameShape t.onWire := by
  obtain ⟨x, y, w, h₀, mx, my⟩ := r
  obtain ⟨x', y', w', h', mx', my'⟩ := t
  obtain ⟨rfl, rfl, rfl, rfl⟩ := h
  have hr := ServerProxy.isSome_stored_iff (ServerProxy.infoMessage x y w h₀ mx my)
  have ht := ServerProxy.isSome_stored_iff (ServerProxy.infoMessage x y w h₀ mx' my')
  have hboth := hr.trans ht.symm
  simp only [Report.onWire]
  cases hs : (ServerProxy.infoMessage x y w h₀ mx my).stored with
  | none =>
    rw [hs] at hboth
    have hnone := Option.not_isSome_iff_eq_none.1 fun h => Bool.noConfusion (hboth.2 h)
    rw [hnone]
    exact ⟨rfl, rfl, rfl, rfl⟩
  | some info =>
    rw [hs] at hboth
    obtain ⟨info', hs'⟩ := Option.isSome_iff_exists.1 (hboth.1 rfl)
    obtain ⟨hx, hy, hw, hh⟩ := stored_eq_some hs
    obtain ⟨hx', hy', hw', hh'⟩ := stored_eq_some hs'
    rw [hs']
    refine ⟨?_, ?_, ?_, ?_⟩ <;> refine congrArg Int32.ofInt ?_
    · rw [hx, hx']; rfl
    · rw [hy, hy']; rfl
    · rw [hw, hw']; rfl
    · rw [hh, hh']; rfl

/-! ### What the client has heard -/

theorem Acked.heardAcks_le (h : Acked s) : s.heardAcks ≤ s.reports.length :=
  (acks_take_le s.down s.heard).trans (h.count ▸ s.saves_le)

theorem Acked.heardAcks_writes (h : Acked s) (calls : List Call) :
    (s.writes e calls).heardAcks = s.heardAcks :=
  congrArg acks (List.take_append_of_le_length h.heardLe)

theorem reports_replies (calls : List ServerProxy.Call) :
    (s.replies e calls).reports = s.reports ++ calls.filterMap Report.ofCall? :=
  List.filterMap_append

theorem heardAcks_hears {call : Call} (hcall : s.down[s.heard]? = some call) :
    acks (s.down.take (s.heard + 1)) = s.heardAcks + acks [call] :=
  acks_take_succ hcall

/-- The move that the client obeys was sent when the server had the report that was acknowledged
last. -/
theorem Acked.obeys (h : Acked s) {call : Call} (hcall : s.down[s.heard]? = some call)
    {p : Option Report × Option Report} (hp : p ∈ s.obeys call) :
    s.ends.ignoring = false ∧
      ∃ r₀, (s.reports.take s.heardAcks).getLast? = some r₀ ∧
        p = (s.reports.getLast?, some r₀.onWire) := by
  cases call with
  | mouseMove x y =>
    simp only [Session.obeys] at hp
    split_ifs at hp with hignoring
    · cases hp
    · obtain rfl := List.mem_singleton.1 hp
      have hpos : 0 < s.heardAcks := h.moves _ x y hcall
      have hmark : s.marks[s.heard]? = some (savedOf s.reports s.heardAcks) := by
        rw [h.marks, getElem?_marksOf, hcall, Option.map_some, Nat.zero_add,
          heardAcks_hears hcall]
        rfl
      have hne : s.reports.take s.heardAcks ≠ [] := by
        have hle := h.heardAcks_le
        rw [Ne, List.take_eq_nil_iff, not_or]
        refine ⟨by omega, fun hnil => ?_⟩
        rw [hnil, List.length_nil] at hle
        omega
      obtain ⟨r₀, hr₀⟩ := Option.isSome_iff_exists.1 (List.getLast?_isSome.2 hne)
      refine ⟨Bool.eq_false_iff.2 hignoring, r₀, hr₀, ?_⟩
      rw [hmark, Option.join_some, savedOf, hr₀, Option.map_some]
  | _ => cases hp

/-! ### Runs with settled changes of the shape -/

/-- The steps that change neither reports nor what the client has heard. -/
theorem Recent.congr (h : Recent s) (hreports : s'.reports = s.reports)
    (hacks : s'.heardAcks = s.heardAcks) (hscreen : s.ends.screen.SameShape s'.ends.screen)
    (hignoring : s'.ends.ignoring = s.ends.ignoring) (hobeyed : s'.obeyed = s.obeyed) :
    Recent s' where
  pending r hr := (h.pending r (by rwa [← hreports, ← hacks])).trans hscreen
  last hobeys hlt r hr := by
    rw [hreports, hacks] at *
    exact (h.last (hignoring ▸ hobeys) hlt r hr).trans hscreen
  obeyed := hobeyed ▸ h.obeyed

theorem Report.SameShape.refl (r : Report) : r.SameShape r := ⟨rfl, rfl, rfl, rfl⟩

/-- The client obeys a move for the shape that it has reported last. -/
theorem Recent.current (h : Recent s) (hacked : Acked s) {call : Call}
    (hcall : s.down[s.heard]? = some call) {p : Option Report × Option Report}
    (hp : p ∈ s.obeys call) : Current p := by
  obtain ⟨hignoring, r₀, hr₀, rfl⟩ := hacked.obeys hcall hp
  obtain hlt | heq := Nat.lt_or_eq_of_le hacked.heardAcks_le
  · have hne : s.reports.drop s.heardAcks ≠ [] := by
      rw [Ne, List.drop_eq_nil_iff]
      omega
    obtain ⟨r, hr⟩ := Option.isSome_iff_exists.1 (List.getLast?_isSome.2 hne)
    have hlast : s.reports.getLast? = some r := by
      rw [← List.take_append_drop s.heardAcks s.reports, List.getLast?_append, hr]
      rfl
    have hsame := (h.last hignoring hlt r₀ hr₀).trans
      (h.pending r (List.mem_of_getLast? hr)).symm
    exact ⟨r, r₀.onWire, by rw [hlast], hsame.onWire⟩
  · rw [heq, List.take_length] at hr₀
    exact ⟨r₀, r₀.onWire, by rw [hr₀], .refl _⟩

/-- The message that the client handles, and what becomes of the state. -/
theorem step_clientHears (hst : step s .clientHears = some s') :
    ∃ call, s.down[s.heard]? = some call ∧
      s'.ends = (s.ends.clientHears (ClientConnection.onWire call)).1 ∧
      s'.reports = s.reports ++
        (s.ends.clientHears (ClientConnection.onWire call)).2.filterMap Report.ofCall? ∧
      s'.heardAcks = s.heardAcks + acks [call] ∧ s'.obeyed = s.obeyed ++ s.obeys call := by
  simp only [Session.step] at hst
  split_ifs at hst
  obtain ⟨call, hcall, rfl⟩ := Option.map_eq_some_iff.1 hst
  exact ⟨call, hcall, rfl, reports_replies _, heardAcks_hears hcall, rfl⟩

/-- Messages other than the question for the shape and acknowledgements. -/
theorem clientHears_other (e : Ends) {call : Call} (hquery : call ≠ .queryInfo)
    (hack : call ≠ .infoAck) :
    (e.clientHears (ClientConnection.onWire call)).2.filterMap Report.ofCall? = [] ∧
      (e.clientHears (ClientConnection.onWire call)).1.ignoring = e.ignoring ∧
        acks [call] = 0 := by
  cases call with
  | queryInfo => exact absurd rfl hquery
  | infoAck => exact absurd rfl hack
  | _ => exact ⟨rfl, rfl, rfl⟩

theorem Recent.clientHears (h : Recent s) (hacked : Acked s)
    (hst : step s .clientHears = some s') : Recent s' := by
  obtain ⟨call, hcall, hends, hreports, hacks, hobeyed⟩ := step_clientHears hst
  obtain ⟨-, -, hscreen⟩ := saved_clientHears s.ends (ClientConnection.onWire call)
  rw [← hends] at hscreen
  have hcurrent : ∀ p ∈ s'.obeyed, Current p := fun p hp => by
    rw [hobeyed] at hp
    exact (List.mem_append.1 hp).elim (h.obeyed p) (h.current hacked hcall)
  have hpending := h.pending
  by_cases hquery : call = .queryInfo
  · -- nothing was acknowledged yet
    subst hquery
    have hzero : s.heardAcks = 0 := by
      rw [heardAcks, hacked.query _ hcall]
      rfl
    have hnone : s'.heardAcks = 0 := by
      rw [hacks, hzero]
      rfl
    rw [hzero, List.drop_zero] at hpending
    refine ⟨fun r hr => ?_, fun _ _ r hr => ?_, hcurrent⟩
    · rw [hscreen]
      rw [hnone, List.drop_zero, hreports] at hr
      rcases List.mem_append.1 hr with hmem | hmem
      · exact hpending r hmem
      · obtain rfl := List.mem_singleton.1 hmem
        exact .refl _
    · rw [hnone, List.take_zero] at hr
      cases hr
  · by_cases hack : call = .infoAck
    · subst hack
      have hnil : s'.reports = s.reports := hreports.trans (List.append_nil _)
      have hsucc : s'.heardAcks = s.heardAcks + 1 := hacks
      refine ⟨fun r hr => ?_, fun _ hlt r hr => ?_, hcurrent⟩
      · rw [hnil, hsucc, ← List.drop_drop] at hr
        exact hscreen ▸ hpending r (List.mem_of_mem_drop hr)
      · -- the report that is acknowledged now was the first of those that were not
        rw [hnil, hsucc] at hlt hr
        have hget := List.getElem?_eq_getElem (Nat.lt_of_succ_lt hlt)
        rw [List.take_add_one, hget, Option.toList_some, List.getLast?_concat] at hr
        obtain rfl := Option.some.inj hr
        exact hscreen ▸ hpending _ (List.mem_drop_iff_getElem.2 ⟨0, by omega, by simp⟩)
    · obtain ⟨hnone, hignoring, hplain⟩ := clientHears_other s.ends hquery hack
      rw [hnone, List.append_nil] at hreports
      rw [hplain, Nat.add_zero] at hacks
      have hsame : Recent { s' with obeyed := s.obeyed } := h.congr hreports hacks
        (hscreen ▸ .refl _) ((congrArg Ends.ignoring hends).trans hignoring) rfl
      exact ⟨hsame.pending, hsame.last, hcurrent⟩

theorem Recent.step {ev : Event} (h : Recent s) (hacked : Acked s) (hadm : AdmitsSettled s ev)
    (hst : step s ev = some s') : Recent s' := by
  cases ev with
  | server act =>
    obtain ⟨⟨e', calls⟩, hacts, rfl⟩ := Option.map_eq_some_iff.1 hst
    obtain ⟨hends, -, -⟩ := acks_of_serverActs hacts
    have hscreen : e'.screen = s.ends.screen := by rw [hends]
    have hignoring : e'.ignoring = s.ends.ignoring := by rw [hends]
    exact h.congr rfl (hacked.heardAcks_writes calls) (hscreen ▸ .refl _) hignoring rfl
  | client act =>
    obtain ⟨⟨e', calls⟩, hacts, rfl⟩ := Option.map_eq_some_iff.1 hst
    cases act with
    | moved mx my =>
      cases hacts
      exact h.congr (by simp [reports_replies]) rfl (.refl _) rfl rfl
    | resized x y w h' =>
      cases hacts
      have hsettled : s.heardAcks = s.reports.length := hadm.2
      refine ⟨fun r hr => ?_, fun _ hlt => ?_, h.obeyed⟩
      · rw [reports_replies, List.filterMap_nil, List.append_nil] at hr
        have hnil : s.reports.drop s.heardAcks = [] := by rw [hsettled, List.drop_length]
        exact absurd (hnil ▸ hr : r ∈ []) List.not_mem_nil
      · rw [reports_replies, List.filterMap_nil, List.append_nil] at hlt
        exact absurd (show s.heardAcks < s.reports.length from hlt) (by omega)
    | shapeChanged =>
      simp only [Ends.clientActs] at hacts
      split_ifs at hacts
      cases hacts
      refine ⟨fun r hr => ?_, fun hobeys => Bool.noConfusion hobeys, h.obeyed⟩
      rw [reports_replies] at hr
      have hmem : r ∈ s.reports.drop s.heardAcks ++ [s.ends.screen] :=
        List.drop_append_of_le_length hacked.heardAcks_le ▸ hr
      rcases List.mem_append.1 hmem with hmem | hmem
      · exact h.pending r hmem
      · obtain rfl := List.mem_singleton.1 hmem
        exact .refl _
    | send call =>
      simp only [Ends.clientActs] at hacts
      split_ifs at hacts with hopen
      cases hacts
      have hnone : Report.ofCall? call = none := by
        cases call with
        | sendInfo x y w h' mx my => cases hopen.2
        | _ => rfl
      exact h.congr (by simp [reports_replies, hnone]) rfl (.refl _) rfl rfl
  | serverHears =>
    obtain ⟨call, hcall, rfl⟩ := Option.map_eq_some_iff.1 hst
    have hsame : (s.ends.serverHears (ServerProxy.onWire call)).1.screen = s.ends.screen ∧
        (s.ends.serverHears (ServerProxy.onWire call)).1.ignoring = s.ends.ignoring := by
      cases ServerProxy.onWire call <;> exact ⟨rfl, rfl⟩
    exact h.congr rfl (congrArg acks (List.take_append_of_le_length hacked.heardLe))
      (hsame.1 ▸ .refl _) hsame.2 rfl
  | clientHears => exact h.clientHears hacked hst

theorem recent_start (screen : Report) : Recent (start screen) where
  pending r hr := by cases hr
  last _ hlt := absurd hlt (Nat.not_lt_zero _)
  obeyed p hp := by cases hp

theorem recent_of_runs (hs : lts.ReachableVia AdmitsSettled s) : Recent s := by
  have hboth : Acked s ∧ Recent s := by
    refine hs.invariant (I := fun s => Acked s ∧ Recent s) ?_ ?_
    · rintro _ ⟨screen, -, rfl⟩
      exact ⟨acked_start screen, recent_start screen⟩
    · rintro s ev s' ⟨hacked, h⟩ hadm hst
      exact ⟨hacked.step hadm.1 hst, h.step hacked hadm hst⟩
  exact hboth.2

/-- **The moves that the client obeys** were sent when the server had the shape that the client has
reported last, if the screen gets another shape only when all reports were acknowledged. -/
theorem obeyed_current (hs : lts.ReachableVia AdmitsSettled s) : ∀ p ∈ s.obeyed, Current p :=
  (recent_of_runs hs).obeyed

/-! ### How far the client has come -/

/-- The client has disconnected exactly if it has handled a message that says so. -/
def Live (s : Session) : Prop :=
  s.ends.disconnected = true ↔
    ClientConnection.dialect.after .handshake (s.down.take s.heard) = none

/-- A message that ends the connection of the client is one that it disconnects at. -/
theorem over_clientHears {q : Parser} {call : Call} {v : Verdict} (e : Ends)
    (h : ClientConnection.verdict q call = some v) (hv : v ≠ .unknown) :
    (e.clientHears (ClientConnection.onWire call)).1.disconnected =
      (match v with
        | .okay _ => e.disconnected
        | _ => true) := by
  cases call with
  | close msg =>
    cases q with
    | handshake =>
      cases h
      rfl
    | message =>
      cases msg with
      | close =>
        cases h
        rfl
      | unknown | busy => cases h
  | _ =>
    cases q with
    | handshake =>
      first
      | cases h; done
      | (cases h; rfl)
    | message =>
      cases h
      rfl

theorem Live.step {ev : Event} (h : Live s) (hordered : Ordered s) (hacked : Acked s)
    (hst : step s ev = some s') : Live s' := by
  cases ev with
  | server act =>
    obtain ⟨⟨e', calls⟩, hacts, rfl⟩ := Option.map_eq_some_iff.1 hst
    obtain ⟨hends, -, -⟩ := acks_of_serverActs hacts
    have hover : e'.disconnected = s.ends.disconnected := by rw [hends]
    have htake : (s.down ++ calls).take s.heard = s.down.take s.heard :=
      List.take_append_of_le_length hacked.heardLe
    show e'.disconnected = true ↔ ClientConnection.dialect.after .handshake _ = none
    rw [hover]
    exact htake ▸ h
  | client act =>
    obtain ⟨⟨e', calls⟩, hacts, rfl⟩ := Option.map_eq_some_iff.1 hst
    have hover : e'.disconnected = s.ends.disconnected := by
      cases act with
      | moved mx my | resized x y w h' =>
        cases hacts
        rfl
      | shapeChanged | send call =>
        simp only [Ends.clientActs] at hacts
        split_ifs at hacts
        cases hacts
        rfl
    show e'.disconnected = true ↔ _
    rw [hover]
    exact h
  | serverHears =>
    obtain ⟨call, -, rfl⟩ := Option.map_eq_some_iff.1 hst
    have hover : (s.ends.serverHears (ServerProxy.onWire call)).1.disconnected =
        s.ends.disconnected := by
      cases ServerProxy.onWire call <;> rfl
    have htake : (s.down ++ (s.ends.serverHears (ServerProxy.onWire call)).2).take s.heard =
        s.down.take s.heard := List.take_append_of_le_length hacked.heardLe
    show (s.ends.serverHears (ServerProxy.onWire call)).1.disconnected = true ↔
      ClientConnection.dialect.after .handshake _ = none
    rw [hover]
    exact htake ▸ h
  | clientHears =>
    simp only [Session.step] at hst
    split_ifs at hst with hopen
    obtain ⟨call, hcall, rfl⟩ := Option.map_eq_some_iff.1 hst
    obtain ⟨p, hp⟩ := Option.ne_none_iff_exists'.1 fun hnone => hopen (h.2 hnone)
    have htake : s.down.take (s.heard + 1) = s.down.take s.heard ++ [call] := by
      rw [List.take_add_one, hcall, Option.toList_some]
    -- the other end expects the call
    have hfollows :
        ClientConnection.dialect.Follows .handshake (s.down.take s.heard ++ [call]) := by
      rw [← htake]
      have hall := hordered.down
      rw [← List.take_append_drop (s.heard + 1) s.down] at hall
      exact hall.of_append
    have hone := ((Dialect.follows_append _ _).1 hfollows).2 p hp
    show _ = true ↔ ClientConnection.dialect.after .handshake (s.down.take (s.heard + 1)) = none
    rw [htake, Dialect.after_append, hp, Option.bind_some]
    simp only [Dialect.Follows] at hone
    simp only [Dialect.after]
    cases hverdict : ClientConnection.dialect.verdict p call with
    | none => simp [hverdict] at hone
    | some v =>
      have hv : v ≠ .unknown := by
        rintro rfl
        simp [hverdict] at hone
      show (s.ends.clientHears (ClientConnection.onWire call)).1.disconnected = true ↔ _
      rw [over_clientHears s.ends hverdict hv]
      cases v with
      | unknown => exact absurd rfl hv
      | okay next => simp [hopen]
      | disconnect => simp

theorem live_of_runs (hs : lts.ReachableVia Admits s) : Live s := by
  have hall : Ordered s ∧ Acked s ∧ Live s := by
    refine hs.invariant (I := fun s => Ordered s ∧ Acked s ∧ Live s) ?_ ?_
    · rintro _ ⟨screen, hvalid, rfl⟩
      refine ⟨ordered_start hvalid, acked_start screen, ?_⟩
      simp [Live, start, Dialect.after]
    · rintro s ev s' ⟨hordered, hacked, h⟩ hadm hst
      exact ⟨hordered.step hadm hst, hacked.step hadm hst, h.step hordered hacked hst⟩
  exact hall.2.2

/-! ### When all messages were handled -/

theorem Owed.step {ev : Event} (h : Owed s) (hacked : Acked s) (hst : step s ev = some s') :
    Owed s' := by
  cases ev with
  | server act =>
    obtain ⟨⟨e', calls⟩, hacts, rfl⟩ := Option.map_eq_some_iff.1 hst
    obtain ⟨hends, -, -⟩ := acks_of_serverActs hacts
    intro hignoring
    rw [hacked.heardAcks_writes]
    refine h ?_
    have hsame : e'.ignoring = s.ends.ignoring := by rw [hends]
    exact hsame ▸ hignoring
  | client act =>
    obtain ⟨⟨e', calls⟩, hacts, rfl⟩ := Option.map_eq_some_iff.1 hst
    intro hignoring
    rw [reports_replies, List.length_append]
    cases act with
    | moved mx my | resized x y w h' =>
      cases hacts
      exact Nat.lt_add_right _ (h hignoring)
    | shapeChanged =>
      simp only [Ends.clientActs] at hacts
      split_ifs at hacts
      cases hacts
      exact Nat.lt_succ_of_le hacked.heardAcks_le
    | send call =>
      simp only [Ends.clientActs] at hacts
      split_ifs at hacts
      cases hacts
      exact Nat.lt_add_right _ (h hignoring)
  | serverHears =>
    obtain ⟨call, hcall, rfl⟩ := Option.map_eq_some_iff.1 hst
    intro hignoring
    have hacks : acks ((s.down ++ (s.ends.serverHears (ServerProxy.onWire call)).2).take s.heard) =
        s.heardAcks := congrArg acks (List.take_append_of_le_length hacked.heardLe)
    have hsame : (s.ends.serverHears (ServerProxy.onWire call)).1.ignoring = s.ends.ignoring := by
      cases ServerProxy.onWire call <;> rfl
    exact hacks.trans_lt (h (hsame ▸ hignoring))
  | clientHears =>
    obtain ⟨call, -, hends, hreports, hacks, -⟩ := step_clientHears hst
    intro hignoring
    rw [hreports, hacks, List.length_append]
    by_cases hack : call = .infoAck
    · subst hack
      rw [hends] at hignoring
      cases hignoring
    · have hplain : acks [call] = 0 := by
        cases call with
        | infoAck => exact absurd rfl hack
        | _ => rfl
      have hsame : s'.ends.ignoring = s.ends.ignoring := by
        rw [hends]
        cases call with
        | infoAck => exact absurd rfl hack
        | _ => rfl
      rw [hplain, Nat.add_zero]
      exact Nat.lt_add_right _ (h (hsame ▸ hignoring))

theorem owed_of_runs (hs : lts.ReachableVia Admits s) : Owed s := by
  have hboth : Acked s ∧ Owed s := by
    refine hs.invariant (I := fun s => Acked s ∧ Owed s) ?_ ?_
    · rintro _ ⟨screen, -, rfl⟩
      exact ⟨acked_start screen, fun hignoring => by cases hignoring⟩
    · rintro s ev s' ⟨hacked, h⟩ hadm hst
      exact ⟨hacked.step hadm hst, h.step hacked hst⟩
  exact hboth.2

/-- The client has answered the question for its shape once it has handled it. -/
def Answered (s : Session) : Prop := s.down[0]? = some .queryInfo ∧ (0 < s.heard → s.reports ≠ [])

/-- The two ends agree: the server has the last report, the client obeys moves, and it has left the
handshake exactly if it was adopted. -/
structure Agreed (s : Session) : Prop where
  saved : ∃ r, s.reports.getLast? = some r ∧ s.ends.saved = some r.onWire
  obeys : s.ends.ignoring = false
  parser : ClientConnection.dialect.after .handshake (s.down.take s.heard) = s.ends.stage.parser
  stage : s.ends.stage ≠ .unknown

theorem Answered.step {ev : Event} (h : Answered s) (hst : step s ev = some s') : Answered s' := by
  obtain ⟨hfirst, hanswer⟩ := h
  have hlt : 0 < s.down.length := (List.getElem?_eq_some_iff.1 hfirst).1
  cases ev with
  | server act =>
    obtain ⟨⟨e', calls⟩, -, rfl⟩ := Option.map_eq_some_iff.1 hst
    exact ⟨(List.getElem?_append_left hlt).trans hfirst, hanswer⟩
  | client act =>
    obtain ⟨⟨e', calls⟩, -, rfl⟩ := Option.map_eq_some_iff.1 hst
    refine ⟨hfirst, fun hpos => ?_⟩
    rw [reports_replies]
    exact List.append_ne_nil_of_left_ne_nil (hanswer hpos) _
  | serverHears =>
    obtain ⟨call, -, rfl⟩ := Option.map_eq_some_iff.1 hst
    exact ⟨(List.getElem?_append_left hlt).trans hfirst, hanswer⟩
  | clientHears =>
    obtain ⟨call, hcall, -, hreports, -, -⟩ := step_clientHears hst
    have hdown : s'.down = s.down := by
      simp only [Session.step] at hst
      split_ifs at hst
      obtain ⟨call, -, rfl⟩ := Option.map_eq_some_iff.1 hst
      rfl
    refine ⟨hdown ▸ hfirst, fun _ => ?_⟩
    rw [hreports]
    rcases Nat.eq_zero_or_pos s.heard with hzero | hpos
    · rw [hzero, hfirst] at hcall
      obtain rfl := Option.some.inj hcall
      exact List.append_ne_nil_of_right_ne_nil _ (by
        simp [Ends.clientHears, ClientConnection.onWire, Report.call, Report.ofCall?])
    · exact List.append_ne_nil_of_left_ne_nil (hanswer hpos) _

theorem answered_of_runs (hs : lts.ReachableVia Admits s) : Answered s := by
  refine hs.invariant (I := Answered) ?_ fun s ev s' h _ hst => h.step hst
  rintro _ ⟨screen, -, rfl⟩
  exact ⟨rfl, fun hpos => absurd hpos (Nat.lt_irrefl _)⟩

/-- **When all messages were handled**, the ends agree. -/
theorem agreed_of_runs (hs : lts.ReachableVia Admits s) (hheard : s.heard = s.down.length)
    (hread : s.read = s.up.length) : Agreed s := by
  have hacked := acked_of_runs hs
  obtain ⟨hfirst, hanswer⟩ := answered_of_runs hs
  have hlt : 0 < s.down.length := (List.getElem?_eq_some_iff.1 hfirst).1
  have hsaves : s.saves = s.reports := by rw [saves, hread, List.take_length, reports]
  have hne : s.reports ≠ [] := hanswer (hheard ▸ hlt)
  obtain ⟨r, hr⟩ := Option.isSome_iff_exists.1 (List.getLast?_isSome.2 hne)
  have hacks : s.heardAcks = s.reports.length := by
    rw [heardAcks, hheard, List.take_length, hacked.count, hsaves]
  refine ⟨⟨r, hr, ?_⟩, ?_, ?_, ?_⟩
  · rw [hacked.saved, hsaves, savedOf, List.take_length, hr, Option.map_some]
  · by_contra hignoring
    have howed := owed_of_runs hs (Bool.of_not_eq_false hignoring)
    omega
  · rw [hheard, List.take_length]
    exact (ordered_of_runs hs).downAfter
  · exact hacked.stage.2 (hsaves ▸ hne)

end Session

end InputLeap
