import InputLeap.Session.Basic

/-!
# The order of messages in a session

Each end makes its calls only in a state in which the other end expects them: the server relays
nothing before the options that end the handshake of the client, and the client answers no
keep-alive before its first report.

## Main definitions

* `Session.Ordered` : what is known about the calls in every state of a run.

## Main results

* `Session.ordered_of_runs` : the calls of both ends follow the parsers of the other end.
-/

namespace InputLeap

/-- The calls that the other end expects are those that a parser has a verdict for. -/
theorem Dialect.follows_singleton {C : Type} {d : Dialect C} {q : Parser} {c : C} {v : Verdict}
    (h : d.verdict q c = some v) (hv : v ≠ .unknown) : d.Follows q [c] := by
  simp only [Dialect.Follows, h]
  cases v with
  | unknown => exact hv rfl
  | okay next => trivial
  | disconnect => trivial

namespace Session

/-- The parser that the client has in the end for the calls of the server. -/
def Stage.parser : Stage → Option Parser
  | .unknown | .ready => some .handshake
  | .adopted => some .message
  | .closed => none

/-- Each end makes calls that the other end expects. -/
structure Ordered (s : Session) : Prop where
  valid : s.ends.screen.Valid
  up : ServerProxy.dialect.Follows .handshake s.up
  upAfter : s.up ≠ [] → ServerProxy.dialect.after .handshake s.up = some .message
  upFit : ∀ call ∈ s.up, ServerProxy.Fit call
  down : ClientConnection.dialect.Follows .handshake s.down
  downAfter : ClientConnection.dialect.after .handshake s.down = s.ends.stage.parser
  downFit : ∀ call ∈ s.down, ClientConnection.Fit call
  started : s.ends.stage ≠ .unknown → s.up ≠ []
  pinged : .keepAlive ∈ s.down → s.up ≠ []

variable {s s' : Session} {e : Ends}

theorem ordered_start {screen : Report} (h : screen.Valid) : Ordered (start screen) where
  valid := h
  up := trivial
  upAfter hne := absurd rfl hne
  upFit := by simp [start]
  down := trivial
  downAfter := rfl
  downFit := by simp [start, ClientConnection.Fit]
  started hne := absurd rfl hne
  pinged := by simp [start]

/-! ### Calls of the server -/

/-- Calls that the client expects in the stage of the server. -/
structure Writes (e e' : Ends) (calls : List ClientConnection.Call) : Prop where
  screen : e'.screen = e.screen
  follows : ∀ p, e.stage.parser = some p → ClientConnection.dialect.Follows p calls
  after : (e.stage.parser.bind fun p => ClientConnection.dialect.after p calls) = e'.stage.parser
  fit : ∀ call ∈ calls, ClientConnection.Fit call

theorem Ordered.writes {e' : Ends} {calls : List ClientConnection.Call} (h : Ordered s)
    (hw : Writes s.ends e' calls) (hstarted : e'.stage ≠ .unknown → s.up ≠ [])
    (hpinged : .keepAlive ∈ calls → s.up ≠ []) : Ordered (s.writes e' calls) where
  valid := by
    show e'.screen.Valid
    rw [hw.screen]
    exact h.valid
  up := h.up
  upAfter := h.upAfter
  upFit := h.upFit
  down := (Dialect.follows_append _ _).2 ⟨h.down, fun p hp => hw.follows p (h.downAfter ▸ hp)⟩
  downAfter := by
    show ClientConnection.dialect.after .handshake (s.down ++ calls) = e'.stage.parser
    rw [Dialect.after_append, h.downAfter]
    exact hw.after
  downFit call hmem := (List.mem_append.1 hmem).elim (h.downFit call) (hw.fit call)
  started := hstarted
  pinged hmem := (List.mem_append.1 hmem).elim h.pinged hpinged

theorem writes_nil (e : Ends) : Writes e e [] where
  screen := rfl
  follows _ _ := trivial
  after := by cases e.stage.parser <;> rfl
  fit := by simp

/-- One call with a known verdict. -/
theorem writes_singleton {e' : Ends} {call : ClientConnection.Call}
    (hscreen : e'.screen = e.screen) (hfit : ClientConnection.Fit call)
    (h : ∀ p, e.stage.parser = some p → ∃ v, ClientConnection.verdict p call = some v ∧
      v ≠ .unknown ∧ e'.stage.parser = (match v with
        | .okay next => some next
        | _ => none))
    (hnone : e.stage.parser = none → e'.stage.parser = none) : Writes e e' [call] where
  screen := hscreen
  follows p hp := by
    obtain ⟨v, hv, hne, -⟩ := h p hp
    exact Dialect.follows_singleton hv hne
  after := by
    cases hparser : e.stage.parser with
    | none => exact (hnone hparser).symm
    | some p =>
      obtain ⟨v, hv, -, hnext⟩ := h p hparser
      have hd : ClientConnection.dialect.verdict p call = some v := hv
      simp only [Option.bind_some, Dialect.after, hd, hnext]
      cases v <;> rfl
  fit := by simpa using hfit

/-- A call that leaves the parser of the client as it is. -/
theorem writes_same {e' : Ends} {call : ClientConnection.Call} (hscreen : e'.screen = e.screen)
    (hstage : e'.stage.parser = e.stage.parser) (hfit : ClientConnection.Fit call)
    (h : ∀ p, e.stage.parser = some p → ClientConnection.verdict p call = some (.okay p)) :
    Writes e e' [call] :=
  writes_singleton hscreen hfit
    (fun p hp => ⟨.okay p, h p hp, by simp, hstage.trans hp⟩) hstage.trans

theorem verdict_relays {call : ClientConnection.Call} (h : relays call) :
    ClientConnection.verdict .message call = some (.okay .message) := by
  cases call with
  | queryInfo | infoAck | keepAlive | close msg => cases h
  | _ => rfl

theorem welcome_follows (options : List UInt32) (saver : Bool) :
    ClientConnection.dialect.Follows .handshake (welcome options saver) ∧
      ClientConnection.dialect.after .handshake (welcome options saver) = some .message := by
  cases saver <;> exact ⟨trivial, rfl⟩

/-- The server makes only calls that the client expects. -/
theorem writes_of_serverActs {act : ServerAct} {calls : List ClientConnection.Call} {e' : Ends}
    (h : e.serverActs act = some (e', calls)) (hadm : Admits s (.server act)) :
    Writes e e' calls ∧ e.stage ≠ .unknown ∧ e'.stage ≠ .unknown := by
  cases act with
  | keepAlive =>
    simp only [Ends.serverActs] at h
    split_ifs at h with hstage
    cases h
    refine ⟨writes_same rfl rfl trivial fun p _ => ?_, hstage, hstage⟩
    cases p <;> rfl
  | refuse msg =>
    simp only [Ends.serverActs] at h
    split_ifs at h with hready
    obtain ⟨hstage, hmsg⟩ := hready
    cases h
    refine ⟨writes_singleton rfl trivial (fun p hp => ⟨.disconnect, ?_, by simp, rfl⟩)
      fun _ => rfl, by simp [hstage], by simp⟩
    rw [hstage] at hp
    cases hp
    rfl
  | accept options saver =>
    simp only [Ends.serverActs] at h
    split_ifs at h with hstage
    cases h
    have hwelcome := welcome_follows options saver
    refine ⟨⟨rfl, fun p hp => ?_, ?_, ?_⟩, by simp [hstage], by simp⟩
    · rw [hstage] at hp
      cases hp
      exact hwelcome.1
    · rw [hstage]
      exact hwelcome.2
    · intro call hmem
      rcases List.mem_append.1 hmem with hmem | hmem
      · rcases List.mem_pair.1 hmem with rfl | rfl
        · trivial
        · exact hadm
      · split_ifs at hmem
        · obtain rfl := List.mem_singleton.1 hmem
          trivial
        · cases hmem
  | relay call =>
    simp only [Ends.serverActs] at h
    split_ifs at h with hadopted
    obtain ⟨hstage, hcall⟩ := hadopted
    cases h
    refine ⟨writes_same rfl rfl hadm fun p hp => ?_, by simp [hstage], by simp [hstage]⟩
    rw [hstage] at hp
    cases hp
    exact verdict_relays hcall
  | close =>
    simp only [Ends.serverActs] at h
    split_ifs at h with hstage
    cases h
    refine ⟨writes_singleton rfl trivial (fun p hp => ⟨.disconnect, ?_, by simp, rfl⟩)
      fun _ => rfl, by simp [hstage], by simp⟩
    cases p <;> rfl

/-! ### Calls of the client -/

/-- A call that the server expects now. -/
structure Replies (s : Session) (call : ServerProxy.Call) : Prop where
  fit : ServerProxy.Fit call
  message : ServerProxy.verdict .message call = some (.okay .message)
  first : s.up = [] → ServerProxy.verdict .handshake call = some (.okay .message)

theorem Ordered.replies_nil (h : Ordered s) (hstage : e.stage = s.ends.stage)
    (hvalid : e.screen.Valid) : Ordered (s.replies e []) where
  valid := hvalid
  up := by simpa [Session.replies] using h.up
  upAfter := by simpa [Session.replies] using h.upAfter
  upFit := by simpa [Session.replies] using h.upFit
  down := h.down
  downAfter := hstage ▸ h.downAfter
  downFit := h.downFit
  started := by simpa [Session.replies, hstage] using h.started
  pinged := by simpa [Session.replies] using h.pinged

theorem Ordered.replies_one {call : ServerProxy.Call} (h : Ordered s) (hr : Replies s call)
    (hstage : e.stage = s.ends.stage) (hvalid : e.screen.Valid) :
    Ordered (s.replies e [call]) := by
  have hverdict : ∃ q, ServerProxy.dialect.after .handshake s.up = some q ∧
      ServerProxy.dialect.verdict q call = some (.okay .message) := by
    by_cases hup : s.up = []
    · exact ⟨.handshake, by rw [hup]; rfl, hr.first hup⟩
    · exact ⟨.message, h.upAfter hup, hr.message⟩
  obtain ⟨q, hafter, hverdict⟩ := hverdict
  have hne : s.up ++ [call] ≠ [] := by simp
  exact
    { valid := hvalid
      up := by
        refine (Dialect.follows_append _ _).2 ⟨h.up, fun p hp => ?_⟩
        obtain rfl : p = q := Option.some.inj (hp.symm.trans hafter)
        exact Dialect.follows_singleton hverdict (by simp)
      upAfter := fun _ => by
        show ServerProxy.dialect.after .handshake (s.up ++ [call]) = some .message
        rw [Dialect.after_append, hafter, Option.bind_some]
        simp only [Dialect.after, hverdict]
      upFit := fun c hmem => (List.mem_append.1 hmem).elim (h.upFit c) fun hc => by
        obtain rfl := List.mem_singleton.1 hc
        exact hr.fit
      down := h.down
      downAfter := hstage ▸ h.downAfter
      downFit := h.downFit
      started := fun _ => hne
      pinged := fun _ => hne }

/-- The report of a valid screen is expected at any time. -/
theorem Report.Valid.replies {r : Report} (h : r.Valid) : Replies s r.call := by
  have hstored : (ServerProxy.infoMessage r.x r.y r.w r.h r.mx r.my).stored.isSome = true :=
    (ServerProxy.isSome_stored_iff _).2 h
  exact ⟨trivial, if_pos hstored, fun _ => if_pos hstored⟩

theorem Report.Valid.moved {r : Report} (h : r.Valid) (mx my : Int32) :
    Report.Valid { r with mx, my } := h

/-- The client expects what the server answers. -/
theorem writes_of_serverHears (e : Ends) (call : ServerProxy.Call) :
    Writes e (e.serverHears call).1 (e.serverHears call).2 := by
  cases call with
  | sendInfo x y w h mx my =>
    refine writes_same rfl ?_ trivial fun p _ => ?_
    · simp only [Ends.serverHears]
      split_ifs with hstage
      · rw [hstage]
        rfl
      · rfl
    · cases p <;> rfl
  | _ => exact writes_nil e

/-! ### Runs -/

/-- What is known about the calls does not depend on how many of them were handled. -/
theorem Ordered.handled (h : Ordered s) (hends : s'.ends = s.ends) (hup : s'.up = s.up)
    (hdown : s'.down = s.down) : Ordered s' where
  valid := hends ▸ h.valid
  up := hup ▸ h.up
  upAfter := hup ▸ h.upAfter
  upFit := hup ▸ h.upFit
  down := hdown ▸ h.down
  downAfter := by rw [hdown, hends, h.downAfter]
  downFit := hdown ▸ h.downFit
  started := by rw [hends, hup]; exact h.started
  pinged := by rw [hdown, hup]; exact h.pinged

theorem Ordered.step {ev : Event} (h : Ordered s) (hadm : Admits s ev)
    (hst : step s ev = some s') : Ordered s' := by
  cases ev with
  | server act =>
    obtain ⟨⟨e', calls⟩, hacts, rfl⟩ := Option.map_eq_some_iff.1 hst
    obtain ⟨hw, hstage, -⟩ := writes_of_serverActs hacts hadm
    exact h.writes hw (fun _ => h.started hstage) fun _ => h.started hstage
  | client act =>
    obtain ⟨⟨e', calls⟩, hacts, rfl⟩ := Option.map_eq_some_iff.1 hst
    cases act with
    | moved mx my =>
      cases hacts
      exact h.replies_nil rfl (h.valid.moved mx my)
    | resized x y w h' =>
      cases hacts
      exact h.replies_nil rfl hadm
    | shapeChanged =>
      simp only [Ends.clientActs] at hacts
      split_ifs at hacts
      cases hacts
      exact h.replies_one h.valid.replies rfl h.valid
    | send call =>
      simp only [Ends.clientActs] at hacts
      split_ifs at hacts
      cases hacts
      obtain ⟨hup, hfit, hverdict⟩ := hadm
      exact h.replies_one ⟨hfit, hverdict, fun hnil => absurd hnil hup⟩ rfl h.valid
  | serverHears =>
    obtain ⟨call, hcall, rfl⟩ := Option.map_eq_some_iff.1 hst
    have hup : s.up ≠ [] := by
      rintro hnil
      simp [hnil] at hcall
    have hread : Ordered { s with read := s.read + 1 } := h.handled rfl rfl rfl
    exact hread.writes (writes_of_serverHears s.ends _) (fun _ => hup) fun _ => hup
  | clientHears =>
    simp only [Session.step] at hst
    split_ifs at hst
    obtain ⟨call, hcall, rfl⟩ := Option.map_eq_some_iff.1 hst
    have hmem : call ∈ s.down := List.mem_of_getElem? hcall
    have hheard : Ordered
        { s with heard := s.heard + 1, obeyed := s.obeyed ++ s.obeys call } :=
      h.handled rfl rfl rfl
    cases call with
    | queryInfo => exact hheard.replies_one h.valid.replies rfl h.valid
    | keepAlive =>
      have hup := h.pinged hmem
      exact hheard.replies_one ⟨trivial, rfl, fun hnil => absurd hnil hup⟩ rfl h.valid
    | _ => exact hheard.replies_nil rfl h.valid

theorem ordered_of_runs (hs : lts.ReachableVia Admits s) : Ordered s := by
  refine hs.invariant (I := Ordered) ?_ fun s ev s' h hadm hst => h.step hadm hst
  rintro _ ⟨screen, hvalid, rfl⟩
  exact ordered_start hvalid

end Session

end InputLeap
