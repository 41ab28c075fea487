import InputLeap.Net.SecureSocket

/-!
# No data for a peer that was not verified

The connecting side marks the socket as ready before it compares the peer's fingerprint, and
leaves the mark when the fingerprint is not in the database.  Until the events of the
disconnection are handled, data is exchanged with that peer.

## Main definitions

* `SecureSocket.NeedsVerification` : the peer has to be verified.
* `SecureSocket.Pinned`, `SecureSocket.Silent` : the socket is ready, or has exchanged data, only
  after the fingerprint was found trusted.
* `SecureSocket.Checked` : the step completes no handshake with a peer that is not trusted.

## Main results

* `pinned_of_reachable` : in runs that complete no such handshake the socket is pinned, and the
  next step keeps it so exactly if it completes none either.
* `not_pinned_of_reachable` : not in all runs.
-/

namespace InputLeap

namespace SecureSocket

variable (s : SecureSocket)

/-- The peer has to be verified. -/
def NeedsVerification : Prop := s.server = false ∨ s.securityLevel = .encryptedAuthenticated

/-- If the socket is ready, the peer was verified if it has to be. -/
def Pinned : Prop := s.secureReady = true → s.NeedsVerification → s.trusted = true

/-- If application data was exchanged, the peer was verified if it has to be. -/
def Silent : Prop := s.calls ≠ [] → s.NeedsVerification → s.trusted = true

/-- The attempt completes the handshake. -/
def Completes (h : Handshake) : Prop := h.error = .none ∧ s.fatal = false

instance : Decidable s.NeedsVerification := inferInstanceAs (Decidable (_ ∨ _))

instance : Decidable s.Pinned := inferInstanceAs (Decidable (_ → _ → _))

instance (h : Handshake) : Decidable (s.Completes h) := inferInstanceAs (Decidable (_ ∧ _))

/-- If the connecting side completes the handshake with a peer that has to be verified, the
peer's fingerprint is in the database, or was before. -/
def Checked (s : SecureSocket) : Action → Prop
  | .service _ _ _ answers =>
    s.job.map SocketJob.kind = some .serviceConnect → s.Completes answers.handshake →
      s.NeedsVerification → s.trusted = true ∨ answers.handshake.isTrusted = true
  | _ => True

instance (s : SecureSocket) : ∀ a, Decidable (s.Checked a)
  | .service .. => inferInstanceAs (Decidable (_ → _ → _ → _))
  | .handleTcpConnected => .isTrue trivial
  | .startAccept => .isTrue trivial
  | .read _ => .isTrue trivial
  | .write _ => .isTrue trivial
  | .shutdownInput => .isTrue trivial
  | .shutdownOutput => .isTrue trivial
  | .close => .isTrue trivial

variable {s} {s' s'' : SecureSocket}

/-! ### Steps outside of the handshake -/

/-- Nothing is found out about the peer, the socket stays as ready as it was, keeps its job, and
exchanges no data if it is not ready. -/
structure Steady (s s' : SecureSocket) : Prop where
  server : s'.server = s.server
  securityLevel : s'.securityLevel = s.securityLevel
  secureReady : s'.secureReady = s.secureReady
  trusted : s'.trusted = s.trusted
  calls : s.secureReady = false → s'.calls = s.calls
  job : s'.job = s.job

namespace Steady

theorem refl (s : SecureSocket) : Steady s s := ⟨rfl, rfl, rfl, rfl, fun _ => rfl, rfl⟩

theorem trans (h : Steady s s') (h' : Steady s' s'') : Steady s s'' :=
  ⟨h'.server.trans h.server, h'.securityLevel.trans h.securityLevel,
    h'.secureReady.trans h.secureReady, h'.trusted.trans h.trusted,
    fun hready => (h'.calls (h.secureReady.trans hready)).trans (h.calls hready),
    h'.job.trans h.job⟩

theorem needsVerification (h : Steady s s') : s'.NeedsVerification ↔ s.NeedsVerification := by
  simp only [NeedsVerification, h.server, h.securityLevel]

theorem pinned_iff (h : Steady s s') : Pinned s' ↔ Pinned s := by
  unfold Pinned
  rw [h.needsVerification, h.secureReady, h.trusted]

theorem pinned (h : Steady s s') (hs : Pinned s) : Pinned s' := h.pinned_iff.2 hs

theorem silent (h : Steady s s') (hpinned : Pinned s) (hs : Silent s) : Silent s' := by
  intro hcalls hneeds
  rw [h.trusted]
  have hneeds := h.needsVerification.1 hneeds
  cases hready : s.secureReady with
  | true => exact hpinned hready hneeds
  | false => exact hs (h.calls hready ▸ hcalls) hneeds

end Steady

theorem steady_sendEvent (s : SecureSocket) (e : SocketEvent) : Steady s (s.sendEvent e) :=
  ⟨rfl, rfl, rfl, rfl, fun _ => rfl, rfl⟩

theorem steady_disconnect (s : SecureSocket) : Steady s s.disconnect :=
  ((steady_sendEvent s _).trans (steady_sendEvent _ _)).trans (steady_sendEvent _ _)

theorem steady_onConnected (s : SecureSocket) : Steady s s.onConnected :=
  ⟨rfl, rfl, rfl, rfl, fun _ => rfl, rfl⟩

theorem steady_onDisconnected (s : SecureSocket) : Steady s s.onDisconnected :=
  ⟨rfl, rfl, rfl, rfl, fun _ => rfl, rfl⟩

theorem steady_discardWrittenData (s : SecureSocket) (n : ℕ) :
    Steady s (s.discardWrittenData n) := by
  simp only [discardWrittenData]
  split_ifs <;> exact ⟨rfl, rfl, rfl, rfl, fun _ => rfl, rfl⟩

theorem steady_checkResult (s : SecureSocket) (error : SslError) (retry : ℕ) :
    Steady s (s.checkResult error retry).1 := by
  obtain ⟨t, hflag, hend⟩ := checkResult_cases s error retry
  have hset : Steady s t := by
    obtain rfl | rfl | rfl := hflag
    · exact .refl _
    · exact ⟨rfl, rfl, rfl, rfl, fun _ => rfl, rfl⟩
    · exact ⟨rfl, rfl, rfl, rfl, fun _ => rfl, rfl⟩
  obtain hend | hend := hend
  · exact hend ▸ hset
  · exact hend ▸ hset.trans (steady_disconnect t)

/-- The library is only asked for data while the socket is ready. -/
theorem steady_secureRead (hready : s.secureReady = true) (a : ReadAnswer) :
    Steady s (s.secureRead a).1 := by
  have hcall : Steady s (s.call .read) :=
    ⟨rfl, rfl, rfl, rfl, fun hnot => (by rw [hready] at hnot; cases hnot), rfl⟩
  have hcheck := hcall.trans (steady_checkResult (s.call .read) a.error s.secureReadRetry)
  simp only [secureRead]
  split_ifs
  all_goals first
    | exact .refl s
    | exact hcheck.trans ⟨rfl, rfl, rfl, rfl, fun _ => rfl, rfl⟩

theorem steady_secureWrite (hready : s.secureReady = true) (data : Bytes) (error : SslError)
    (wrote : ℕ) : Steady s (s.secureWrite data error wrote).1 := by
  have hcall : Steady s (s.call (.write data)) :=
    ⟨rfl, rfl, rfl, rfl, fun hnot => (by rw [hready] at hnot; cases hnot), rfl⟩
  have hcheck := hcall.trans (steady_checkResult (s.call (.write data)) error s.secureWriteRetry)
  simp only [secureWrite]
  split_ifs
  all_goals first
    | exact .refl s
    | exact hcheck.trans ⟨rfl, rfl, rfl, rfl, fun _ => rfl, rfl⟩

theorem steady_readLoop {bytes : Bytes} {answers : List ReadAnswer} {r : SecureSocket × Bool}
    (hready : s.secureReady = true) (h : s.readLoop bytes answers = some r) : Steady s r.1 := by
  have hslurp (s : SecureSocket) (bytes : Bytes) : Steady s (s.slurp bytes) :=
    ⟨rfl, rfl, rfl, rfl, fun _ => rfl, rfl⟩
  induction answers generalizing s bytes with
  | nil =>
    simp only [readLoop] at h
    split_ifs at h
    cases h
    exact hslurp s bytes
  | cons a answers ih =>
    have hread := (hslurp s bytes).trans (steady_secureRead (s := s.slurp bytes) hready a)
    simp only [readLoop] at h
    split_ifs at h
    · cases h
      exact hslurp s bytes
    · cases h
      exact hread
    · exact hread.trans (ih (hread.secureReady.trans hready) h)
    · cases h
      exact hread

theorem steady_doRead {answers : List ReadAnswer} {r : SecureSocket × JobResult}
    (h : s.doRead answers = some r) : Steady s r.1 := by
  cases hready : s.secureReady with
  | false =>
    simp only [doRead, hready, Bool.not_false, if_true] at h
    cases h
    exact .refl s
  | true =>
    cases answers with
    | nil => simp [doRead, hready] at h
    | cons a answers =>
      have hread := steady_secureRead hready a
      simp only [doRead, hready, Bool.not_true, Bool.false_eq_true, if_false] at h
      split at h
      · cases h
        exact hread
      · split at h
        · cases h
          exact hread
        · split at h
          · obtain ⟨⟨s₁, broken⟩, hloop, rfl⟩ := Option.map_eq_some_iff.1 h
            have hall := hread.trans (steady_readLoop (hread.secureReady.trans hready) hloop)
            dsimp only
            split_ifs
            · exact hall
            · exact hall.trans (steady_sendEvent _ _)
            · exact hall
          · cases h
            refine hread.trans ?_
            split_ifs <;> exact ⟨rfl, rfl, rfl, rfl, fun _ => rfl, rfl⟩

theorem steady_stage (s : SecureSocket) (n : ℕ) : Steady s (s.stage n) := by
  unfold stage
  split_ifs
  · exact .refl s
  · exact ⟨rfl, rfl, rfl, rfl, fun _ => rfl, rfl⟩

theorem steady_finishWrite (s : SecureSocket) (n : ℕ) (status : ℤ) (bytesWrote : ℕ) :
    Steady s (s.finishWrite n status bytesWrote).1 := by
  have hretry (b : Bool) (m : ℕ) :
      Steady s { s with doWriteRetry := b, doWriteRetrySize := m } :=
    ⟨rfl, rfl, rfl, rfl, fun _ => rfl, rfl⟩
  simp only [finishWrite]
  split_ifs
  · exact .refl s
  · exact hretry true n
  · exact (hretry false s.doWriteRetrySize).trans (steady_discardWrittenData _ _)
  · exact hretry false s.doWriteRetrySize

theorem steady_doWrite (s : SecureSocket) (error : SslError) (wrote : ℕ) :
    Steady s (s.doWrite error wrote).1 := by
  cases hready : s.secureReady with
  | false =>
    simp only [doWrite, hready, Bool.not_false, if_true]
    exact .refl s
  | true =>
    simp only [doWrite, hready, Bool.not_true, Bool.false_eq_true, if_false]
    generalize (if s.doWriteRetry = true then s.doWriteRetrySize else s.outputBuffer.size) = n
    split
    · exact .refl s
    · have hstage := steady_stage s n
      have hwrite := steady_secureWrite (hstage.secureReady.trans hready)
        ((s.stage n).doWriteRetryBuffer.take n) error wrote
      exact (hstage.trans hwrite).trans (steady_finishWrite _ n _ _)

theorem steady_serviceConnecting (s : SecureSocket) (write : Bool) (answers : Answers) :
    Steady s (s.serviceConnecting write answers).1 := by
  simp only [serviceConnecting]
  split_ifs
  · exact (steady_sendEvent s _).trans (steady_onDisconnected _)
  · exact (steady_sendEvent s _).trans (steady_onConnected _)
  · exact .refl s

theorem steady_readIf {read : Bool} {answers : List ReadAnswer} {r : SecureSocket × JobResult}
    (h : s.readIf read answers = some r) : Steady s r.1 := by
  unfold readIf at h
  split at h
  · exact steady_doRead h
  · cases h
    exact .refl s

theorem steady_serviceConnected {read write error : Bool} {answers : Answers}
    {r : SecureSocket × JobStatus} (h : s.serviceConnected read write error answers = some r) :
    Steady s r.1 := by
  simp only [serviceConnected] at h
  split at h
  · cases h
    exact (steady_sendEvent s _).trans (steady_onDisconnected _)
  · have hwrite : Steady s (if write = true then s.doWrite answers.writeError answers.wrote
        else (s, JobResult.retry)).1 := by
      split_ifs
      · exact steady_doWrite s _ _
      · exact .refl s
    obtain ⟨r₁, hread, rfl⟩ := Option.map_eq_some_iff.1 h
    exact hwrite.trans (steady_readIf hread)

/-! ### The handshake -/

/-- What an attempt of the connecting side does. -/
theorem secureConnect_spec (s : SecureSocket) (h : Handshake) :
    let s' := (s.secureConnect h).1
    (s'.server = s.server ∧ s'.securityLevel = s.securityLevel ∧ s'.calls = s.calls ∧
        s'.job = s.job) ∧
      (s.Completes h ∧ s'.secureReady = true ∧ s'.trusted = (s.trusted || h.isTrusted) ∨
        ¬s.Completes h ∧ (s'.secureReady = true → s.secureReady = true) ∧
          s'.trusted = s.trusted) := by
  cases hfatal : s.fatal <;> cases herror : h.error <;> cases htrusted : h.isTrusted
  all_goals simp [secureConnect, checkResult, verifyPeerCertificate, disconnect, sendEvent,
    Completes, hfatal, herror, htrusted]

/-- What an attempt of the accepting side does: it is ready only once the peer was verified. -/
theorem secureAccept_spec (s : SecureSocket) (h : Handshake) :
    let s' := (s.secureAccept h).1
    (s'.server = s.server ∧ s'.securityLevel = s.securityLevel ∧ s'.calls = s.calls ∧
        s'.job = s.job) ∧
      (s.trusted = true → s'.trusted = true) ∧
        (s'.secureReady = true → s.secureReady = true ∨ s'.trusted = true ∨
          s.securityLevel ≠ .encryptedAuthenticated) := by
  cases hfatal : s.fatal <;> cases herror : h.error <;> cases htrusted : h.isTrusted <;>
    by_cases hlevel : s.securityLevel = .encryptedAuthenticated
  all_goals simp +contextual [secureAccept, checkResult, verifyPeerCertificate, disconnect,
    sendEvent, hfatal, herror, htrusted, hlevel]

theorem steady_serviceConnect (s : SecureSocket) (h : Handshake) :
    Steady (s.secureConnect h).1 (s.serviceConnect h).1 := by
  simp only [serviceConnect]
  split_ifs
  · exact .refl _
  · exact steady_sendEvent _ _
  · exact .refl _

theorem steady_serviceAccept (s : SecureSocket) (h : Handshake) :
    Steady (s.secureAccept h).1 (s.serviceAccept h).1 := by
  simp only [serviceAccept]
  split_ifs
  · exact .refl _
  · exact steady_sendEvent _ _
  · exact .refl _

/-- The connecting side stays pinned exactly if the peer is trusted when the handshake is
complete. -/
theorem pinned_secureConnect_iff (hs : Pinned s) (h : Handshake) : Pinned (s.secureConnect h).1 ↔
    (s.Completes h → s.NeedsVerification → s.trusted = true ∨ h.isTrusted = true) := by
  obtain ⟨⟨hserver, hlevel, -, -⟩, hcases⟩ := secureConnect_spec s h
  have hneeds : (s.secureConnect h).1.NeedsVerification ↔ s.NeedsVerification := by
    simp only [NeedsVerification, hserver, hlevel]
  unfold Pinned
  rw [hneeds]
  obtain ⟨hcompletes, hready, htrusted⟩ | ⟨hfails, hready, htrusted⟩ := hcases
  · rw [htrusted, Bool.or_eq_true]
    exact ⟨fun hpinned _ => hpinned hready, fun hchecked _ => hchecked hcompletes⟩
  · rw [htrusted]
    exact iff_of_true (fun hready' => hs (hready hready')) fun hcompletes =>
      absurd hcompletes hfails

theorem silent_secureConnect (hs : Silent s) (h : Handshake) : Silent (s.secureConnect h).1 := by
  obtain ⟨⟨hserver, hlevel, hcalls, -⟩, hcases⟩ := secureConnect_spec s h
  intro hcall hneeds
  simp only [NeedsVerification, hserver, hlevel] at hneeds
  have htrusted := hs (hcalls ▸ hcall) hneeds
  obtain ⟨-, -, hnow⟩ | ⟨-, -, hnow⟩ := hcases
  · rw [hnow, htrusted, Bool.true_or]
  · rw [hnow, htrusted]

theorem pinned_secureAccept (hserver : s.server = true) (hs : Pinned s) (h : Handshake) :
    Pinned (s.secureAccept h).1 := by
  obtain ⟨⟨hserver', hlevel, -, -⟩, htrusted, hready⟩ := secureAccept_spec s h
  intro hready' hneeds
  have hneeds' : s.NeedsVerification := by
    simpa only [NeedsVerification, hserver', hlevel] using hneeds
  obtain hold | hnow | hopen := hready hready'
  · exact htrusted (hs hold hneeds')
  · exact hnow
  · obtain hclient | hauth := hneeds'
    · rw [hserver] at hclient
      cases hclient
    · exact absurd hauth hopen

theorem silent_secureAccept (hs : Silent s) (h : Handshake) : Silent (s.secureAccept h).1 := by
  obtain ⟨⟨hserver, hlevel, hcalls, -⟩, htrusted, -⟩ := secureAccept_spec s h
  intro hcall hneeds
  simp only [NeedsVerification, hserver, hlevel] at hneeds
  exact htrusted (hs (hcalls ▸ hcall) hneeds)

/-! ### Jobs -/

/-- Only the accepting side has the job of accepting. -/
def Sided (s : SecureSocket) : Prop :=
  ∀ job ∈ s.job, job.kind = .serviceAccept → s.server = true

/-- A new job is never one of the handshake. -/
theorem kind_newJob {job : SocketJob} (h : job ∈ s.newJob) :
    job.kind = .serviceConnecting ∨ job.kind = .serviceConnected := by
  simp only [newJob, tcpNewJob, Option.mem_def] at h
  split_ifs at h
  · cases h
    exact .inl rfl
  · cases h
    exact .inr rfl

theorem sided_setJob {job : Option SocketJob}
    (h : ∀ j ∈ job, j.kind = .serviceAccept → s.server = true) : Sided (s.setJob job) := h

theorem sided_newJob (s : SecureSocket) : Sided (s.setJob s.newJob) := by
  refine sided_setJob fun job hjob haccept => ?_
  obtain hkind | hkind := kind_newJob hjob
  · rw [hkind] at haccept
    cases haccept
  · rw [hkind] at haccept
    cases haccept

/-- Going on with a new job, if there is one. -/
theorem sided_newJobOrStopServicing (s : SecureSocket) :
    Sided (s.applyStatus s.newJobOrStopServicing) := by
  unfold newJobOrStopServicing
  cases hjob : s.newJob with
  | none => exact sided_setJob fun job hjob => by cases hjob
  | some job =>
    have hnew := sided_newJob s
    rwa [hjob] at hnew

theorem Steady.sided (h : Steady s s') (hs : Sided s) : Sided s' := by
  intro job hjob haccept
  rw [h.job] at hjob
  rw [h.server]
  exact hs job hjob haccept

theorem pinned_applyStatus (status : JobStatus) :
    Pinned (s.applyStatus status) ↔ Pinned s := by
  cases status <;> exact Iff.rfl

theorem silent_applyStatus (status : JobStatus) :
    Silent (s.applyStatus status) ↔ Silent s := by
  cases status <;> exact Iff.rfl

/-! ### Runs -/

/-- The invariant. -/
structure Inv (s : SecureSocket) : Prop where
  sided : Sided s
  pinned : Pinned s
  silent : Silent s

theorem sided_serviceConnecting (hs : Sided s) (write : Bool) (answers : Answers) :
    Sided ((s.serviceConnecting write answers).1.applyStatus
      (s.serviceConnecting write answers).2) := by
  simp only [serviceConnecting]
  split_ifs
  · exact sided_newJobOrStopServicing _
  · exact sided_newJobOrStopServicing _
  · exact hs

theorem sided_statusOf (hs : Sided s) (writeResult readResult : JobResult) :
    Sided (s.applyStatus (s.statusOf writeResult readResult)) := by
  unfold statusOf
  split_ifs
  · exact sided_setJob fun job hjob => by cases hjob
  · exact sided_newJobOrStopServicing s
  · exact hs

theorem sided_serviceConnected {read write error : Bool} {answers : Answers}
    {r : SecureSocket × JobStatus} (hs : Sided s)
    (h : s.serviceConnected read write error answers = some r) :
    Sided (r.1.applyStatus r.2) := by
  have hsided := (steady_serviceConnected h).sided hs
  simp only [serviceConnected] at h
  split at h
  · cases h
    exact sided_newJobOrStopServicing _
  · obtain ⟨r₁, -, rfl⟩ := Option.map_eq_some_iff.1 h
    exact sided_statusOf hsided _ _

theorem sided_serviceConnect (h : Handshake) :
    Sided ((s.serviceConnect h).1.applyStatus (s.serviceConnect h).2) := by
  simp only [serviceConnect]
  split_ifs
  · exact sided_setJob fun job hjob => by cases hjob
  · exact sided_newJobOrStopServicing _
  · refine sided_setJob fun job hjob haccept => ?_
    obtain rfl := Option.some.inj hjob
    cases haccept

theorem silent_serviceConnect (hs : Silent s) (h : Handshake) :
    Silent (s.serviceConnect h).1 := by
  have hsilent := silent_secureConnect hs h
  simp only [serviceConnect]
  split_ifs <;> exact hsilent

theorem sided_serviceAccept (hserver : s.server = true) (h : Handshake) :
    Sided ((s.serviceAccept h).1.applyStatus (s.serviceAccept h).2) := by
  have hserver' : (s.secureAccept h).1.server = true :=
    (secureAccept_spec s h).1.1.trans hserver
  simp only [serviceAccept]
  split_ifs
  · exact sided_setJob fun job hjob => by cases hjob
  · exact sided_newJobOrStopServicing _
  · exact sided_setJob fun _ _ _ => hserver'

/-- What the multiplexer does keeps the invariant, but for a handshake that the connecting side
completes with a peer that is not trusted. -/
theorem Inv.service (h : Inv s) {read write error : Bool} {answers : Answers}
    (hst : s.service read write error answers = some s') :
    Sided s' ∧ (Pinned s' ↔ s.Checked (.service read write error answers)) ∧ Silent s' := by
  simp only [SecureSocket.service] at hst
  cases hjob : s.job with
  | none => simp [hjob] at hst
  | some job =>
    simp only [hjob] at hst
    obtain ⟨r, hr, rfl⟩ := Option.map_eq_some_iff.1 hst
    simp only [pinned_applyStatus, silent_applyStatus, Checked, hjob, Option.map_some,
      Option.some.injEq]
    cases hkind : job.kind with
    | serviceConnecting =>
      simp only [hkind] at hr
      obtain rfl := Option.some.inj hr
      have hsteady := steady_serviceConnecting s write answers
      exact ⟨sided_serviceConnecting h.sided write answers,
        iff_of_true (hsteady.pinned h.pinned) (fun hkind => by cases hkind),
        hsteady.silent h.pinned h.silent⟩
    | serviceConnected =>
      simp only [hkind] at hr
      have hsteady := steady_serviceConnected hr
      exact ⟨sided_serviceConnected h.sided hr,
        iff_of_true (hsteady.pinned h.pinned) (fun hkind => by cases hkind),
        hsteady.silent h.pinned h.silent⟩
    | serviceConnect =>
      simp only [hkind] at hr
      split_ifs at hr
      obtain rfl := Option.some.inj hr
      have hsteady := steady_serviceConnect s answers.handshake
      refine ⟨sided_serviceConnect answers.handshake, ?_,
        silent_serviceConnect h.silent answers.handshake⟩
      rw [hsteady.pinned_iff, pinned_secureConnect_iff h.pinned]
      exact ⟨fun hchecked _ => hchecked, fun hchecked => hchecked rfl⟩
    | serviceAccept =>
      simp only [hkind] at hr
      split_ifs at hr
      obtain rfl := Option.some.inj hr
      have hserver := h.sided job hjob hkind
      have hsteady := steady_serviceAccept s answers.handshake
      have hpinned := pinned_secureAccept hserver h.pinned answers.handshake
      exact ⟨sided_serviceAccept hserver answers.handshake,
        iff_of_true (hsteady.pinned hpinned) (fun hkind => by cases hkind),
        hsteady.silent hpinned (silent_secureAccept h.silent answers.handshake)⟩

theorem Inv.of_steady (h : Inv s) (hsteady : Steady s s') : Inv s' :=
  ⟨hsteady.sided h.sided, hsteady.pinned h.pinned, hsteady.silent h.pinned h.silent⟩

theorem Inv.newJob (h : Inv s) : Inv (s.setJob s.newJob) :=
  ⟨sided_newJob s, h.pinned, h.silent⟩

theorem Inv.read (h : Inv s) (n : ℕ) : Inv (s.read n) := by
  simp only [SecureSocket.read]
  split_ifs
  · exact h.of_steady ⟨rfl, rfl, rfl, rfl, fun _ => rfl, rfl⟩
  · exact h.of_steady ⟨rfl, rfl, rfl, rfl, fun _ => rfl, rfl⟩

theorem Inv.write (h : Inv s) (data : Bytes) : Inv (s.write data) := by
  have hwrite : Inv { s with outputBuffer := s.outputBuffer.write data, isFlushed := false } :=
    h.of_steady ⟨rfl, rfl, rfl, rfl, fun _ => rfl, rfl⟩
  simp only [SecureSocket.write]
  split_ifs
  · exact h.of_steady (steady_sendEvent s _)
  · exact h
  · exact hwrite.newJob
  · exact hwrite

theorem Inv.shutdownInput (h : Inv s) : Inv s.shutdownInput := by
  have hshut : Inv (s.sendEvent .streamInputShutdown).onInputShutdown :=
    h.of_steady ⟨rfl, rfl, rfl, rfl, fun _ => rfl, rfl⟩
  simp only [SecureSocket.shutdownInput]
  split_ifs
  · exact hshut.newJob
  · exact h

theorem Inv.shutdownOutput (h : Inv s) : Inv s.shutdownOutput := by
  have hshut : Inv (s.sendEvent .streamOutputShutdown).onOutputShutdown :=
    h.of_steady ⟨rfl, rfl, rfl, rfl, fun _ => rfl, rfl⟩
  simp only [SecureSocket.shutdownOutput]
  split_ifs
  · exact hshut.newJob
  · exact h

theorem Inv.close (h : Inv s) : Inv s.close := by
  have hfatal : Inv { s with fatal := true, ssl := false, context := false, job := none } :=
    ⟨fun _ hjob => (by cases hjob), h.pinned, h.silent⟩
  simp only [SecureSocket.close]
  split_ifs
  all_goals exact hfatal.of_steady ⟨rfl, rfl, rfl, rfl, fun _ => rfl, rfl⟩

/-- **Steps.**  Only a handshake that the connecting side completes with a peer that is not
trusted breaks the invariant. -/
theorem Inv.step (h : Inv s) {a : Action} (hst : s.step a = some s') :
    Sided s' ∧ (Pinned s' ↔ s.Checked a) ∧ Silent s' := by
  have hkept {s' : SecureSocket} (h' : Inv s') : Sided s' ∧ (Pinned s' ↔ True) ∧ Silent s' :=
    ⟨h'.sided, iff_of_true h'.pinned trivial, h'.silent⟩
  cases a with
  | service read write error answers => exact h.service hst
  | handleTcpConnected =>
    simp only [SecureSocket.step] at hst
    split_ifs at hst
    cases hst
    unfold SecureSocket.handleTcpConnected
    split_ifs
    · refine hkept ⟨sided_setJob fun job hjob haccept => ?_, h.pinned, h.silent⟩
      obtain rfl := Option.some.inj hjob
      cases haccept
    · exact hkept h
  | startAccept =>
    simp only [SecureSocket.step] at hst
    split_ifs at hst with hserver
    cases hst
    exact hkept ⟨sided_setJob fun _ _ _ => hserver, h.pinned, h.silent⟩
  | read n =>
    cases hst
    exact hkept (h.read n)
  | write data =>
    cases hst
    exact hkept (h.write data)
  | shutdownInput =>
    cases hst
    exact hkept h.shutdownInput
  | shutdownOutput =>
    cases hst
    exact hkept h.shutdownOutput
  | close =>
    cases hst
    exact hkept h.close

theorem inv_init (h : lts.init s) : Inv s := by
  obtain ⟨level, rfl⟩ | ⟨level, done, rfl⟩ := h
  · refine ⟨fun job hjob => ?_, fun hready => (by cases hready), fun hcalls => absurd rfl hcalls⟩
    obtain rfl := Option.some.inj hjob
    exact fun _ => rfl
  · cases done
    all_goals
      exact ⟨sided_newJob _, fun hready => (by cases hready), fun hcalls => absurd rfl hcalls⟩

/-- **No data for a peer that was not verified**, in every run in which the connecting side
completes no handshake with a peer that is not trusted; and the next step keeps the socket pinned
exactly if it completes none either. -/
theorem pinned_of_reachable (hs : lts.ReachableVia Checked s) :
    (Pinned s ∧ Silent s) ∧ ∀ a s', s.step a = some s' → (Pinned s' ↔ s.Checked a) := by
  have hinv : Inv s := by
    refine hs.invariant (fun s h => inv_init h) fun s a s' h hchecked hst => ?_
    obtain ⟨hsided, hpinned, hsilent⟩ := h.step hst
    exact ⟨hsided, hpinned.2 hchecked, hsilent⟩
  exact ⟨⟨hinv.pinned, hinv.silent⟩, fun a s' hst => (hinv.step hst).2.1⟩

/-- The TCP connection is there, and the handshake completes with a peer of this fingerprint. -/
def meets (fingerprint : FingerprintData) (database : List FingerprintData) : List Action :=
  [.service false true false {}, .handleTcpConnected,
    .service false true false { handshake := ⟨.none, some fingerprint, database⟩ }]

/-- The application writes, and the multiplexer runs the job. -/
def sendsByte : List Action :=
  [.write [1], .service false true false { wrote := 1 }]

/-- A fingerprint. -/
def aFingerprint : FingerprintData := ⟨"sha256", [1, 2, 3]⟩

/-- A byte for a peer whose fingerprint is in the database. -/
theorem pinned_of_reachable_trusted : ∃ s : SecureSocket, s.calls = [.write [1]] ∧
    (Pinned s ∧ Silent s) ∧ ∀ a s', s.step a = some s' → (Pinned s' ↔ s.Checked a) := by
  have hrun : (lts.exec (outgoing .encrypted false)
      (meets aFingerprint [aFingerprint] ++ sendsByte)).map calls = some [.write [1]] := by
    decide +kernel
  obtain ⟨s, hs, hcalls⟩ := Option.map_eq_some_iff.1 hrun
  exact ⟨s, hcalls, pinned_of_reachable
    (.of_exec (.init (.inr ⟨.encrypted, false, rfl⟩)) (by decide +kernel) hs)⟩

/-- A byte for a peer whose fingerprint is not in the database. -/
theorem not_pinned_of_reachable : ¬∀ s, lts.Reachable s → Pinned s := by
  intro h
  have hrun : (lts.exec (outgoing .encrypted false) (meets aFingerprint [] ++ sendsByte)).map
      (fun s => (decide s.Pinned, s.calls)) = some (false, [.write [1]]) := by
    decide +kernel
  obtain ⟨s, hs, hwritten⟩ := Option.map_eq_some_iff.1 hrun
  exact of_decide_eq_false (Prod.mk.inj hwritten).1
    (h s (LTS.Reachable.of_exec (.inr ⟨.encrypted, false, rfl⟩) hs))

end SecureSocket

end InputLeap
