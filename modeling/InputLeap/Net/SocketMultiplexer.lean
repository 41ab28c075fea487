import InputLeap.LTS.Basic
import InputLeap.Maps.Nodes
import Mathlib.Algebra.Group.Nat.Defs

/-!
# Sockets that are served together

One thread waits for activity on all sockets at once and then runs the job of each socket.  What
the system found is in a vector that has one entry for each job; which entry is whose is known from
the positions only.  Other threads add and remove jobs between two cycles of the thread.

## Main definitions

* `SocketMultiplexer` : the list of jobs, the sockets with their places in it, and the vector.
* `SocketMultiplexer.lts` : jobs are added and removed, and a cycle goes through the list with a
  cursor that it puts into the list.
* `SocketMultiplexer.Listed` : the places of the sockets and the cursor make up the list.
* `SocketMultiplexer.Matches` : the vector is made from the jobs of the list.

## Main results

* `SocketMultiplexer.jobs_run` : each cycle that finds activity runs every job once, in the order of
  the list, with what was found for it.
-/

namespace InputLeap

namespace SocketMultiplexer

/-- What a node of the list holds: the dummy of a traversal, the place of a job that was removed, or
a job. -/
inductive Entry (Job : Type*)
  | cursor
  | removed
  | job (j : Job)

namespace Entry

variable {Job : Type*}

def isCursor : Entry Job → Bool
  | cursor => true
  | _ => false

def isRemoved : Entry Job → Bool
  | removed => true
  | _ => false

/-- A real job, as opposed to a cursor. -/
def isJob : Entry Job → Bool
  | job _ => true
  | _ => false

def job? : Entry Job → Option Job
  | job j => some j
  | _ => none

end Entry

/-- An element of the vector: what to look for on a socket, and what was found. -/
structure PollEntry (Arch : Type*) where
  socket : Arch
  events : UInt16
  revents : UInt16

/-- The element with what was found. -/
def PollEntry.find {Arch : Type*} (pfd : PollEntry Arch) (found : UInt16) : PollEntry Arch :=
  { pfd with revents := found }

def kPOLLIN : UInt16 := 1

def kPOLLOUT : UInt16 := 2

def kPOLLERR : UInt16 := 4

def kPOLLNVAL : UInt16 := 8

/-- What a job says of itself. -/
structure JobClass (Job Arch : Type*) where
  getSocket : Job → Arch
  isReadable : Job → Bool
  isWritable : Job → Bool

/-- What a job answers when it was run. -/
structure JobStatus (Job : Type*) where
  continueServicing : Bool
  newJob : Option Job

/-- A job that was run, and what it was told. -/
structure Ran (Job : Type*) where
  node : ℕ
  job : Job
  read : Bool
  write : Bool
  error : Bool

/-- Where the thread is in its cycle. -/
inductive Phase
  | unlocked
  | collecting (cursor : ℕ) (jobCursor : Option ℕ)
  | polling
  | serving (cursor : ℕ) (jobCursor : Option ℕ) (i : ℕ)
  | cleaning
  deriving DecidableEq

/-- The cursor that is in the list. -/
def Phase.cursor? : Phase → Option ℕ
  | collecting cursor _ => some cursor
  | serving cursor _ _ => some cursor
  | _ => none

end SocketMultiplexer

open SocketMultiplexer (Entry PollEntry JobClass JobStatus Ran Phase)

/-- The multiplexer and the variables of its thread. -/
structure SocketMultiplexer (Socket Job Arch : Type*) where
  jobs : Nodes (Entry Job) := .empty
  /-- The places of the sockets in the list. -/
  jobMap : List (Socket × ℕ) := []
  update : Bool := false
  pfds : List (PollEntry Arch) := []
  phase : Phase := .unlocked
  /-- The jobs that the vector was made from and their places.  The code does not keep them. -/
  made : List (ℕ × Job) := []
  /-- The jobs that were run in this cycle.  The code does not keep them. -/
  ran : List (Ran Job) := []

namespace SocketMultiplexer

variable {Socket Job Arch : Type*} (io : JobClass Job Arch)
variable (m : SocketMultiplexer Socket Job Arch)

/-! ### Other threads -/

/-- Inserts or replaces the job of a socket. -/
def addSocket [DecidableEq Socket] (socket : Socket) (job : Job) :
    SocketMultiplexer Socket Job Arch :=
  match m.jobMap.lookup socket with
  | none =>
    { m with
      jobs := m.jobs.pushBack (.job job)
      update := true
      jobMap := m.jobMap ++ [(socket, m.jobs.fresh)] }
  | some n => { m with jobs := m.jobs.set n (.job job), update := true }

/-- Removes the job of a socket; its place stays. -/
def removeSocket [DecidableEq Socket] (socket : Socket) : SocketMultiplexer Socket Job Arch :=
  match m.jobMap.lookup socket with
  | none => m
  | some n =>
    if (m.jobs.get? n).any Entry.isRemoved then m
    else { m with jobs := m.jobs.set n .removed, update := true }

/-! ### The thread -/

/-- The next job behind the cursor, and the list with the cursor behind it. -/
def nextCursor (jobs : Nodes (Entry Job)) (cursor : ℕ) : Option ℕ × Nodes (Entry Job) :=
  jobs.next Entry.isJob cursor

/-- Begins a cycle, with a new vector if something changed. -/
def lockJobList : SocketMultiplexer Socket Job Arch :=
  if m.update then
    let r := nextCursor (m.jobs.pushFront .cursor) m.jobs.fresh
    { m with
      update := false
      pfds := []
      made := []
      jobs := r.2
      phase := .collecting m.jobs.fresh r.1 }
  else { m with phase := .polling }

/-- The element of the vector for a job.  What was found is not set before the poll. -/
def pollEntry (j : Job) : PollEntry Arch where
  socket := io.getSocket j
  events := (if io.isReadable j then kPOLLIN else 0) ||| (if io.isWritable j then kPOLLOUT else 0)
  revents := 0

/-- One turn of the loop that collects the elements. -/
def collect : Option (SocketMultiplexer Socket Job Arch) :=
  match m.phase with
  | .collecting cursor (some n) =>
    let r := nextCursor m.jobs cursor
    match (m.jobs.get? n).bind Entry.job? with
    | some j =>
      some { m with
        pfds := m.pfds ++ [pollEntry io j]
        made := m.made ++ [(n, j)]
        jobs := r.2
        phase := .collecting cursor r.1 }
    | none => some { m with jobs := r.2, phase := .collecting cursor r.1 }
  | .collecting cursor none =>
    some { m with jobs := m.jobs.erase cursor, phase := .polling }
  | _ => none

/-- What the poll found, if there was activity.  It is given a number of type `int`, as there are
fewer descriptors than that. -/
def poll (result : Option (List UInt16)) : Option (SocketMultiplexer Socket Job Arch) :=
  match m.phase, result with
  | .polling, none => some { m with phase := .cleaning }
  | .polling, some revents =>
    if m.pfds.isEmpty ∨ 2 ^ 31 ≤ m.pfds.length ∨ revents.length ≠ m.pfds.length then none
    else
      let r := nextCursor (m.jobs.pushFront .cursor) m.jobs.fresh
      some { m with
        pfds := List.zipWith PollEntry.find m.pfds revents
        jobs := r.2
        phase := .serving m.jobs.fresh r.1 0
        ran := [] }
  | _, _ => none

/-- The list and the flag after the job at a place answered. -/
def answer (jobs : Nodes (Entry Job)) (update : Bool) (n : ℕ) (status : JobStatus Job) :
    Nodes (Entry Job) × Bool :=
  if !status.continueServicing then (jobs.set n .removed, true)
  else
    match status.newJob with
    | some job => (jobs.set n (.job job), true)
    | none => (jobs, update)

/-- What a job is told. -/
def tell (e : ℕ × Job) (revents : UInt16) : Ran Job where
  node := e.1
  job := e.2
  read := revents &&& kPOLLIN != 0
  write := revents &&& kPOLLOUT != 0
  error := revents &&& (kPOLLERR ||| kPOLLNVAL) != 0

/-- Runs a job, which answers, and goes on to the next.  The index is of type `uint32_t`. -/
def runJob (cursor n i : ℕ) (j : Job) (revents : UInt16) (status : JobStatus Job) :
    SocketMultiplexer Socket Job Arch :=
  let left := answer m.jobs m.update n status
  let r := nextCursor left.1 cursor
  { m with
    jobs := r.2
    update := left.2
    phase := .serving cursor r.1 ((i + 1) % 2 ^ 32)
    ran := m.ran ++ [tell (n, j) revents] }

/-- One turn of the loop that runs the jobs. -/
def run (status : JobStatus Job) : Option (SocketMultiplexer Socket Job Arch) :=
  match m.phase with
  | .serving cursor (some n) i =>
    m.pfds[i]?.map fun pfd =>
      match (m.jobs.get? n).bind Entry.job? with
      | some j => m.runJob cursor n i j pfd.revents status
      | none =>
        let r := nextCursor m.jobs cursor
        { m with jobs := r.2, phase := .serving cursor r.1 i }
  | _ => none

/-- Ends the loop that runs the jobs. -/
def stop : Option (SocketMultiplexer Socket Job Arch) :=
  match m.phase with
  | .serving cursor jobCursor i =>
    if i < m.pfds.length ∧ jobCursor.isSome then none
    else some { m with jobs := m.jobs.erase cursor, phase := .cleaning }
  | _ => none

/-- Deletes the places whose jobs are gone. -/
def deleteRemoved (jobs : Nodes (Entry Job)) (update : Bool) :
    List (Socket × ℕ) → List (Socket × ℕ) × Nodes (Entry Job) × Bool
  | [] => ([], jobs, update)
  | (socket, n) :: rest =>
    if (jobs.get? n).any Entry.isRemoved then deleteRemoved (jobs.erase n) true rest
    else
      let r := deleteRemoved jobs update rest
      ((socket, n) :: r.1, r.2)

/-- Ends a cycle. -/
def unlockJobList : Option (SocketMultiplexer Socket Job Arch) :=
  match m.phase with
  | .cleaning =>
    let r := deleteRemoved m.jobs m.update m.jobMap
    some { m with jobMap := r.1, jobs := r.2.1, update := r.2.2, phase := .unlocked }
  | _ => none

/-! ### Runs -/

/-- What happens.  The other threads and the system decide. -/
inductive Act (Socket Job : Type*)
  | addSocket (socket : Socket) (job : Job)
  | removeSocket (socket : Socket)
  | lock
  | collect
  | poll (result : Option (List UInt16))
  | run (status : JobStatus Job)
  | stop
  | unlock

/-- The other threads wait until the list is not locked. -/
def step [DecidableEq Socket] (m : SocketMultiplexer Socket Job Arch) :
    Act Socket Job → Option (SocketMultiplexer Socket Job Arch)
  | .addSocket socket job => if m.phase = .unlocked then some (m.addSocket socket job) else none
  | .removeSocket socket => if m.phase = .unlocked then some (m.removeSocket socket) else none
  | .lock => if m.phase = .unlocked then some m.lockJobList else none
  | .collect => m.collect io
  | .poll result => m.poll result
  | .run status => m.run status
  | .stop => m.stop
  | .unlock => m.unlockJobList

/-- Jobs are added and removed between the cycles of the thread. -/
def lts [DecidableEq Socket] : LTS (SocketMultiplexer Socket Job Arch) (Act Socket Job) where
  init m := m = {}
  step := step io

/-! ### What holds -/

/-- The cursors in a list. -/
def cursors (es : List (ℕ × Entry Job)) : List ℕ :=
  (es.filter fun e => e.2.isCursor).map Prod.fst

/-- The places for jobs in a list. -/
def places (es : List (ℕ × Entry Job)) : List ℕ :=
  (es.filter fun e => !e.2.isCursor).map Prod.fst

/-- The jobs in a list and their places. -/
def live (es : List (ℕ × Entry Job)) : List (ℕ × Job) :=
  es.filterMap fun e => e.2.job?.map fun j => (e.1, j)

/-- The list is made up of the places of the sockets and the cursor. -/
structure Listed : Prop where
  cursor : cursors m.jobs.entries = m.phase.cursor?.toList
  places : (m.jobMap.map Prod.snd).Perm (places m.jobs.entries)
  sockets : (m.jobMap.map Prod.fst).Nodup

/-- What an element of the vector asks for. -/
def request (pfd : PollEntry Arch) : Arch × UInt16 := (pfd.socket, pfd.events)

/-- The vector asks for what the jobs want that it was made from. -/
def Asks : Prop := m.pfds.map request = m.made.map fun e => request (pollEntry io e.2)

/-- The vector was made from the jobs of the list. -/
structure Matches : Prop where
  made : m.made = live m.jobs.entries
  asks : m.Asks io

/-- The cursor `c` stands behind the job at `n`, or there is no job behind it; which jobs are before
that one, and which are from there on. -/
def Stands (c : ℕ) (es : List (ℕ × Entry Job)) :
    Option ℕ → List (ℕ × Job) → List (ℕ × Job) → Prop
  | some n, seen, ahead =>
    ∃ a j b, es = a ++ (n, .job j) :: (c, .cursor) :: b ∧ seen = live a ∧ ahead = (n, j) :: live b
  | none, seen, ahead => ∃ a b, es = a ++ (c, .cursor) :: b ∧ seen = live a ∧ ahead = [] ∧
    live b = []

/-- Which jobs the vector was made from, in each phase. -/
def Cycle : Prop :=
  match m.phase with
  | .unlocked => m.update = false → m.made = live m.jobs.entries
  | .collecting cursor jobCursor =>
    m.update = false ∧ ∃ ahead, Stands cursor m.jobs.entries jobCursor m.made ahead
  | .polling => m.made = live m.jobs.entries
  | .serving cursor jobCursor i =>
    m.made.length < 2 ^ 31 ∧
      ∃ seen, Stands cursor m.jobs.entries jobCursor seen (m.made.drop i) ∧
        (m.update = false → seen = m.made.take i)
  | .cleaning => m.update = false → m.made = live m.jobs.entries

/-- What holds in each state. -/
structure Inv : Prop where
  listed : m.Listed
  asks : m.Asks io
  cycle : m.Cycle

variable {m io} {jobs : Nodes (Entry Job)} {es a b : List (ℕ × Entry Job)} {c n : ℕ}
variable {seen ahead : List (ℕ × Job)} {jobCursor : Option ℕ}

/-! ### Lists with a cursor -/

@[simp] theorem cursors_append (a b : List (ℕ × Entry Job)) :
    cursors (a ++ b) = cursors a ++ cursors b := by
  rw [cursors, List.filter_append, List.map_append]
  rfl

@[simp] theorem cursors_cursor (c : ℕ) (es : List (ℕ × Entry Job)) :
    cursors ((c, .cursor) :: es) = c :: cursors es := rfl

theorem cursors_cons {x : Entry Job} (hx : x.isCursor = false) (n : ℕ) (es) :
    cursors ((n, x) :: es) = cursors es := by
  cases x with
  | cursor => cases hx
  | removed => rfl
  | job j => rfl

@[simp] theorem places_append (a b : List (ℕ × Entry Job)) :
    places (a ++ b) = places a ++ places b := by
  rw [places, List.filter_append, List.map_append]
  rfl

@[simp] theorem places_cursor (c : ℕ) (es : List (ℕ × Entry Job)) :
    places ((c, .cursor) :: es) = places es := rfl

theorem places_cons {x : Entry Job} (hx : x.isCursor = false) (n : ℕ) (es) :
    places ((n, x) :: es) = n :: places es := by
  cases x with
  | cursor => cases hx
  | removed => rfl
  | job j => rfl

@[simp] theorem live_append (a b : List (ℕ × Entry Job)) : live (a ++ b) = live a ++ live b :=
  List.filterMap_append

@[simp] theorem live_cursor (c : ℕ) (es : List (ℕ × Entry Job)) :
    live ((c, .cursor) :: es) = live es := rfl

@[simp] theorem live_removed (n : ℕ) (es : List (ℕ × Entry Job)) :
    live ((n, .removed) :: es) = live es := rfl

@[simp] theorem live_job (n : ℕ) (j : Job) (es : List (ℕ × Entry Job)) :
    live ((n, .job j) :: es) = (n, j) :: live es := rfl

theorem live_eq_nil (h : ∀ e ∈ es, e.2.isJob = false) : live es = [] := by
  refine List.filterMap_eq_nil_iff.2 fun e he => ?_
  have hjob := h e he
  cases hx : e.2 with
  | job j =>
    rw [hx] at hjob
    cases hjob
  | cursor => rfl
  | removed => rfl

theorem exists_job {x : Entry Job} (h : x.isJob = true) : ∃ j, x = .job j := by
  cases x with
  | job j => exact ⟨j, rfl⟩
  | cursor => cases h
  | removed => cases h

/-- A place that is in the list. -/
theorem exists_place (h : n ∈ places es) :
    ∃ a x b, es = a ++ (n, x) :: b ∧ x.isCursor = false := by
  obtain ⟨⟨k, x⟩, he, rfl⟩ := List.mem_map.1 h
  obtain ⟨hmem, hx⟩ := List.mem_filter.1 he
  obtain ⟨a, b, hsplit⟩ := List.append_of_mem hmem
  exact ⟨a, x, b, hsplit, (Bool.not_eq_true' _).mp hx⟩

/-- A place keeps its node when its job changes. -/
theorem places_set (h : n ∈ places jobs.entries) {y : Entry Job} (hy : y.isCursor = false) :
    places (jobs.set n y).entries = places jobs.entries ∧
      cursors (jobs.set n y).entries = cursors jobs.entries := by
  obtain ⟨a, x, b, hsplit, hx⟩ := exists_place h
  rw [Nodes.set_of_split hsplit, hsplit, places_append, places_append, places_cons hx,
    places_cons hy, cursors_append, cursors_append, cursors_cons hx, cursors_cons hy]
  exact ⟨rfl, rfl⟩

theorem places_nextCursor (jobs : Nodes (Entry Job)) (c : ℕ) :
    (places (nextCursor jobs c).2.entries).Perm (places jobs.entries) :=
  ((jobs.perm_next Entry.isJob c).filter _).map _

theorem cursors_nextCursor (h : cursors jobs.entries = [c]) :
    cursors (nextCursor jobs c).2.entries = [c] := by
  refine List.perm_singleton.1 ?_
  rw [← h]
  exact ((jobs.perm_next Entry.isJob c).filter _).map _

/-- Where the cursor stands after it moved. -/
theorem stands_nextCursor (h : jobs.entries = a ++ (c, .cursor) :: b) :
    Stands c (nextCursor jobs c).2.entries (nextCursor jobs c).1 (live a) (live b) := by
  rcases Nodes.next_cases (p := Entry.isJob) h with
    ⟨hnext, hnone⟩ | ⟨d, n, y, b, rfl, hd, hy, hn, hes⟩
  · rw [nextCursor, hnext]
    exact ⟨a, b, h, rfl, live_eq_nil hnone, live_eq_nil hnone⟩
  · obtain ⟨j, rfl⟩ := exists_job hy
    rw [nextCursor, hn, hes]
    refine ⟨a ++ d, j, b, (List.append_assoc _ _ _).symm, ?_, ?_⟩
    · rw [live_append, live_eq_nil hd, List.append_nil]
    · rw [live_append, live_eq_nil hd, List.nil_append, live_job]

/-- The list with a new cursor, which was moved to the first job. -/
theorem newCursor_spec (h : cursors jobs.entries = []) :
    cursors (nextCursor (jobs.pushFront .cursor) jobs.fresh).2.entries = [jobs.fresh] ∧
      (places (nextCursor (jobs.pushFront .cursor) jobs.fresh).2.entries).Perm
        (places jobs.entries) ∧
      Stands jobs.fresh (nextCursor (jobs.pushFront .cursor) jobs.fresh).2.entries
        (nextCursor (jobs.pushFront .cursor) jobs.fresh).1 [] (live jobs.entries) := by
  have hcursors : cursors (jobs.pushFront .cursor).entries = [jobs.fresh] :=
    congrArg (jobs.fresh :: ·) h
  exact ⟨cursors_nextCursor hcursors, places_nextCursor _ _, stands_nextCursor (a := []) rfl⟩

/-- The list without the cursor, behind which there is no job. -/
theorem deleteCursor_spec (h : Stands c jobs.entries none seen ahead)
    (hc : cursors jobs.entries = [c]) :
    cursors (jobs.erase c).entries = [] ∧ places (jobs.erase c).entries = places jobs.entries ∧
      live (jobs.erase c).entries = seen := by
  obtain ⟨a, b, hsplit, rfl, -, hb⟩ := h
  rw [hsplit, cursors_append, cursors_cursor] at hc
  have hlength := congrArg List.length hc
  rw [List.length_append, List.length_cons, List.length_singleton] at hlength
  rw [Nodes.erase_of_split hsplit, hsplit]
  refine ⟨?_, ?_, ?_⟩
  · rw [cursors_append, List.append_eq_nil_iff]
    exact ⟨List.length_eq_zero_iff.1 (by omega), List.length_eq_zero_iff.1 (by omega)⟩
  · rw [places_append, places_append, places_cursor]
  · rw [live_append, hb, List.append_nil]

/-! ### When a step can happen -/

theorem phase_of_collect {m' : SocketMultiplexer Socket Job Arch} (h : m.collect io = some m') :
    ∃ c jobCursor, m.phase = .collecting c jobCursor := by
  unfold collect at h
  cases hphase : m.phase with
  | collecting c jobCursor => exact ⟨c, jobCursor, rfl⟩
  | unlocked => rw [hphase] at h; cases h
  | polling => rw [hphase] at h; cases h
  | serving c n i => rw [hphase] at h; cases h
  | cleaning => rw [hphase] at h; cases h

theorem phase_of_poll {m' : SocketMultiplexer Socket Job Arch} {result : Option (List UInt16)}
    (h : m.poll result = some m') : m.phase = .polling := by
  unfold poll at h
  cases hphase : m.phase with
  | polling => rfl
  | unlocked => rw [hphase] at h; cases h
  | collecting c n => rw [hphase] at h; cases h
  | serving c n i => rw [hphase] at h; cases h
  | cleaning => rw [hphase] at h; cases h

theorem phase_of_run {m' : SocketMultiplexer Socket Job Arch} {status : JobStatus Job}
    (h : m.run status = some m') : ∃ c n i, m.phase = .serving c (some n) i := by
  unfold run at h
  cases hphase : m.phase with
  | serving c jobCursor i =>
    cases jobCursor with
    | some n => exact ⟨c, n, i, rfl⟩
    | none => rw [hphase] at h; cases h
  | unlocked => rw [hphase] at h; cases h
  | collecting c n => rw [hphase] at h; cases h
  | polling => rw [hphase] at h; cases h
  | cleaning => rw [hphase] at h; cases h

theorem phase_of_unlock {m' : SocketMultiplexer Socket Job Arch}
    (h : m.unlockJobList = some m') : m.phase = .cleaning := by
  unfold unlockJobList at h
  cases hphase : m.phase with
  | cleaning => rfl
  | unlocked => rw [hphase] at h; cases h
  | collecting c n => rw [hphase] at h; cases h
  | polling => rw [hphase] at h; cases h
  | serving c n i => rw [hphase] at h; cases h

/-! ### Steps of other threads -/

theorem mem_places_of_lookup [DecidableEq Socket] (h : m.Listed) {socket : Socket}
    (hn : m.jobMap.lookup socket = some n) : n ∈ places m.jobs.entries := by
  obtain ⟨k, t, hmap, -⟩ := List.lookup_eq_some_iff.1 hn
  refine h.places.mem_iff.1 (List.mem_map.2 ⟨(socket, n), ?_, rfl⟩)
  rw [hmap]
  exact List.mem_append_right _ List.mem_cons_self

/-- A change of what a place holds sets the flag, so nothing is said of the vector. -/
theorem inv_set (h : m.Inv io) (hphase : m.phase = .unlocked) (hn : n ∈ places m.jobs.entries)
    {y : Entry Job} (hy : y.isCursor = false) :
    Inv io { m with jobs := m.jobs.set n y, update := true } := by
  obtain ⟨hplaces, hcursors⟩ := places_set hn hy
  refine ⟨⟨hcursors.trans h.listed.cursor, hplaces.symm ▸ h.listed.places, h.listed.sockets⟩,
    h.asks, ?_⟩
  rw [Cycle, hphase]
  exact nofun

theorem inv_addSocket [DecidableEq Socket] (h : m.Inv io) (hphase : m.phase = .unlocked)
    (socket : Socket) (job : Job) : (m.addSocket socket job).Inv io := by
  unfold addSocket
  cases hlookup : m.jobMap.lookup socket with
  | some n => exact inv_set h hphase (mem_places_of_lookup h.listed hlookup) rfl
  | none =>
    obtain ⟨hcursor, hplaces, hsockets⟩ := h.listed
    refine ⟨⟨?_, ?_, ?_⟩, h.asks, ?_⟩
    · change cursors (m.jobs.entries ++ [(m.jobs.fresh, .job job)]) = _
      rw [cursors_append, hcursor]
      exact List.append_nil _
    · change ((m.jobMap ++ [(socket, m.jobs.fresh)]).map Prod.snd).Perm
        (places (m.jobs.entries ++ [(m.jobs.fresh, .job job)]))
      rw [List.map_append, places_append]
      exact hplaces.append_right _
    · change ((m.jobMap ++ [(socket, m.jobs.fresh)]).map Prod.fst).Nodup
      rw [List.map_append]
      refine List.nodup_append_comm.1 (List.nodup_cons.2 ⟨fun hmem => ?_, hsockets⟩)
      obtain ⟨e, he, hsocket⟩ := List.mem_map.1 hmem
      exact bne_iff_ne.1 (List.lookup_eq_none_iff.1 hlookup e he) hsocket.symm
    · rw [Cycle, hphase]
      exact nofun

theorem inv_removeSocket [DecidableEq Socket] (h : m.Inv io) (hphase : m.phase = .unlocked)
    (socket : Socket) : (m.removeSocket socket).Inv io := by
  unfold removeSocket
  cases hlookup : m.jobMap.lookup socket with
  | none => exact h
  | some n =>
    dsimp only
    split_ifs
    · exact h
    · exact inv_set h hphase (mem_places_of_lookup h.listed hlookup) rfl

/-! ### Steps of the thread -/

theorem inv_lockJobList (h : m.Inv io) (hphase : m.phase = .unlocked) :
    m.lockJobList.Inv io := by
  obtain ⟨⟨hcursor, hplaces, hsockets⟩, hasks, hcycle⟩ := h
  rw [hphase] at hcursor
  rw [Cycle, hphase] at hcycle
  unfold lockJobList
  cases hupdate : m.update with
  | true =>
    obtain ⟨hcursor, hperm, hstands⟩ := newCursor_spec hcursor
    exact ⟨⟨hcursor, hplaces.trans hperm.symm, hsockets⟩, rfl, rfl, _, hstands⟩
  | false => exact ⟨⟨hcursor, hplaces, hsockets⟩, hasks, hcycle hupdate⟩

theorem inv_collect {m' : SocketMultiplexer Socket Job Arch} (h : m.Inv io)
    (hstep : m.collect io = some m') : m'.Inv io := by
  obtain ⟨⟨hcursor, hplaces, hsockets⟩, hasks, hcycle⟩ := h
  obtain ⟨c, jobCursor, hphase⟩ := phase_of_collect hstep
  unfold collect at hstep
  rw [hphase] at hstep hcursor
  rw [Cycle, hphase] at hcycle
  obtain ⟨hupdate, ahead, hstands⟩ := hcycle
  cases jobCursor with
  | none =>
    obtain ⟨hnone, hsame, hlive⟩ := deleteCursor_spec hstands hcursor
    cases hstep
    exact ⟨⟨hnone, hsame.symm ▸ hplaces, hsockets⟩, hasks, hlive.symm⟩
  | some n =>
    obtain ⟨a, j, b, hsplit, hmade, -⟩ := hstands
    have hget : (m.jobs.get? n).bind Entry.job? = some j := by
      rw [Nodes.get?_of_split hsplit]
      rfl
    have hnext := @stands_nextCursor _ m.jobs (a ++ [(n, .job j)]) b c (by
      rw [hsplit, List.append_assoc]
      rfl)
    rw [live_append] at hnext
    dsimp only at hstep
    rw [hget] at hstep
    cases hstep
    refine ⟨⟨cursors_nextCursor hcursor, hplaces.trans (places_nextCursor _ _).symm, hsockets⟩,
      ?_, hupdate, live b, ?_⟩
    · change (m.pfds ++ [pollEntry io j]).map request = (m.made ++ [(n, j)]).map _
      rw [List.map_append, List.map_append, hasks]
      rfl
    · rw [hmade]
      exact hnext

/-- There is an element for each job. -/
theorem Asks.length_eq (h : m.Asks io) : m.pfds.length = m.made.length := by
  have hlength := congrArg List.length h
  rwa [List.length_map, List.length_map] at hlength

/-- The poll does not change what the elements ask for. -/
theorem map_request_zipWith {pfds : List (PollEntry Arch)} {revents : List UInt16}
    (h : revents.length = pfds.length) :
    (List.zipWith PollEntry.find pfds revents).map request = pfds.map request := by
  induction pfds generalizing revents with
  | nil => rfl
  | cons pfd pfds ih =>
    cases revents with
    | nil => cases h
    | cons found revents =>
      rw [List.zipWith_cons_cons, List.map_cons, List.map_cons, ih (Nat.succ.inj h)]
      rfl

/-- The poll sets what was found. -/
theorem map_revents_zipWith {pfds : List (PollEntry Arch)} {revents : List UInt16}
    (h : revents.length = pfds.length) :
    (List.zipWith PollEntry.find pfds revents).map PollEntry.revents = revents := by
  induction pfds generalizing revents with
  | nil => rw [List.length_eq_zero_iff.1 h]; rfl
  | cons pfd pfds ih =>
    cases revents with
    | nil => cases h
    | cons found revents =>
      rw [List.zipWith_cons_cons, List.map_cons, ih (Nat.succ.inj h)]
      rfl

theorem inv_poll {m' : SocketMultiplexer Socket Job Arch} {result : Option (List UInt16)}
    (h : m.Inv io) (hstep : m.poll result = some m') : m'.Inv io := by
  obtain ⟨⟨hcursor, hplaces, hsockets⟩, hasks, hcycle⟩ := h
  have hphase := phase_of_poll hstep
  unfold poll at hstep
  rw [hphase] at hstep hcursor
  rw [Cycle, hphase] at hcycle
  cases result with
  | none =>
    cases hstep
    exact ⟨⟨hcursor, hplaces, hsockets⟩, hasks, fun _ => hcycle⟩
  | some revents =>
    dsimp only at hstep
    split_ifs at hstep with hguard
    obtain ⟨-, hsize, hfound⟩ := not_or.1 hguard |>.imp_right not_or.1
    obtain ⟨hcursor, hperm, hstands⟩ := newCursor_spec hcursor
    cases hstep
    refine ⟨⟨hcursor, hplaces.trans hperm.symm, hsockets⟩, ?_, ?_, [], ?_, fun _ => rfl⟩
    · exact (map_request_zipWith (not_not.1 hfound)).trans hasks
    · rw [← hasks.length_eq]
      exact Nat.lt_of_not_le hsize
    · rw [List.drop_zero, hcycle]
      exact hstands

/-! ### Jobs that answer -/

/-- What is at the position from which on a list is left. -/
theorem of_drop_eq_cons {α : Type*} {l t : List α} {x : α} {i : ℕ} (h : l.drop i = x :: t) :
    i < l.length ∧ l[i]? = some x ∧ l.drop (i + 1) = t ∧ l.take (i + 1) = l.take i ++ [x] := by
  have hat : l[i]? = some x := by
    rw [← List.head?_drop, h]
    rfl
  refine ⟨(List.getElem?_eq_some_iff.1 hat).1, hat, ?_, ?_⟩
  · rw [← List.tail_drop, h]
    rfl
  · rw [List.take_add_one, hat]
    rfl

/-- What a place holds after its job answered. -/
def JobStatus.left (j : Job) (status : JobStatus Job) : Entry Job :=
  if !status.continueServicing then .removed else .job (status.newJob.getD j)

theorem JobStatus.isCursor_left (j : Job) (status : JobStatus Job) :
    (status.left j).isCursor = false := by
  unfold JobStatus.left
  split_ifs <;> rfl

/-- What an answer does where the job stands; without the flag the job stays. -/
theorem answer_spec {update : Bool} {j : Job} (h : jobs.entries = a ++ (n, .job j) :: b)
    (status : JobStatus Job) :
    (answer jobs update n status).1.entries = a ++ (n, status.left j) :: b ∧
      ((answer jobs update n status).2 = false → update = false ∧ status.left j = .job j) := by
  unfold answer JobStatus.left
  split_ifs with hstop
  · exact ⟨Nodes.set_of_split h _, nofun⟩
  · cases status.newJob with
    | some job => exact ⟨Nodes.set_of_split h _, nofun⟩
    | none => exact ⟨h, fun hupdate => ⟨hupdate, rfl⟩⟩

/-- **A turn of the loop** runs the job before the cursor with what was found at its position. -/
theorem run_eq {i : ℕ} (h : m.Inv io) (hphase : m.phase = .serving c (some n) i) :
    ∃ a j b r, m.jobs.entries = a ++ (n, .job j) :: (c, .cursor) :: b ∧
      m.made.drop i = (n, j) :: live b ∧ (m.update = false → live a = m.made.take i) ∧
      (m.pfds.map PollEntry.revents)[i]? = some r ∧
      ∀ status, m.run status = some (m.runJob c n i j r status) := by
  have hcycle := h.cycle
  rw [Cycle, hphase] at hcycle
  obtain ⟨-, seen, ⟨a, j, b, hsplit, hseen, hdrop⟩, hupdate⟩ := hcycle
  have hlt : i < m.pfds.length := by
    rw [h.asks.length_eq]
    exact (of_drop_eq_cons hdrop).1
  have hpfd : m.pfds[i]? = some m.pfds[i] := List.getElem?_eq_getElem hlt
  have hget : (m.jobs.get? n).bind Entry.job? = some j := by
    rw [Nodes.get?_of_split hsplit]
    rfl
  refine ⟨a, j, b, m.pfds[i].revents, hsplit, hdrop, fun hsame => hseen ▸ hupdate hsame, ?_,
    fun status => ?_⟩
  · rw [List.getElem?_map, hpfd]
    rfl
  · rw [run, hphase]
    dsimp only
    rw [hpfd, hget]
    rfl

theorem inv_runJob {i : ℕ} {j : Job} (h : m.Inv io) (hphase : m.phase = .serving c (some n) i)
    (hsplit : m.jobs.entries = a ++ (n, .job j) :: (c, .cursor) :: b)
    (hdrop : m.made.drop i = (n, j) :: live b) (hseen : m.update = false → live a = m.made.take i)
    (r : UInt16) (status : JobStatus Job) : (m.runJob c n i j r status).Inv io := by
  obtain ⟨⟨hcursor, hplaces, hsockets⟩, hasks, hcycle⟩ := h
  rw [hphase] at hcursor
  rw [Cycle, hphase] at hcycle
  obtain ⟨hsize, -⟩ := hcycle
  obtain ⟨hentries, hflag⟩ := @answer_spec _ _ _ _ _ m.update _ hsplit status
  obtain ⟨hlt, -, hrest, htake⟩ := of_drop_eq_cons hdrop
  have hleft := status.isCursor_left j
  have hmod : (i + 1) % 2 ^ 32 = i + 1 := Nat.mod_eq_of_lt (by omega)
  have hnext := @stands_nextCursor _ (answer m.jobs m.update n status).1
    (a ++ [(n, status.left j)]) b c (by
      rw [hentries, List.append_assoc]
      rfl)
  refine ⟨⟨cursors_nextCursor ?_, ?_, hsockets⟩, hasks, hsize,
    live (a ++ [(n, status.left j)]), ?_, fun hupdate => ?_⟩
  · -- the places and the cursor are the same, whatever the job answered
    rw [hsplit, cursors_append, cursors_cons rfl] at hcursor
    rw [hentries, cursors_append, cursors_cons hleft]
    exact hcursor
  · refine hplaces.trans (List.Perm.trans ?_ (places_nextCursor _ _).symm)
    rw [hentries, hsplit, places_append, places_append, places_cons hleft,
      @places_cons _ (.job j) rfl]
  · change Stands c _ _ _ (m.made.drop ((i + 1) % 2 ^ 32))
    rw [hmod, hrest]
    exact hnext
  · obtain ⟨hsame, hstays⟩ := hflag hupdate
    change _ = m.made.take ((i + 1) % 2 ^ 32)
    rw [hmod, htake, hstays, live_append, hseen hsame]
    rfl

theorem inv_run {m' : SocketMultiplexer Socket Job Arch} {status : JobStatus Job} (h : m.Inv io)
    (hstep : m.run status = some m') : m'.Inv io := by
  obtain ⟨c, n, i, hphase⟩ := phase_of_run hstep
  obtain ⟨a, j, b, r, hsplit, hdrop, hseen, -, hrun⟩ := run_eq h hphase
  rw [hrun] at hstep
  cases hstep
  exact inv_runJob h hphase hsplit hdrop hseen r status

/-- The loop ends behind the last job. -/
theorem stop_eq_some_iff {m' : SocketMultiplexer Socket Job Arch} (h : m.Inv io) :
    m.stop = some m' ↔ ∃ c i, m.phase = .serving c none i ∧
      m' = { m with jobs := m.jobs.erase c, phase := .cleaning } := by
  constructor
  · intro hstep
    cases hphase : m.phase with
    | unlocked => rw [stop, hphase] at hstep; cases hstep
    | polling => rw [stop, hphase] at hstep; cases hstep
    | collecting c n => rw [stop, hphase] at hstep; cases hstep
    | cleaning => rw [stop, hphase] at hstep; cases hstep
    | serving c jobCursor i =>
      rw [stop, hphase] at hstep
      cases jobCursor with
      | none =>
        dsimp only at hstep
        rw [if_neg fun hboth => absurd hboth.2 Bool.false_ne_true] at hstep
        cases hstep
        exact ⟨c, i, rfl, rfl⟩
      | some n =>
        obtain ⟨a, j, b, r, -, hdrop, -⟩ := run_eq h hphase
        dsimp only at hstep
        rw [h.asks.length_eq, if_pos ⟨(of_drop_eq_cons hdrop).1, rfl⟩] at hstep
        cases hstep
  · rintro ⟨c, i, hphase, rfl⟩
    rw [stop, hphase]
    exact if_neg fun hboth => absurd hboth.2 Bool.false_ne_true

theorem inv_stop {m' : SocketMultiplexer Socket Job Arch} (h : m.Inv io)
    (hstep : m.stop = some m') : m'.Inv io := by
  obtain ⟨c, i, hphase, rfl⟩ := (stop_eq_some_iff h).1 hstep
  obtain ⟨⟨hcursor, hplaces, hsockets⟩, hasks, hcycle⟩ := h
  rw [hphase] at hcursor
  rw [Cycle, hphase] at hcycle
  obtain ⟨-, seen, hstands, hupdate⟩ := hcycle
  obtain ⟨hnone, hsame, hlive⟩ := deleteCursor_spec hstands hcursor
  refine ⟨⟨hnone, hsame.symm ▸ hplaces, hsockets⟩, hasks, fun hflag => ?_⟩
  obtain ⟨-, -, -, -, hdrop, -⟩ := hstands
  have hall : m.made.take i = m.made := by
    rw [← List.append_nil (m.made.take i), ← hdrop, List.take_append_drop]
  exact ((hlive.trans (hupdate hflag)).trans hall).symm

/-! ### Places that are deleted -/

/-- What is left of the list and the places. -/
theorem deleteRemoved_spec {update : Bool} {jobMap : List (Socket × ℕ)} (kept : List ℕ)
    (hcursors : cursors jobs.entries = [])
    (hplaces : (jobMap.map Prod.snd ++ kept).Perm (places jobs.entries)) :
    let r := deleteRemoved jobs update jobMap
    cursors r.2.1.entries = [] ∧ (r.1.map Prod.snd ++ kept).Perm (places r.2.1.entries) ∧
      live r.2.1.entries = live jobs.entries ∧ (r.1.map Prod.fst).Sublist (jobMap.map Prod.fst) ∧
      (r.2.2 = false → update = false) := by
  induction jobMap generalizing jobs update kept with
  | nil => exact ⟨hcursors, hplaces, rfl, List.Sublist.refl _, id⟩
  | cons e rest ih =>
    obtain ⟨socket, n⟩ := e
    rw [deleteRemoved]
    split_ifs with hremoved
    · obtain ⟨x, hget, hx⟩ := (Option.any_eq_true _ _).1 hremoved
      obtain ⟨a, b, hsplit⟩ := Nodes.exists_split hget
      obtain rfl : x = .removed := by
        cases x with
        | removed => rfl
        | cursor => cases hx
        | job j => cases hx
      have herase := Nodes.erase_of_split hsplit
      rw [hsplit, cursors_append, cursors_cons rfl, ← cursors_append, ← herase] at hcursors
      rw [hsplit, places_append, places_cons rfl] at hplaces
      have hrest : (rest.map Prod.snd ++ kept).Perm (places (jobs.erase n).entries) := by
        rw [herase, places_append]
        exact (hplaces.trans List.perm_middle).cons_inv
      obtain ⟨hnone, hperm, hlive, hsublist, hupdate⟩ := ih kept hcursors hrest
      refine ⟨hnone, hperm, hlive.trans ?_, hsublist.cons _, fun hfalse => ?_⟩
      · rw [herase, hsplit, live_append, live_append, live_removed]
      · cases hupdate hfalse
    · obtain ⟨hnone, hperm, hlive, hsublist, hupdate⟩ :=
        ih (n :: kept) hcursors (List.perm_middle.trans hplaces)
      exact ⟨hnone, List.perm_middle.symm.trans hperm, hlive, hsublist.cons_cons _, hupdate⟩

theorem inv_unlockJobList {m' : SocketMultiplexer Socket Job Arch} (h : m.Inv io)
    (hstep : m.unlockJobList = some m') : m'.Inv io := by
  obtain ⟨⟨hcursor, hplaces, hsockets⟩, hasks, hcycle⟩ := h
  have hphase := phase_of_unlock hstep
  unfold unlockJobList at hstep
  rw [hphase] at hstep hcursor
  rw [Cycle, hphase] at hcycle
  obtain ⟨hnone, hperm, hlive, hsublist, hupdate⟩ :=
    @deleteRemoved_spec _ _ _ m.update _ [] hcursor (by rwa [List.append_nil])
  rw [List.append_nil] at hperm
  cases hstep
  exact ⟨⟨hnone, hperm, hsockets.sublist hsublist⟩, hasks, fun hfalse =>
    (hcycle (hupdate hfalse)).trans hlive.symm⟩

/-! ### Runs -/

theorem inv_step [DecidableEq Socket] {m' : SocketMultiplexer Socket Job Arch}
    {act : Act Socket Job} (h : m.Inv io) (hstep : step io m act = some m') : m'.Inv io := by
  cases act with
  | addSocket socket job =>
    obtain ⟨hphase, hsome⟩ := Option.ite_none_right_eq_some.1 hstep
    cases hsome
    exact inv_addSocket h hphase socket job
  | removeSocket socket =>
    obtain ⟨hphase, hsome⟩ := Option.ite_none_right_eq_some.1 hstep
    cases hsome
    exact inv_removeSocket h hphase socket
  | lock =>
    obtain ⟨hphase, hsome⟩ := Option.ite_none_right_eq_some.1 hstep
    cases hsome
    exact inv_lockJobList h hphase
  | collect => exact inv_collect h hstep
  | poll result => exact inv_poll h hstep
  | run status => exact inv_run h hstep
  | stop => exact inv_stop h hstep
  | unlock => exact inv_unlockJobList h hstep

/-- **The invariant holds in every state reached.** -/
theorem inv_of_reachable [DecidableEq Socket] (h : (lts io).Reachable m) :
    m.Inv io := by
  refine h.invariant ?_ fun m act m' hm _ hstep => inv_step hm hstep
  rintro m rfl
  exact ⟨⟨rfl, List.Perm.refl _, List.nodup_nil⟩, rfl, fun _ => rfl⟩

/-! ### A cycle with activity -/

/-- The jobs so far were run in their order, each with what was found at its position. -/
def Serves (made : List (ℕ × Job)) (revents : List UInt16)
    (m : SocketMultiplexer Socket Job Arch) : Prop :=
  m.made = made ∧ m.pfds.map PollEntry.revents = revents ∧
    match m.phase with
    | .serving _ _ i => m.ran = (List.zipWith tell made revents).take i
    | .cleaning => m.ran = List.zipWith tell made revents
    | _ => False

theorem serves_poll {m' : SocketMultiplexer Socket Job Arch} {revents : List UInt16}
    (hstep : m.poll (some revents) = some m') : Serves m.made revents m' := by
  have hphase := phase_of_poll hstep
  unfold poll at hstep
  rw [hphase] at hstep
  dsimp only at hstep
  split_ifs at hstep with hguard
  cases hstep
  obtain ⟨-, -, hfound⟩ := not_or.1 hguard |>.imp_right not_or.1
  exact ⟨rfl, map_revents_zipWith (not_not.1 hfound), rfl⟩

theorem serves_run {m' : SocketMultiplexer Socket Job Arch} {status : JobStatus Job}
    {made : List (ℕ × Job)} {revents : List UInt16} (h : m.Inv io) (hserves : Serves made revents m)
    (hstep : m.run status = some m') : Serves made revents m' := by
  obtain ⟨rfl, rfl, hran⟩ := hserves
  obtain ⟨c, n, i, hphase⟩ := phase_of_run hstep
  rw [hphase] at hran
  have hcycle := h.cycle
  rw [Cycle, hphase] at hcycle
  obtain ⟨a, j, b, r, -, hdrop, -, hfound, hrun⟩ := run_eq h hphase
  obtain ⟨hlt, hat, -⟩ := of_drop_eq_cons hdrop
  have hmod : (i + 1) % 2 ^ 32 = i + 1 := Nat.mod_eq_of_lt (by omega)
  rw [hrun] at hstep
  cases hstep
  refine ⟨rfl, rfl, ?_⟩
  change m.ran ++ [tell (n, j) r] = List.take ((i + 1) % 2 ^ 32) _
  rw [hmod, List.take_add_one, ← hran, List.getElem?_zipWith, hat, hfound]
  rfl

theorem serves_stop {m' : SocketMultiplexer Socket Job Arch} {made : List (ℕ × Job)}
    {revents : List UInt16} (h : m.Inv io) (hserves : Serves made revents m)
    (hstep : m.stop = some m') : Serves made revents m' := by
  obtain ⟨c, i, hphase, rfl⟩ := (stop_eq_some_iff h).1 hstep
  obtain ⟨rfl, rfl, hran⟩ := hserves
  rw [hphase] at hran
  have hcycle := h.cycle
  rw [Cycle, hphase] at hcycle
  obtain ⟨-, -, ⟨-, -, -, -, hdrop, -⟩, -⟩ := hcycle
  refine ⟨rfl, rfl, hran.trans (List.take_of_length_le ?_)⟩
  rw [List.length_zipWith]
  exact Nat.le_trans (Nat.min_le_left _ _) (List.drop_eq_nil_iff.1 hdrop)

theorem Serves.phase {made : List (ℕ × Job)} {revents : List UInt16} (h : Serves made revents m) :
    m.phase ≠ .unlocked ∧ (∀ c n, m.phase ≠ .collecting c n) ∧ m.phase ≠ .polling := by
  obtain ⟨-, -, hran⟩ := h
  refine ⟨fun hphase => ?_, fun c n hphase => ?_, fun hphase => ?_⟩
  all_goals
    rw [hphase] at hran
    exact hran

/-- Until the list is unlocked nothing else happens. -/
theorem serves_step [DecidableEq Socket] {m' : SocketMultiplexer Socket Job Arch}
    {act : Act Socket Job} {made : List (ℕ × Job)} {revents : List UInt16} (h : m.Inv io)
    (hserves : Serves made revents m) (hact : act ≠ .unlock) (hstep : step io m act = some m') :
    Serves made revents m' := by
  obtain ⟨hlocked, hcollecting, hpolling⟩ := hserves.phase
  cases act with
  | addSocket socket job => exact absurd (Option.ite_none_right_eq_some.1 hstep).1 hlocked
  | removeSocket socket => exact absurd (Option.ite_none_right_eq_some.1 hstep).1 hlocked
  | lock => exact absurd (Option.ite_none_right_eq_some.1 hstep).1 hlocked
  | collect =>
    obtain ⟨c, n, hphase⟩ := phase_of_collect hstep
    exact absurd hphase (hcollecting c n)
  | poll result => exact absurd (phase_of_poll hstep) hpolling
  | run status => exact serves_run h hserves hstep
  | stop => exact serves_stop h hserves hstep
  | unlock => exact absurd rfl hact

theorem serves_exec [DecidableEq Socket] {m' : SocketMultiplexer Socket Job Arch}
    {acts : List (Act Socket Job)} {made : List (ℕ × Job)} {revents : List UInt16}
    (h : m.Inv io) (hserves : Serves made revents m) (hacts : Act.unlock ∉ acts)
    (hexec : (lts io).exec m acts = some m') : Serves made revents m' := by
  induction acts generalizing m with
  | nil =>
    cases hexec
    exact hserves
  | cons act acts ih =>
    obtain ⟨hact, hacts⟩ := not_or.1 (List.mem_cons.not.1 hacts)
    obtain ⟨m₁, hstep, hexec⟩ := Option.bind_eq_some_iff.1 hexec
    exact ih (inv_step h hstep) (serves_step h hserves (Ne.symm hact) hstep) hacts hexec

/-- The loop ends, whatever the jobs answer. -/
theorem exists_exec_serving [DecidableEq Socket] {i : ℕ} (statuses : List (JobStatus Job))
    (h : m.Inv io) (hphase : m.phase = .serving c jobCursor i)
    (hlength : (m.made.drop i).length = statuses.length) :
    ∃ m', (lts io).exec m (statuses.map Act.run ++ [.stop]) = some m' ∧ m'.phase = .cleaning := by
  induction statuses generalizing m jobCursor i with
  | nil =>
    cases jobCursor with
    | some n =>
      obtain ⟨a, j, b, r, -, hdrop, -⟩ := run_eq h hphase
      rw [hdrop] at hlength
      cases hlength
    | none =>
      have hstop := (stop_eq_some_iff h).2 ⟨c, i, hphase, rfl⟩
      exact ⟨_, Option.bind_eq_some_iff.2 ⟨_, hstop, rfl⟩, rfl⟩
  | cons status statuses ih =>
    have hcycle := h.cycle
    rw [Cycle, hphase] at hcycle
    obtain ⟨hsize, seen, hstands, -⟩ := hcycle
    cases jobCursor with
    | none =>
      obtain ⟨-, -, -, -, hdrop, -⟩ := hstands
      rw [hdrop] at hlength
      cases hlength
    | some n =>
      obtain ⟨a, j, b, r, hsplit, hdrop, hseen, -, hrun⟩ := run_eq h hphase
      obtain ⟨hlt, -, hrest, -⟩ := of_drop_eq_cons hdrop
      have hmod : (i + 1) % 2 ^ 32 = i + 1 := Nat.mod_eq_of_lt (by omega)
      have hinv := inv_runJob h hphase hsplit hdrop hseen r status
      obtain ⟨m', hexec, hcleaning⟩ := ih hinv rfl (by
        change (m.made.drop ((i + 1) % 2 ^ 32)).length = _
        rw [hdrop] at hlength
        rw [hmod, hrest]
        exact Nat.succ.inj hlength)
      exact ⟨m', Option.bind_eq_some_iff.2 ⟨_, hrun status, hexec⟩, hcleaning⟩

/-- A cycle with activity ends, whatever the jobs answer. -/
theorem exists_exec_poll [DecidableEq Socket] {revents : List UInt16}
    (statuses : List (JobStatus Job)) (h : m.Inv io) (hphase : m.phase = .polling)
    (hne : m.pfds ≠ []) (hsize : m.pfds.length < 2 ^ 31)
    (hfound : revents.length = m.pfds.length) (hlength : statuses.length = m.made.length) :
    ∃ m', (lts io).exec m (.poll (some revents) :: (statuses.map Act.run ++ [.stop])) = some m' ∧
      m'.phase = .cleaning := by
  have hguard : ¬(m.pfds.isEmpty ∨ 2 ^ 31 ≤ m.pfds.length ∨ revents.length ≠ m.pfds.length) := by
    rintro (hempty | hlarge | hother)
    · exact hne (List.isEmpty_iff.1 hempty)
    · exact absurd hsize (Nat.not_lt.2 hlarge)
    · exact hother hfound
  obtain ⟨m₁, hpoll, hmade, c, jobCursor, hserving⟩ : ∃ m₁, m.poll (some revents) = some m₁ ∧
      m₁.made = m.made ∧ ∃ c jobCursor, m₁.phase = .serving c jobCursor 0 := by
    unfold poll
    rw [hphase]
    dsimp only
    rw [if_neg hguard]
    exact ⟨_, rfl, rfl, _, _, rfl⟩
  have hall : (m₁.made.drop 0).length = statuses.length := by
    rw [List.drop_zero, hmade, hlength]
  obtain ⟨m', hexec, hcleaning⟩ :=
    exists_exec_serving statuses (inv_poll h hpoll) hserving hall
  exact ⟨m', Option.bind_eq_some_iff.2 ⟨m₁, hpoll, hexec⟩, hcleaning⟩

/-- **What the poll finds goes to the right jobs.**  In each state the list is made up of the places
of the sockets and the cursor of a traversal; and when the thread polls, the vector was made from
the jobs of the list, and then each is run once, in the order of the list, with what was found for
it. -/
theorem jobs_run [DecidableEq Socket] (h : (lts io).Reachable m) :
    m.Listed ∧ (m.phase = .polling → m.Matches io ∧ ∀ revents,
      (∀ acts m', Act.unlock ∉ acts → (lts io).exec m (.poll (some revents) :: acts) = some m' →
        m'.phase = .cleaning → m'.ran = List.zipWith tell (live m.jobs.entries) revents) ∧
      ∀ statuses : List (JobStatus Job), m.pfds ≠ [] → m.pfds.length < 2 ^ 31 →
        revents.length = m.pfds.length → statuses.length = (live m.jobs.entries).length →
          ∃ m', (lts io).exec m (.poll (some revents) :: (statuses.map Act.run ++ [.stop])) =
            some m' ∧ m'.phase = .cleaning) := by
  have hinv := inv_of_reachable h
  refine ⟨hinv.listed, fun hphase => ?_⟩
  have hmade := hinv.cycle
  rw [Cycle, hphase] at hmade
  refine ⟨⟨hmade, hinv.asks⟩, fun revents => ⟨?_, ?_⟩⟩
  · intro acts m' hacts hexec hcleaning
    obtain ⟨m₁, hpoll, hexec⟩ := Option.bind_eq_some_iff.1 hexec
    have hserves := serves_exec (inv_poll hinv hpoll) (serves_poll hpoll) hacts hexec
    obtain ⟨-, -, hran⟩ := hserves
    rw [hcleaning] at hran
    rw [← hmade]
    exact hran
  · intro statuses hne hsize hfound hlength
    exact exists_exec_poll statuses hinv hphase hne hsize hfound (hlength.trans (by rw [hmade]))

/-- Jobs that are told apart by a number; one of them wants to write. -/
def numbered : JobClass ℕ ℕ := ⟨id, fun _ => true, fun j => j == 7⟩

/-- Two sockets, of which one was removed and added again, when the thread polls. -/
def twoSockets : Option (SocketMultiplexer ℕ ℕ ℕ) :=
  (lts numbered).exec {} [.addSocket 0 5, .addSocket 1 6, .lock, .collect, .collect, .collect,
    .poll none, .unlock, .removeSocket 0, .addSocket 0 7, .lock, .collect, .collect, .collect]

/-- One job ends and another is replaced. -/
theorem jobs_run_two : ∃ m m', twoSockets = some m ∧
    (lts numbered).exec m
      [.poll (some [2, 5]), .run ⟨false, none⟩, .run ⟨true, some 8⟩, .stop] = some m' ∧
    m'.ran = [⟨0, 7, false, true, false⟩, ⟨1, 6, true, false, true⟩] := by
  have hfirst : twoSockets.isSome = true := rfl
  have hsecond : ((lts numbered).exec (twoSockets.get hfirst)
      [.poll (some [2, 5]), .run ⟨false, none⟩, .run ⟨true, some 8⟩, .stop]).isSome = true := rfl
  have hm := (Option.some_get hfirst).symm
  have hm' := (Option.some_get hsecond).symm
  obtain ⟨-, hjobs⟩ := jobs_run (LTS.Reachable.of_exec (A := lts numbered) rfl hm)
  exact ⟨_, _, hm, hm', ((hjobs rfl).2 [2, 5]).1 _ _ (by simp) hm' rfl⟩

end SocketMultiplexer

end InputLeap
