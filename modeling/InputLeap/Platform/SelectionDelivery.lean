import InputLeap.Platform.SelectionReplies

/-!
# Delivery of selection data

Every outcome of a handler keeps the invariant of the replies, so careful runs deliver the data that
was asked for.  A short value and a long transfer to the same window are enough for a run that does
not: when the short value is deleted, the next piece of the transfer is set although the piece
before it waits.

## Main results

* `XWindowsClipboard.Inv.outcome` : every outcome keeps the invariant.
* `Selections.intact_of_reachable` : careful runs deliver the data.
* `Selections.not_intact_of_reachable` : not all runs do.
-/

namespace InputLeap

open XLog

namespace XWindowsClipboard

variable {d : XDisplay} {s : XWindowsClipboard} {r : Reply} {w : Window}

/-! ### What each outcome preserves -/

variable {s' : XWindowsClipboard} {log log' : XLog} {p : Atom} {c : Conversion}

theorem Awaits.mono (h : Awaits d log w p c r)
    (hasked : ∀ id w p c, .requested id w p c ∈ log → .requested id w p c ∈ log')
    (hpresent : Present w p log = true → Present w p log' = true)
    (hvalues : valuesOf r.id log' = valuesOf r.id log) : Awaits d log' w p c r where
  requestor := h.requestor
  replied := h.replied
  carries := h.carries
  countable := h.countable
  asked := hasked _ _ _ _ h.asked
  present := hpresent h.present
  sent := by
    rw [hvalues]
    exact h.sent

/-- A request that gets its data. -/
theorem Inv.answered {value : PropertyValue} {selection target : Atom} {time : ℕ}
    (h : Inv d s log) (hmade : s'.made = s.made + 1) (hid : r.id = s.made)
    (hw : r.requestor = w) (hreplied : r.replied = true) (hc : r.Carries p c)
    (hcount : c.Countable d) (hfree : Present w p log = false) (hsent : r.Sent d c [value])
    (hlog : log' = .notified s.made w selection target (some p) time ::
      .wrote s.made w p value :: .requested s.made w p (some c) :: log)
    (hreplies : ∀ k, s'.repliesTo k = if k = w then s.repliesTo k ++ [r] else s.repliesTo k) :
    Inv d s' log' := by
  have hmem : ∀ id k q c', .requested id k q c' ∈ log' ↔
      (id = s.made ∧ k = w ∧ q = p ∧ c' = some c) ∨ .requested id k q c' ∈ log := by
    intro id k q c'
    simp [hlog]
  have hgone : ∀ k, .destroyed k ∈ log' ↔ .destroyed k ∈ log := by
    intro k
    simp [hlog]
  have hnew : valuesOf s.made log' = [value] := by
    simp [hlog, valuesOf, h.unanswered s.made (Nat.le_refl _)]
  have hold : ∀ id, id ≠ s.made → valuesOf id log' = valuesOf id log := by
    intro id hne
    simp [hlog, valuesOf, hne.symm]
  have hlt : ∀ id k q c', .requested id k q c' ∈ log → id ≠ s.made :=
    fun id k q c' hreq => Nat.ne_of_lt (h.fresh id k q c' hreq)
  have hawait : ∀ k, ∀ r' ∈ s.repliesTo k, ∃ q c', Awaits d log' k q c' r' := by
    intro k r' hr'
    obtain ⟨q, c', hawaits⟩ := h.awaits k r' hr'
    refine ⟨q, c', hawaits.mono (fun id k q c' hreq => (hmem id k q c').2 (.inr hreq)) ?_
      (hold _ (hlt _ _ _ _ hawaits.asked))⟩
    intro hpresent
    simp [hlog, Present, hpresent]
  constructor
  · rw [hlog]
    exact ⟨.inl (h.unanswered s.made (Nat.le_refl _)), h.waits⟩
  · intro id k q c' hreq
    rw [hmade]
    rcases (hmem id k q c').1 hreq with ⟨rfl, -⟩ | hreq
    · exact Nat.lt_succ_self _
    · exact Nat.lt_succ_of_lt (h.fresh id k q c' hreq)
  · intro id hle
    rw [hmade] at hle
    rw [hold id (Nat.ne_of_gt hle)]
    exact h.unanswered id (Nat.le_of_succ_le hle)
  · intro id k q c' k' q' c'' hreq hreq'
    rcases (hmem id k q c').1 hreq with ⟨hid', rfl, rfl, rfl⟩ | hreq <;>
      rcases (hmem id k' q' c'').1 hreq' with ⟨hid'', rfl, rfl, rfl⟩ | hreq'
    · exact ⟨rfl, rfl, rfl⟩
    · exact absurd hid' (hlt _ _ _ _ hreq')
    · exact absurd hid'' (hlt _ _ _ _ hreq)
    · exact h.unique id k q c' k' q' c'' hreq hreq'
  · intro k
    rw [hreplies]
    by_cases hk : k = w
    · rw [if_pos hk, List.pairwise_append]
      refine ⟨h.distinct k, List.pairwise_singleton _ _, ?_⟩
      intro r' hr' r'' hr''
      obtain ⟨q, c', hawaits⟩ := h.awaits k r' hr'
      rw [List.mem_singleton.1 hr'', hc.property, hawaits.carries.property]
      intro heq
      have hpresent := hawaits.present
      rw [Option.some.inj heq, hk, hfree] at hpresent
      cases hpresent
    · rw [if_neg hk]
      exact h.distinct k
  · intro k r' hr'
    rw [hreplies] at hr'
    by_cases hk : k = w
    · rw [if_pos hk, List.mem_append, List.mem_singleton] at hr'
      rcases hr' with hr' | rfl
      · exact hawait k r' hr'
      · refine ⟨p, c, hw.trans hk.symm, hreplied, hc, hcount, ?_, ?_, ?_⟩
        · exact (hmem _ _ _ _).2 (.inl ⟨hid, hk, rfl, rfl⟩)
        · simp [hlog, Present, hk]
        · rwa [hid, hnew]
    · rw [if_neg hk] at hr'
      exact hawait k r' hr'
  · intro id k q c' hreq
    rcases (hmem id k q _).1 hreq with ⟨rfl, rfl, rfl, hc'⟩ | hreq
    · rw [hnew, Option.some.inj hc']
      exact .inr hsent.begun_or_whole
    · rw [hold id (hlt _ _ _ _ hreq), hgone]
      exact h.delivered id k q c' hreq
  · intro id k q hreq
    rcases (hmem id k q _).1 hreq with ⟨-, -, -, hc'⟩ | hreq
    · cases hc'
    · rw [hold id (hlt _ _ _ _ hreq)]
      exact h.refused id k q hreq
  · intro id k q c' hreq hlives
    rcases (hmem id k q _).1 hreq with ⟨rfl, rfl, rfl, hc'⟩ | hreq
    · refine .inr ⟨r, ?_, hid⟩
      rw [hreplies, if_pos rfl]
      exact List.mem_append_right _ List.mem_cons_self
    · rw [hold id (hlt _ _ _ _ hreq)]
      rcases h.finishes id k q c' hreq (fun hd => hlives ((hgone k).2 hd)) with
        hwhole | ⟨r', hr', hid'⟩
      · exact .inl hwhole
      · refine .inr ⟨r', ?_, hid'⟩
        rw [hreplies]
        split_ifs
        · exact List.mem_append_left _ hr'
        · exact hr'
  · intro k hlives
    have hsame := h.notified k (fun hd => hlives ((hgone k).2 hd))
    simp [hlog, noticesOf, requestsOf, hsame]

/-- A request that gets no data. -/
theorem Inv.asked {c : Option Conversion} (h : Inv d s log) (hmade : s'.made = s.made + 1)
    (hmem : ∀ id k q c', .requested id k q c' ∈ log' ↔
      (id = s.made ∧ k = w ∧ q = p ∧ c' = c) ∨ .requested id k q c' ∈ log)
    (hgone : ∀ k, .destroyed k ∈ log → .destroyed k ∈ log') (hno : c = none ∨ .destroyed w ∈ log')
    (hvalues : ∀ id, valuesOf id log' = valuesOf id log) (hwaits : Waits log')
    (hpresent : ∀ k, ∀ r ∈ s.repliesTo k, ∀ q, Present k q log = true → Present k q log' = true)
    (hnotified : ∀ k, .destroyed k ∉ log' → noticesOf k log' = requestsOf k log')
    (hreplies : ∀ k, s'.repliesTo k = s.repliesTo k) : Inv d s' log' := by
  have hlt : ∀ id k q c', .requested id k q c' ∈ log → id ≠ s.made :=
    fun id k q c' hreq => Nat.ne_of_lt (h.fresh id k q c' hreq)
  have hnew : valuesOf s.made log' = [] := (hvalues _).trans (h.unanswered _ (Nat.le_refl _))
  constructor
  · exact hwaits
  · intro id k q c' hreq
    rw [hmade]
    rcases (hmem id k q c').1 hreq with ⟨rfl, -⟩ | hreq
    · exact Nat.lt_succ_self _
    · exact Nat.lt_succ_of_lt (h.fresh id k q c' hreq)
  · intro id hle
    rw [hmade] at hle
    rw [hvalues]
    exact h.unanswered id (Nat.le_of_succ_le hle)
  · intro id k q c' k' q' c'' hreq hreq'
    rcases (hmem id k q c').1 hreq with ⟨hid', rfl, rfl, rfl⟩ | hreq <;>
      rcases (hmem id k' q' c'').1 hreq' with ⟨hid'', rfl, rfl, rfl⟩ | hreq'
    · exact ⟨rfl, rfl, rfl⟩
    · exact absurd hid' (hlt _ _ _ _ hreq')
    · exact absurd hid'' (hlt _ _ _ _ hreq)
    · exact h.unique id k q c' k' q' c'' hreq hreq'
  · intro k
    rw [hreplies]
    exact h.distinct k
  · intro k r hr
    rw [hreplies] at hr
    obtain ⟨q, c', hawaits⟩ := h.awaits k r hr
    exact ⟨q, c', hawaits.mono (fun id k q c' hreq => (hmem id k q c').2 (.inr hreq))
      (hpresent k r hr q) (hvalues _)⟩
  · intro id k q c' hreq
    rcases (hmem id k q _).1 hreq with ⟨rfl, rfl, rfl, hc'⟩ | hreq
    · rcases hno with hc | hd
      · rw [hc] at hc'
        cases hc'
      · exact .inl ⟨hnew, hd⟩
    · rw [hvalues]
      rcases h.delivered id k q c' hreq with ⟨hnil, hd⟩ | hsome
      · exact .inl ⟨hnil, hgone k hd⟩
      · exact .inr hsome
  · intro id k q hreq
    rcases (hmem id k q _).1 hreq with ⟨rfl, -⟩ | hreq
    · exact hnew
    · rw [hvalues]
      exact h.refused id k q hreq
  · intro id k q c' hreq hlives
    rcases (hmem id k q _).1 hreq with ⟨rfl, rfl, rfl, hc'⟩ | hreq
    · rcases hno with hc | hd
      · rw [hc] at hc'
        cases hc'
      · exact absurd hd hlives
    · rw [hvalues, hreplies]
      exact h.finishes id k q c' hreq (fun hd => hlives (hgone k hd))
  · exact hnotified

/-- A step in which no request comes and no value is set. -/
theorem Inv.shrink (h : Inv d s log) (hmade : s'.made = s.made)
    (hmem : ∀ id k q c, .requested id k q c ∈ log' ↔ .requested id k q c ∈ log)
    (hgone : ∀ k, .destroyed k ∈ log → .destroyed k ∈ log')
    (hvalues : ∀ id, valuesOf id log' = valuesOf id log) (hwaits : Waits log')
    (hnotified : ∀ k, .destroyed k ∉ log' → noticesOf k log' = requestsOf k log')
    (hreplies : ∀ k, (s'.repliesTo k).Sublist (s.repliesTo k))
    (hpresent : ∀ k, ∀ r ∈ s'.repliesTo k, ∀ q, r.property = some q →
      Present k q log = true → Present k q log' = true)
    (hdone : ∀ k, .destroyed k ∉ log' → ∀ r ∈ s.repliesTo k,
      r ∈ s'.repliesTo k ∨ r.done = true) : Inv d s' log' := by
  constructor
  · exact hwaits
  · intro id k q c hreq
    rw [hmade]
    exact h.fresh id k q c ((hmem id k q c).1 hreq)
  · intro id hle
    rw [hmade] at hle
    rw [hvalues]
    exact h.unanswered id hle
  · intro id k q c k' q' c' hreq hreq'
    exact h.unique id k q c k' q' c' ((hmem id k q c).1 hreq) ((hmem id k' q' c').1 hreq')
  · intro k
    exact (h.distinct k).sublist (hreplies k)
  · intro k r hr
    obtain ⟨q, c, hawaits⟩ := h.awaits k r ((hreplies k).subset hr)
    exact ⟨q, c, hawaits.mono (fun id k q c hreq => (hmem id k q c).2 hreq)
      (hpresent k r hr q hawaits.carries.property) (hvalues _)⟩
  · intro id k q c hreq
    rw [hvalues]
    rcases h.delivered id k q c ((hmem id k q _).1 hreq) with ⟨hnil, hd⟩ | hsome
    · exact .inl ⟨hnil, hgone k hd⟩
    · exact .inr hsome
  · intro id k q hreq
    rw [hvalues]
    exact h.refused id k q ((hmem id k q _).1 hreq)
  · intro id k q c hreq hlives
    have hreq' := (hmem id k q _).1 hreq
    rw [hvalues]
    rcases h.finishes id k q c hreq' (fun hd => hlives (hgone k hd)) with hwhole | ⟨r, hr, hid⟩
    · exact .inl hwhole
    rcases hdone k hlives r hr with hkept | hend
    · exact .inr ⟨r, hkept, hid⟩
    · obtain ⟨q', c', hawaits⟩ := h.awaits k r hr
      have hasked := hawaits.asked
      rw [hid] at hasked
      obtain ⟨-, -, hcc⟩ := h.unique id k q _ k q' _ hreq' hasked
      have hwhole := hawaits.sent.whole_of_done hend
      rw [hid, ← Option.some.inj hcc] at hwhole
      exact .inl hwhole
  · exact hnotified

/-- The next value of a reply. -/
theorem Inv.next {front rest : List Reply} {done : Bool} {ptr : ℕ} {value : PropertyValue}
    (h : Inv d s log) (hmade : s'.made = s.made)
    (hlog : log' = .wrote r.id w p value :: .deleted w p :: log)
    (hsplit : s.repliesTo w = front ++ r :: rest) (hawaits : Awaits d log w p c r)
    (hsent : ({ r with done := done, ptr := ptr } : Reply).Sent d c (valuesOf r.id log ++ [value]))
    (hreplies : ∀ k, s'.repliesTo k =
      if k = w then front ++ { r with done := done, ptr := ptr } :: rest else s.repliesTo k) :
    Inv d s' log' := by
  have hmem : ∀ id k q c', .requested id k q c' ∈ log' ↔ .requested id k q c' ∈ log := by
    intro id k q c'
    simp [hlog]
  have hgone : ∀ k, .destroyed k ∈ log' ↔ .destroyed k ∈ log := by
    intro k
    simp [hlog]
  have hnew : valuesOf r.id log' = valuesOf r.id log ++ [value] := by
    simp [hlog, valuesOf]
  have hold : ∀ id, id ≠ r.id → valuesOf id log' = valuesOf id log := by
    intro id hne
    simp [hlog, valuesOf, hne.symm]
  have hpresent : ∀ k q, Present k q log = true → Present k q log' = true := by
    intro k q hq
    by_cases heq : w = k ∧ p = q
    · simp [hlog, Present, heq]
    · simp [hlog, Present, heq, hq]
  -- the replies that stay have other properties, so they are other replies
  have hothers : ∀ k, ∀ r' ∈ s.repliesTo k, (k = w → r'.property ≠ some p) →
      ∃ q c', Awaits d log' k q c' r' := by
    intro k r' hr' hne
    obtain ⟨q, c', hawaits'⟩ := h.awaits k r' hr'
    refine ⟨q, c', hawaits'.mono (fun id k q c' hreq => (hmem id k q c').2 hreq)
      (hpresent k q) (hold _ ?_)⟩
    intro hid
    have hasked := hawaits'.asked
    rw [hid] at hasked
    obtain ⟨hk, hq, -⟩ := h.unique _ _ _ _ _ _ _ hasked hawaits.asked
    exact hne hk (hawaits'.carries.property.trans (by rw [hq]))
  have hdistinct := h.distinct w
  rw [hsplit, List.pairwise_append, List.pairwise_cons] at hdistinct
  obtain ⟨hfront, ⟨hrest, hrests⟩, hcross⟩ := hdistinct
  have hprop : r.property = some p := hawaits.carries.property
  constructor
  · rw [hlog]
    refine ⟨.inr ?_, h.waits⟩
    simp [Present]
  · intro id k q c' hreq
    rw [hmade]
    exact h.fresh id k q c' ((hmem id k q c').1 hreq)
  · intro id hle
    rw [hmade] at hle
    rw [hold id (Nat.ne_of_gt (Nat.lt_of_lt_of_le (h.fresh _ _ _ _ hawaits.asked) hle))]
    exact h.unanswered id hle
  · intro id k q c' k' q' c'' hreq hreq'
    exact h.unique id k q c' k' q' c'' ((hmem id k q c').1 hreq) ((hmem id k' q' c'').1 hreq')
  · intro k
    rw [hreplies]
    by_cases hk : k = w
    · rw [if_pos hk, List.pairwise_append, List.pairwise_cons]
      refine ⟨hfront, ⟨hrest, hrests⟩, ?_⟩
      intro r' hr' r'' hr''
      rcases List.mem_cons.1 hr'' with rfl | hr''
      · exact hcross r' hr' r List.mem_cons_self
      · exact hcross r' hr' r'' (List.mem_cons_of_mem _ hr'')
    · rw [if_neg hk]
      exact h.distinct k
  · intro k r' hr'
    rw [hreplies] at hr'
    by_cases hk : k = w
    · rw [if_pos hk, List.mem_append, List.mem_cons] at hr'
      rw [hk]
      rcases hr' with hr' | rfl | hr'
      · refine hothers w r' (by rw [hsplit]; exact List.mem_append_left _ hr') fun _ => ?_
        rw [← hprop]
        exact hcross r' hr' r List.mem_cons_self
      · refine ⟨p, c, hawaits.requestor, hawaits.replied, ⟨hawaits.carries.1, hawaits.carries.2,
          hawaits.carries.3, hawaits.carries.4⟩, hawaits.countable,
          (hmem _ _ _ _).2 hawaits.asked, hpresent w p hawaits.present, ?_⟩
        rwa [hnew]
      · refine hothers w r' (by
          rw [hsplit]
          exact List.mem_append_right _ (List.mem_cons_of_mem _ hr')) fun _ => ?_
        rw [← hprop]
        exact (hrest r' hr').symm
    · rw [if_neg hk] at hr'
      exact hothers k r' hr' fun hk' => absurd hk' hk
  · intro id k q c' hreq
    have hreq' := (hmem id k q _).1 hreq
    by_cases hid : id = r.id
    · rw [hid] at hreq' ⊢
      obtain ⟨-, -, hcc⟩ := h.unique _ _ _ _ _ _ _ hreq' hawaits.asked
      rw [hnew, Option.some.inj hcc]
      exact .inr hsent.begun_or_whole
    · rw [hold id hid, hgone]
      exact h.delivered id k q c' hreq'
  · intro id k q hreq
    have hreq' := (hmem id k q _).1 hreq
    by_cases hid : id = r.id
    · rw [hid] at hreq'
      obtain ⟨-, -, hcc⟩ := h.unique _ _ _ _ _ _ _ hreq' hawaits.asked
      cases hcc
    · rw [hold id hid]
      exact h.refused id k q hreq'
  · intro id k q c' hreq hlives
    have hreq' := (hmem id k q _).1 hreq
    by_cases hid : id = r.id
    · rw [hid] at hreq'
      obtain ⟨hk, -, -⟩ := h.unique _ _ _ _ _ _ _ hreq' hawaits.asked
      refine .inr ⟨{ r with done := done, ptr := ptr }, ?_, hid.symm⟩
      rw [hreplies, if_pos hk]
      exact List.mem_append_right _ List.mem_cons_self
    · rw [hold id hid]
      rcases h.finishes id k q c' hreq' (fun hd => hlives ((hgone k).2 hd)) with
        hwhole | ⟨r', hr', hid'⟩
      · exact .inl hwhole
      · refine .inr ⟨r', ?_, hid'⟩
        rw [hreplies]
        by_cases hk : k = w
        · rw [if_pos hk]
          rw [hk, hsplit, List.mem_append, List.mem_cons] at hr'
          rcases hr' with hr' | rfl | hr'
          · exact List.mem_append_left _ hr'
          · exact absurd hid'.symm hid
          · exact List.mem_append_right _ (List.mem_cons_of_mem _ hr')
        · rwa [if_neg hk]
  · intro k hlives
    have hsame := h.notified k (fun hd => hlives ((hgone k).2 hd))
    simp [hlog, noticesOf, requestsOf, hsame]

/-- Every outcome keeps what holds between the handlers. -/
theorem Inv.outcome (h : Inv d s s.log.exchanges) (ho : Outcome d s s') :
    Inv d s' s'.log.exchanges := by
  cases ho with
  | answered hmade hid hw hreplied hc hcount hfree hsent hlog hreplies =>
    exact h.answered hmade hid hw hreplied hc hcount hfree hsent hlog hreplies
  | @refused w p selection target time hmade hlog hreplies =>
    refine h.asked (w := w) (p := p) (c := none) hmade ?_ ?_ (.inl rfl) ?_ ?_ ?_ ?_ hreplies
    · intro id k q c'
      simp [hlog]
    · intro k hd
      simp [hlog, hd]
    · intro id
      simp [hlog, valuesOf]
    · rw [hlog]
      exact h.waits
    · intro k r _ q hq
      simp [hlog, Present, hq]
    · intro k hlives
      have hsame := h.notified k (fun hd => hlives (by simp [hlog, hd]))
      simp [hlog, noticesOf, requestsOf, hsame]
  | @gone w p c hmade hlog hreplies hnone =>
    refine h.asked (w := w) (p := p) (c := c) hmade ?_ ?_ (.inr ?_) ?_ ?_ ?_ ?_ hreplies
    · intro id k q c'
      simp [hlog]
    · intro k hd
      simp [hlog, hd]
    · simp [hlog]
    · intro id
      simp [hlog, valuesOf]
    · rw [hlog]
      exact h.waits
    · intro k r hr q hq
      have hk : w ≠ k := by
        rintro rfl
        rw [hnone] at hr
        exact absurd hr List.not_mem_nil
      simp [hlog, Present, hq, hk]
    · intro k hlives
      have hk : w ≠ k := by
        rintro rfl
        exact hlives (by simp [hlog])
      have hsame := h.notified k (fun hd => hlives (by simp [hlog, hd]))
      simp [hlog, noticesOf, requestsOf, hsame, hk]
  | @unknown w p hmade hlog hreplies hother =>
    refine h.shrink hmade ?_ ?_ ?_ ?_ ?_ ?_ ?_ ?_
    · intro id k q c
      simp [hlog]
    · intro k hd
      simp [hlog, hd]
    · intro id
      simp [hlog, valuesOf]
    · rw [hlog]
      exact h.waits
    · intro k hlives
      have hsame := h.notified k (fun hd => hlives (by simp [hlog, hd]))
      simp [hlog, noticesOf, requestsOf, hsame]
    · intro k
      exact hreplies k ▸ List.Sublist.refl _
    · intro k r hr q hprop hq
      rw [hreplies] at hr
      have hne : ¬(w = k ∧ p = q) := by
        rintro ⟨rfl, rfl⟩
        exact hother r hr hprop
      simp [hlog, Present, hq, hne]
    · intro k _ r hr
      rw [hreplies]
      exact .inl hr
  | @finished w p front rest r hmade hlog hsplit hp hdone hreplies =>
    have hdistinct := h.distinct w
    rw [hsplit, List.pairwise_append] at hdistinct
    refine h.shrink hmade ?_ ?_ ?_ ?_ ?_ ?_ ?_ ?_
    · intro id k q c
      simp [hlog]
    · intro k hd
      simp [hlog, hd]
    · intro id
      simp [hlog, valuesOf]
    · rw [hlog]
      exact h.waits
    · intro k hlives
      have hsame := h.notified k (fun hd => hlives (by simp [hlog, hd]))
      simp [hlog, noticesOf, requestsOf, hsame]
    · intro k
      by_cases hk : k = w
      · rw [hreplies, if_pos hk, hk, hsplit]
        exact List.sublist_append_left _ _
      · exact (hreplies k).trans (if_neg hk) ▸ List.Sublist.refl _
    · intro k r' hr' q hprop hq
      have hne : ¬(w = k ∧ p = q) := by
        rintro ⟨rfl, rfl⟩
        rw [hreplies, if_pos rfl] at hr'
        exact hdistinct.2.2 r' hr' r List.mem_cons_self (hprop.trans hp.symm)
      simp [hlog, Present, hq, hne]
    · intro k _ r' hr'
      rw [hreplies]
      by_cases hk : k = w
      · rw [hk, hsplit, List.mem_append] at hr'
        rw [if_pos hk]
        rcases hr' with hr' | hr'
        · exact .inl hr'
        · exact .inr (hdone r' hr')
      · rw [if_neg hk]
        exact .inl hr'
  | next hmade hlog hsplit hawaits hsent hreplies =>
    exact h.next hmade hlog hsplit hawaits hsent hreplies
  | @destroyed w hmade hlog hreplies =>
    refine h.shrink hmade ?_ ?_ ?_ ?_ ?_ ?_ ?_ ?_
    · intro id k q c
      simp [hlog]
    · intro k hd
      simp [hlog, hd]
    · intro id
      simp [hlog, valuesOf]
    · rw [hlog]
      exact h.waits
    · intro k hlives
      have hsame := h.notified k (fun hd => hlives (by simp [hlog, hd]))
      simp [hlog, noticesOf, requestsOf, hsame]
    · intro k
      by_cases hk : k = w
      · rw [hreplies, if_pos hk]
        exact List.nil_sublist _
      · exact (hreplies k).trans (if_neg hk) ▸ List.Sublist.refl _
    · intro k r hr q _ hq
      have hk : k ≠ w := by
        rintro rfl
        rw [hreplies, if_pos rfl] at hr
        exact absurd hr List.not_mem_nil
      simp [hlog, Present, hq, hk.symm]
    · intro k hlives r hr
      have hk : k ≠ w := by
        rintro rfl
        exact hlives (by simp [hlog])
      rw [hreplies, if_neg hk]
      exact .inl hr

theorem Inv.intact (h : Inv d s log) : Intact d log where
  waits := h.waits
  delivered := h.delivered
  refused := h.refused
  completed id w p c hreq hlives hpresent := by
    rcases h.finishes id w p c hreq hlives with hwhole | ⟨r, hr, hid⟩
    · exact hwhole
    · obtain ⟨q, c', hawaits⟩ := h.awaits w r hr
      have hasked := hawaits.asked
      rw [hid] at hasked
      obtain ⟨-, hq, -⟩ := h.unique _ _ _ _ _ _ _ hreq hasked
      have hthere := hawaits.present
      rw [← hq, hpresent] at hthere
      cases hthere
  notified := h.notified

end XWindowsClipboard

namespace Selections

open XWindowsClipboard

variable {d : XDisplay} {s : XWindowsClipboard}

/-- **What careful runs deliver.**  No value takes the place of one that waits, the values of each
request are its data, and each requestor is notified of its requests in their order. -/
theorem intact_of_reachable (hs : (lts d).ReachableVia (Careful d) s) : Intact d s.log := by
  have h : Inv d s s.log.exchanges := by
    refine hs.invariant (I := fun s => Inv d s s.log.exchanges) ?_ ?_
    · rintro s ⟨hreplies, -, hmade, hlog⟩
      have hto : ∀ w, s.repliesTo w = [] := by
        intro w
        rw [repliesTo, hreplies, Std.TreeMap.getD_emptyc]
      have hempty : s.log.exchanges = [] := by
        rw [hlog]
        rfl
      rw [hempty]
      constructor <;> simp [Waits, valuesOf, hto, noticesOf, requestsOf]
    · intro s a s' h hcareful hst
      refine h.outcome ?_
      cases a with
      | addRequest env req =>
        obtain ⟨⟨hfree, hset⟩, hs'⟩ := Option.ite_none_right_eq_some.1 hst
        rw [← Option.some.inj hs']
        exact outcome_addRequest h hcareful hset hfree
      | processRequest env w p =>
        obtain ⟨hset, hs'⟩ := Option.ite_none_right_eq_some.1 hst
        rw [← Option.some.inj hs']
        exact outcome_processRequest h hset hcareful
      | destroyRequest w =>
        rw [← Option.some.inj hst]
        exact outcome_destroyRequest
  exact h.intact.of_exchanges

/-- A server with the smallest limit. -/
def smallestServer : XDisplay := ⟨4096, by decide, 1⟩

/-- A clipboard that was not asked yet. -/
def unasked : XWindowsClipboard where
  window := 2
  selection := 3

/-- A request of the window 7 for the data under the property. -/
def ask (data : Bytes) (property : Atom) : Action :=
  .addRequest { conversion := some ⟨data, 4, .bits8⟩ } ⟨2, 7, 4, 1, some property⟩

/-- The requestor asks for more than one piece and deletes every value. -/
def longTransfer : List Action :=
  [ask (List.replicate 12289 0) 5, .processRequest {} 7 5, .processRequest {} 7 5,
    .processRequest {} 7 5, .processRequest {} 7 5]

/-- The announcement, two pieces and the empty value. -/
theorem intact_of_reachable_longTransfer :
    ∃ s : XWindowsClipboard, Intact smallestServer s.log ∧
      (valuesOf 0 s.log).map (·.data.length) = [0, 12288, 1, 0] := by
  have hrun : ((lts smallestServer).exec unasked longTransfer).map
      (fun s => (valuesOf 0 s.log).map (·.data.length)) = some [0, 12288, 1, 0] := by
    decide +kernel
  obtain ⟨s, hs, hvalues⟩ := Option.map_eq_some_iff.1 hrun
  refine ⟨s, intact_of_reachable ?_, hvalues⟩
  exact .of_exec (.init ⟨rfl, rfl, rfl, rfl⟩) (by decide +kernel) hs

/-- The requestor asks for a short and a long value and deletes the short one. -/
def shortAndLong : List Action :=
  [ask [0] 5, ask (List.replicate 12289 0) 6, .processRequest {} 7 5]

/-- The first piece takes the place of the announcement, which was not deleted. -/
theorem not_intact_of_reachable :
    ¬∀ (d : XDisplay) (s : XWindowsClipboard), (lts d).Reachable s → Intact d s.log := by
  intro h
  have hrun : ((lts smallestServer).exec unasked shortAndLong).map
      (fun s => decide (Waits s.log)) = some false := by decide +kernel
  obtain ⟨s, hs, hwaits⟩ := Option.map_eq_some_iff.1 hrun
  exact of_decide_eq_false hwaits (h smallestServer s (.of_exec ⟨rfl, rfl, rfl, rfl⟩ hs)).waits

end Selections

end InputLeap
