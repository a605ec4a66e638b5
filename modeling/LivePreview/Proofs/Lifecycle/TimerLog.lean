/-
Grace periods are scheduled, and ended once.

The commands of a life and the grace periods that it lets pass make up a log.  In a log that
is in order at most one token is outstanding: one that was scheduled and neither cancelled
nor accepted yet.  A token is scheduled when none is outstanding and it is greater than all
before, and only the outstanding token is cancelled or accepted.

The log of every life is in order, and what is outstanding behind it is the pending grace
period.  All that is said of schedules, cancellations and acceptances is read off from that.
-/
import LivePreview.Proofs.Lifecycle.Invariant

namespace LivePreview.Lifecycle

/-! ### Logs -/

/-- What is on record of a life: the commands it gave and the grace periods that it accepted as
passed. -/
inductive Entry where
  | command (c : Command)
  | accepted (token : Nat)
deriving DecidableEq, Repr

namespace Entry

/-- The token that is scheduled. -/
def scheduled? : Entry → Option Nat
  | command (.scheduleGrace token _) => some token
  | _ => none

/-- The token that is cancelled. -/
def cancelled? : Entry → Option Nat
  | command (.cancelGrace token) => some token
  | _ => none

/-- The token that is accepted. -/
def accepted? : Entry → Option Nat
  | accepted token => some token
  | _ => none

end Entry

/-- The tokens that a log schedules. -/
def scheduled (log : List Entry) : List Nat := log.filterMap Entry.scheduled?

/-- The tokens that a log cancels. -/
def cancelled (log : List Entry) : List Nat := log.filterMap Entry.cancelled?

/-- The tokens that a log accepts. -/
def accepted (log : List Entry) : List Nat := log.filterMap Entry.accepted?

/-- The tokens that a log cancels or accepts. -/
def ended (log : List Entry) : List Nat := cancelled log ++ accepted log

/-- The tokens that a log schedules and neither cancels nor accepts. -/
def outstanding (log : List Entry) : List Nat :=
  (scheduled log).filter fun t => !(ended log).contains t

/-- The token that an event lets pass, if it is accepted. -/
def accepts? (l : Lifecycle) : Event → Option Nat
  | .graceElapsed token => if (l.graceElapsed? token).isSome then some token else none
  | _ => none

/-- What an event puts on record. -/
def entries [Platform] (l : Lifecycle) (e : Event) : List Entry :=
  (l.step e).2.map .command ++ (l.accepts? e).toList.map .accepted

/-- What a history puts on record. -/
def log [Platform] (l : Lifecycle) : List Event → List Entry
  | [] => []
  | e :: later => l.entries e ++ (l.step e).1.log later

/-! ### Logs in order -/

/-- The log is in order, and `pending` is what is outstanding behind it. -/
inductive InOrder : List Entry → Option Nat → Prop
  | nil : InOrder [] none
  | mount {log : List Entry} {pending : Option Nat} (h : InOrder log pending) (page : Page) :
      InOrder (log ++ [.command (.mount page)]) pending
  | schedule {log : List Entry} {token : Nat} (h : InOrder log none)
      (hlast : ∀ t ∈ scheduled log, t < token) (afterMs : Nat) :
      InOrder (log ++ [.command (.scheduleGrace token afterMs)]) (some token)
  | cancel {log : List Entry} {token : Nat} (h : InOrder log (some token)) :
      InOrder (log ++ [.command (.cancelGrace token)]) none
  | accept {log : List Entry} {token : Nat} (h : InOrder log (some token)) :
      InOrder (log ++ [.accepted token]) none

theorem filterMap_concat {α β : Type} (f : α → Option β) (xs : List α) (x : α) :
    (xs ++ [x]).filterMap f = xs.filterMap f ++ (f x).toList := by
  rw [List.filterMap_append]
  cases hx : f x <;> simp [hx]

section

variable (log : List Entry) (entry : Entry) (token afterMs : Nat)

theorem scheduled_concat : scheduled (log ++ [entry]) = scheduled log ++ entry.scheduled?.toList :=
  filterMap_concat _ _ _

theorem cancelled_concat : cancelled (log ++ [entry]) = cancelled log ++ entry.cancelled?.toList :=
  filterMap_concat _ _ _

theorem accepted_concat : accepted (log ++ [entry]) = accepted log ++ entry.accepted?.toList :=
  filterMap_concat _ _ _

theorem scheduled_schedule :
    scheduled (log ++ [.command (.scheduleGrace token afterMs)]) = scheduled log ++ [token] :=
  scheduled_concat log _

theorem scheduled_of_none (h : entry.scheduled? = none) :
    scheduled (log ++ [entry]) = scheduled log := by
  rw [scheduled_concat, h, Option.toList_none, List.append_nil]

theorem ended_of_none (hc : entry.cancelled? = none) (ha : entry.accepted? = none) :
    ended (log ++ [entry]) = ended log := by
  rw [ended, cancelled_concat, accepted_concat, hc, ha]
  simp [ended]

theorem ended_cancel :
    (ended (log ++ [.command (.cancelGrace token)])).Perm (token :: ended log) := by
  have hended : ended (log ++ [.command (.cancelGrace token)])
      = cancelled log ++ token :: accepted log := by
    rw [ended, cancelled_concat, accepted_concat]
    simp [Entry.cancelled?, Entry.accepted?]
  rw [hended]
  exact List.perm_middle

theorem ended_accept : (ended (log ++ [.accepted token])).Perm (token :: ended log) := by
  have hended : ended (log ++ [.accepted token]) = ended log ++ [token] := by
    rw [ended, cancelled_concat, accepted_concat]
    simp [ended, Entry.cancelled?, Entry.accepted?]
  rw [hended]
  exact List.perm_append_singleton token (ended log)

end

namespace InOrder

variable {log : List Entry} {pending : Option Nat} {token : Nat}

/-- Tokens are scheduled in increasing order. -/
theorem increasing (h : InOrder log pending) : (scheduled log).Pairwise (· < ·) := by
  induction h with
  | nil => exact .nil
  | mount h page ih => rwa [scheduled_of_none _ _ rfl]
  | schedule h hlast afterMs ih =>
    rw [scheduled_schedule, List.pairwise_append]
    refine ⟨ih, List.pairwise_singleton _ _, ?_⟩
    intro t ht t' ht'
    rw [List.mem_singleton.mp ht']
    exact hlast t ht
  | cancel h ih | accept h ih => rwa [scheduled_of_none _ _ rfl]

/-- What was scheduled has ended or is pending. -/
theorem perm (h : InOrder log pending) : (scheduled log).Perm (ended log ++ pending.toList) := by
  induction h with
  | nil => exact .refl []
  | mount h page ih => rwa [scheduled_of_none _ _ rfl, ended_of_none _ _ rfl rfl]
  | @schedule log token h hlast afterMs ih =>
    rw [scheduled_schedule, ended_of_none _ _ rfl rfl]
    rw [Option.toList_none, List.append_nil] at ih
    exact ih.append_right [token]
  | cancel h ih =>
    rw [scheduled_of_none _ _ rfl, Option.toList_none, List.append_nil]
    exact ih.trans ((List.perm_append_singleton _ _).trans (ended_cancel _ _).symm)
  | accept h ih =>
    rw [scheduled_of_none _ _ rfl, Option.toList_none, List.append_nil]
    exact ih.trans ((List.perm_append_singleton _ _).trans (ended_accept _ _).symm)

/-- No token is scheduled twice, so none ends twice, and none is pending that has ended. -/
theorem nodup (h : InOrder log pending) : (ended log ++ pending.toList).Nodup := by
  have hscheduled : (scheduled log).Nodup := h.increasing.imp Nat.ne_of_lt
  exact h.perm.nodup_iff.mp hscheduled

theorem count_ended_le (h : InOrder log pending) (t : Nat) : (ended log).count t ≤ 1 :=
  List.nodup_iff_count_le_one.mp (List.nodup_append.mp h.nodup).1 t

/-- What is outstanding is what is pending. -/
theorem outstanding_eq (h : InOrder log pending) : outstanding log = pending.toList := by
  have hended : ∀ t ∈ ended log, ((ended log).contains t) = true :=
    fun t ht => List.contains_iff_mem.mpr ht
  have hpending : ∀ t ∈ pending.toList, ((ended log).contains t) = false := by
    intro t ht
    refine Bool.eq_false_iff.mpr ?_
    intro hcontains
    exact (List.nodup_append.mp h.nodup).2.2 t (List.contains_iff_mem.mp hcontains) t ht rfl
  have hperm : (outstanding log).Perm pending.toList := by
    refine (h.perm.filter _).trans ?_
    rw [List.filter_append, List.filter_eq_nil_iff.mpr, List.filter_eq_self.mpr]
    · exact .refl _
    · intro t ht
      rw [hpending t ht]
      rfl
    · intro t ht
      rw [hended t ht]
      exact Bool.false_ne_true
  cases pending with
  | none => exact hperm.eq_nil
  | some token => exact List.perm_singleton.mp hperm

/-- The front of a log that is in order is in order. -/
theorem front (h : InOrder log pending) {past later : List Entry} (hlog : log = past ++ later) :
    ∃ pending', InOrder past pending' := by
  induction later using List.reverseRecOn generalizing log pending with
  | nil => exact ⟨pending, by rwa [hlog, List.append_nil] at h⟩
  | append_singleton later entry ih =>
    rw [← List.append_assoc] at hlog
    cases h with
    | nil => exact absurd hlog (by simp)
    | mount h page | schedule h hlast afterMs | cancel h | accept h =>
      exact ih h (List.append_inj' hlog rfl).1

/-- Only the token that is pending is cancelled. -/
theorem pending_of_cancel (h : InOrder (log ++ [.command (.cancelGrace token)]) pending) :
    InOrder log (some token) := by
  generalize hlog : log ++ [.command (.cancelGrace token)] = whole at h
  cases h with
  | nil => exact absurd hlog (by simp)
  | cancel h =>
    obtain ⟨rfl, hentry⟩ := List.append_inj' hlog rfl
    cases hentry
    exact h
  | mount h page | schedule h hlast afterMs | accept h =>
    obtain ⟨-, hentry⟩ := List.append_inj' hlog rfl
    cases hentry

/-- Only the token that is pending is accepted. -/
theorem pending_of_accept (h : InOrder (log ++ [.accepted token]) pending) :
    InOrder log (some token) := by
  generalize hlog : log ++ [.accepted token] = whole at h
  cases h with
  | nil => exact absurd hlog (by simp)
  | accept h =>
    obtain ⟨rfl, hentry⟩ := List.append_inj' hlog rfl
    cases hentry
    exact h
  | mount h page | schedule h hlast afterMs | cancel h =>
    obtain ⟨-, hentry⟩ := List.append_inj' hlog rfl
    cases hentry

end InOrder

/-! ### Lives -/

variable {l : Lifecycle} {e : Event} {past : List Entry}

theorem accepts?_eq_none_of_started {d : Draft} (h : l.started? e = some d) :
    l.accepts? e = none := by
  cases e with
  | draft | retry => rfl
  | graceElapsed | report | receive => cases h

theorem accepts?_eq_none_of_report [Platform] {r : FailureReport} (h : e.report? = some r) :
    l.accepts? e = none := by
  cases e with
  | report | receive => rfl
  | draft | retry | graceElapsed => cases h

theorem accepts?_graceElapsed (token : Nat) :
    l.accepts? (.graceElapsed token)
      = if l.grace = some token ∧ l.phase = .loading then some token else none := by
  show (if (l.graceElapsed? token).isSome then some token else none) = _
  unfold graceElapsed?
  by_cases h : l.grace = some token ∧ l.phase = .loading
  · rw [if_pos h, if_pos h]
    rfl
  · rw [if_neg h, if_neg h]
    rfl

/-- The pending grace period is on record as outstanding, and no greater token is scheduled. -/
structure Recorded (l : Lifecycle) (past : List Entry) : Prop where
  inOrder : InOrder past l.grace
  le_token : ∀ t ∈ scheduled past, t ≤ l.token

theorem recorded_new (options : Options) : Recorded (new options) [] := by
  refine ⟨.nil, ?_⟩
  intro t ht
  cases ht

namespace Recorded

/-- Behind the cancellation of what is pending, nothing is outstanding. -/
theorem cancellation (h : Recorded l past) :
    InOrder (past ++ l.cancellation.map .command) none ∧
      scheduled (past ++ l.cancellation.map .command) = scheduled past := by
  have hgrace := h.inOrder
  unfold Lifecycle.cancellation
  cases hpending : l.grace with
  | none =>
    rw [hpending] at hgrace
    have hnil : past ++ List.map Entry.command (List.map .cancelGrace (none : Option Nat).toList)
        = past := List.append_nil past
    rw [hnil]
    exact ⟨hgrace, rfl⟩
  | some token =>
    rw [hpending] at hgrace
    exact ⟨hgrace.cancel, scheduled_of_none _ _ rfl⟩

theorem started [Platform] {d : Draft} {next : Lifecycle × List Command} (h : Recorded l past)
    (hstarted : Started l d next) : Recorded next.1 (past ++ next.2.map .command) := by
  obtain ⟨hcancelled, hscheduled⟩ := h.cancellation
  have hle : ∀ t ∈ scheduled (past ++ l.cancellation.map .command), t < l.token + 1 := by
    rw [hscheduled]
    exact fun t ht => Nat.lt_succ_of_le (h.le_token t ht)
  cases hstarted with
  | blank hblank => exact ⟨hcancelled, fun t ht => Nat.le_of_lt (hle t ht)⟩
  | @loading page hblank hpage =>
    have hlog : past ++ List.map Entry.command (l.cancellation ++
          [.mount page, .scheduleGrace (l.token + 1) l.options.gracePeriodMs])
        = past ++ l.cancellation.map .command ++ [.command (.mount page)] ++
          [.command (.scheduleGrace (l.token + 1) l.options.gracePeriodMs)] := by
      simp
    rw [hlog]
    refine ⟨(hcancelled.mount page).schedule ?_ _, ?_⟩
    · rw [scheduled_of_none _ _ rfl]
      exact hle
    · intro t ht
      rw [scheduled_schedule, scheduled_of_none _ _ rfl] at ht
      obtain ht | ht := List.mem_append.mp ht
      · exact Nat.le_of_lt (hle t ht)
      · exact Nat.le_of_eq (List.mem_singleton.mp ht)
  | @failed failure hblank hpage =>
    rw [List.map_append, ← List.append_assoc]
    refine ⟨hcancelled.mount _, ?_⟩
    intro t ht
    rw [List.map_singleton, scheduled_of_none _ _ rfl] at ht
    exact Nat.le_of_lt (hle t ht)

theorem step [Platform]
    (h : Recorded l past) (e : Event) : Recorded (l.step e).1 (past ++ l.entries e) := by
  unfold entries
  obtain ⟨d, hd, hstarted⟩ | ⟨-, hanswered⟩ := l.step_transition e
  · rw [accepts?_eq_none_of_started hd, Option.toList_none, List.map_nil, List.append_nil]
    exact h.started hstarted
  · generalize l.step e = next at hanswered
    cases hanswered with
    | @succeeded token hevent hgrace hphase =>
      have haccepts : l.accepts? e = some token := by
        rw [hevent, accepts?_graceElapsed, if_pos ⟨hgrace, hphase⟩]
      have hpending := h.inOrder
      rw [hgrace] at hpending
      rw [haccepts]
      refine ⟨hpending.accept, ?_⟩
      show ∀ t ∈ scheduled (past ++ [.accepted token]), t ≤ l.token
      rw [scheduled_of_none _ _ rfl]
      exact h.le_token
    | failed hevent hrun hphase =>
      obtain ⟨hcancelled, hscheduled⟩ := h.cancellation
      rw [accepts?_eq_none_of_report hevent, Option.toList_none, List.map_nil, List.append_nil]
      refine ⟨hcancelled, ?_⟩
      rw [hscheduled]
      exact h.le_token
    | ignored hgrace hreport =>
      have haccepts : l.accepts? e = none := by
        cases e with
        | graceElapsed token => rw [accepts?_graceElapsed, if_neg (hgrace token rfl)]
        | draft | retry | report | receive => rfl
      rw [haccepts]
      simpa using h

theorem run [Platform] (h : Recorded l past) (events : List Event) :
    Recorded (l.run events).1 (past ++ l.log events) := by
  induction events generalizing l past with
  | nil =>
    rw [log, List.append_nil]
    exact h
  | cons e later ih =>
    rw [log, ← List.append_assoc]
    exact ih (h.step e)

end Recorded

/-- What an event asks for: at most a cancellation, a page and a schedule, in this order. -/
theorem commands_step [Platform] (l : Lifecycle) (e : Event) :
    ∃ (cancel : Option Nat) (page : Option Page) (schedule : Option (Nat × Nat)),
      (l.step e).2 = cancel.toList.map .cancelGrace ++ page.toList.map .mount ++
        schedule.toList.map fun (token, afterMs) => .scheduleGrace token afterMs := by
  have htransition := l.step_transition e
  generalize l.step e = next at htransition ⊢
  obtain ⟨d, -, hstarted⟩ | ⟨-, hanswered⟩ := htransition
  · cases hstarted with
    | blank hblank => exact ⟨l.grace, none, none, by simp [cancellation]⟩
    | @loading page hblank hpage =>
      exact ⟨l.grace, some page, some (l.token + 1, l.options.gracePeriodMs),
        by simp [cancellation]⟩
    | @failed failure hblank hpage =>
      exact ⟨l.grace, some (.ofFailure failure (l.token + 1) d.code l.options), none,
        by simp [cancellation]⟩
  · cases hanswered with
    | succeeded hevent hgrace hphase => exact ⟨none, none, none, rfl⟩
    | failed hevent hrun hphase => exact ⟨l.grace, none, none, by simp [cancellation]⟩
    | ignored hgrace hreport => exact ⟨none, none, none, rfl⟩

/-- **The timer protocol.**  In the log of every life tokens are scheduled in increasing order and
end at most once, be it cancelled or accepted; what is cancelled or accepted is the one token that
is outstanding; and the token of the life is outstanding exactly while it is loading.  Each event
gives at most a cancellation, a page and a schedule, in this order. -/
theorem timer_protocol [Platform] (options : Options) (events : List Event) :
    let l := ((new options).run events).1
    let whole := (new options).log events
    (scheduled whole).Pairwise (· < ·) ∧
    (∀ t, (cancelled whole).count t + (accepted whole).count t ≤ 1) ∧
    (∀ past token later, whole = past ++ .command (.cancelGrace token) :: later →
      outstanding past = [token]) ∧
    (∀ past token later, whole = past ++ .accepted token :: later → outstanding past = [token]) ∧
    (∀ past later, whole = past ++ later → (outstanding past).length ≤ 1) ∧
    outstanding whole = (if l.phase = .loading then [l.token] else []) ∧
    (scheduled whole).length = (cancelled whole).length + (accepted whole).length +
      (if l.phase = .loading then 1 else 0) ∧
    ∀ e, ∃ (cancel : Option Nat) (page : Option Page) (schedule : Option (Nat × Nat)),
      (l.step e).2 = cancel.toList.map .cancelGrace ++ page.toList.map .mount ++
        schedule.toList.map fun (token, afterMs) => .scheduleGrace token afterMs := by
  intro l whole
  have horder : InOrder whole l.grace := ((recorded_new options).run events).inOrder
  have hgrace : l.grace.toList = if l.phase = .loading then [l.token] else [] := by
    rw [((coherent_new options).run events).grace]
    split <;> rfl
  refine ⟨horder.increasing, ?_, ?_, ?_, ?_, ?_, ?_, l.commands_step⟩
  · intro t
    rw [← List.count_append]
    exact horder.count_ended_le t
  · intro past token later hwhole
    obtain ⟨pending, hfront⟩ := horder.front (hwhole.trans (List.append_cons _ _ _))
    exact hfront.pending_of_cancel.outstanding_eq
  · intro past token later hwhole
    obtain ⟨pending, hfront⟩ := horder.front (hwhole.trans (List.append_cons _ _ _))
    exact hfront.pending_of_accept.outstanding_eq
  · intro past later hwhole
    obtain ⟨pending, hfront⟩ := horder.front hwhole
    rw [hfront.outstanding_eq]
    exact Option.length_toList_le
  · rw [horder.outstanding_eq, hgrace]
  · rw [horder.perm.length_eq, ended, List.length_append, List.length_append, hgrace]
    split <;> rfl

end LivePreview.Lifecycle
