import ComponentMarkers.Proofs.Lists
import ComponentMarkers.Proofs.Session.Rounds

/-!
# Sessions refine the round function

Any number of sessions share the filer of one host and the record in which the host's messager
collects.  Sessions may be opened and rounds may be run in any order.

At every moment all sessions are settled, each with a record of its own.  Every report therefore says
what the round function makes of its round alone, whatever was run before it and in whichever session,
and what the host has collected is what the reports list.
-/

namespace ComponentMarkers

variable {σ ω : Type}

/-- Sessions and the host they share.  The host's messager is the record with number 0. -/
structure SessionPool (σ : Type) where
  sessions : List Session
  host : HostState σ

/-- A call that had a report. -/
structure SessionCall where
  /-- The position of the session among those of the pool. -/
  session : Nat
  round : Round
  report : RoundReport

namespace SessionPool

/-- No sessions, and a host whose messager has collected nothing. -/
def start (resources : σ) : SessionPool σ :=
  ⟨[], ⟨resources, Records.empty.openNew.1, []⟩⟩

/-- Opens one more session. -/
def openSession (pool : SessionPool σ) : SessionPool σ :=
  let (session, host) := Session.start .new (.record 0) pool.host
  ⟨pool.sessions ++ [session], host⟩

/-- Runs a round in one of the sessions. -/
def runRound (filer : Filer σ ω) (now : Timestamp) (round : Round) (pool : SessionPool σ)
    (index : Fin pool.sessions.length) : Except UnknownElement RoundReport × SessionPool σ :=
  let (result, session, host) :=
    (pool.sessions.get index).runRound filer now round pool.host
  (result, ⟨pool.sessions.set index session, host⟩)

/-- The pool after the calls, with sessions opened in between.  The rounds are arbitrary as long as
each of them had a report. -/
inductive Reached (filer : Filer σ ω) (resources : σ) : List SessionCall → SessionPool σ → Prop where
  | start : Reached filer resources [] (start resources)
  | opened {calls : List SessionCall} {pool : SessionPool σ}
      (hpool : Reached filer resources calls pool) :
      Reached filer resources calls pool.openSession
  | ran {calls : List SessionCall} {pool next : SessionPool σ}
      (hpool : Reached filer resources calls pool) (now : Timestamp) (round : Round)
      (index : Fin pool.sessions.length) {report : RoundReport}
      (hrun : pool.runRound filer now round index = (.ok report, next)) :
      Reached filer resources (calls ++ [⟨index, round, report⟩]) next

/-- The calls on one session. -/
def callsOn (calls : List SessionCall) (session : Nat) : Nat :=
  calls.countP fun call => call.session = session

/-- Every session of the pool is settled and has a record of its own, and all that was reported is
accounted for. -/
structure IsSettled (filer : Filer σ ω) (calls : List SessionCall) (pool : SessionPool σ) :
    Prop where
  has_iff : ∀ number, pool.host.records.Has number ↔ number < pool.sessions.length + 1
  session_eq : ∀ index session, pool.sessions[index]? = some session →
    session = Session.settled (index + 1) (callsOn calls index)
  own_eq : ∀ number, number ≠ 0 → pool.host.records.diagnostics number = []
  host_eq : pool.host.records.diagnostics 0 = calls.flatMap fun call => call.report.diagnostics
  session_lt : ∀ call ∈ calls, call.session < pool.sessions.length
  isReportOf : ∀ before call after, calls = before ++ call :: after →
    call.report.IsReportOf filer call.round (callsOn before call.session + 1)

theorem IsSettled.get_eq
    {filer : Filer σ ω} {calls : List SessionCall} {pool : SessionPool σ}
    (h : IsSettled filer calls pool) (index : Fin pool.sessions.length) :
    pool.sessions.get index = Session.settled (index + 1) (callsOn calls index) :=
  h.session_eq index _ (List.getElem?_eq_getElem index.isLt)

theorem isSettled_start (filer : Filer σ ω) (resources : σ) :
    IsSettled filer [] (start resources) := by
  constructor
  · intro number
    simp [start, Records.Has, Records.openNew, Records.empty]
  · intro index session hget
    cases hget
  · intro number hnumber
    rw [start, Records.diagnostics_openNew]
    rfl
  · rfl
  · simp
  · intro before call after h
    simp at h

theorem callsOn_append_singleton
    (calls : List SessionCall) (call : SessionCall) (session : Nat) :
    callsOn (calls ++ [call]) session =
      callsOn calls session + if call.session = session then 1 else 0 := by
  simp [callsOn, List.countP_append, List.countP_singleton]

/-- A session that is opened starts settled, and the others do not notice. -/
theorem IsSettled.openSession
    {filer : Filer σ ω} {calls : List SessionCall} {pool : SessionPool σ}
    (h : IsSettled filer calls pool) : IsSettled filer calls pool.openSession := by
  have hsize : pool.host.records.entries.size = pool.sessions.length + 1 := by
    have hlt := h.has_iff pool.sessions.length
    have hge := h.has_iff (pool.sessions.length + 1)
    simp only [Records.Has] at hlt hge
    omega
  constructor
  · intro number
    change number < (pool.host.records.entries.push []).size ↔
      number < (pool.sessions ++ [_]).length + 1
    rw [Array.size_push, hsize, List.length_append, List.length_singleton]
  · intro index session hget
    have hsessions : pool.openSession.sessions =
        pool.sessions ++ [Session.settled pool.host.records.entries.size 0] := rfl
    rw [hsessions] at hget
    rcases getElem?_concat_eq_some_iff.1 hget with hget | ⟨hlast, hnew⟩
    · exact h.session_eq index session hget
    · have hnone : callsOn calls index = 0 := by
        rw [callsOn, List.countP_eq_zero]
        intro call hcall
        have hother := h.session_lt call hcall
        simp only [decide_eq_true_eq]
        omega
      rw [hnone, ← hnew, hsize, hlast]
  · intro number hnumber
    exact (Records.diagnostics_openNew _ _).trans (h.own_eq number hnumber)
  · exact (Records.diagnostics_openNew _ _).trans h.host_eq
  · intro call hcall
    change call.session < (pool.sessions ++ [_]).length
    rw [List.length_append]
    exact Nat.lt_add_right _ (h.session_lt call hcall)
  · exact h.isReportOf

/-- A round keeps the pool settled. -/
theorem IsSettled.runRound
    {filer : Filer σ ω} {fates : ResourceName → ResourceFate} (hfiler : filer.DecidedBy fates)
    {calls : List SessionCall} {pool next : SessionPool σ} (h : IsSettled filer calls pool)
    {now : Timestamp} {round : Round} {index : Fin pool.sessions.length} {report : RoundReport}
    (hrun : pool.runRound filer now round index = (.ok report, next)) :
    IsSettled filer (calls ++ [⟨index, round, report⟩]) next ∧
      (round.isOver = true → next.host.resources = pool.host.resources) := by
  rcases hsession : (pool.sessions.get index).runRound filer now round pool.host with
    ⟨result, session, host⟩
  rw [SessionPool.runRound, hsession] at hrun
  obtain ⟨rfl, rfl⟩ : result = .ok report ∧ _ = next := by simpa using hrun
  rw [h.get_eq index] at hsession
  have hzero : pool.host.records.Has 0 := (h.has_iff 0).2 (Nat.succ_pos _)
  have hown : pool.host.records.Has (index + 1) :=
    (h.has_iff _).2 (Nat.succ_lt_succ index.isLt)
  obtain ⟨hreport, rfl, hover, hhas, hhost, hself, hothers⟩ :=
    Session.runRound_settled hzero hown (Nat.succ_ne_zero _)
      (h.own_eq _ (Nat.succ_ne_zero _)) hfiler hsession
  refine ⟨?_, hover⟩
  constructor
  · intro number
    rw [hhas, h.has_iff, List.length_set]
  · intro other found hget
    rw [List.getElem?_set] at hget
    rw [callsOn_append_singleton]
    by_cases hsame : (index : Nat) = other
    · rw [if_pos hsame, hsame, if_pos (hsame ▸ index.isLt)] at hget
      rw [if_pos hsame, ← Option.some.inj hget]
    · rw [if_neg hsame] at hget
      rw [if_neg hsame]
      exact h.session_eq other found hget
  · intro number hnumber
    by_cases hsame : number = index + 1
    · rw [hsame]
      exact hself
    · rw [hothers number hnumber hsame]
      exact h.own_eq number hnumber
  · rw [hhost, h.host_eq, List.flatMap_append, List.flatMap_singleton]
  · intro call hcall
    change call.session < (pool.sessions.set index _).length
    rw [List.length_set]
    rcases List.mem_append.1 hcall with hcall | hcall
    · exact h.session_lt call hcall
    · obtain rfl := List.mem_singleton.1 hcall
      exact index.isLt
  · intro before call after heq
    rcases List.eq_nil_or_concat after with rfl | ⟨middle, last, rfl⟩
    · obtain ⟨rfl, hlast⟩ := List.append_inj' heq rfl
      obtain rfl := List.singleton_inj.1 hlast
      exact hreport
    · rw [List.concat_eq_append, ← List.cons_append, ← List.append_assoc] at heq
      obtain ⟨hbefore, -⟩ := List.append_inj' heq rfl
      exact h.isReportOf before call middle hbefore

/-- Whatever was run, the pool is settled. -/
theorem Reached.isSettled
    {filer : Filer σ ω} {fates : ResourceName → ResourceFate} (hfiler : filer.DecidedBy fates)
    {resources : σ} {calls : List SessionCall} {pool : SessionPool σ}
    (h : Reached filer resources calls pool) : IsSettled filer calls pool := by
  induction h with
  | start => exact isSettled_start filer resources
  | opened _ ih => exact ih.openSession
  | ran _ now round index hrun ih => exact (ih.runRound hfiler hrun).1

/-- Sessions refine the round function.  In every interleaving, each call on a session has the next
number of that session and the report of its own round, the host has collected exactly what was
reported, and from here every session has a report of every closed round.  A round that ends the run
does not touch the filer. -/
theorem Reached.refines_processRound
    {filer : Filer σ ω} {fates : ResourceName → ResourceFate} (hfiler : filer.DecidedBy fates)
    {resources : σ} {calls : List SessionCall} {pool : SessionPool σ}
    (h : Reached filer resources calls pool) :
    (∀ before call after, calls = before ++ call :: after →
      call.report.IsReportOf filer call.round (callsOn before call.session + 1)) ∧
    (pool.host.records.diagnostics 0 = calls.flatMap fun call => call.report.diagnostics) ∧
    ∀ now round index,
      (round.IsClosed → ∃ report next,
        pool.runRound filer now round index = (.ok report, next)) ∧
      (round.isOver = true → ∀ report next,
        pool.runRound filer now round index = (.ok report, next) →
          next.host.resources = pool.host.resources) := by
  have hsettled := h.isSettled hfiler
  refine ⟨hsettled.isReportOf, hsettled.host_eq, fun now round index => ⟨?_, ?_⟩⟩
  · intro hround
    obtain ⟨report, session, host, hrun⟩ := Session.exists_runRound_settled
      ((hsettled.has_iff 0).2 (Nat.succ_pos _))
      ((hsettled.has_iff (index + 1)).2 (Nat.succ_lt_succ index.isLt)) (Nat.succ_ne_zero _)
      (hsettled.own_eq _ (Nat.succ_ne_zero _)) hfiler now hround
    rw [← hsettled.get_eq index] at hrun
    refine ⟨report, ⟨pool.sessions.set index session, host⟩, ?_⟩
    rw [runRound, hrun]
  · intro hover report next hrun
    exact (hsettled.runRound hfiler hrun).2 hover

/-- The second of two sessions runs a round in which the marker of one class is refused. -/
theorem refines_processRound_brokenRound :
    (guardedFiler refusesA memoryFiler).DecidedBy
        (Filer.guardedFates refusesA Filer.memoryFates) ∧
      ∃ report next,
        Reached (guardedFiler refusesA memoryFiler) .empty [⟨1, brokenRound, report⟩] next ∧
        report.IsReportOf (guardedFiler refusesA memoryFiler) brokenRound 1 ∧
        next.host.records.diagnostics 0 = report.diagnostics := by
  have hfiler := Filer.memoryFiler_decidedBy.guardedFiler refusesA
  have hpool : Reached (guardedFiler refusesA memoryFiler) .empty []
      ((start .empty).openSession.openSession) := .opened (.opened .start)
  obtain ⟨-, -, hnext⟩ := hpool.refines_processRound hfiler
  obtain ⟨hreturns, -⟩ :=
    hnext ⟨2026, 1, 1, 0, 0, 0, true, 0, 0⟩ brokenRound ⟨1, by decide⟩
  obtain ⟨report, next, hrun⟩ := hreturns brokenRound_isClosed
  have hran := Reached.ran hpool _ _ _ hrun
  obtain ⟨hreports, hhost, -⟩ := hran.refines_processRound hfiler
  refine ⟨hfiler, report, next, hran, hreports [] _ [] rfl, ?_⟩
  rw [hhost]
  simp

end SessionPool

end ComponentMarkers
