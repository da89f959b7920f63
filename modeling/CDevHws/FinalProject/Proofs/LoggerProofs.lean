import CDevHws.FinalProject.Logger
import Mathlib.Algebra.Order.BigOperators.Group.Finset
import Mathlib.Data.List.Basic

/-!
# Proofs: the logger

A record enters the log with its time, when its thread holds the lock and no other one has anything
left to write. So the stream is made of whole records, but for the last one while its thread is
still writing.
-/

namespace CDevHws.FinalProject

open Transition (Run)

variable {ι : Type} [DecidableEq ι] {strftime : ℕ → List UInt8}

/-! ## Threads -/

section Goto

variable {s : LogState ι} {t t' : ι} {pc : LogPc}

@[simp] theorem pc_goto_self : (s.goto t pc).pc t = pc := Function.update_self ..

theorem pc_goto_of_ne (h : t' ≠ t) : (s.goto t pc).pc t' = s.pc t' := Function.update_of_ne h ..

@[simp] theorem mtx_goto : (s.goto t pc).mtx = s.mtx := rfl

@[simp] theorem tm_goto : (s.goto t pc).tm = s.tm := rfl

@[simp] theorem logfile_goto : (s.goto t pc).logfile = s.logfile := rfl

end Goto

/-- A thread is between `mtx_lock` and `mtx_unlock`. -/
def LogPc.Inside : LogPc → Prop
  | .timing _ => True
  | .converting .. => True
  | .formatting .. => True
  | .writing _ => True
  | _ => False

/-- The threads between `mtx_lock` and `mtx_unlock` are those that hold the lock. -/
def LogState.Exclusive (s : LogState ι) : Prop := ∀ t, (s.pc t).Inside ↔ s.mtx = some t

namespace LogState.Exclusive

variable {s : LogState ι} {t t' : ι} {pc : LogPc}

/-- A thread stays inside, or outside. -/
theorem goto (h : s.Exclusive) (hpc : pc.Inside ↔ (s.pc t).Inside) : (s.goto t pc).Exclusive := by
  intro t'
  rw [mtx_goto]
  by_cases ht : t' = t
  · rw [ht, pc_goto_self, hpc]
    exact h t
  · rw [pc_goto_of_ne ht]
    exact h t'

theorem lock (h : s.Exclusive) (hfree : s.mtx = none) (hpc : pc.Inside) :
    { s.goto t pc with mtx := some t : LogState ι }.Exclusive := by
  intro t'
  show ((s.goto t pc).pc t').Inside ↔ some t = some t'
  by_cases ht : t' = t
  · rw [ht, pc_goto_self]
    exact ⟨fun _ => rfl, fun _ => hpc⟩
  · rw [pc_goto_of_ne ht]
    constructor
    · intro hinside
      have hsome := (h t').mp hinside
      rw [hfree] at hsome
      cases hsome
    · intro heq
      exact absurd (Option.some.inj heq).symm ht

theorem unlock (h : s.Exclusive) (hinside : (s.pc t).Inside) (hpc : ¬ pc.Inside) :
    { s.goto t pc with mtx := none : LogState ι }.Exclusive := by
  intro t'
  show ((s.goto t pc).pc t').Inside ↔ none = some t'
  have howner := (h t).mp hinside
  constructor
  · intro hinside'
    by_cases ht : t' = t
    · rw [ht, pc_goto_self] at hinside'
      exact absurd hinside' hpc
    · rw [pc_goto_of_ne ht] at hinside'
      have howner' := (h t').mp hinside'
      rw [howner] at howner'
      exact absurd (Option.some.inj howner').symm ht
  · intro heq
    cases heq

theorem step {s s' : LogState ι} {l : LogLabel ι} (h : s.Exclusive)
    (hstep : LogStep strftime s l s') : s'.Exclusive := by
  cases hstep with
  | loglevelOn => exact h
  | loglevelOff => exact h
  | call hpc => exact h.goto (by rw [hpc]; exact Iff.rfl)
  | accept hpc => exact h.goto (by rw [hpc]; exact Iff.rfl)
  | reject hpc => exact h.goto (by rw [hpc]; exact Iff.rfl)
  | lock hpc hfree => exact h.lock hfree trivial
  | time tv hpc => exact h.goto (by rw [hpc]; exact Iff.rfl)
  | convert hpc => exact h.goto (by rw [hpc]; exact Iff.rfl)
  | format hpc => exact h.goto (by rw [hpc]; exact Iff.rfl)
  | write hpc => exact h.goto (by rw [hpc]; exact Iff.rfl)
  | unlock hpc => exact h.unlock (by rw [hpc]; exact trivial) id

omit [DecidableEq ι] in
/-- What the thread that holds the lock has still to write. -/
theorem unwritten_eq (h : s.Exclusive) (hinside : (s.pc t).Inside) :
    s.unwritten strftime = (s.pc t).unwritten strftime := by
  unfold LogState.unwritten
  rw [(h t).mp hinside]
  rfl

/-- A thread outside has nothing to write. -/
theorem unwritten_goto (h : s.Exclusive) (houtside : ¬ (s.pc t).Inside) :
    (s.goto t pc).unwritten strftime = s.unwritten strftime := by
  unfold LogState.unwritten
  rw [mtx_goto]
  cases hmtx : s.mtx with
  | none => rfl
  | some owner =>
    have hne : owner ≠ t := by
      rintro rfl
      exact houtside ((h owner).mpr hmtx)
    rw [Option.map_some, Option.map_some, pc_goto_of_ne hne]

end LogState.Exclusive

/-- The buffer of `localtime` holds the time of the thread that is about to read it. -/
def LogState.Converted (s : LogState ι) : Prop :=
  ∀ t call tv, s.pc t = .formatting call tv → s.tm = tv.sec

theorem LogState.Converted.goto {s : LogState ι} {t : ι} {pc : LogPc} (h : s.Converted)
    (hpc : ∀ call tv, pc ≠ .formatting call tv) : (s.goto t pc).Converted := by
  intro t' call tv ht'
  by_cases ht : t' = t
  · rw [ht, pc_goto_self] at ht'
    exact absurd ht' (hpc call tv)
  · rw [pc_goto_of_ne ht] at ht'
    exact h t' call tv ht'

theorem LogState.Converted.step {s s' : LogState ι} {l : LogLabel ι} (h : s.Converted)
    (hexclusive : s.Exclusive) (hstep : LogStep strftime s l s') : s'.Converted := by
  cases hstep with
  | loglevelOn => exact h
  | loglevelOff => exact h
  | call => exact h.goto fun _ _ heq => by cases heq
  | accept => exact h.goto fun _ _ heq => by cases heq
  | reject => exact h.goto fun _ _ heq => by cases heq
  | lock => exact h.goto fun _ _ heq => by cases heq
  | time => exact h.goto fun _ _ heq => by cases heq
  | @convert t call tv hpc =>
    intro t' call' tv' ht'
    show tv.sec = tv'.sec
    by_cases ht : t' = t
    · rw [ht] at ht'
      have hself := pc_goto_self.symm.trans ht'
      cases hself
      rfl
    · -- no other thread is inside
      have hother : s.pc t' = .formatting call' tv' := (pc_goto_of_ne ht).symm.trans ht'
      have howner := (hexclusive t).mp (by rw [hpc]; exact trivial)
      have howner' := (hexclusive t').mp (by rw [hother]; exact trivial)
      rw [howner] at howner'
      exact absurd (Option.some.inj howner').symm ht
  | format => exact h.goto fun _ _ heq => by cases heq
  | write => exact h.goto fun _ _ heq => by cases heq
  | unlock => exact h.goto fun _ _ heq => by cases heq

/-! ## Records -/

/-- What the log is made of. -/
structure Logged (strftime : ℕ → List UInt8) (content : List UInt8) (tr : List (LogLabel ι))
    (s : LogState ι) (records : List (LogRecord ι)) : Prop where
  text : content ++ records.flatMap (LogRecord.text strftime) =
    s.logfile ++ s.unwritten strftime
  order : records.map (fun record => (record.thread, record.tv)) = times tr
  calls : ∀ t, (records.filter (·.thread = t)).map LogRecord.call ++ (s.pc t).pending =
    accepted t tr

theorem accepted_snoc (t : ι) (tr : List (LogLabel ι)) (l : LogLabel ι) :
    accepted t (tr ++ [l]) = accepted t tr ++ accepted t [l] := List.filterMap_append

omit [DecidableEq ι] in
theorem times_snoc (tr : List (LogLabel ι)) (l : LogLabel ι) :
    times (tr ++ [l]) = times tr ++ times [l] := List.filterMap_append

section Step

variable {content : List UInt8} {tr : List (LogLabel ι)} {l : LogLabel ι} {s s' : LogState ι}
  {records : List (LogRecord ι)} {t : ι} {pc : LogPc}

/-- A step of a thread that makes no new record. -/
theorem Logged.goto (h : Logged strftime content tr s records) (t : ι) (pc : LogPc)
    (hpc : ∀ t', s'.pc t' = (s.goto t pc).pc t')
    (htext : s'.logfile ++ s'.unwritten strftime = s.logfile ++ s.unwritten strftime)
    (htimes : times [l] = []) (hcalls : pc.pending = (s.pc t).pending ++ accepted t [l])
    (hother : ∀ t' ≠ t, accepted t' [l] = []) :
    Logged strftime content (tr ++ [l]) s' records := by
  refine ⟨h.text.trans htext.symm, ?_, ?_⟩
  · rw [times_snoc, htimes, List.append_nil]
    exact h.order
  · intro t'
    rw [accepted_snoc, ← h.calls t', hpc]
    by_cases ht : t' = t
    · rw [ht, pc_goto_self, hcalls, List.append_assoc]
    · rw [pc_goto_of_ne ht, hother t' ht, List.append_nil]

/-- A thread is given its time, and makes a record. -/
theorem Logged.time (h : Logged strftime content tr s records) (hexclusive : s.Exclusive)
    {call : LogCall} (tv : Timeval) (hpc : s.pc t = .timing call) :
    Logged strftime content (tr ++ [.time t tv]) (s.goto t (.converting call tv))
      (records ++ [⟨t, call, tv⟩]) := by
  have hinside : (s.pc t).Inside := by
    rw [hpc]
    exact trivial
  have hnothing : s.unwritten strftime = [] := by
    rw [hexclusive.unwritten_eq hinside, hpc]
    rfl
  have hexclusive' : (s.goto t (.converting call tv)).Exclusive :=
    hexclusive.goto (by rw [hpc]; exact Iff.rfl)
  have hrecord : (s.goto t (.converting call tv)).unwritten strftime =
      LogRecord.text strftime ⟨t, call, tv⟩ := by
    rw [hexclusive'.unwritten_eq (t := t) (by rw [pc_goto_self]; exact trivial), pc_goto_self]
    rfl
  refine ⟨?_, ?_, ?_⟩
  · have htext := h.text
    rw [hnothing, List.append_nil] at htext
    rw [List.flatMap_append, ← List.append_assoc, htext, hrecord, logfile_goto,
      List.flatMap_singleton]
  · rw [List.map_append, h.order, times_snoc]
    rfl
  · intro t'
    have hnone : accepted t' [.time t tv] = [] := rfl
    rw [accepted_snoc, ← h.calls t', hnone, List.append_nil, List.filter_append, List.map_append]
    by_cases ht : t' = t
    · subst ht
      have hsingle : [(⟨t', call, tv⟩ : LogRecord ι)].filter (·.thread = t') = [⟨t', call, tv⟩] :=
        List.filter_cons_of_pos (decide_eq_true rfl)
      rw [pc_goto_self, hsingle, hpc]
      exact List.append_nil _
    · have hsingle : [(⟨t, call, tv⟩ : LogRecord ι)].filter (·.thread = t') = [] :=
        List.filter_cons_of_neg (fun heq => ht (of_decide_eq_true heq).symm)
      rw [pc_goto_of_ne ht, hsingle, List.map_nil, List.append_nil]

/-- A step of a thread that does not hold the lock. -/
theorem Logged.outside (h : Logged strftime content tr s records) (hexclusive : s.Exclusive)
    (houtside : ¬ (s.pc t).Inside) (htimes : times [l] = [])
    (hcalls : pc.pending = (s.pc t).pending ++ accepted t [l])
    (hother : ∀ t' ≠ t, accepted t' [l] = []) :
    Logged strftime content (tr ++ [l]) (s.goto t pc) records := by
  refine h.goto t pc (fun _ => rfl) ?_ htimes hcalls hother
  rw [hexclusive.unwritten_goto houtside, logfile_goto]

/-- A step of the thread that holds the lock. -/
theorem Logged.inside (h : Logged strftime content tr s records) (pc : LogPc)
    (hexclusive : s.Exclusive)
    (hexclusive' : s'.Exclusive) (hpc : ∀ t', s'.pc t' = (s.goto t pc).pc t')
    (hinside : (s.pc t).Inside) (hinside' : pc.Inside)
    (htext : s'.logfile ++ pc.unwritten strftime = s.logfile ++ (s.pc t).unwritten strftime)
    (htimes : times [l] = []) (hcalls : pc.pending = (s.pc t).pending)
    (hnone : ∀ t', accepted t' [l] = []) :
    Logged strftime content (tr ++ [l]) s' records := by
  have hself : s'.pc t = pc := (hpc t).trans pc_goto_self
  refine h.goto t pc hpc ?_ htimes ?_ fun t' _ => hnone t'
  · rw [hexclusive.unwritten_eq hinside, hexclusive'.unwritten_eq (by rw [hself]; exact hinside'),
      hself]
    exact htext
  · rw [hnone, List.append_nil, hcalls]

theorem Logged.step (h : Logged strftime content tr s records) (hexclusive : s.Exclusive)
    (hconverted : s.Converted) (hstep : LogStep strftime s l s') :
    ∃ records', Logged strftime content (tr ++ [l]) s' records' := by
  have hexclusive' := hexclusive.step hstep
  cases hstep with
  | loglevelOn =>
    refine ⟨records, h.text, ?_, ?_⟩
    · rw [times_snoc, h.order]
      exact (List.append_nil _).symm
    · intro t
      rw [accepted_snoc, ← h.calls t]
      exact (List.append_nil _).symm
  | loglevelOff =>
    refine ⟨records, h.text, ?_, ?_⟩
    · rw [times_snoc, h.order]
      exact (List.append_nil _).symm
    · intro t
      rw [accepted_snoc, ← h.calls t]
      exact (List.append_nil _).symm
  | call hpc =>
    exact ⟨records, h.outside hexclusive (by rw [hpc]; exact id) rfl (by rw [hpc]; rfl)
      fun _ _ => rfl⟩
  | @accept t call hpc =>
    refine ⟨records, h.outside hexclusive (by rw [hpc]; exact id) rfl ?_ ?_⟩
    · have hself : accepted t [.accept t call] = [call] := by
        have hsome : acceptedCall t (.accept t call) = some call := if_pos rfl
        unfold accepted
        rw [List.filterMap_cons_some hsome, List.filterMap_nil]
      rw [hpc, hself]
      rfl
    · intro t' ht
      have hnone : acceptedCall t' (.accept t call) = none := if_neg (Ne.symm ht)
      unfold accepted
      rw [List.filterMap_cons_none hnone, List.filterMap_nil]
  | reject hpc =>
    exact ⟨records, h.outside hexclusive (by rw [hpc]; exact id) rfl (by rw [hpc]; rfl)
      fun _ _ => rfl⟩
  | @lock t call hpc hfree =>
    refine ⟨records, h.goto t (.timing call) (fun _ => rfl) ?_ rfl (by rw [hpc]; rfl)
      fun _ _ => rfl⟩
    have hself : ({ s.goto t (.timing call) with mtx := some t } : LogState ι).pc t =
        .timing call := pc_goto_self
    rw [hexclusive'.unwritten_eq (t := t) (by rw [hself]; exact trivial), hself]
    unfold LogState.unwritten
    rw [hfree]
    rfl
  | time tv hpc => exact ⟨_, h.time hexclusive tv hpc⟩
  | convert hpc =>
    exact ⟨records, h.inside _ hexclusive hexclusive' (fun _ => rfl) (by rw [hpc]; exact trivial)
      trivial (by rw [hpc]; rfl) rfl (by rw [hpc]; rfl) fun _ => rfl⟩
  | @format t call tv hpc =>
    refine ⟨records, h.inside _ hexclusive hexclusive' (fun _ => rfl) (by rw [hpc]; exact trivial)
      trivial ?_ rfl (by rw [hpc]; rfl) fun _ => rfl⟩
    rw [hpc, hconverted t call tv hpc]
    rfl
  | @write t piece pieces hpc =>
    refine ⟨records, h.inside _ hexclusive hexclusive' (fun _ => rfl) (by rw [hpc]; exact trivial)
      trivial ?_ rfl (by rw [hpc]; rfl) fun _ => rfl⟩
    rw [hpc]
    exact List.append_assoc ..
  | @unlock t hpc =>
    refine ⟨records, h.goto t .idle (fun _ => rfl) ?_ rfl (by rw [hpc]; rfl)
      fun _ _ => rfl⟩
    rw [hexclusive.unwritten_eq (t := t) (by rw [hpc]; exact trivial), hpc]
    rfl

end Step

/-! ## Runs -/

/-- What holds after the steps `tr`. -/
structure LogInv (strftime : ℕ → List UInt8) (content : List UInt8) (tr : List (LogLabel ι))
    (s : LogState ι) : Prop where
  exclusive : s.Exclusive
  converted : s.Converted
  logged : ∃ records, Logged strftime content tr s records

section Runs

variable {levelEn : Loglevel → Bool} {tm : ℕ} {content : List UInt8} {tr : List (LogLabel ι)}
  {s : LogState ι}

theorem logInv_init :
    LogInv strftime content ([] : List (LogLabel ι)) (LogState.init levelEn tm content) := by
  refine ⟨?_, ?_, [], ?_, rfl, fun _ => rfl⟩
  · intro t
    exact ⟨fun hinside => absurd hinside id, fun heq => by cases heq⟩
  · intro t call tv heq
    cases heq
  · rfl

theorem LogInv.step {l : LogLabel ι} {s' : LogState ι} (h : LogInv strftime content tr s)
    (hstep : LogStep strftime s l s') : LogInv strftime content (tr ++ [l]) s' := by
  obtain ⟨records, hlogged⟩ := h.logged
  exact ⟨h.exclusive.step hstep, h.converted.step h.exclusive hstep,
    hlogged.step h.exclusive h.converted hstep⟩

theorem logInv_of_run (h : Run (LogStep strftime) (LogState.init levelEn tm content) tr s) :
    LogInv strftime content tr s :=
  h.history logInv_init fun _ _ _ _ hinv hstep => hinv.step hstep

/-- However the threads interrupt each other, the log is made of whole records, but for what the
thread with the lock has still to write. They stand in the order of their times, and the records of
one thread are its calls with a level that was on, each of them once and in order. -/
theorem logger_writes_whole_records
    (h : Run (LogStep strftime) (LogState.init levelEn tm content) tr s) :
    ∃ records : List (LogRecord ι),
      content ++ records.flatMap (LogRecord.text strftime) =
        s.logfile ++ s.unwritten strftime ∧
      (s.mtx = none → content ++ records.flatMap (LogRecord.text strftime) = s.logfile) ∧
      records.map (fun record => (record.thread, record.tv)) = times tr ∧
      ∀ t, (records.filter (·.thread = t)).map LogRecord.call ++ (s.pc t).pending =
        accepted t tr := by
  obtain ⟨records, hlogged⟩ := (logInv_of_run h).logged
  refine ⟨records, hlogged.text, ?_, hlogged.order, hlogged.calls⟩
  intro hfree
  have hnothing : s.unwritten strftime = [] := by
    unfold LogState.unwritten
    rw [hfree]
    rfl
  rw [hlogged.text, hnothing, List.append_nil]

/-! ### Two threads -/

def sampleCall : LogCall :=
  ⟨.info, textBytes "v_switch.c", 214, textBytes "main", textBytes "Time to refresh MAC's age!\n"⟩

/-- Both threads want to write, and the second one has its time. -/
def sampleTrace : List (LogLabel Bool) :=
  [.call true sampleCall, .call false sampleCall, .accept true sampleCall,
    .accept false sampleCall, .lock false, .time false ⟨86400, 5000⟩]

theorem run_sampleTrace (strftime : ℕ → List UInt8) : ∃ s, s.mtx = some false ∧
    s.pc false = .converting sampleCall ⟨86400, 5000⟩ ∧
    Run (LogStep strftime) (LogState.init (fun _ => true) 0 []) sampleTrace s := by
  have h1 : LogStep strftime (LogState.init (fun _ => true) 0 []) (.call true sampleCall) _ :=
    .call rfl
  have h2 := (Run.single h1).tail (l := .call false sampleCall) (.call rfl)
  have h3 := h2.tail (l := .accept true sampleCall) (.accept rfl rfl)
  have h4 := h3.tail (l := .accept false sampleCall) (.accept rfl rfl)
  have h5 := h4.tail (l := .lock false) (.lock rfl rfl)
  have h6 := h5.tail (l := .time false ⟨86400, 5000⟩) (.time _ rfl)
  exact ⟨_, rfl, pc_goto_self, h6⟩

theorem logger_writes_whole_records_two : ∃ (s : LogState Bool) (records : List (LogRecord Bool)),
    s.mtx = some false ∧
      records.flatMap (LogRecord.text fun _ => textBytes "1970-01-02 00:00:00") =
        s.logfile ++ s.unwritten (fun _ => textBytes "1970-01-02 00:00:00") ∧
      records.map (fun record => (record.thread, record.tv)) = [(false, ⟨86400, 5000⟩)] ∧
      ∀ t, (records.filter (·.thread = t)).map LogRecord.call ++ (s.pc t).pending =
        [sampleCall] := by
  obtain ⟨s, hmtx, -, hrun⟩ := run_sampleTrace fun _ => textBytes "1970-01-02 00:00:00"
  obtain ⟨records, htext, -, horder, hcalls⟩ := logger_writes_whole_records hrun
  refine ⟨s, records, hmtx, htext, horder, ?_⟩
  intro t
  rw [hcalls]
  cases t <;> rfl

end Runs

/-! ## Every call ends -/

/-- How many steps a thread has to go, at most. -/
def LogPc.remaining : LogPc → ℕ
  | .idle => 0
  | .testing _ => 10
  | .locking _ => 9
  | .timing _ => 8
  | .converting .. => 7
  | .formatting .. => 6
  | .writing pieces => pieces.length + 1

section Progress

variable {levelEn : Loglevel → Bool} {tm : ℕ} {content : List UInt8} {tr tr' : List (LogLabel ι)}
  {s s' : LogState ι} {l : LogLabel ι}

/-- A step inside of `logprint` takes one thread on. -/
theorem remaining_step (hstep : LogStep strftime s l s') (hl : l.Internal) :
    ∃ t, (s'.pc t).remaining < (s.pc t).remaining ∧ ∀ t' ≠ t, s'.pc t' = s.pc t' := by
  cases hstep with
  | loglevelOn => exact absurd hl id
  | loglevelOff => exact absurd hl id
  | call => exact absurd hl id
  | @accept t call hpc =>
    refine ⟨t, ?_, fun t' ht => pc_goto_of_ne ht⟩
    rw [pc_goto_self, hpc]
    exact Nat.lt_succ_self 9
  | @reject t call hpc =>
    refine ⟨t, ?_, fun t' ht => pc_goto_of_ne ht⟩
    rw [pc_goto_self, hpc]
    exact Nat.succ_pos 9
  | @lock t call hpc =>
    refine ⟨t, ?_, fun t' ht => pc_goto_of_ne ht⟩
    show ((s.goto t _).pc t).remaining < _
    rw [pc_goto_self, hpc]
    exact Nat.lt_succ_self 8
  | @time t call tv hpc =>
    refine ⟨t, ?_, fun t' ht => pc_goto_of_ne ht⟩
    rw [pc_goto_self, hpc]
    exact Nat.lt_succ_self 7
  | @convert t call tv hpc =>
    refine ⟨t, ?_, fun t' ht => pc_goto_of_ne ht⟩
    show ((s.goto t _).pc t).remaining < _
    rw [pc_goto_self, hpc]
    exact Nat.lt_succ_self 6
  | @format t call tv hpc =>
    refine ⟨t, ?_, fun t' ht => pc_goto_of_ne ht⟩
    rw [pc_goto_self, hpc]
    exact Nat.lt_succ_self 5
  | @write t piece pieces hpc =>
    refine ⟨t, ?_, fun t' ht => pc_goto_of_ne ht⟩
    show ((s.goto t _).pc t).remaining < _
    rw [pc_goto_self, hpc]
    exact Nat.lt_succ_self _
  | @unlock t hpc =>
    refine ⟨t, ?_, fun t' ht => pc_goto_of_ne ht⟩
    show ((s.goto t _).pc t).remaining < _
    rw [pc_goto_self, hpc]
    exact Nat.succ_pos 0

theorem length_add_remaining_le [Fintype ι] (h : Run (LogStep strftime) s tr' s')
    (hinternal : ∀ l ∈ tr', l.Internal) :
    tr'.length + ∑ t, (s'.pc t).remaining ≤ ∑ t, (s.pc t).remaining := by
  induction h with
  | refl => exact (Nat.zero_add _).le
  | @tail tr l s' s'' _ hl ih =>
    have hle := ih fun l hmem => hinternal l (List.mem_append_left _ hmem)
    have hlast : l.Internal := hinternal l (List.mem_append_right _ (List.mem_singleton_self l))
    obtain ⟨t, hlt, hother⟩ := remaining_step hl hlast
    have hall : ∀ t', (s''.pc t').remaining ≤ (s'.pc t').remaining := by
      intro t'
      by_cases ht : t' = t
      · rw [ht]
        exact hlt.le
      · rw [hother t' ht]
    have hsum : ∑ t, (s''.pc t).remaining < ∑ t, (s'.pc t).remaining :=
      Finset.sum_lt_sum (fun t' _ => hall t') ⟨t, Finset.mem_univ t, hlt⟩
    rw [List.length_append, List.length_singleton]
    omega

/-- A thread with the lock can go on. -/
theorem exists_step_of_inside {t : ι} (h : (s.pc t).Inside) :
    ∃ l s', l.Internal ∧ LogStep strftime s l s' := by
  cases hpc : s.pc t with
  | idle =>
    rw [hpc] at h
    exact absurd h id
  | testing =>
    rw [hpc] at h
    exact absurd h id
  | locking =>
    rw [hpc] at h
    exact absurd h id
  | timing call => exact ⟨.time t ⟨0, 0⟩, _, trivial, .time ⟨0, 0⟩ hpc⟩
  | converting call tv => exact ⟨.convert t, _, trivial, .convert hpc⟩
  | formatting call tv => exact ⟨.format t, _, trivial, .format hpc⟩
  | writing pieces =>
    cases pieces with
    | nil => exact ⟨.unlock t, _, trivial, .unlock hpc⟩
    | cons piece pieces => exact ⟨.write t piece, _, trivial, .write hpc⟩

/-- As long as a thread is inside of `logprint`, some thread can go on. -/
theorem exists_step (hexclusive : s.Exclusive) {t : ι} (h : s.pc t ≠ .idle) :
    ∃ l s', l.Internal ∧ LogStep strftime s l s' := by
  cases hpc : s.pc t with
  | idle => exact absurd hpc h
  | testing call =>
    cases hlevel : s.levelEn call.level with
    | true => exact ⟨.accept t call, _, trivial, .accept hpc hlevel⟩
    | false => exact ⟨.reject t call, _, trivial, .reject hpc hlevel⟩
  | locking call =>
    cases hmtx : s.mtx with
    | none => exact ⟨.lock t, _, trivial, .lock hpc hmtx⟩
    | some owner => exact exists_step_of_inside ((hexclusive owner).mpr hmtx)
  | _ => exact exists_step_of_inside (t := t) (by rw [hpc]; exact trivial)

/-- In whatever order the threads go on, after a bounded number of steps all calls of `logprint`
have ended: there is no deadlock. -/
theorem logger_drains [Fintype ι]
    (h : Run (LogStep strftime) (LogState.init levelEn tm content) tr s)
    (h' : Run (LogStep strftime) s tr' s') (hinternal : ∀ l ∈ tr', l.Internal) :
    tr'.length ≤ ∑ t, (s.pc t).remaining ∧
      ((∀ l s'', l.Internal → ¬ LogStep strftime s' l s'') → ∀ t, s'.pc t = .idle) := by
  constructor
  · have hle := length_add_remaining_le h' hinternal
    omega
  · intro hstuck t
    by_contra hactive
    have hgoes : ∃ l s'', l.Internal ∧ LogStep strftime s' l s'' :=
      exists_step (logInv_of_run (h.append h')).exclusive hactive
    obtain ⟨l, s'', hl, hstep⟩ := hgoes
    exact hstuck l s'' hl hstep

/-- The thread with the lock goes on. -/
theorem logger_drains_two : ∃ s s' : LogState Bool,
    LogStep (fun _ => textBytes "1970-01-02 00:00:00") s (.convert false) s' ∧
      1 ≤ ∑ t, (s.pc t).remaining ∧
      ((∀ l s'', l.Internal → ¬ LogStep (fun _ => textBytes "1970-01-02 00:00:00") s' l s'') →
        ∀ t, s'.pc t = .idle) := by
  obtain ⟨s, -, hpc, hrun⟩ := run_sampleTrace fun _ => textBytes "1970-01-02 00:00:00"
  have hstep : LogStep (fun _ => textBytes "1970-01-02 00:00:00") s (.convert false) _ :=
    .convert hpc
  obtain ⟨hle, hidle⟩ := logger_drains hrun (Run.single hstep)
    fun l hmem => by rw [List.mem_singleton.mp hmem]; exact trivial
  exact ⟨s, _, hstep, hle, hidle⟩

end Progress

end CDevHws.FinalProject
