import CDevHws.Hw20.Demon

/-!
# Proofs: the socket that is removed

The name of the socket is computed twice, before `bind` and before `unlink`. In between, SIGHUP can
change the name in the configuration, but the socket stays the one that was bound.
-/

namespace CDevHws.Hw20

open Transition (Run)

variable {opts : Options}

/-- The name of the socket in the last configuration that SIGHUP has read and that has one. -/
def lastSocket (tr : List Act) : Option String :=
  tr.foldl (fun name act =>
    match act with
    | .sighup config => config.socket.or name
    | _ => name) none

theorem lastSocket_sighup (tr : List Act) (config : Config) :
    lastSocket (tr ++ [.sighup config]) = config.socket.or (lastSocket tr) :=
  List.foldl_concat ..

theorem lastSocket_other {act : Act} (hact : ∀ config, act ≠ .sighup config) (tr : List Act) :
    lastSocket (tr ++ [act]) = lastSocket tr := by
  unfold lastSocket
  rw [List.foldl_concat]
  cases act with
  | sighup config => exact absurd rfl (hact config)
  | enter => rfl
  | stop => rfl
  | acceptFailed => rfl
  | serve text => rfl
  | sigterm => rfl
  | unlink path => rfl

/-- After `unlink`, nothing happens. -/
theorem not_step_exited {d d' : Daemon} {act : Act} (hphase : d.phase = .exited) :
    ¬ Step opts d act d' := by
  intro h
  cases h with
  | enter hcheck hwork => cases hphase.symm.trans hcheck
  | stop hcheck hwork => cases hphase.symm.trans hcheck
  | acceptFailed haccept => cases hphase.symm.trans haccept
  | silent haccept => cases hphase.symm.trans haccept
  | serve size haccept => cases hphase.symm.trans haccept
  | sigterm hgoes => exact hgoes hphase
  | sighup config hgoes => exact hgoes hphase
  | unlink hleave => cases hphase.symm.trans hleave

theorem run_exited {d d' : Daemon} {tr : List Act} (hphase : d.phase = .exited)
    (h : Run (Step opts) d tr d') : tr = [] := by
  have hstays : tr = [] ∧ d' = d := by
    refine h.history (R := fun tr d' => tr = [] ∧ d' = d) ⟨rfl, rfl⟩ ?_
    rintro tr d₁ act d₂ ⟨-, rfl⟩ hstep
    exact absurd hstep (not_step_exited hphase)
  exact hstays.1

/-- The name in the configuration is the last one read, until it is freed. -/
theorem socketnameConf_run {d₀ d : Daemon} {tr : List Act} (h : Run (Step opts) d₀ tr d)
    (hphase : d.phase ≠ .exited) :
    d.socketnameConf = (lastSocket tr).or d₀.socketnameConf := by
  refine h.history (R := fun tr d => d.phase ≠ .exited →
    d.socketnameConf = (lastSocket tr).or d₀.socketnameConf) (fun _ => rfl) ?_ hphase
  intro tr d₁ act d₂ ih hstep hphase₂
  have hphase₁ : d₁.phase ≠ .exited := fun hexited => not_step_exited hexited hstep
  have hconf := ih hphase₁
  have hother : ∀ act, (∀ config, act ≠ .sighup config) →
      d₁.socketnameConf = (lastSocket (tr ++ [act])).or d₀.socketnameConf := by
    intro act hact
    rw [lastSocket_other hact]
    exact hconf
  cases hstep with
  | enter hcheck hwork => exact hother .enter nofun
  | stop hcheck hwork => exact hother .stop nofun
  | acceptFailed haccept => exact hother .acceptFailed nofun
  | silent haccept => exact hother (.serve none) nofun
  | serve size haccept => exact hother (.serve _) nofun
  | sigterm hgoes => exact hother .sigterm nofun
  | sighup config hgoes =>
    rw [lastSocket_sighup, Option.or_assoc, ← hconf]
    rfl
  | unlink hleave => exact absurd rfl hphase₂

/-- The path that `unlink` gets: the name of the socket, computed anew. -/
theorem unlink_path {d₀ d : Daemon} {tr : List Act} {path : String}
    (h : Run (Step opts) d₀ tr d) (hmem : .unlink path ∈ tr) :
    path = socketname opts { d₀ with socketnameConf := (lastSocket tr).or d₀.socketnameConf } := by
  obtain ⟨before, after, rfl⟩ := List.append_of_mem hmem
  obtain ⟨d₁, d₂, hbefore, hunlink, hafter⟩ := h.split_at
  cases hunlink with
  | unlink hphase =>
    have hconf := socketnameConf_run hbefore (by rw [hphase]; exact Phase.noConfusion)
    have hlast : lastSocket (before ++ [.unlink (socketname opts d₁)]) = lastSocket before := by
      apply lastSocket_other
      intro config h
      cases h
    rw [run_exited rfl hafter, hlast]
    unfold socketname
    rw [hconf]

/-! ## The bound socket -/

theorem start_spec {config : Config} {bound : String} {d₀ : Daemon}
    (h : start opts config = some (bound, d₀)) : bound = socketname opts d₀ := by
  unfold start at h
  simp only at h
  split at h
  · obtain ⟨rfl, rfl⟩ := Prod.mk.inj (Option.some.inj h)
    rfl
  · cases h

/-- With the option `-s`, the daemon removes the socket that it has bound. -/
theorem unlink_bound_of_option {name : String} (hopts : opts.socketname = some name)
    {config : Config} {bound : String} {d₀ d : Daemon}
    (hstart : start opts config = some (bound, d₀))
    {tr : List Act} {path : String} (hrun : Run (Step opts) d₀ tr d) (hmem : .unlink path ∈ tr) :
    path = bound := by
  rw [unlink_path hrun hmem, start_spec hstart]
  unfold socketname
  rw [hopts]

/-- In every run without the option `-s`, the daemon removes the socket that it has bound if and
only if the last configuration read by SIGHUP that has a name of a socket has the name of this
one. -/
theorem unlink_bound_iff (hopts : opts.socketname = none) {config : Config} {bound : String}
    {d₀ d : Daemon} (hstart : start opts config = some (bound, d₀)) {tr : List Act} {path : String}
    (hrun : Run (Step opts) d₀ tr d) (hmem : .unlink path ∈ tr) :
    path = bound ↔ ∀ name, lastSocket tr = some name → name = bound := by
  have hpath := unlink_path hrun hmem
  have hbound := start_spec hstart
  cases hlast : lastSocket tr with
  | none =>
    rw [hlast] at hpath
    constructor
    · intro _ name hname
      cases hname
    · intro _
      rw [hpath, hbound]
      rfl
  | some last =>
    rw [hlast] at hpath
    have hsame : path = last := by
      rw [hpath]
      unfold socketname
      rw [hopts]
      rfl
    rw [hsame]
    constructor
    · rintro heq name hname
      rw [← Option.some.inj hname, heq]
    · intro hall
      exact hall last rfl

/-! ## A run with a new name -/

/-- A daemon without options that is bound to "a". -/
theorem run_reload (name : String) : ∃ d₀ d,
    start ⟨none, none⟩ ⟨some "a", none⟩ = some ("a", d₀) ∧
    Run (Step ⟨none, none⟩) d₀
      [.enter, .sighup ⟨some name, none⟩, .acceptFailed, .unlink name] d := by
  refine ⟨⟨some "a", none, false, .check⟩, ⟨none, none, false, .exited⟩, rfl, ?_⟩
  have henter : Run (Step ⟨none, none⟩) ⟨some "a", none, false, .check⟩ [.enter]
      ⟨some "a", none, false, .accept⟩ :=
    Run.single (.enter rfl rfl)
  have hsighup := henter.tail (.sighup ⟨some name, none⟩ Phase.noConfusion)
  exact (hsighup.tail (.acceptFailed rfl)).tail (.unlink rfl)

/-- The daemon is bound to "a", SIGHUP reads the name "b", and "b" is removed. -/
theorem unlink_other : ∃ d₀ d tr, start ⟨none, none⟩ ⟨some "a", none⟩ = some ("a", d₀) ∧
    Run (Step ⟨none, none⟩) d₀ tr d ∧ .unlink "b" ∈ tr := by
  obtain ⟨d₀, d, hstart, hrun⟩ := run_reload "b"
  exact ⟨d₀, d, _, hstart, hrun, by simp⟩

/-- The same name again. -/
theorem unlink_bound_iff_same : ∃ d₀ d tr, start ⟨none, none⟩ ⟨some "a", none⟩ = some ("a", d₀) ∧
    Run (Step ⟨none, none⟩) d₀ tr d ∧ .unlink "a" ∈ tr ∧
    ∀ name, lastSocket tr = some name → name = "a" := by
  obtain ⟨d₀, d, hstart, hrun⟩ := run_reload "a"
  have hmem : Act.unlink "a" ∈ [.enter, .sighup ⟨some "a", none⟩, .acceptFailed, .unlink "a"] := by
    simp
  exact ⟨d₀, d, _, hstart, hrun, hmem, (unlink_bound_iff rfl hstart hrun hmem).mp rfl⟩

end CDevHws.Hw20
