/-
Module: SymbolicCalculus.Proofs.WorkspaceRuns
Layer: Proofs
Purpose: What holds along a run of commands on a workspace. The workspace behind a refused command
  is the one before it, so a refused command leaves no trace: without it, all other commands are
  answered as they are with it. The settings in force can always be used, since only a command that
  has checked them puts others in their place.
Trusted boundary: none
Main exports: Workspace.accepted, Workspace.settings_of_perform, Workspace.eq_of_refused,
  Workspace.performAll_accepted, Workspace.validate_of_performAll
-/
import SymbolicCalculus.Workspace

namespace SymbolicCalculus.Workspace

variable {w next : Workspace} {command : Command} {commands : List Command} {finding : Finding}
  {refusal : Refusal}

/-! ### Refused commands -/

theorem performAll_cons (w : Workspace) (command : Command) (commands : List Command) :
    (w.performAll (command :: commands)).2 =
      (w.after (w.perform command).outcome, (w.perform command).outcome.map (·.2)) ::
        ((w.after (w.perform command).outcome).performAll commands).2 := rfl

/-- In a run, the workspace behind a refused command is the one before it. -/
theorem eq_of_refused {place : Nat}
    (h : (w.performAll commands).2[place]? = some (next, .error refusal)) :
    (w :: (w.performAll commands).2.map (·.1))[place]? = some next := by
  induction commands generalizing w place with
  | nil => cases h
  | cons command rest ih =>
      rw [performAll_cons] at h ⊢
      cases place with
      | succ place =>
          rw [List.getElem?_cons_succ] at h ⊢
          exact ih h
      | zero =>
          obtain ⟨hnext, hanswer⟩ := Prod.mk.inj (Option.some.inj h)
          cases houtcome : (w.perform command).outcome with
          | ok result =>
              rw [houtcome] at hanswer
              cases hanswer
          | error fault =>
              rw [houtcome, after_error] at hnext
              rw [List.getElem?_cons_zero, hnext]

/-- The commands of a run that are not refused, each tried on what those before it left. -/
def accepted (w : Workspace) : List Command → List Command
  | [] => []
  | command :: rest =>
      match (w.perform command).outcome with
      | .ok (next, _) => command :: next.accepted rest
      | .error _ => w.accepted rest

/-- Without the refused commands of a run, the others are answered as they are with them. -/
theorem performAll_accepted (w : Workspace) (commands : List Command) :
    (w.performAll (w.accepted commands)).2 =
      (w.performAll commands).2.filter fun answer => answer.2.isOk := by
  induction commands generalizing w with
  | nil => rfl
  | cons command rest ih =>
      rw [accepted, performAll_cons]
      cases houtcome : (w.perform command).outcome with
      | ok result =>
          obtain ⟨next, finding⟩ := result
          rw [performAll_cons, houtcome, List.filter_cons_of_pos rfl]
          exact congrArg _ (ih next)
      | error refusal =>
          rw [List.filter_cons_of_neg Bool.false_ne_true, after_error]
          exact ih w

/-! ### The settings in force -/

/-- A command keeps the settings, or puts others in their place that it has checked. -/
theorem settings_of_perform (h : (w.perform command).outcome = .ok (next, finding)) :
    next.settings = w.settings ∨ next.settings.validate = .ok () := by
  obtain ⟨stack, inForce⟩ := w
  cases command with
  | configure settings =>
      obtain ⟨_, hvalid, h⟩ := Logged.outcome_bind_eq_ok_iff.mp h
      cases h
      exact .inr (except_mapError_eq_ok_iff.mp hvalid)
  | read text =>
      obtain ⟨_, -, h⟩ := Logged.outcome_bind_eq_ok_iff.mp h
      cases h
      exact .inl rfl
  | push e =>
      cases h
      exact .inl rfl
  | differentiate | reread =>
      cases stack with
      | nil => cases h
      | cons e rest =>
          obtain ⟨_, -, h⟩ := Logged.outcome_bind_eq_ok_iff.mp h
          cases h
          exact .inl rfl
  | call _ | derivativeAt _ | duplicate | drop | mentions _ | draw =>
      cases stack with
      | nil => cases h
      | cons e rest =>
          cases h
          exact .inl rfl
  | combine _ | swap | compare =>
      cases stack with
      | nil => cases h
      | cons first rest =>
          cases rest with
          | nil => cases h
          | cons second others =>
              cases h
              exact .inl rfl

/-- In a run that begins with settings that can be used, they always can. -/
theorem validate_of_performAll (hsettings : w.settings.validate = .ok ()) :
    ∀ answer ∈ (w.performAll commands).2, answer.1.settings.validate = .ok () := by
  induction commands generalizing w with
  | nil => nofun
  | cons command rest ih =>
      have hnext : (w.after (w.perform command).outcome).settings.validate = .ok () := by
        cases houtcome : (w.perform command).outcome with
        | error refusal => exact hsettings
        | ok result =>
            obtain ⟨next, finding⟩ := result
            obtain hkept | hvalid := settings_of_perform houtcome
            · exact (congrArg Settings.validate hkept).trans hsettings
            · exact hvalid
      rw [performAll_cons, List.forall_mem_cons]
      exact ⟨hnext, ih hnext⟩

end SymbolicCalculus.Workspace
