import ScriptMachine.Proofs.Respecting

/-!
# What removals do to programs

When a host removes a global or a command, those valid programs become stale which the machine
knows, from its cache or its background, and whose code refers to the removed name.  Nothing else
becomes of any program: those that only the host holds stay as they are, and so do those whose code
does not mention the name.  A program that is stale stays so, whatever the host asks for next.

Main results:

- {lit}`Session.after_orderly`: what a series of requests keeps.
- {lit}`Session.removals_heeded`: programs that refer to what was removed are retired.
- {lit}`Session.removals_exact`: everything that a removal changes.
-/

namespace ScriptMachine

open Text

/-! ## Series of requests -/

/-- The state in which an outcome ends. -/
def Outcome.state? {σ ε α : Type} : Outcome σ ε α → Option σ
  | .done _ s => some s
  | .failed _ s => some s
  | .exhausted => none

/-- What holds of the state in which an outcome ends. -/
theorem Outcome.Ends.of_state? {σ ε α : Type} {P : σ → Prop} {outcome : Outcome σ ε α} {s : σ}
    (h : outcome.Ends P) (hstate : outcome.state? = some s) : P s := by
  cases outcome with
  | done x t =>
    cases hstate
    exact h
  | failed e t =>
    cases hstate
    exact h
  | exhausted => cases hstate

namespace Session

variable {s : Session}

/-- The session behind some requests, each of which is answered or refused. -/
def after (fuel : Nat) : List Request → Session → Option Session
  | [], s => some s
  | request :: rest, s => (perform fuel request s).state?.bind (after fuel rest)

/-- Requests keep a session orderly, and programs that are not valid do not become valid. -/
theorem after_orderly {fuel : Nat} {requests : List Request} {t : Session} (h : s.Orderly)
    (hafter : after fuel requests s = some t) :
    t.Orderly ∧ ∀ program, t.machine.isValid program = true → s.machine.isValid program = true := by
  induction requests generalizing s with
  | nil =>
    cases hafter
    exact ⟨h, fun _ hvalid => hvalid⟩
  | cons request rest ih =>
    rcases Option.bind_eq_some_iff.1 hafter with ⟨next, hnext, hrest⟩
    have hrespects := (perform_respects fuel request h).of_state? hnext
    rcases ih hrespects.orderly hrest with ⟨hlast, hvalid⟩
    exact ⟨hlast, fun program hlater => hrespects.isValid (hvalid program hlater)⟩

/-- The sessions in which a series of requests can end that starts with nothing. -/
theorem orderly_of_start {settings : Settings} {files : FileSystem} {fuel : Nat}
    {requests : List Request} (h : after fuel requests (start (.start settings files)) = some s) :
    s.Orderly :=
  (after_orderly (orderly_start settings files) h).1

/-- A program is not valid, and no requests make it valid again. -/
def Retired (s : Session) (program : Program) : Prop :=
  ∀ (fuel : Nat) (requests : List Request) (t : Session),
    after fuel requests s = some t → t.machine.isValid program = false

/-- A program that is not valid never becomes valid. -/
theorem Orderly.retired (h : s.Orderly) {program : Program}
    (hstale : s.machine.isValid program = false) : s.Retired program := by
  intro fuel requests t hafter
  refine Bool.eq_false_iff.2 fun hvalid => ?_
  rw [(after_orderly h hafter).2 program hvalid] at hstale
  cases hstale

/-! ## Removals -/

/-- The answer to the removal of a global. -/
theorem perform_removeGlobal (fuel : Nat) (name : String) (s : Session) :
    perform fuel (.removeGlobal name) s =
      .done (.value (s.machine.globals.get? name))
        { s with machine := s.machine.removeGlobal name } := rfl

/-- The answer to the removal of a command. -/
theorem perform_unregister (fuel : Nat) (name : String) (s : Session) :
    perform fuel (.unregister name) s =
      match s.machine.unregister name with
      | .error e => .failed (.command e) s
      | .ok (command, machine) => .done (.command command) { s with machine := machine } := by
  simp only [perform, Action.bind_run, Action.get_run]
  cases s.machine.unregister name with
  | error e => rfl
  | ok pair => rfl

/-- A known program is retired whose code refers to a name that is forgotten. -/
theorem Orderly.retired_of_forgets {names : String → Prop} {machine : Machine}
    (h : Orderly { s with machine := machine })
    (hforgets : s.machine.Forgets s.Holds names machine) {program : Program}
    (hknown : program ∈ machine.knownPrograms) {name : String} (hname : names name)
    (hrefers : program.Refers name) : Retired { s with machine := machine } program := by
  have hbefore : program ∈ s.machine.knownPrograms := by
    rw [hforgets.frame] at hknown
    exact hknown
  refine h.retired (Bool.eq_false_iff.2 fun hstill => ?_)
  exact ((hforgets.isValid program (.inl hbefore)).1 hstill).2 ⟨hbefore, name, hname, hrefers⟩

/-- **Removals are heeded.**  Once a global or a command has been removed, no program that the
machine finds in its cache or in the background refers to it and is valid, then or later.  The same
holds if a script removes it, of the programs in the cache, and of those in the background unless
the script has a turn there. -/
theorem removals_heeded {settings : Settings} {files : FileSystem} {fuel : Nat}
    {requests : List Request}
    (h : after fuel requests (start (.start settings files)) = some s) :
    (∀ name v t, perform fuel (.removeGlobal name) s = .done (.value (some v)) t →
      ∀ program ∈ t.machine.knownPrograms, program.Touches (fold name) → t.Retired program) ∧
    (∀ name command t, perform fuel (.unregister name) s = .done (.command command) t →
      ∀ program ∈ t.machine.knownPrograms, ∀ called, program.Calls called →
        command.signature.answersTo called = true → t.Retired program) ∧
    ∀ request t, (perform fuel request s).state? = some t → ∀ program,
      request.Watches s.machine program → program.Bereft s.machine t.machine →
        t.Retired program := by
  have horderly := orderly_of_start h
  refine ⟨fun name v t hrun program hknown htouches => ?_,
    fun name command t hrun program hknown called hcalls hanswers => ?_,
    fun request t hrun program hwatches hbereft => ?_⟩
  · have hafter := perform_respects fuel (.removeGlobal name) horderly
    rw [perform_removeGlobal] at hrun hafter
    rw [Outcome.done.injEq, Answer.value.injEq] at hrun
    rcases hrun with ⟨hvalue, rfl⟩
    have hdeclared : s.machine.globals.contains name = true := by
      rw [← Globals.isSome_get?, hvalue, Option.isSome_some]
    exact hafter.orderly.retired_of_forgets (Machine.Orderly.removeGlobal_forgets horderly name).1
      hknown ⟨rfl, hdeclared⟩ (.inr htouches)
  · have hafter := perform_respects fuel (.unregister name) horderly
    rw [perform_unregister] at hrun hafter
    cases hremoved : s.machine.unregister name with
    | error e =>
      rw [hremoved] at hrun
      cases hrun
    | ok pair =>
      rcases pair with ⟨removed, machine⟩
      rw [hremoved] at hrun hafter
      cases hrun
      have hkey : fold called ∈ command.signature.keys := List.contains_iff_mem.1 hanswers
      exact hafter.orderly.retired_of_forgets
        (Machine.Orderly.unregister_forgets horderly hremoved).1 hknown hkey (.inl ⟨called, hcalls, by simp [sameName_iff]⟩)
  · have hrespects := (perform_respects fuel request horderly).of_state? hrun
    exact hrespects.orderly.retired (hrespects.bereft program hwatches hbereft)

/-- Whether a program is valid and has the given references. -/
def hasReferences (references : References) (s : Session) (program : Program) : Bool :=
  s.machine.isValid program && decide (program.references = some references)

/-- In an orderly session, the references of a valid program are those of its code. -/
theorem Orderly.named (h : s.Orderly) {program : Program} (hheld : program ∈ s.heldPrograms)
    {references : References} (hreferences : s.hasReferences references program = true) :
    s.machine.isValid program = true ∧ program.Named references := by
  simp only [hasReferences, Bool.and_eq_true, decide_eq_true_eq] at hreferences
  rcases hreferences with ⟨hvalid, hreferences⟩
  rcases h.faithful program ((mem_heldPrograms s program).1 hheld)
    ((Machine.isValid_iff _ _).1 hvalid).1 with ⟨found, hfound, hnamed, -⟩
  rw [hreferences] at hfound
  cases hfound
  exact ⟨hvalid, hnamed⟩

/-- Requests that declare a global and compile a script that reads it. -/
def moving : List Request :=
  [.setGlobal "speed" (.text "2"),
    .compile "scriptname Mover\nbegin\nreturn speed * 2\nend" "mover"]

/-- The references of that script. -/
def speed : References := ⟨["return"], ["speed"]⟩

/-- A script in the background is retired when a global is removed that it reads. -/
theorem removals_heeded_moving : ∃ s t program v,
    after 10 (moving ++ [.background "mover" []]) (start (.start .standard .empty)) = some s ∧
      perform 10 (.removeGlobal "SPEED") s = .done (.value (some v)) t ∧
        program ∈ t.machine.knownPrograms ∧ program.Touches "speed" ∧
          s.machine.isValid program = true ∧ t.Retired program := by
  have hmoving : ((after 10 (moving ++ [.background "mover" []])
      (start (.start .standard .empty))).any fun s =>
        s.machine.knownPrograms.any (s.hasReferences speed) &&
          (s.machine.globals.get? "SPEED").isSome) = true := by decide +kernel
  rcases (Option.any_eq_true ..).1 hmoving with ⟨s, hafter, hfacts⟩
  rw [Bool.and_eq_true, List.any_eq_true, Option.isSome_iff_exists] at hfacts
  rcases hfacts with ⟨⟨program, hknown, hreads⟩, v, hvalue⟩
  have horderly := orderly_of_start hafter
  rcases horderly.named ((mem_heldPrograms s program).2 (.inl hknown)) hreads with ⟨hvalid, hnamed⟩
  have htouches : program.Touches "speed" := (hnamed.globals _).1 (List.mem_singleton_self _)
  have hrun := perform_removeGlobal 10 "SPEED" s
  rw [hvalue] at hrun
  have hstill : program ∈ (s.machine.removeGlobal "SPEED").knownPrograms := by
    rw [(Machine.Orderly.removeGlobal_forgets horderly "SPEED").1.frame]
    exact hknown
  exact ⟨s, _, program, v, hafter, hrun, hstill, htouches, hvalid,
    (removals_heeded hafter).1 "SPEED" v _ hrun program hstill htouches⟩

/-- A program that only the host holds stays valid when a global is removed that it reads. -/
theorem not_retired_moving : ∃ s t program v,
    after 10 moving (start (.start .standard .empty)) = some s ∧
      perform 10 (.removeGlobal "speed") s = .done (.value (some v)) t ∧
        program ∈ t.heldPrograms ∧ program.Touches "speed" ∧ t.machine.isValid program = true := by
  have hmoving : ((after 10 moving (start (.start .standard .empty))).any fun s =>
      (s.programs.get? "mover").any (s.hasReferences speed) && s.machine.knownPrograms.isEmpty &&
        (s.machine.globals.get? "speed").isSome) = true := by decide +kernel
  rcases (Option.any_eq_true ..).1 hmoving with ⟨s, hafter, hfacts⟩
  simp only [Bool.and_eq_true, Option.any_eq_true, List.isEmpty_iff, Option.isSome_iff_exists] at hfacts
  rcases hfacts with ⟨⟨⟨program, hname, hreads⟩, hnone⟩, v, hvalue⟩
  have horderly := orderly_of_start hafter
  have hheld : s.Holds program := .inl (Names.mem_held_of_get? hname)
  rcases horderly.named ((mem_heldPrograms s program).2 (.inr hheld)) hreads with ⟨hvalid, hnamed⟩
  have hrun := perform_removeGlobal 10 "speed" s
  rw [hvalue] at hrun
  refine ⟨s, _, program, v, hafter, hrun, (mem_heldPrograms _ _).2 (.inr hheld),
    (hnamed.globals _).1 (List.mem_singleton_self _), ?_⟩
  refine ((Machine.Orderly.removeGlobal_forgets horderly "speed").1.isValid program
    (.inr hheld)).2 ⟨hvalid, fun hforgotten => ?_⟩
  rw [hnone] at hforgotten
  exact List.not_mem_nil hforgotten.1

/-- **What removals leave alone.**  The removal of a global changes the globals and the list of stale
programs, the removal of a command the commands and that list, and nothing else.  Of the programs
that something holds, those become stale that stand in the cache or the background and whose code
calls a command or uses a global of the removed name, or of the name or alias of the removed
command.  All other programs are as valid as before. -/
theorem removals_exact {settings : Settings} {files : FileSystem} {fuel : Nat}
    {requests : List Request} (h : after fuel requests (start (.start settings files)) = some s) :
    (∀ name, ∃ t,
      perform fuel (.removeGlobal name) s = .done (.value (s.machine.globals.get? name)) t ∧
      t = { s with machine := { s.machine with
        globals := s.machine.globals.remove name
        stale := t.machine.stale } } ∧
      ∀ program ∈ s.heldPrograms,
        (t.machine.isValid program = true ↔ s.machine.isValid program = true ∧
          ¬(program ∈ s.machine.knownPrograms ∧ s.machine.globals.contains name = true ∧
            program.Refers name))) ∧
    ∀ name, (s.machine.commands.lookup? name = none ∧
        perform fuel (.unregister name) s = .failed (.command (.notRegistered name)) s) ∨
      ∃ command t, perform fuel (.unregister name) s = .done (.command command) t ∧
        s.machine.commands.unregister name = .ok (command, t.machine.commands) ∧
        t = { s with machine := { s.machine with
          commands := t.machine.commands
          stale := t.machine.stale } } ∧
        ∀ program ∈ s.heldPrograms,
          (t.machine.isValid program = true ↔ s.machine.isValid program = true ∧
            ¬(program ∈ s.machine.knownPrograms ∧
              ∃ key ∈ command.signature.keys, program.Refers key)) := by
  have horderly := orderly_of_start h
  refine ⟨fun name => ?_, fun name => ?_⟩
  · rcases Machine.Orderly.removeGlobal_forgets horderly name with ⟨hforgets, hcommands, hglobals⟩
    have hframe := hforgets.frame
    rw [hcommands, hglobals] at hframe
    refine ⟨_, perform_removeGlobal fuel name s, ?_, fun program hheld => ?_⟩
    · exact congrArg (fun machine => { s with machine := machine }) hframe
    · rw [hforgets.isValid program ((mem_heldPrograms s program).1 hheld)]
      simp only [and_assoc, exists_eq_left]
  · rw [perform_unregister]
    cases hremoved : s.machine.unregister name with
    | error e =>
      rcases Machine.unregister_failed hremoved with ⟨hnone, rfl⟩
      exact .inl ⟨hnone, rfl⟩
    | ok pair =>
      rcases pair with ⟨command, machine⟩
      rcases Machine.Orderly.unregister_forgets horderly hremoved with ⟨hforgets, htable, hglobals⟩
      have hframe := hforgets.frame
      rw [hglobals] at hframe
      refine .inr ⟨command, _, rfl, htable, ?_, fun program hheld => ?_⟩
      · exact congrArg (fun machine => { s with machine := machine }) hframe
      · exact hforgets.isValid program ((mem_heldPrograms s program).1 hheld)

/-- Requests that put two scripts into the background, of which one reads a global and the other
calls a command. -/
def talking : List Request :=
  moving ++ [.background "mover" [],
    .compile "scriptname Talker\nbegin\nprintc(\"hi\")\nend" "talker", .background "talker" []]

/-- The references of the second script. -/
def printer : References := ⟨["printtoconsole"], []⟩

/-- Of two scripts in the background, the removal of a global makes the one stale that reads it. -/
theorem removals_exact_talking : ∃ s t mover talker,
    after 10 talking (start (.start .standard .empty)) = some s ∧
      perform 10 (.removeGlobal "SPEED") s = .done (.value (s.machine.globals.get? "SPEED")) t ∧
        mover ∈ s.machine.knownPrograms ∧ talker ∈ s.machine.knownPrograms ∧
          s.machine.isValid mover = true ∧ t.machine.isValid mover = false ∧
            t.machine.isValid talker = true := by
  have htalking : ((after 10 talking (start (.start .standard .empty))).any fun s =>
      s.machine.knownPrograms.any (s.hasReferences speed) &&
        s.machine.knownPrograms.any (s.hasReferences printer) &&
          s.machine.globals.contains "SPEED") = true := by decide +kernel
  rcases (Option.any_eq_true ..).1 htalking with ⟨s, hafter, hfacts⟩
  simp only [Bool.and_eq_true, List.any_eq_true] at hfacts
  rcases hfacts with ⟨⟨⟨mover, hmover, hreads⟩, talker, htalker, hcalls⟩, hdeclared⟩
  have horderly := orderly_of_start hafter
  have hheld : ∀ program ∈ s.machine.knownPrograms, program ∈ s.heldPrograms :=
    fun program hknown => (mem_heldPrograms s program).2 (.inl hknown)
  rcases horderly.named (hheld mover hmover) hreads with ⟨hvalidMover, hnamedMover⟩
  rcases horderly.named (hheld talker htalker) hcalls with ⟨hvalidTalker, hnamedTalker⟩
  rcases (removals_exact hafter).1 "SPEED" with ⟨t, hrun, -, hvalid⟩
  refine ⟨s, t, mover, talker, hafter, hrun, hmover, htalker, hvalidMover,
    Bool.eq_false_iff.2 fun hstill => ?_,
    (hvalid talker (hheld talker htalker)).2 ⟨hvalidTalker, fun hforgotten => ?_⟩⟩
  · have hrefers := (hnamedMover.dependsOn "SPEED").1 (by decide +kernel)
    exact ((hvalid mover (hheld mover hmover)).1 hstill).2 ⟨hmover, hdeclared, hrefers⟩
  · exact absurd ((hnamedTalker.dependsOn "SPEED").2 hforgotten.2.2) (by decide +kernel)

/-- A script becomes stale when a global is removed that it does not use, since it calls a command
of the same name. -/
theorem not_exact_talking : ∃ s t talker v,
    after 10 (talking ++ [.setGlobal "PrintToConsole" (.text "")])
        (start (.start .standard .empty)) = some s ∧
      perform 10 (.removeGlobal "PrintToConsole") s = .done (.value (some v)) t ∧
        talker ∈ s.machine.knownPrograms ∧ ¬talker.Touches (fold "PrintToConsole") ∧
          s.machine.isValid talker = true ∧ t.machine.isValid talker = false := by
  have htalking : ((after 10 (talking ++ [.setGlobal "PrintToConsole" (.text "")])
      (start (.start .standard .empty))).any fun s =>
        s.machine.knownPrograms.any (s.hasReferences printer) &&
          (s.machine.globals.get? "PrintToConsole").isSome) = true := by decide +kernel
  rcases (Option.any_eq_true ..).1 htalking with ⟨s, hafter, hfacts⟩
  simp only [Bool.and_eq_true, List.any_eq_true, Option.isSome_iff_exists] at hfacts
  rcases hfacts with ⟨⟨talker, hknown, hcalls⟩, v, hvalue⟩
  have horderly := orderly_of_start hafter
  rcases horderly.named ((mem_heldPrograms s talker).2 (.inl hknown)) hcalls with ⟨hvalid, hnamed⟩
  have hrun := perform_removeGlobal 10 "PrintToConsole" s
  rw [hvalue] at hrun
  refine ⟨s, _, talker, v, hafter, hrun, hknown, fun htouches => ?_, hvalid,
    Bool.eq_false_iff.2 fun hstill => ?_⟩
  · exact List.not_mem_nil ((hnamed.globals _).2 htouches)
  · have hdeclared : s.machine.globals.contains "PrintToConsole" = true := by
      rw [← Globals.isSome_get?, hvalue, Option.isSome_some]
    exact (((Machine.Orderly.removeGlobal_forgets horderly "PrintToConsole").1.isValid talker
      (.inl hknown)).1 hstill).2 ⟨hknown, "PrintToConsole", ⟨rfl, hdeclared⟩,
        (hnamed.dependsOn "PrintToConsole").1 (by decide +kernel)⟩

end Session
end ScriptMachine
