import ScriptMachine.Proofs.Removing

/-!
# Loaded scripts

A script that is loaded is compiled unless its program is in the cache and valid.  So a load that
succeeds answers with a valid program, which stands in the cache and finds every command and global
that its code refers to.  The cache keeps that program until it becomes stale or is released, and
until then every load of the same path answers with it.

Main results:

- {lit}`Machine.exists_load_iff`: when a script is loaded at all.
- {lit}`Session.load_current`: what a load answers, and what later loads answer.
- {lit}`Session.not_reloaded`: a program that was released is compiled anew.
-/

namespace ScriptMachine

open Text

namespace Machine

variable {m m' : Machine}

/-- A script that is loaded is valid, and stands in the cache. -/
theorem load_done {name : String} {program : Program} (h : load name m = .done program m') :
    m'.isValid program = true ∧ m'.cached? (m.resolve name) = some program := by
  have hends := load_ends name m
  rw [h] at hends
  cases hends with
  | cached hcached hvalid => exact ⟨hvalid, hcached⟩
  | compiled hstale hcompiles =>
    rcases hcompiles with ⟨source, -, -, hvalid⟩
    refine ⟨hvalid, ?_⟩
    rw [cached?_store, if_pos ((Path.same_iff _ _).2 ⟨rfl, rfl⟩)]

/-- A script that is not loaded leaves the cache as it is. -/
theorem load_failed {name : String} {e : MachineError} (h : load name m = .failed e m') :
    m'.cache = m.cache := by
  have hends := load_ends name m
  rw [h] at hends
  cases hends with
  | failed hstale hnone hsame =>
    rcases hsame with rfl | rfl
    · rfl
    · rfl

/-- A valid program in the cache is loaded again. -/
theorem load_cached {name : String} {program : Program}
    (hcached : m.cached? (m.resolve name) = some program) (hvalid : m.isValid program = true) :
    load name m = .done program m := by
  have hends := load_ends name m
  generalize load name m = outcome at hends ⊢
  cases hends with
  | cached hfound hstill =>
    rw [hcached] at hfound
    cases hfound
    rfl
  | compiled hstale hcompiles =>
    rw [hstale program hcached] at hvalid
    cases hvalid
  | failed hstale hnone hsame =>
    rw [hstale program hcached] at hvalid
    cases hvalid

/-- A script is loaded if a valid program is cached for it or its text compiles to one. -/
theorem exists_load_iff (name : String) (m : Machine) :
    (∃ program m', load name m = .done program m') ↔
      (∃ program, m.cached? (m.resolve name) = some program ∧ m.isValid program = true) ∨
        ∃ program, m.Compiles (m.resolve name) program := by
  have hends := load_ends name m
  generalize load name m = outcome at hends ⊢
  cases hends with
  | cached hcached hvalid => exact ⟨fun _ => .inl ⟨_, hcached, hvalid⟩, fun _ => ⟨_, _, rfl⟩⟩
  | compiled hstale hcompiles => exact ⟨fun _ => .inr ⟨_, hcompiles⟩, fun _ => ⟨_, _, rfl⟩⟩
  | failed hstale hnone hsame =>
    constructor
    · rintro ⟨program, m', h⟩
      cases h
    · rintro (⟨program, hcached, hvalid⟩ | ⟨program, hcompiles⟩)
      · rw [hstale program hcached] at hvalid
        cases hvalid
      · exact absurd hcompiles (hnone program)

/-- An orderly machine has what the code of a valid program in the cache refers to. -/
theorem Orderly.provides {held : Program → Prop} (h : m.Orderly held) {path : List Char}
    {program : Program} (hcached : m.cached? path = some program)
    (hvalid : m.isValid program = true) :
    (∀ name, program.Calls name →
      ∃ command, m.commands.lookup? name = some command ∧ command.signature.name = name) ∧
      ∀ key, program.Touches key → m.globals.contains key = true := by
  rcases exists_entry_of_cached? hcached with ⟨entry, hmem, rfl⟩
  have hprovides := h.current entry hmem hvalid
  refine ⟨fun name hcalls => ?_, hprovides.declared⟩
  rcases hprovides.registered name hcalls with ⟨command, hfound, rfl⟩
  exact ⟨command, h.assembled.distinct.lookup?_name hfound, rfl⟩

end Machine

namespace Session

variable {s t : Session} {fuel : Nat} {requests : List Request} {program : Program}

/-- One of some requests makes the cache let go of a program. -/
def Releases (fuel : Nat) (requests : List Request) (s : Session) (program : Program) : Prop :=
  ∃ before request behind t, requests = before ++ request :: behind ∧
    after fuel before s = some t ∧ request.Releases t program

/-- The cache keeps a program that is not released as long as it is valid. -/
theorem Orderly.cached_after (h : s.Orderly) (hafter : after fuel requests s = some t)
    {path : List Char} (hcached : s.machine.cached? path = some program)
    (hvalid : t.machine.isValid program = true) (hkept : ¬Releases fuel requests s program) :
    t.machine.cached? path = some program := by
  induction requests generalizing s with
  | nil =>
    cases hafter
    exact hcached
  | cons request rest ih =>
    rcases Option.bind_eq_some_iff.1 hafter with ⟨next, hnext, hrest⟩
    have hrespects := (perform_respects fuel request h).of_state? hnext
    have hbetween := (after_orderly hrespects.orderly hrest).2 program hvalid
    refine ih hrespects.orderly hrest (hrespects.cached path program hcached hbetween ?_) ?_
    · exact fun hreleases => hkept ⟨[], request, rest, s, rfl, rfl, hreleases⟩
    · rintro ⟨before, other, behind, u, rfl, hu, hreleases⟩
      refine hkept ⟨request :: before, other, behind, u, rfl, ?_, hreleases⟩
      exact Option.bind_eq_some_iff.2 ⟨next, hnext, hu⟩

/-- The answer to the load of a script. -/
theorem perform_load (fuel : Nat) (script name : String) (s : Session) :
    perform fuel (.load script name) s =
      match Machine.load script s.machine with
      | .done program machine => .done (.program program)
          { s with machine := machine, programs := s.programs.set name program }
      | .failed e machine => .failed (.machine e) { s with machine := machine }
      | .exhausted => .exhausted := by
  simp only [perform, Action.bind_run, operate_run]
  cases Machine.load script s.machine with
  | done program machine => rfl
  | failed e machine => rfl
  | exhausted => rfl

/-- A load is answered if the script is loaded. -/
theorem exists_perform_load_iff (fuel : Nat) (script name : String) (s : Session) :
    (∃ answer t, perform fuel (.load script name) s = .done answer t) ↔
      ∃ program machine, Machine.load script s.machine = .done program machine := by
  rw [perform_load]
  cases Machine.load script s.machine with
  | exhausted => simp
  | failed e machine => simp
  | done program machine => simp

/-- **Loads are current.**  A load succeeds if a valid program is cached for the script or its text
compiles to one.  It answers with a valid program, which stands in the cache under the path of the
script, and every command and global to which its code refers exists.  As long as the program does
not become stale and is not released, every load of the same path answers with it, whatever else
happens.  A load that fails leaves the cache as it is. -/
theorem load_current {settings : Settings} {files : FileSystem}
    (h : after fuel requests (start (.start settings files)) = some s) (script name : String) :
    ((∃ answer t, perform fuel (.load script name) s = .done answer t) ↔
      (∃ program, s.machine.cached? (s.machine.resolve script) = some program ∧
        s.machine.isValid program = true) ∨
      ∃ program, s.machine.Compiles (s.machine.resolve script) program) ∧
    (∀ answer t, perform fuel (.load script name) s = .done answer t → ∃ program,
      answer = .program program ∧ t.machine.isValid program = true ∧
      t.machine.cached? (s.machine.resolve script) = some program ∧
      (∀ called, program.Calls called → ∃ command,
        t.machine.commands.lookup? called = some command ∧ command.signature.name = called) ∧
      (∀ key, program.Touches key → t.machine.globals.contains key = true) ∧
      ∀ between u, after fuel between t = some u → u.machine.isValid program = true →
        ¬Releases fuel between t program → ∀ other kept,
          Path.same (u.machine.resolve other) (s.machine.resolve script) = true →
            perform fuel (.load other kept) u =
              .done (.program program) { u with programs := u.programs.set kept program }) ∧
    ∀ refusal t, perform fuel (.load script name) s = .failed refusal t →
      t.machine.cache = s.machine.cache := by
  refine ⟨(exists_perform_load_iff fuel script name s).trans
    (Machine.exists_load_iff script s.machine), ?_⟩
  have hafter := perform_respects fuel (.load script name) (orderly_of_start h)
  rw [perform_load] at hafter ⊢
  cases hload : Machine.load script s.machine with
  | exhausted => exact ⟨fun answer t hrun => (by cases hrun), fun refusal t hrun => (by cases hrun)⟩
  | failed e machine =>
    refine ⟨fun answer t hrun => (by cases hrun), fun refusal t hrun => ?_⟩
    cases hrun
    exact Machine.load_failed hload
  | done program machine =>
    rw [hload] at hafter
    rcases Machine.load_done hload with ⟨hvalid, hcached⟩
    refine ⟨fun answer t hrun => ?_, fun refusal t hrun => (by cases hrun)⟩
    cases hrun
    rcases Machine.Orderly.provides hafter.orderly hcached hvalid with ⟨hcalls, htouches⟩
    refine ⟨program, rfl, hvalid, hcached, hcalls, htouches,
      fun between u hbetween hstill hkept other kept hsame => ?_⟩
    have hfound := hafter.orderly.cached_after hbetween hcached hstill hkept
    rw [← Machine.cached?_congr _ hsame] at hfound
    rw [perform_load, Machine.load_cached hfound hstill]

/-- Requests that put a script into a file. -/
def placing : List Request :=
  [.write "one.lute" (.file "scriptname One\nbegin\nreturn 1\nend\n".toUTF8)]

/-- Whether a script is loaded and still valid once a line is written, and found by its full name. -/
def loadsOnce (s : Session) : Bool :=
  match perform 10 (.load "one" "first") s with
  | .done (.program program) t => (after 10 [.log "loaded"] t).any fun u =>
      u.machine.isValid program && Path.same (u.machine.resolve "one.lute") (s.machine.resolve "one")
  | _ => false

/-- A script is loaded with and without its extension, and the program is the same. -/
theorem load_current_placing : ∃ s t u program,
    after 10 placing (start (.start .standard .empty)) = some s ∧
      perform 10 (.load "one" "first") s = .done (.program program) t ∧
        t.machine.cached? (s.machine.resolve "one") = some program ∧
          after 10 [.log "loaded"] t = some u ∧
            perform 10 (.load "one.lute" "second") u =
              .done (.program program) { u with programs := u.programs.set "second" program } := by
  have hplacing : ((after 10 placing (start (.start .standard .empty))).any loadsOnce) = true := by
    decide +kernel
  rcases (Option.any_eq_true ..).1 hplacing with ⟨s, hafter, hloads⟩
  unfold loadsOnce at hloads
  split at hloads
  · next program t hrun =>
    simp only [Option.any_eq_true, Bool.and_eq_true] at hloads
    rcases hloads with ⟨u, hbetween, hvalid, hsame⟩
    rcases (load_current hafter "one" "first").2.1 _ t hrun with
      ⟨found, hanswer, -, hcached, -, -, hagain⟩
    cases hanswer
    have hkept : ¬Releases 10 [.log "loaded"] t program := by
      rintro ⟨before, request, behind, v, heq, -, name, rfl, -⟩
      have hmem : Request.release name ∈ [Request.log "loaded"] := by
        rw [heq]
        exact List.mem_append_right _ (List.mem_cons_self ..)
      cases List.mem_singleton.1 hmem
    exact ⟨s, t, u, program, hafter, hrun, hcached, hbetween,
      hagain [.log "loaded"] u hbetween hvalid hkept "one.lute" "second" hsame⟩
  · cases hloads

/-- Whether a program is still valid while another load answers with one of another number. -/
def loadsTwice (s : Session) : Bool :=
  match s.programs.get? "first", perform 10 (.load "one" "second") s with
  | some program, .done (.program other) _ => s.machine.isValid program && program.id != other.id
  | _, _ => false

/-- A program that was released is not loaded again, although it is still valid. -/
theorem not_reloaded : ∃ s t program other,
    after 10 (placing ++ [.load "one" "first", .release "first"]) (start (.start .standard .empty)) =
        some s ∧
      s.programs.get? "first" = some program ∧ s.machine.isValid program = true ∧
        perform 10 (.load "one" "second") s = .done (.program other) t ∧ program ≠ other := by
  have hplacing : ((after 10 (placing ++ [.load "one" "first", .release "first"])
      (start (.start .standard .empty))).any loadsTwice) = true := by decide +kernel
  rcases (Option.any_eq_true ..).1 hplacing with ⟨s, hafter, hloads⟩
  unfold loadsTwice at hloads
  split at hloads
  · next program other t hfirst hrun =>
    rw [Bool.and_eq_true, bne_iff_ne] at hloads
    exact ⟨s, t, program, other, hafter, hfirst, hloads.1, hrun, fun heq => hloads.2 (by rw [heq])⟩
  · cases hloads

end Session
end ScriptMachine
