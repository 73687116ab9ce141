import ScriptMachine.Proofs.Census
import ScriptMachine.Proofs.Upholding

/-!
# Counting what is alive

There are three things that happen to live contexts: one is created, one is dropped, or all of
them stay while something else changes.  Each leads from a scene in which the machine counts
right to another one.  Everything that a script does is made of such changes, so the scenes of an
expression, of a step and of a run form a trail.

Main results:

- {lit}`Scene.Resembles.leads`, {lit}`Scene.leads_of_birth` and {lit}`Scene.leads_of_death`: what
  happens to live contexts.
- {lit}`Expr.eval_passes`: the scenes of an expression.
- {lit}`Execution.run_passes`: the scenes of a run.
-/

namespace ScriptMachine

variable {σ ε δ α β : Type}

/-! ## Changes of scenes -/

/-- What stays the same of a context for all its life. -/
def Context.face (context : Context) : Nat × Program :=
  (context.id, context.program)

namespace Scene

variable {x y z : Scene}

/-- What is known. -/
theorem mem_known {program : Program} : program ∈ x.known ↔ program ∈ x.company.programs ∨
    (∃ context ∈ x.live, context.program = program) ∨
      ∃ entry ∈ x.machine.cache, entry.program = program := by
  simp [known]

/-- A program that is known, or the new one that the machine has numbered since. -/
def Admits (new : Option Program) (x y : Scene) (program : Program) : Prop :=
  program ∈ x.known ∨
    new = some program ∧ x.machine.programCount < program.id ∧
      program.id ≤ y.machine.programCount

/-- The same contexts are alive, and at most one program is new. -/
structure Resembles (new : Option Program) (x y : Scene) : Prop where
  live : (y.live.map Context.face).Perm (x.live.map Context.face)
  executing : y.machine.executing = x.machine.executing
  contextCount : x.machine.contextCount ≤ y.machine.contextCount
  programCount : x.machine.programCount ≤ y.machine.programCount
  programs : ∀ program ∈ y.company.programs, x.Admits new y program
  cache : ∀ entry ∈ y.machine.cache, x.Admits new y entry.program

namespace Resembles

variable (new : Option Program) (h : x.Resembles new y)
include h

/-- Every live context was alive before. -/
theorem exists_before {context : Context} (hmem : context ∈ y.live) :
    ∃ before ∈ x.live, before.id = context.id ∧ before.program = context.program := by
  have hface := h.live.mem_iff.1 (List.mem_map_of_mem hmem)
  rcases List.mem_map.1 hface with ⟨before, hbefore, hsame⟩
  exact ⟨before, hbefore, congrArg Prod.fst hsame, congrArg Prod.snd hsame⟩

/-- Nothing but the new program was unknown before. -/
theorem admits {program : Program} (hmem : program ∈ y.known) : x.Admits new y program := by
  rcases mem_known.1 hmem with hheld | ⟨context, hlive, rfl⟩ | ⟨entry, hcached, rfl⟩
  · exact h.programs program hheld
  · rcases h.exists_before new hlive with ⟨before, hbefore, -, hprogram⟩
    exact .inl (mem_known.2 (.inr (.inl ⟨before, hbefore, hprogram⟩)))
  · exact h.cache entry hcached

/-- If the machine counted right, it does so as long as the same contexts are alive. -/
theorem leads : x.Leads y := by
  intro htallies
  have hids : (y.live.map Context.id).Perm (x.live.map Context.id) := by
    simpa [List.map_map, Function.comp_def, Context.face] using h.live.map Prod.fst
  have hrun : (y.live.map fun c => c.program.id).Perm (x.live.map fun c => c.program.id) := by
    simpa [List.map_map, Function.comp_def, Context.face] using
      h.live.map fun face => face.2.id
  have hfresh : ∀ program ∈ x.known, program.id ≤ x.machine.programCount := htallies.registered
  refine ⟨⟨?_, hids.nodup_iff.2 htallies.distinct, fun context hmem => ?_, fun program hmem => ?_,
      fun program hmem other hmem' hid => ?_⟩,
    ⟨h.contextCount, h.programCount, fun context hmem _ => h.exists_before new hmem,
      fun program hmem hold => ?_⟩⟩
  · rw [h.executing]
    exact htallies.counted.trans hrun.symm
  · rcases h.exists_before new hmem with ⟨before, hbefore, hid, -⟩
    rw [← hid]
    exact Nat.le_trans (htallies.numbered before hbefore) h.contextCount
  · rcases h.admits new hmem with hknown | ⟨-, -, hle⟩
    · exact Nat.le_trans (hfresh program hknown) h.programCount
    · exact hle
  · -- An old program has a smaller number than the new one.
    rcases h.admits new hmem with hknown | ⟨hnew, hlow, -⟩
    · rcases h.admits new hmem' with hknown' | ⟨-, hlow', -⟩
      · exact htallies.unique program hknown other hknown' hid
      · have hle := hfresh program hknown
        omega
    · rcases h.admits new hmem' with hknown' | ⟨hnew', -, -⟩
      · have hle := hfresh other hknown'
        omega
      · rw [hnew] at hnew'
        exact Option.some.inj hnew'
  · rcases h.admits new hmem with hknown | ⟨-, hlow, -⟩
    · exact hknown
    · omega

end Resembles

/-- A context of a known program is created. -/
theorem leads_of_birth (context : Context) (hlive : y.live.Perm (context :: x.live))
    (hid : context.id = x.machine.contextCount + 1) (hcount : y.machine.contextCount = context.id)
    (hexecuting : y.machine.executing = context.program.id :: x.machine.executing)
    (hnumber : y.machine.programCount = x.machine.programCount)
    (hknown : context.program ∈ x.known) (hprograms : y.company.programs = x.company.programs)
    (hcache : y.machine.cache = x.machine.cache) : x.Leads y := by
  intro htallies
  have hold : ∀ program ∈ y.known, program ∈ x.known := by
    intro program hmem
    rcases mem_known.1 hmem with hheld | ⟨other, hother, rfl⟩ | hcached
    · rw [hprograms] at hheld
      exact mem_known.2 (.inl hheld)
    · rcases List.mem_cons.1 (hlive.mem_iff.1 hother) with rfl | hother
      · exact hknown
      · exact mem_known.2 (.inr (.inl ⟨other, hother, rfl⟩))
    · rw [hcache] at hcached
      exact mem_known.2 (.inr (.inr hcached))
  have hbelow : ∀ other ∈ x.live, other.id ≤ x.machine.contextCount := htallies.numbered
  refine ⟨⟨?_, ?_, fun other hmem => ?_, fun program hmem => ?_,
      fun program hmem other hmem' => htallies.unique program (hold program hmem) other
        (hold other hmem')⟩,
    ⟨by omega, Nat.le_of_eq hnumber.symm, fun other hmem hle => ?_,
      fun program hmem _ => hold program hmem⟩⟩
  · rw [hexecuting]
    exact (htallies.counted.cons context.program.id).trans
      (hlive.map fun c : Context => c.program.id).symm
  · refine (hlive.map Context.id).nodup_iff.2 (List.nodup_cons.2 ⟨fun hmem => ?_, htallies.distinct⟩)
    rcases List.mem_map.1 hmem with ⟨other, hother, hsame⟩
    have hle := hbelow other hother
    omega
  · rcases List.mem_cons.1 (hlive.mem_iff.1 hmem) with rfl | hmem
    · exact Nat.le_of_eq hcount.symm
    · have hle := hbelow other hmem
      omega
  · rw [hnumber]
    exact htallies.registered program (hold program hmem)
  · rcases List.mem_cons.1 (hlive.mem_iff.1 hmem) with rfl | hmem
    · omega
    · exact ⟨other, hmem, rfl, rfl⟩

/-- A context is dropped. -/
theorem leads_of_death (context : Context) (hlive : x.live.Perm (context :: y.live))
    (hexecuting : y.machine.executing = x.machine.executing.erase context.program.id)
    (hcount : y.machine.contextCount = x.machine.contextCount)
    (hnumber : y.machine.programCount = x.machine.programCount)
    (hprograms : y.company.programs = x.company.programs)
    (hcache : y.machine.cache = x.machine.cache) : x.Leads y := by
  intro htallies
  have hstays : ∀ other ∈ y.live, other ∈ x.live := fun other hmem =>
    hlive.mem_iff.2 (List.mem_cons_of_mem _ hmem)
  have hold : ∀ program ∈ y.known, program ∈ x.known := by
    intro program hmem
    rw [mem_known, hprograms, hcache] at hmem
    refine mem_known.2 (hmem.imp_right (Or.imp_left ?_))
    rintro ⟨other, hother, hprogram⟩
    exact ⟨other, hstays other hother, hprogram⟩
  refine ⟨⟨?_, ?_, fun other hmem => ?_, fun program hmem => ?_,
      fun program hmem other hmem' => htallies.unique program (hold program hmem) other
        (hold other hmem')⟩,
    ⟨Nat.le_of_eq hcount.symm, Nat.le_of_eq hnumber.symm,
      fun other hmem _ => ⟨other, hstays other hmem, rfl, rfl⟩,
      fun program hmem _ => hold program hmem⟩⟩
  · have herase := (htallies.counted.trans (hlive.map fun c => c.program.id)).erase context.program.id
    rw [hexecuting]
    simpa using herase
  · have hnodup := (hlive.map Context.id).nodup_iff.1 htallies.distinct
    exact (List.nodup_cons.1 hnodup).2
  · rw [hcount]
    exact htallies.numbered other (hstays other hmem)
  · rw [hnumber]
    exact htallies.registered program (hold program hmem)

end Scene

/-- The scene of a state leads to that of another one. -/
def Onward (view : σ → Scene) (s t : σ) : Prop :=
  (view s).Leads (view t)

instance (view : σ → Scene) : Lasting (Onward view) where
  refl s := Lasting.refl (view s)
  trans h h' := Lasting.trans (R := Scene.Leads) h h'

/-! ### Changes of the machine -/

/-- What a machine notes about programs and live contexts. -/
def Machine.roll (m : Machine) : List Nat × List Context × List CacheEntry × Nat × Nat :=
  (m.executing, m.background, m.cache, m.contextCount, m.programCount)

/-- The same contexts are alive, wherever they are, and programs are the same. -/
theorem Scene.leads_of_live {x y : Scene} (hprograms : y.company.programs = x.company.programs)
    (hlive : (y.live.map Context.face).Perm (x.live.map Context.face))
    (hexecuting : y.machine.executing = x.machine.executing)
    (hcache : y.machine.cache = x.machine.cache)
    (hcount : y.machine.contextCount = x.machine.contextCount)
    (hnumber : y.machine.programCount = x.machine.programCount) : x.Leads y := by
  refine Resembles.leads none ⟨hlive, hexecuting, Nat.le_of_eq hcount.symm,
    Nat.le_of_eq hnumber.symm, fun program hmem => .inl ?_, fun entry hmem => .inl ?_⟩
  · rw [hprograms] at hmem
    exact mem_known.2 (.inl hmem)
  · rw [hcache] at hmem
    exact mem_known.2 (.inr (.inr ⟨entry, hmem, rfl⟩))

/-- Contexts with the same faces, and a machine that notes the same. -/
theorem Scene.leads_of_roll {x y : Scene} (hprograms : y.company.programs = x.company.programs)
    (hcontexts : (y.company.contexts.map Context.face).Perm (x.company.contexts.map Context.face))
    (hroll : y.machine.roll = x.machine.roll) : x.Leads y := by
  simp only [Machine.roll, Prod.mk.injEq] at hroll
  rcases hroll with ⟨hexecuting, hbackground, hcache, hcount, hnumber⟩
  refine leads_of_live hprograms ?_ hexecuting hcache hcount hnumber
  simp only [live, hbackground, List.map_append]
  exact hcontexts.append_right _

namespace Machine

variable {company : Company} {m m' : Machine}

/-- Nothing changes of what the machine notes. -/
theorem onward_of_roll (h : m'.roll = m.roll) : Onward (Scene.mk company) m m' :=
  Scene.leads_of_roll rfl (.refl _) h

/-- Invalidations change no more than the list of stale programs. -/
theorem roll_invalidateDependents (symbols : List String) (m : Machine) :
    (symbols.foldl invalidateDependents m).roll = m.roll := by
  rcases exists_stale_of_symbols symbols m with ⟨stale, heq, -⟩
  rw [heq]
  rfl

/-- Removing a global. -/
theorem roll_removeGlobal (m : Machine) (name : String) : (m.removeGlobal name).roll = m.roll := by
  unfold removeGlobal
  split
  · exact roll_invalidateDependents [name] _
  · rfl

/-- Removing a command. -/
theorem roll_unregister {name : String} {command : Command}
    (h : m.unregister name = .ok (command, m')) : m'.roll = m.roll := by
  unfold unregister at h
  split at h
  · cases h
  · cases h
    exact roll_invalidateDependents _ _

/-- Compiling a source text numbers a program that nobody holds yet. -/
theorem compile_onward (path : Option String) (source : String) :
    (compile path source).Keeps (Onward (Scene.mk company)) := by
  intro m
  rcases exists_compile_run path source m with ⟨program, hrun, -⟩
  rw [hrun]
  exact Scene.Resembles.leads none ⟨.refl _, rfl, Nat.le_refl _, Nat.le_succ _,
    fun program hmem => .inl (Scene.mem_known.2 (.inl hmem)),
    fun entry hmem => .inl (Scene.mem_known.2 (.inr (.inr ⟨entry, hmem, rfl⟩)))⟩

/-- Loading a script. -/
theorem load_onward (name : String) : (load name).Keeps (Onward (Scene.mk company)) := by
  intro m
  have hends := load_ends name m
  generalize load name m = outcome at hends ⊢
  have hcached : ∀ entry ∈ m.cache, entry.program ∈ (Scene.mk company m).known :=
    fun entry hmem => Scene.mem_known.2 (.inr (.inr ⟨entry, hmem, rfl⟩))
  have hheld : ∀ program ∈ company.programs, program ∈ (Scene.mk company m).known :=
    fun program hmem => Scene.mem_known.2 (.inl hmem)
  cases hends with
  | cached _ _ => exact Lasting.refl (R := Onward (Scene.mk company)) m
  | @compiled program _ hcompiles =>
    rcases hcompiles with ⟨source, -, hcompile, -⟩
    have hid := Program.id_of_compile hcompile
    refine Scene.Resembles.leads (some program) ⟨.refl _, rfl, Nat.le_refl _, Nat.le_succ _,
      fun other hmem => .inl (hheld other hmem), fun entry hmem => ?_⟩
    rcases List.mem_cons.1 hmem with rfl | hold
    · exact .inr ⟨rfl, by rw [hid]; exact Nat.lt_succ_self _, by rw [hid]; exact Nat.le_refl _⟩
    · exact .inl (hcached entry (List.mem_filter.1 hold).1)
  | failed _ _ hsame =>
    rcases hsame with rfl | rfl
    · exact Lasting.refl (R := Onward (Scene.mk company)) _
    · exact Scene.Resembles.leads none ⟨.refl _, rfl, Nat.le_refl _, Nat.le_succ _,
        fun program hmem => .inl (hheld program hmem), fun entry hmem => .inl (hcached entry hmem)⟩

/-- The program of a loaded script is cached. -/
theorem exists_entry_of_load {name : String} {program : Program} (h : load name m = .done program m') :
    ∃ entry ∈ m'.cache, entry.program = program := by
  have hends := load_ends name m
  rw [h] at hends
  cases hends with
  | cached hcached _ => exact exists_entry_of_cached? hcached
  | compiled _ _ => exact ⟨_, List.mem_cons_self .., rfl⟩

end Machine

/-! ## Passing scenes -/

/-- An outcome that comes behind a trail of scenes: it ends in a scene of its own, which depends on
whether there is an answer. -/
def Outcome.Passes (answered : α → σ → Scene) (broken : σ → Scene) (x : Scene) (scenes : List Scene) :
    Outcome σ ε α → Prop
  | .done answer s => Trail x scenes (answered answer s)
  | .failed _ s => Trail x scenes (broken s)
  | .exhausted => ∃ y, Trail x scenes y

/-- Between the scenes in which it begins and ends, an action passes those that are listed. -/
def Action.Passes (view : σ → Scene) (listed : σ → List Scene) (action : Action σ ε α) : Prop :=
  ∀ s, (action s).Passes (fun _ => view) view (view s) (listed s)

/-- Even an outcome that does not end passes its scenes. -/
theorem Outcome.Passes.exists_trail {answered : α → σ → Scene} {broken : σ → Scene} {x : Scene}
    {scenes : List Scene} {outcome : Outcome σ ε α} (h : outcome.Passes answered broken x scenes) :
    ∃ y, Trail x scenes y := by
  cases outcome with
  | done answer s => exact ⟨_, h⟩
  | failed e s => exact ⟨_, h⟩
  | exhausted => exact h

/-- There may be scenes before. -/
theorem Outcome.Passes.prepend {answered : α → σ → Scene} {broken : σ → Scene} {x y : Scene}
    {first scenes : List Scene} {outcome : Outcome σ ε α}
    (h : outcome.Passes answered broken y scenes) (hfirst : Trail x first y) :
    outcome.Passes answered broken x (first ++ scenes) := by
  cases outcome with
  | done answer s => exact hfirst.append h
  | failed e s => exact hfirst.append h
  | exhausted =>
    rcases h with ⟨z, hz⟩
    exact ⟨z, hfirst.append hz⟩

/-- The scene in which an action begins is one of those that may be listed. -/
theorem Outcome.Passes.cons {answered : α → σ → Scene} {broken : σ → Scene} {x : Scene}
    {scenes : List Scene} {outcome : Outcome σ ε α}
    (h : outcome.Passes answered broken x scenes) : outcome.Passes answered broken x (x :: scenes) := by
  have hhere : Trail x [x] x := .past (Lasting.refl x) (.direct (Lasting.refl x))
  exact h.prepend hhere

namespace Action.Passes

variable {view : σ → Scene} {listed : σ → List Scene} {action : Action σ ε α}

/-- The scene in which an action begins leads to the one in which it ends. -/
theorem keeps (h : action.Passes view listed) :
    action.Keeps (Onward view) := by
  intro s
  have hs := h s
  cases hrun : action s with
  | done answer t =>
    rw [hrun] at hs
    exact Trail.leads hs
  | failed e t =>
    rw [hrun] at hs
    exact Trail.leads hs
  | exhausted => trivial

/-- An action on the way of which there is nothing to see. -/
theorem of_keeps (h : action.Keeps (Onward view)) :
    action.Passes view fun _ => [] := by
  intro s
  have hs := h s
  cases hrun : action s with
  | done answer t =>
    rw [hrun] at hs
    exact .direct hs
  | failed e t =>
    rw [hrun] at hs
    exact .direct hs
  | exhausted => exact ⟨view s, .direct (Lasting.refl _)⟩

/-- A sequence passes the scenes of its parts in order. -/
theorem bind {next : α → Action σ ε β} {behind : α → σ → List Scene}
    (h : action.Passes view listed) (hnext : ∀ answer, (next answer).Passes view (behind answer)) :
    (action >>= next).Passes view (Action.followed listed action behind) := by
  intro s
  have hs := h s
  rw [Action.bind_run]
  unfold Action.followed
  cases hrun : action s with
  | done answer t =>
    rw [hrun] at hs
    exact (hnext answer t).prepend hs
  | failed e t =>
    rw [hrun] at hs
    simp only [List.append_nil]
    exact hs
  | exhausted =>
    rw [hrun] at hs
    simp only [List.append_nil]
    exact hs

/-- There may be nothing more to see behind an action. -/
theorem bind_keeps {next : α → Action σ ε β} (h : action.Passes view listed)
    (hnext : ∀ answer, (next answer).Keeps (Onward view)) :
    (action >>= next).Passes view listed := by
  have hboth := bind h fun answer => of_keeps (hnext answer)
  have hsame : Action.followed listed action (fun _ _ => []) = listed := by
    funext s
    unfold Action.followed
    cases action s <;> simp
  rw [hsame] at hboth
  exact hboth

/-- Behind a check come the scenes for its result. -/
theorem ofExcept_bind {result : Except ε α} {next : α → Action σ ε β} {behind : α → σ → List Scene}
    (hnext : ∀ answer, (next answer).Passes view (behind answer)) :
    (Action.ofExcept result >>= next).Passes view (Action.checked result behind) := by
  intro s
  cases result with
  | ok answer => exact hnext answer s
  | error e => exact .direct (Lasting.refl _)

/-- The error of an action does not matter. -/
theorem mapError (f : ε → δ) (h : action.Passes view listed) : (action.mapError f).Passes view listed := by
  intro s
  have hs := h s
  rw [Action.mapError_run]
  cases hrun : action s <;> rw [hrun] at hs <;> exact hs

end Action.Passes

/-! ## Commands -/

/-- What a census lists are the scenes of running other scripts and of creating contexts. -/
structure Census.Covers (census : Census) (callee : Callee) : Prop where
  run : ∀ (company : Company) program arguments m, program ∈ (Scene.mk company m).known →
    (callee.run program arguments m).Passes (fun _ n => ⟨company, n⟩) (fun n => ⟨company, n⟩)
      ⟨company, m⟩ (census.run program arguments company m)
  create : ∀ (company : Company) program arguments m, program ∈ (Scene.mk company m).known →
    (callee.create program arguments m).Passes (fun context n => ⟨company.join context, n⟩)
      (fun n => ⟨company, n⟩) ⟨company, m⟩ (census.create program arguments company m)

namespace Execution

variable {company : Company} {e e' : Execution}

/-- A change of the context in which it stays the same context. -/
theorem onward_of_context (e : Execution) (context : Context) (hid : context.id = e.context.id)
    (hprogram : context.program = e.context.program) :
    Onward company.scene e { e with context := context } :=
  Scene.leads_of_roll rfl (by simp [Company.scene, Company.join, Context.face, hid, hprogram]) rfl

/-- A change of the machine of which it notes nothing. -/
theorem onward_of_machine {f : Machine → Machine} (h : (f e.machine).roll = e.machine.roll) :
    Onward company.scene e (e.onMachine f) :=
  Scene.leads_of_roll rfl (.refl _) h

/-- A plain change. -/
theorem Plain.onward (h : e.Plain e') : Onward company.scene e e' := by
  have hroll : e'.machine.roll = e.machine.roll := by
    rw [h.machine.same]
    rfl
  refine Scene.leads_of_roll rfl ?_ hroll
  simp [Company.scene, Company.join, Context.face, h.context.id, h.context.program]

end Execution

section Commands

open Execution CommandStep

variable {census : Census} {callee : Callee} (hcensus : census.Covers callee) (company : Company)

/-- An operation of the machine on behalf of a context. -/
theorem CommandStep.operate_onward {operation : Operation α}
    (h : ∀ company, operation.Keeps (Onward (Scene.mk company))) :
    (operate operation).Keeps (Onward company.scene) := by
  intro e
  have hend := h (company.join e.context) e.machine
  unfold operate
  rw [Action.attempt_run]
  unfold Action.onPart
  cases hrun : operation e.machine <;> rw [hrun] at hend <;> exact hend

/-- The program that a call means is the calling one or loaded. -/
theorem Builtin.target_onward (name : String) : (target name).Keeps (Onward company.scene) := by
  unfold target
  refine .bind .get fun e => ?_
  split
  · exact .pure _
  · exact operate_onward company fun _ => Machine.load_onward name

/-- The program that a call means is known. -/
theorem Builtin.target_known {name : String} {e t : Execution} {program : Program}
    (h : target name e = .done (.ok program) t) : program ∈ (company.scene t).known := by
  simp only [target, Action.bind_run, Action.get_run] at h
  split at h
  · cases h
    exact Scene.mem_known.2 (.inr (.inl ⟨e.context, List.mem_cons_self .., rfl⟩))
  · simp only [operate, Action.attempt_run, Action.onPart] at h
    cases hrun : Machine.load name e.machine with
    | done found m =>
      rw [hrun] at h
      cases h
      exact Scene.mem_known.2 (.inr (.inr (Machine.exists_entry_of_load hrun)))
    | failed error m =>
      rw [hrun] at h
      cases h
    | exhausted =>
      rw [hrun] at h
      cases h

include hcensus

/-- Running another script. -/
theorem Builtin.doCall_passes (arguments : List Value) :
    (doCall callee arguments).Passes company.scene
      (Builtin.scenes census company arguments .callScript) := by
  unfold doCall scenes
  refine .ofExcept_bind fun name => ?_
  simp only
  split
  · exact .of_keeps (.fail _)
  · intro e
    have htarget : (target name e).Ends (Onward company.scene e) := target_onward company name e
    rw [Action.bind_run]
    unfold Action.followed
    cases hrun : target name e with
    | exhausted => exact ⟨company.scene e, .direct (Lasting.refl _)⟩
    | failed error t =>
      rw [hrun] at htarget
      exact .direct htarget
    | done found t =>
      rw [hrun] at htarget
      cases found with
      | error refusal => exact .direct htarget
      | ok program =>
        have hcall := hcensus.run (company.join t.context) program (arguments.drop 1) t.machine
          (target_known company hrun)
        refine Outcome.Passes.prepend ?_ (.direct htarget)
        simp only [Action.bind_run, operate, Action.attempt_run, Action.onPart]
        cases hlast : callee.run program (arguments.drop 1) t.machine with
        | exhausted =>
          rw [hlast] at hcall
          exact hcall
        | failed error m =>
          rw [hlast] at hcall
          exact hcall
        | done result m =>
          rw [hlast] at hcall
          cases result <;> exact hcall

/-- A built-in command. -/
theorem Builtin.perform_passes (line : Nat) (arguments : List Value) (builtin : Builtin) :
    (builtin.perform callee line arguments).Passes company.scene
      (builtin.scenes census company arguments) := by
  by_cases hcalls : builtin = .callScript
  · subst hcalls
    exact doCall_passes hcensus company arguments
  · have hnone : builtin.scenes census company arguments = fun _ => [] := by
      cases builtin with
      | callScript => exact absurd rfl hcalls
      | _ => rfl
    rw [hnone]
    exact .of_keeps (perform_keeps (fun _ _ h => h.onward)
      (fun e c h => e.onward_of_context c h.id h.program)
      (fun values => (doCall_passes hcensus company values).keeps) line arguments builtin)

omit hcensus in
/-- A new context goes into the background. -/
theorem Machine.leads_addBackground (m : Machine) (context : Context) :
    Scene.Leads ⟨company.join context, m⟩ ⟨company, m.addBackground context⟩ := by
  refine Scene.leads_of_live rfl ?_ rfl rfl rfl rfl
  simp only [Scene.live, Company.join, addBackground, List.map_append, List.map_cons, List.map_nil,
    List.cons_append]
  rw [← List.append_assoc]
  exact List.perm_append_singleton _ _

/-- Putting the running program into the background once more. -/
theorem HostAction.backgroundRunning_passes (arguments : List Value) :
    (backgroundRunning callee arguments).Passes company.scene
      (HostAction.scenes census company arguments .backgroundSelf) := by
  intro e
  have hknown : e.context.program ∈ (Scene.mk (company.join e.context) e.machine).known :=
    Scene.mem_known.2 (.inr (.inl ⟨e.context, List.mem_cons_self .., rfl⟩))
  have hcreate := hcensus.create (company.join e.context) e.context.program arguments e.machine hknown
  simp only [backgroundRunning, Action.bind_run, Action.get_run, operate, Action.attempt_run,
    Action.onPart, scenes]
  cases hrun : callee.create e.context.program arguments e.machine with
  | exhausted =>
    rw [hrun] at hcreate
    exact hcreate
  | failed error m =>
    rw [hrun] at hcreate
    exact hcreate
  | done context m =>
    rw [hrun] at hcreate
    exact Trail.behind hcreate (m.leads_addBackground _ context)

/-- An action of the host. -/
theorem HostAction.perform_passes (arguments : List Value) (action : HostAction) :
    (action.perform callee arguments).Passes company.scene
      (action.scenes census company arguments) := by
  by_cases hplain : action.isPlain = true
  · have hnone : action.scenes census company arguments = fun _ => [] := by
      cases action with
      | backgroundSelf => cases hplain
      | _ => rfl
    rw [hnone]
    exact .of_keeps ((perform_plain callee arguments hplain).mono fun _ _ h => h.onward)
  · cases action with
    | removeGlobal name =>
      exact .of_keeps (.bind (.change fun e =>
        e.onward_of_machine (e.machine.roll_removeGlobal name)) fun _ => .pure _)
    | unregister name =>
      refine .of_keeps (.bind (.change fun e => e.onward_of_machine ?_) fun _ => .pure _)
      cases hrun : e.machine.unregister name with
      | ok pair => exact Machine.roll_unregister hrun
      | error error => rfl
    | backgroundSelf => exact backgroundRunning_passes hcensus company arguments
    | _ => exact absurd rfl hplain

/-- The call of a command by name. -/
theorem invoke_passes (line : Nat) (name : String) (arguments : List Value) :
    (invoke callee line name arguments).Passes company.scene
      (invokeScenes census company name arguments) := by
  intro e
  unfold invokeScenes
  refine Outcome.Passes.cons ?_
  unfold invoke
  rw [Action.bind_run, Action.get_run]
  simp only
  cases e.machine.commands.lookup? name with
  | none => exact .direct (Lasting.refl _)
  | some command =>
    have hperform : (command.perform callee line arguments).Passes company.scene
        (command.scenes census company arguments) := by
      unfold Command.perform Command.scenes
      cases command.action with
      | builtin builtin => exact Builtin.perform_passes hcensus company line arguments builtin
      | host action => exact HostAction.perform_passes hcensus company arguments action
    have hcall : (command.call callee line arguments).Passes company.scene
        (Action.checked (checkArguments command.signature arguments) fun _ =>
          command.scenes census company arguments) :=
      .ofExcept_bind fun _ => .bind_keeps (.mapError _ hperform) fun reply => .ofExcept _
    exact hcall e

end Commands

/-! ## Expressions -/

namespace Expr

open Execution Evaluation

variable {invoke : Invoker} {company : Company} {made : String → List Value → Execution → List Scene}
  (hmade : ∀ name values, (invoke name values).Passes company.scene (made name values))
include hmade

set_option linter.unusedSectionVars false in
mutual

/-- An expression passes the scenes of its calls. -/
theorem eval_passes : (e : Expr) → (e.eval invoke).Passes company.scene (e.listed invoke made)
  | .number x | .text x | .reference x => by
    unfold eval listed
    exact .of_keeps (.pure _)
  | .slot i => by
    unfold eval listed
    exact .of_keeps ((readSlot_plain i).mono fun _ _ h => h.onward)
  | .global key => by
    unfold eval listed
    exact .of_keeps ((readGlobal_plain key).mono fun _ _ h => h.onward)
  | .index target position => by
    unfold eval listed
    exact .bind (eval_passes target) fun _ =>
      .bind_keeps (eval_passes position) fun _ => (withArrays_plain _).mono fun _ _ h => h.onward
  | .unary op operand => by
    unfold eval listed
    exact .bind_keeps (eval_passes operand) fun _ => .ofExcept _
  | .binary op left right => by
    have hleft := eval_passes left
    have hright := eval_passes right
    have hcondition : (do
        let r ← right.eval invoke
        return .ofBool (← Action.ofExcept r.condition) : Evaluation Value).Passes company.scene
          (right.listed invoke made) :=
      hright.bind_keeps fun _ => .bind (.ofExcept _) fun _ => .pure _
    have hnone (b : Bool) : (pure (.ofBool b) : Evaluation Value).Passes company.scene fun _ => [] :=
      .of_keeps (.pure _)
    cases op with
    | and =>
      unfold eval listed
      refine .bind hleft fun l => .ofExcept_bind fun b => ?_
      cases b with
      | true => exact hcondition
      | false => exact hnone false
    | or =>
      unfold eval listed
      refine .bind hleft fun l => .ofExcept_bind fun b => ?_
      cases b with
      | true => exact hnone true
      | false => exact hcondition
    | _ =>
      unfold eval listed
      exact .bind hleft fun _ => hright.bind_keeps fun _ =>
        (withArrays_plain _).mono fun _ _ h => h.onward
  | .assignSlot i op value => by
    unfold eval listed
    exact .bind_keeps (eval_passes value) fun new =>
      (storeSlot_plain op i new).mono fun _ _ h => h.onward
  | .assignGlobal key op value => by
    unfold eval listed
    exact .bind_keeps (eval_passes value) fun new =>
      (storeGlobal_plain op key new).mono fun _ _ h => h.onward
  | .assignElement base position op value => by
    unfold eval listed
    exact .bind (eval_passes value) fun new => .bind (eval_passes base) fun target =>
      .ofExcept_bind fun id => .bind_keeps (eval_passes position) fun index =>
        (storeElement_plain op id new index).mono fun _ _ h => h.onward
  | .call command arguments => by
    unfold eval listed
    exact .bind (evalList_passes arguments) fun values => hmade command values

/-- A list of expressions passes the scenes of its calls. -/
theorem evalList_passes : (es : List Expr) →
    (evalList invoke es).Passes company.scene (listedAll invoke made es)
  | [] => by
    unfold evalList listedAll
    exact .of_keeps (.pure _)
  | e :: rest => by
    unfold evalList listedAll
    exact .bind (eval_passes e) fun _ => .bind_keeps (evalList_passes rest) fun _ => .pure _

end

end Expr

/-! ## Steps and runs -/

section Steps

open Execution

variable {census : Census} {callee : Callee} (hcensus : census.Covers callee) (company : Company)
include hcensus

namespace Execution

/-- The expression of a node. -/
theorem evaluate_passes (node : Node) :
    (evaluate callee node).Passes company.scene (nodeScenes callee census company node) := by
  intro e
  unfold evaluate nodeScenes
  cases node.code with
  | none => exact .direct (Lasting.refl _)
  | some code =>
    exact Action.Passes.mapError _
      (Expr.eval_passes (fun name values => invoke_passes hcensus company node.line name values) code) e

/-- The condition of a node. -/
theorem evaluateCondition_passes (node : Node) :
    (evaluateCondition callee node).Passes company.scene (nodeScenes callee census company node) := by
  refine .bind_keeps (evaluate_passes hcensus company node) fun v => ?_
  split
  · exact .pure _
  · exact .bind .get fun _ => .fail _

/-- The collection of a loop. -/
theorem evaluateCollection_passes (node : Node) :
    (evaluateCollection callee node).Passes company.scene (nodeScenes callee census company node) := by
  refine .bind_keeps (evaluate_passes hcensus company node) fun v => ?_
  split
  · exact .pure _
  · exact .bind .get fun _ => .fail _

/-- The work of a frame that evaluates a node. -/
theorem stepFrame_passes {tree : Tree} {top node : Node} {frame : Frame} (rest : List Frame)
    (h : evaluatedBy? tree frame top = some node) :
    (stepFrame callee tree top frame rest).Passes company.scene
      (nodeScenes callee census company node) := by
  unfold evaluatedBy? at h
  unfold stepFrame
  simp only
  split at h
  · next hphase hkind =>
    cases h
    rw [hphase, hkind]
    exact .bind_keeps (evaluate_passes hcensus company top) fun _ => .pure _
  · next tested elseIfs elseBranch hphase hkind =>
    rcases Option.bind_eq_some_iff.1 h with ⟨branch, hbranch, hfound⟩
    rw [hphase, hkind]
    unfold stepBranch
    simp only [hbranch, nodeOf, hfound]
    have htested : (do
        if (← evaluateCondition callee node) then return ⟨branch, .block 0⟩ :: rest
        else return ⟨frame.node, .branch (tested + 1)⟩ :: rest : Stepping (List Frame)).Passes
          company.scene (nodeScenes callee census company node) :=
      .bind_keeps (evaluateCondition_passes hcensus company node) fun b => by
        cases b <;> exact .pure _
    exact htested
  · next hphase hkind =>
    cases h
    rw [hphase, hkind]
    exact .bind_keeps (evaluateCondition_passes hcensus company top) fun b => by
      cases b <;> exact .pure _
  · next hphase hkind =>
    cases h
    rw [hphase, hkind]
    exact .bind_keeps (evaluateCollection_passes hcensus company top) fun _ => .pure _
  · cases h

/-- A step. -/
theorem step_passes : (step callee).Passes company.scene (stepScenes callee census company) := by
  intro e
  unfold stepScenes
  refine Outcome.Passes.cons ?_
  cases hevaluated : e.evaluated? with
  | none =>
    have hkeeps : (step callee).Keeps (Onward company.scene) :=
      step_keeps (fun _ _ h => h.onward) (fun e c h => e.onward_of_context c h.id h.program)
        fun node => (evaluate_passes hcensus company node).keeps
    exact Action.Passes.of_keeps hkeeps e
  | some node =>
    rcases step_of_evaluated callee hevaluated with ⟨tree, frame, rest, top, _, _, hnode, hwork⟩
    rw [hwork]
    refine Action.Passes.bind_keeps (stepFrame_passes hcensus company rest hnode)
      (fun frames => .bind (.change fun t => ?_) fun _ => .pure _) e
    exact t.onward_of_context { t.context with frames := frames } rfl rfl

/-- A run. -/
theorem run_passes (budget fuel taken : Nat) :
    (run callee budget fuel taken).Passes company.scene
      (runScenes callee census company budget fuel taken) := by
  have hend : ∀ e : Execution, Onward company.scene e (e.onContext Context.endRun) :=
    fun e => e.onward_of_context _ rfl rfl
  induction fuel generalizing taken with
  | zero => exact fun e => ⟨company.scene e, .direct (Lasting.refl _)⟩
  | succ fuel ih =>
    intro e
    have hstep := step_passes hcensus company e
    unfold run runScenes Action.followed
    cases hrun : step callee e with
    | exhausted =>
      rw [hrun] at hstep
      simp only [List.append_nil]
      exact hstep
    | failed error t =>
      rw [hrun] at hstep
      simp only [List.append_nil]
      exact Trail.behind hstep (hend t)
    | done status t =>
      rw [hrun] at hstep
      cases status with
      | finished =>
        simp only [List.append_nil]
        exact Trail.behind hstep (hend t)
      | running =>
        simp only
        by_cases hused : usedUp budget (taken + 1) = true
        · simp only [if_pos hused, List.append_nil]
          exact hstep
        · simp only [if_neg hused]
          exact (ih (taken + 1) t).prepend hstep

end Execution
end Steps
end ScriptMachine
