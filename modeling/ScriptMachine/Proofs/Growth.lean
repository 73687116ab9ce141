import ScriptMachine.Machine.Run
import ScriptMachine.Proofs.Keeping

/-!
# Growing machines

Whatever a script does, it changes its machine only in certain ways: the call depth is the
same again afterwards, commands only disappear, contexts are only added behind those in the
background, and inside of a call a raised global exception stays raised.

Main results:

- {lit}`Machine.Plain`: how a machine may differ after anything but calls and removals.
- {lit}`Machine.Grows`: how a machine may differ afterwards.
- {lit}`Machine.load_keeps`: loading a script lets the machine grow.
- {lit}`Machine.unregister_grows`: so does the removal of a command.
-/

namespace ScriptMachine

/-! ## Growth -/

namespace Context

/-- A context that has not started a run and has not waited for one, of a program with a tree. -/
structure IsNew (context : Context) : Prop where
  runs : context.runs = 0
  frames : context.frames = []
  elapsed : context.elapsed = 0.0
  tree : context.program.tree.isSome = true

end Context

namespace Machine

/-- Contexts that are new and have numbers above a given one were added to the background. -/
def Enlists (low : Nat) (m m' : Machine) : Prop :=
  low ≤ m'.contextCount ∧ ∃ added, m'.background = m.background ++ added ∧
    (∀ context ∈ added, context.IsNew ∧ low < context.id ∧ context.id ≤ m'.contextCount) ∧
    (added.map Context.id).Nodup

/-- How a machine may differ after anything that a script has done. -/
structure Grows (m m' : Machine) : Prop where
  settings : m'.settings = m.settings
  depth : m'.depth = m.depth
  /-- Inside of a call a raised global exception stays raised. -/
  raised : 0 < m.depth → m.raised = true → m'.raised = true
  commands : ∀ command ∈ m'.commands.commands, command ∈ m.commands.commands
  background : Enlists m.contextCount m m'

/-- A machine with the same background and the same number of contexts enlists nothing. -/
theorem Enlists.of_eq {m m' : Machine} (hcount : m'.contextCount = m.contextCount)
    (hbackground : m'.background = m.background) : Enlists m.contextCount m m' := by
  refine ⟨by omega, [], ?_, ?_, ?_⟩
  · simp [hbackground]
  · simp
  · simp

/-- Later numbers lie above all earlier ones. -/
theorem Enlists.trans {low : Nat} {m n k : Machine} (h : Enlists low m n)
    (h' : Enlists n.contextCount n k) : Enlists low m k := by
  rcases h with ⟨hlow, first, hfirst, hnew, hnodup⟩
  rcases h' with ⟨hcount, second, hsecond, hnew', hnodup'⟩
  refine ⟨by omega, first ++ second, ?_, ?_, ?_⟩
  · rw [hsecond, hfirst, List.append_assoc]
  · intro context hmem
    rcases List.mem_append.1 hmem with hmem | hmem
    · have hc := hnew context hmem
      exact ⟨hc.1, hc.2.1, by omega⟩
    · have hc := hnew' context hmem
      exact ⟨hc.1, by omega, hc.2.2⟩
  · rw [List.map_append, List.nodup_append]
    refine ⟨hnodup, hnodup', ?_⟩
    intro i hi j hj hij
    rcases List.mem_map.1 hi with ⟨c, hc, rfl⟩
    rcases List.mem_map.1 hj with ⟨d, hd, rfl⟩
    have hbelow := (hnew c hc).2.2
    have habove := (hnew' d hd).2.1
    omega

/-- A machine that differs in nothing but globals, arrays, console, files, cache, stale
programs, live contexts, random numbers and the number of programs. -/
theorem Grows.of_eq {m m' : Machine} (hsettings : m'.settings = m.settings)
    (hdepth : m'.depth = m.depth) (hraised : m.raised = true → m'.raised = true)
    (hcommands : ∀ command ∈ m'.commands.commands, command ∈ m.commands.commands)
    (hcount : m'.contextCount = m.contextCount)
    (hbackground : m'.background = m.background) : Grows m m' :=
  ⟨hsettings, hdepth, fun _ h => hraised h, hcommands, .of_eq hcount hbackground⟩

instance : Lasting Grows where
  refl m := .of_eq rfl rfl id (fun _ h => h) rfl rfl
  trans {m n k} h h' :=
    ⟨h'.settings.trans h.settings, h'.depth.trans h.depth,
      fun hdepth hraised => h'.raised (by rw [h.depth]; exact hdepth) (h.raised hdepth hraised),
      fun command hmem => h.commands command (h'.commands command hmem),
      h.background.trans h'.background⟩

/-! ### Plain changes -/

/-- The machine differs in the values of globals, in arrays, console and random numbers, and
perhaps the global exception was raised. -/
structure Plain (m m' : Machine) : Prop where
  same : m' = { m with
    globals := m'.globals
    arrays := m'.arrays
    raised := m'.raised
    console := m'.console
    random := m'.random }
  raised : m.raised = true → m'.raised = true
  declared : ∀ name, m'.globals.contains name = m.globals.contains name

instance : Lasting Plain where
  refl _ := ⟨rfl, id, fun _ => rfl⟩
  trans h h' := ⟨h'.same.trans (by rw [h.same]), fun hraised => h'.raised (h.raised hraised),
    fun name => (h'.declared name).trans (h.declared name)⟩

/-- A machine grows by plain changes. -/
theorem Plain.grows {m m' : Machine} (h : m.Plain m') : m.Grows m' := by
  refine .of_eq (by rw [h.same]) (by rw [h.same]) h.raised (fun _ hmem => ?_) (by rw [h.same])
    (by rw [h.same])
  rw [h.same] at hmem
  exact hmem

/-- Drawing a random number. -/
theorem draw_plain (m : Machine) : m.Plain m.draw.2 := by
  unfold draw
  simp only
  generalize m.random * 6364136223846793005 + 1442695040888963407 = next
  exact ⟨rfl, id, fun _ => rfl⟩

/-! ### Operations without calls -/

/-- Marking a program as stale. -/
theorem invalidate_grows (m : Machine) (program : Program) : m.Grows (m.invalidate program) := by
  unfold invalidate
  split
  · exact .of_eq rfl rfl id (fun _ h => h) rfl rfl
  · exact Lasting.refl m

/-- Marking a program as stale if it refers to a name. -/
theorem invalidateIfDependent_grows (symbol : String) (m : Machine) (program : Program) :
    m.Grows (invalidateIfDependent symbol m program) := by
  unfold invalidateIfDependent
  split
  · exact invalidate_grows m program
  · exact Lasting.refl m

/-- Marking every known program as stale that refers to a name. -/
theorem invalidateDependents_grows (m : Machine) (symbol : String) :
    m.Grows (m.invalidateDependents symbol) := by
  unfold invalidateDependents
  generalize m.knownPrograms = programs
  induction programs generalizing m with
  | nil => exact Lasting.refl m
  | cons program rest ih =>
    exact Lasting.trans (invalidateIfDependent_grows symbol m program) (ih _)

/-- Removing a global. -/
theorem removeGlobal_grows (m : Machine) (name : String) : m.Grows (m.removeGlobal name) := by
  unfold removeGlobal
  split
  · have hremove : m.Grows { m with globals := m.globals.remove name } :=
      .of_eq rfl rfl id (fun _ h => h) rfl rfl
    exact Lasting.trans hremove (invalidateDependents_grows _ name)
  · exact Lasting.refl m

/-- Removing a command. -/
theorem unregister_grows {m m' : Machine} {name : String} {command : Command}
    (h : m.unregister name = .ok (command, m')) : m.Grows m' := by
  unfold unregister at h
  cases hremoved : m.commands.unregister name with
  | error e => simp [hremoved] at h
  | ok pair =>
    rcases pair with ⟨removed, table⟩
    simp only [hremoved, Except.ok.injEq, Prod.mk.injEq] at h
    have hsub : ∀ command ∈ table.commands, command ∈ m.commands.commands := by
      unfold CommandTable.unregister at hremoved
      split at hremoved
      · cases hremoved
      · cases hremoved
        intro command hmem
        exact (List.mem_filter.1 hmem).1
    have hstart : m.Grows { m with commands := table } := .of_eq rfl rfl id hsub rfl rfl
    rw [← h.2]
    generalize removed.signature.name :: removed.signature.shortName.toList = symbols
    generalize { m with commands := table } = n at hstart
    clear h
    induction symbols generalizing n with
    | nil => exact hstart
    | cons symbol rest ih =>
      exact ih _ (Lasting.trans hstart (invalidateDependents_grows n symbol))

/-- Compiling a source text. -/
theorem compile_keeps (path : Option String) (source : String) :
    (compile path source).Keeps Grows := by
  intro m
  have hcount : m.Grows m.countProgram := .of_eq rfl rfl id (fun _ h => h) rfl rfl
  unfold compile
  simp only
  split <;> exact hcount

/-- Loading a script that is not cached. -/
theorem loadFresh_keeps (path : List Char) : (loadFresh path).Keeps Grows := by
  apply Action.Keeps.get_bind
  intro m
  cases m.files.read path with
  | error e => exact Lasting.refl m
  | ok source =>
    refine Action.Keeps.bind (compile_keeps _ _) (fun program => ?_) m
    apply Action.Keeps.get_bind
    intro n
    split
    · exact .of_eq rfl rfl id (fun _ h => h) rfl rfl
    · exact Lasting.refl n

/-- Loading a script. -/
theorem load_keeps (name : String) : (load name).Keeps Grows := by
  unfold load
  refine .bind .get fun m => ?_
  simp only
  split
  · split
    · exact .pure _
    · exact loadFresh_keeps _
  · exact loadFresh_keeps _

end Machine

end ScriptMachine
