import Mathlib.Tactic.SplitIfs
import ScriptMachine.Proofs.Tallying

/-!
# The scripts that a run requests

A script runs itself, or what the machine loads for a name: a program of the cache or one that a
file compiles to.  Files do not change during a run, and what comes into the cache is compiled from
them.  So what holds of the program that is run and of everything that the machine could load holds
of every program that the run requests, however deep.

Main results:

- {lit}`Machine.Shelves`: a property of all programs that a machine can load.
- {lit}`Machine.callee_stocks`: running scripts keeps it.
- {lit}`Machine.observer_asks`: all programs that a run requests have the property.
-/

namespace ScriptMachine

variable {σ α ε : Type} {Q : Program → Prop}

/-- Every outcome has a property of all states. -/
theorem Outcome.Ends.of_forall {P : σ → Prop} {outcome : Outcome σ ε α} (h : ∀ s, P s) :
    outcome.Ends P := by
  cases outcome with
  | done x s => exact h s
  | failed e s => exact h s
  | exhausted => trivial

/-! ## Shelves -/

/-- All programs that a machine can load have a property: those in its cache, and those to which a
file compiles. -/
structure Machine.Shelves (Q : Program → Prop) (m : Machine) : Prop where
  cache : ∀ entry ∈ m.cache, Q entry.program
  files : ∀ path source, m.files.read path = .ok source → ∀ globals commands number program,
    Program.compile globals commands number (some (String.ofList path)) source.toList =
      .ok program → Q program

/-- The property stays with all programs that a machine can load. -/
def Machine.Stocks (Q : Program → Prop) (m m' : Machine) : Prop :=
  m.Shelves Q → m'.Shelves Q

instance : Lasting (Machine.Stocks Q) where
  refl _ h := h
  trans h h' hshelves := h' (h hshelves)

/-- The program of an execution and all that the machine can load have a property. -/
structure Execution.Stocked (Q : Program → Prop) (e : Execution) : Prop where
  program : Q e.context.program
  shelves : e.machine.Shelves Q

/-- The property stays with the program and with all that the machine can load. -/
def Execution.Stocks (Q : Program → Prop) (e e' : Execution) : Prop :=
  e.Stocked Q → e'.Stocked Q

instance : Lasting (Execution.Stocks Q) where
  refl _ h := h
  trans h h' hstocked := h' (h hstocked)

namespace FileSystem

section Bare

variable {files : FileSystem} (hbare : files.entries = [])
include hbare

/-- Without entries there is nothing but directories. -/
theorem entry?_of_bare {location : Location} {entry : FileEntry}
    (h : files.entry? location = some entry) : entry = .directory := by
  unfold entry? at h
  split at h
  · exact (Option.some.inj h).symm
  · rw [hbare] at h
    cases h

/-- Without entries no way leads to a file. -/
theorem walk_of_bare {segments : List (List Char)} {location found : Location} {entry : FileEntry}
    (h : files.walk location segments = .ok (found, entry)) : entry = .directory := by
  induction segments generalizing location with
  | nil =>
    unfold walk at h
    split at h
    · next hfound =>
      cases h
      exact entry?_of_bare hbare hfound
    · cases h
  | cons segment rest ih =>
    unfold walk at h
    split at h
    · cases h
    · cases h
    · split_ifs at h
      · exact ih h
      · exact ih h
      · exact ih h

/-- Without entries there is no text to read. -/
theorem read_of_bare (path : List Char) (source : String) : files.read path ≠ .ok source := by
  intro h
  unfold read find at h
  split at h
  · cases h
  · cases h
  · next hfind =>
    split_ifs at hfind
    · cases walk_of_bare hbare hfind
    · cases walk_of_bare hbare hfind

end Bare
end FileSystem

namespace Machine

variable {m m' : Machine}

/-- Cache and files are the same. -/
theorem Stocks.of_eq (hcache : m'.cache = m.cache) (hfiles : m'.files = m.files) : m.Stocks Q m' :=
  fun h => ⟨by rw [hcache]; exact h.cache, by rw [hfiles]; exact h.files⟩

/-- A plain change. -/
theorem Plain.stocks (h : m.Plain m') : m.Stocks Q m' :=
  .of_eq (by rw [h.same]) (by rw [h.same])

/-- Removing a global only invalidates programs. -/
theorem removeGlobal_stocks (m : Machine) (name : String) : m.Stocks Q (m.removeGlobal name) := by
  unfold removeGlobal
  split
  · rcases exists_stale_of_symbols [name] { m with globals := m.globals.remove name } with
      ⟨stale, heq, -⟩
    rw [List.foldl_cons, List.foldl_nil] at heq
    rw [heq]
    exact .of_eq rfl rfl
  · exact Lasting.refl m

/-- Removing a command only invalidates programs. -/
theorem unregister_stocks {name : String} {command : Command}
    (h : m.unregister name = .ok (command, m')) : m.Stocks Q m' := by
  unfold unregister at h
  split at h
  · cases h
  · cases h
    rcases exists_stale_of_symbols _ _ with ⟨stale, heq, -⟩
    rw [heq]
    exact .of_eq rfl rfl

/-- A program that is loaded was on the shelves. -/
theorem Shelves.of_load (h : m.Shelves Q) {name : String} {program : Program}
    (hload : load name m = .done program m') : Q program := by
  have hends := load_ends name m
  rw [hload] at hends
  cases hends with
  | cached hcached _ =>
    rcases exists_entry_of_cached? hcached with ⟨entry, hmem, rfl⟩
    exact h.cache entry hmem
  | compiled _ hcompiles =>
    rcases hcompiles with ⟨source, hread, hcompile, -⟩
    exact h.files _ source hread _ _ _ program hcompile

/-- Loading a script puts nothing on the shelves that was not there. -/
theorem load_stocks (name : String) : (load name).Keeps (Stocks Q) := by
  intro m
  cases hload : load name m with
  | exhausted => trivial
  | failed error n =>
    have hends := load_ends name m
    rw [hload] at hends
    cases hends with
    | failed _ _ hsame => rcases hsame with rfl | rfl <;> exact .of_eq rfl rfl
  | done program n =>
    intro h
    have hprogram := h.of_load hload
    have hends := load_ends name m
    rw [hload] at hends
    cases hends with
    | cached => exact h
    | compiled =>
      refine ⟨fun entry hmem => ?_, h.files⟩
      rcases List.mem_cons.1 hmem with rfl | hmem
      · exact hprogram
      · exact h.cache entry (List.mem_filter.1 hmem).1

end Machine

namespace Execution

/-- A plain change. -/
theorem Plain.stocks {e e' : Execution} (h : e.Plain e') : e.Stocks Q e' :=
  fun hstocked => ⟨by rw [h.context.program]; exact hstocked.program,
    h.machine.stocks hstocked.shelves⟩

/-- A change of the context that leaves its program alone. -/
theorem stocks_context (e : Execution) {context : Context}
    (h : context.program = e.context.program) : e.Stocks Q { e with context := context } :=
  fun hstocked => ⟨by rw [h]; exact hstocked.program, hstocked.shelves⟩

end Execution

/-! ## Commands -/

/-- Running scripts with a property puts nothing on the shelves that was not there. -/
structure Callee.Stocks (Q : Program → Prop) (callee : Callee) : Prop where
  run : ∀ program arguments, Q program → (callee.run program arguments).Keeps (Machine.Stocks Q)
  create : ∀ program arguments, Q program →
    (callee.create program arguments).Keeps (Machine.Stocks Q)

section Calls

open Execution CommandStep

variable {callee : Callee} (hcallee : callee.Stocks Q) (line : Nat) (arguments : List Value)

/-- An operation of the machine on behalf of a context. -/
theorem CommandStep.operate_stocks {operation : Operation α}
    (h : operation.Keeps (Machine.Stocks Q)) : (operate operation).Keeps (Execution.Stocks Q) :=
  .attempt (.onPart h fun _ _ hstocks hstocked => ⟨hstocked.program, hstocks hstocked.shelves⟩)

/-- A change of the machine that a command makes. -/
theorem CommandStep.onMachine_stocks {change : Machine → Machine}
    (h : ∀ m : Machine, m.Stocks Q (change m)) : (onMachine change).Keeps (Execution.Stocks Q) :=
  .change fun e hstocked => ⟨hstocked.program, h e.machine hstocked.shelves⟩

/-- Looking for the program that a call means. -/
theorem Builtin.target_stocks (name : String) : (target name).Keeps (Execution.Stocks Q) := by
  unfold target
  refine .bind .get fun e => ?_
  split
  · exact .pure _
  · exact operate_stocks (Machine.load_stocks name)

/-- The program that a call means is the calling one or was on the shelves. -/
theorem Builtin.of_target {name : String} {program : Program} {e t : Execution}
    (h : target name e = .done (.ok program) t) (hstocked : e.Stocked Q) : Q program := by
  simp only [target, Action.bind_run, Action.get_run] at h
  split at h
  · cases h
    exact hstocked.program
  · simp only [operate, Action.attempt_run, Action.onPart] at h
    cases hload : Machine.load name e.machine with
    | done found m =>
      rw [hload] at h
      cases h
      exact hstocked.shelves.of_load hload
    | failed error m =>
      rw [hload] at h
      cases h
    | exhausted =>
      rw [hload] at h
      cases h

include hcallee

/-- The command that runs another script. -/
theorem Builtin.doCall_stocks : (doCall callee arguments).Keeps (Execution.Stocks Q) := by
  unfold doCall
  refine .bind (.ofExcept _) fun name => ?_
  simp only
  split
  · exact .fail _
  · intro e
    have htarget := target_stocks (Q := Q) name e
    rw [Action.bind_run]
    cases hrun : target name e with
    | exhausted => trivial
    | failed error t =>
      rw [hrun] at htarget
      exact htarget
    | done found t =>
      rw [hrun] at htarget
      cases found with
      | error refusal => exact htarget
      | ok program =>
        by_cases hstocked : e.Stocked Q
        · have hcall := operate_stocks (hcallee.run program (arguments.drop 1)
            (of_target hrun hstocked))
          refine ((Action.Keeps.bind hcall fun result => ?_) t).mono fun u hu =>
            Lasting.trans (R := Execution.Stocks Q) htarget hu
          split <;> exact .pure _
        · exact .of_forall fun _ h => absurd h hstocked

/-- Creating a context of the running program. -/
theorem HostAction.backgroundRunning_stocks :
    (backgroundRunning callee arguments).Keeps (Execution.Stocks Q) := by
  refine Action.Keeps.get_bind fun e => ?_
  by_cases hstocked : e.Stocked Q
  · have hcreate := operate_stocks (hcallee.create e.context.program arguments hstocked.program)
    refine (Action.Keeps.bind hcreate fun result => ?_) e
    split
    · exact .fail _
    · exact .bind (onMachine_stocks fun m => .of_eq rfl rfl) fun _ => .pure _
  · exact .of_forall fun _ h => absurd h hstocked

/-- What an action of the host does. -/
theorem HostAction.perform_stocks (action : HostAction) :
    (action.perform callee arguments).Keeps (Execution.Stocks Q) := by
  by_cases hplain : action.isPlain = true
  · exact (perform_plain callee arguments hplain).mono fun _ _ h => h.stocks
  · cases action with
    | removeGlobal name =>
      exact .bind (onMachine_stocks fun m => m.removeGlobal_stocks name) fun _ => .pure _
    | unregister name =>
      refine .bind (onMachine_stocks fun m => ?_) fun _ => .pure _
      cases hrun : m.unregister name with
      | ok pair => exact Machine.unregister_stocks hrun
      | error error => exact Lasting.refl (R := Machine.Stocks Q) m
    | backgroundSelf => exact backgroundRunning_stocks hcallee arguments
    | _ => exact absurd rfl hplain

/-- The call of a command by name. -/
theorem invoke_stocks (name : String) :
    (invoke callee line name arguments).Keeps (Execution.Stocks Q) := by
  refine .bind .get fun e => ?_
  split
  · exact .fail _
  · next command _ =>
    refine .bind (.ofExcept _) fun _ => .bind (.mapError _ ?_) fun reply => .ofExcept _
    unfold Command.perform
    split
    · exact Builtin.perform_keeps (fun _ _ h => h.stocks)
        (fun e _ h => e.stocks_context h.program) (Builtin.doCall_stocks hcallee) line arguments _
    · exact HostAction.perform_stocks hcallee arguments _

/-- The expression of a node. -/
theorem Execution.evaluate_stocks (node : Node) : (evaluate callee node).Keeps (Stocks Q) :=
  evaluate_keeps (fun line code => Expr.eval_keeps (fun _ _ h => h.stocks) code fun name _ values =>
    invoke_stocks hcallee line values name) node

/-- A step. -/
theorem Execution.step_stocks : (step callee).Keeps (Stocks Q) :=
  step_keeps (fun _ _ h => h.stocks) (fun e _ h => e.stocks_context h.program)
    (evaluate_stocks hcallee)

/-- A run. -/
theorem Execution.run_stocks (budget fuel taken : Nat) :
    (run callee budget fuel taken).Keeps (Stocks Q) :=
  run_keeps (fun _ _ h => h.stocks) (fun e _ h => e.stocks_context h.program)
    (evaluate_stocks hcallee) budget fuel taken

end Calls

/-! ## Contexts and programs -/

namespace Machine

section Callee

variable {callee : Callee} (hcallee : callee.Stocks Q) {program : Program} (hprogram : Q program)
  (arguments : List Value)
include hcallee hprogram

/-- The creation of a context. -/
theorem createContext_stocks : (createContext callee program arguments).Keeps (Stocks Q) := by
  intro m
  have hprepare := prepare_keeps (Execution.evaluate_stocks hcallee) program
  have hstart : m.Shelves Q → ∀ locals, Execution.Stocked Q
      ⟨m.preparing program, .create (m.contextCount + 1) program locals⟩ :=
    fun h locals => ⟨hprogram, h.cache, h.files⟩
  cases hrun : createContext callee program arguments m with
  | exhausted => trivial
  | failed error n =>
    cases Creates.of_createContext hrun with
    | unbound => exact .of_eq rfl rfl
    | failed _ hfailed =>
      intro h
      have hend := hprepare.of_failed hfailed (hstart h _)
      exact ⟨hend.shelves.cache, hend.shelves.files⟩
  | done context n =>
    cases Creates.of_createContext hrun with
    | done _ hdone =>
      intro h
      have hend := hprepare.of_done hdone (hstart h _)
      exact ⟨hend.shelves.cache, hend.shelves.files⟩

omit hprogram in
/-- A run to the end. -/
theorem runToEnd_stocks (fuel : Nat) : (runToEnd callee fuel).Keeps (Execution.Stocks Q) := by
  intro e
  unfold runToEnd
  split
  · exact Lasting.refl (R := Execution.Stocks Q) e
  · exact (Execution.run_stocks hcallee 0 fuel 0 (e.onContext _)).mono fun t ht hstocked =>
      ht ⟨hstocked.program, hstocked.shelves⟩

/-- A program in a new context. -/
theorem runFresh_stocks (hkeeps : callee.Keeps) (fuel : Nat) :
    (runFresh callee fuel program arguments).Keeps (Stocks Q) := by
  refine runFresh_keeps_of (createContext_stocks hcallee hprogram arguments)
    fun {_ n context} h => ?_
  have hsame := program_of_created hkeeps h
  refine (runToEnd_stocks hcallee fuel ⟨n, context⟩).mono fun e he hshelves => ?_
  have hend := (he ⟨by rw [hsame]; exact hprogram, hshelves⟩).shelves
  exact ⟨hend.cache, hend.files⟩

/-- The run of a program. -/
theorem runProgram_stocks (hkeeps : callee.Keeps) (fuel : Nat) :
    (runProgram callee fuel program arguments).Keeps (Stocks Q) := by
  refine runProgram_keeps_of (fun {m n} h hshelves => ?_)
    (runFresh_stocks hcallee hprogram arguments hkeeps fuel)
  have hend := h ⟨hshelves.cache, hshelves.files⟩
  exact ⟨hend.cache, hend.files⟩

end Callee

/-- Running scripts with a property puts nothing on the shelves that was not there, whatever the
fuel. -/
theorem callee_stocks (fuel : Nat) : (callee fuel).Stocks Q := by
  induction fuel with
  | zero => exact ⟨fun _ _ _ _ => trivial, fun _ _ _ _ => trivial⟩
  | succ fuel ih =>
    exact ⟨fun _ arguments h => runProgram_stocks ih h arguments (callee_keeps fuel) fuel,
      fun _ arguments h => createContext_stocks ih h arguments⟩

end Machine

/-! ## Requests -/

/-- All programs that are requested have a property. -/
def AsksOnly (Q : Program → Prop) (told : List Moment) : Prop :=
  ∀ x ∈ told, ∀ program arguments, x.event = .request program arguments → Q program

/-- With a property of its program and of the shelves, an execution only requests programs that have
it. -/
def Execution.Asks (Q : Program → Prop) (told : Execution → List Moment) : Prop :=
  ∀ e, e.Stocked Q → AsksOnly Q (told e)

namespace AsksOnly

variable {first second : List Moment} {x : Moment}

theorem nil : AsksOnly Q [] :=
  fun _ h => by cases h

theorem append (h : AsksOnly Q first) (h' : AsksOnly Q second) : AsksOnly Q (first ++ second) :=
  fun x hmem => (List.mem_append.1 hmem).elim (h x) (h' x)

/-- A moment that is no request. -/
theorem cons (hx : ∀ program arguments, x.event ≠ .request program arguments)
    (h : AsksOnly Q second) : AsksOnly Q (x :: second) := by
  intro y hmem program arguments hevent
  rcases List.mem_cons.1 hmem with rfl | hmem
  · exact absurd hevent (hx program arguments)
  · exact h y hmem program arguments hevent

/-- What is told behind an action. -/
theorem followed {σ α ε : Type} {first : σ → List Moment} {action : Action σ ε α}
    {next : α → σ → List Moment} {s : σ} (h : AsksOnly Q (first s))
    (hnext : ∀ x t, action s = .done x t → AsksOnly Q (next x t)) :
    AsksOnly Q (Action.followed first action next s) := by
  refine h.append ?_
  cases hrun : action s with
  | done x t => exact hnext x t hrun
  | failed error t => exact nil
  | exhausted => exact nil

end AsksOnly

namespace Execution.Asks

variable {told : Execution → List Moment}

theorem nil : Execution.Asks Q fun _ => [] :=
  fun _ _ => .nil

/-- What is told behind an action that keeps the shelves. -/
theorem followed {action : Action Execution ε α} {next : α → Execution → List Moment}
    (h : Execution.Asks Q told) (haction : action.Keeps (Execution.Stocks Q))
    (hnext : ∀ x, Execution.Asks Q (next x)) :
    Execution.Asks Q (Action.followed told action next) :=
  fun e he => .followed (h e he) fun x t hrun => hnext x t (haction.of_done hrun he)

/-- What is told behind a check. -/
theorem checked {result : Except ε α} {next : α → Execution → List Moment}
    (hnext : ∀ x, Execution.Asks Q (next x)) : Execution.Asks Q (Action.checked result next) := by
  intro e he
  cases result with
  | ok x => exact hnext x e he
  | error error => exact .nil

end Execution.Asks

namespace Expr

open Execution

variable {invoke : Invoker} {made : String → List Value → Execution → List Moment}
  (hinvoke : ∀ name values, (invoke name values).Keeps (Stocks Q))
include hinvoke

/-- An expression keeps the shelves if the calls in it do. -/
theorem eval_stocks (e : Expr) : (e.eval invoke).Keeps (Stocks Q) :=
  eval_keeps (fun _ _ h => h.stocks) e fun name _ values => hinvoke name values

/-- A list of expressions keeps the shelves if the calls in it do. -/
theorem evalList_stocks (es : List Expr) : (evalList invoke es).Keeps (Stocks Q) :=
  evalList_keeps (fun _ _ h => h.stocks) es fun name _ values => hinvoke name values

variable (hmade : ∀ name values, Asks Q (made name values))
include hmade

set_option linter.unusedSectionVars false in
mutual

/-- An expression requests what the calls in it request. -/
theorem listed_asks : (e : Expr) → Asks Q (e.listed invoke made)
  | .number _ | .text _ | .reference _ | .slot _ | .global _ => by
    unfold listed
    exact .nil
  | .index target position => by
    unfold listed
    exact .followed (listed_asks target) (eval_stocks hinvoke target) fun _ => listed_asks position
  | .unary _ operand => by
    unfold listed
    exact listed_asks operand
  | .binary op left right => by
    have hleft := listed_asks left
    have hright := listed_asks right
    cases op with
    | and =>
      unfold listed
      refine .followed hleft (eval_stocks hinvoke left) fun _ => .checked fun b => ?_
      cases b with
      | true => exact hright
      | false => exact .nil
    | or =>
      unfold listed
      refine .followed hleft (eval_stocks hinvoke left) fun _ => .checked fun b => ?_
      cases b with
      | true => exact .nil
      | false => exact hright
    | _ =>
      unfold listed
      exact .followed hleft (eval_stocks hinvoke left) fun _ => hright
  | .assignSlot _ _ value | .assignGlobal _ _ value => by
    unfold listed
    exact listed_asks value
  | .assignElement base position _ value => by
    unfold listed
    exact .followed (listed_asks value) (eval_stocks hinvoke value) fun _ =>
      .followed (listed_asks base) (eval_stocks hinvoke base) fun _ =>
        .checked fun _ => listed_asks position
  | .call command arguments => by
    unfold listed
    exact .followed (listedAll_asks arguments) (evalList_stocks hinvoke arguments) fun values =>
      hmade command values

/-- A list of expressions requests what the calls in it request. -/
theorem listedAll_asks : (es : List Expr) → Asks Q (listedAll invoke made es)
  | [] => by
    unfold listedAll
    exact .nil
  | e :: rest => by
    unfold listedAll
    exact .followed (listed_asks e) (eval_stocks hinvoke e) fun _ => listedAll_asks rest

end

end Expr

/-- Runs and creations of contexts request programs with a property only. -/
structure Observer.Asks (Q : Program → Prop) (observer : Observer) : Prop where
  run : ∀ program arguments underway m, Q program → m.Shelves Q →
    AsksOnly Q (observer.run program arguments underway m)
  create : ∀ program arguments underway m, Q program → m.Shelves Q →
    AsksOnly Q (observer.create program arguments underway m)

section Calls

open Execution

variable {observer : Observer} (hobserver : observer.Asks Q) (underway : List Activation)
  (arguments : List Value)
include hobserver

/-- A built-in command requests the program that a call means. -/
theorem Builtin.moments_asks (builtin : Builtin) :
    Asks Q (builtin.moments observer underway arguments) := by
  cases builtin with
  | raiseError =>
    refine .checked fun _ e _ => .cons (fun _ _ h => by cases h) .nil
  | callScript =>
    refine .checked fun name => ?_
    split
    · exact .nil
    · refine fun e he => .followed .nil fun found t hrun => ?_
      cases found with
      | error refusal => exact .nil
      | ok program =>
        have hstocked := (target_stocks name).of_done hrun he
        exact hobserver.run program _ underway t.machine (of_target hrun he) hstocked.shelves
  | _ => exact .nil

/-- An action of the host creates contexts of the running program. -/
theorem HostAction.moments_asks (action : HostAction) :
    Asks Q (action.moments observer underway arguments) := by
  cases action with
  | raise => exact fun e _ => .cons (fun _ _ h => by cases h) .nil
  | backgroundSelf =>
    exact fun e he => hobserver.create e.context.program arguments underway e.machine he.program
      he.shelves
  | _ => exact .nil

/-- The call of a command by name. -/
theorem invokeMoments_asks (name : String) :
    Asks Q (invokeMoments observer underway name arguments) := by
  intro e he
  unfold invokeMoments
  split
  · exact .nil
  · next command _ =>
    have hcommand : Asks Q (command.moments observer underway arguments) := by
      unfold Command.moments
      split
      · exact Builtin.moments_asks hobserver underway arguments _
      · exact HostAction.moments_asks hobserver underway arguments _
    exact Execution.Asks.checked (fun _ => hcommand) e he

end Calls

section Runs

variable {callee : Callee} (hcallee : callee.Stocks Q) {observer : Observer}
  (hobserver : observer.Asks Q) (underway : List Activation)
include hcallee hobserver

namespace Execution

/-- The evaluation of a node. -/
theorem nodeMoments_asks (node : Node) : Asks Q (nodeMoments callee observer underway node) := by
  intro e he
  unfold nodeMoments
  split
  · exact .nil
  · next code _ =>
    refine .cons (fun _ _ h => by cases h) ?_
    exact code.listed_asks (fun name values => invoke_stocks hcallee node.line values name)
      (fun name values => invokeMoments_asks hobserver underway values name) e he

/-- A step. -/
theorem stepMoments_asks : Asks Q (stepMoments callee observer underway) := by
  intro e he
  unfold stepMoments
  split
  · exact nodeMoments_asks hcallee hobserver underway _ e he
  · exact .nil

/-- A run. -/
theorem runMoments_asks (budget fuel taken : Nat) :
    Asks Q (runMoments callee observer underway budget fuel taken) := by
  have hstep := stepMoments_asks hcallee hobserver underway
  induction fuel generalizing taken with
  | zero => exact .nil
  | succ fuel ih =>
    cases fuel with
    | zero =>
      intro e he
      unfold runMoments
      split
      · exact hstep e he
      · exact hstep e he
      · exact .nil
    | succ fuel =>
      unfold runMoments
      refine .followed hstep (step_stocks hcallee) fun status => ?_
      cases status with
      | finished => exact .nil
      | running =>
        simp only
        split
        · exact .nil
        · exact ih (taken + 1)

end Execution

namespace Machine

open Execution

/-- A list of initializers. -/
theorem prepareMoments_asks (tree : Tree) (ids : List Nat) :
    Asks Q (prepareMoments callee observer underway tree ids) := by
  induction ids with
  | nil => exact .nil
  | cons id rest ih =>
    have hone : Asks Q (prepareOneMoments callee observer underway tree id) := by
      unfold prepareOneMoments
      split
      · exact nodeMoments_asks hcallee hobserver underway _
      · exact .nil
    exact .followed hone (prepareOne_keeps (evaluate_stocks hcallee) tree id) fun _ => ih

variable {program : Program} (hprogram : Q program) (arguments : List Value) {m : Machine}
  (hshelves : m.Shelves Q)
include hprogram hshelves

/-- The creation of a context. -/
theorem createMoments_asks :
    AsksOnly Q (createMoments callee observer underway program arguments m) := by
  unfold createMoments
  simp only
  split
  · exact .nil
  · refine .cons (fun _ _ h => by cases h) ?_
    split
    · exact .nil
    · exact prepareMoments_asks hcallee hobserver _ _ _ _
        ⟨hprogram, hshelves.cache, hshelves.files⟩

/-- A program in a new context. -/
theorem freshMoments_asks (hkeeps : callee.Keeps) (fuel : Nat) :
    AsksOnly Q (freshMoments callee observer underway fuel program arguments m) := by
  refine .followed (createMoments_asks hcallee hobserver underway hprogram arguments hshelves)
    fun context n hcreated => ?_
  have hsame := program_of_created hkeeps hcreated
  have hcreation := (createContext_stocks hcallee hprogram arguments).of_done hcreated hshelves
  unfold runToEndMoments
  split
  · exact .nil
  · exact runMoments_asks hcallee hobserver underway 0 fuel 0 _
      ⟨hsame.symm ▸ hprogram, hcreation⟩

/-- The run of a program. -/
theorem programMoments_asks (hkeeps : callee.Keeps) (fuel : Nat) :
    AsksOnly Q (programMoments callee observer underway fuel program arguments m) := by
  have hinner : AsksOnly Q (if m.settings.maxCallDepth ≤ m.depth then []
      else ⟨.run :: underway, m.enter, .entered⟩ ::
        freshMoments callee observer (.run :: underway) fuel program arguments m.enter) := by
    split
    · exact .nil
    · have hentered : m.enter.Shelves Q := ⟨hshelves.cache, hshelves.files⟩
      exact .cons (fun _ _ h => by cases h)
        (freshMoments_asks hcallee hobserver _ hprogram arguments hentered hkeeps fuel)
  intro x hmem called given hevent
  rcases List.mem_cons.1 hmem with rfl | hmem
  · cases hevent
    exact hprogram
  · exact hinner x hmem called given hevent

end Machine
end Runs

/-- Runs and creations of contexts request programs with a property only, if their own program has
it and so has everything that the machine can load. -/
theorem Machine.observer_asks (fuel : Nat) : (observer fuel).Asks Q := by
  induction fuel with
  | zero => exact ⟨fun _ _ _ _ _ _ => .nil, fun _ _ _ _ _ _ => .nil⟩
  | succ fuel ih =>
    have hcallee : (callee fuel).Stocks Q := callee_stocks fuel
    exact ⟨fun _ arguments underway _ hprogram hshelves =>
        programMoments_asks hcallee ih underway hprogram arguments hshelves (callee_keeps fuel)
          fuel,
      fun _ arguments underway _ hprogram hshelves =>
        createMoments_asks hcallee ih underway hprogram arguments hshelves⟩

end ScriptMachine
