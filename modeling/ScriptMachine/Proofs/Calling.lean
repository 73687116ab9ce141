import ScriptMachine.Proofs.Chronicle

/-!
# Calls that a run makes

A run makes calls of commands from its own expressions.  Each is listed here with the execution in
which it is made; what the called scripts do in turn is not.  Between the beginning of a run and a
call, the context has done steps of its run and nothing else.

Main results:

- {lit}`Expr.exists_of_mem_listed`: whatever is listed for an expression is listed for one of its
  calls.
- {lit}`Execution.runCalls`: the calls of a run.
- {lit}`Execution.continues_of_mem_runCalls`: where a run makes its calls.
-/

namespace ScriptMachine

variable {σ ε ρ α : Type}

/-! ## What is listed for an expression -/

/-- What is listed for an action and what comes behind it. -/
theorem Action.mem_followed {first : σ → List ρ} {action : Action σ ε α} {next : α → σ → List ρ} {s : σ}
    {x : ρ} (h : x ∈ Action.followed first action next s) :
    x ∈ first s ∨ ∃ answer t, action s = .done answer t ∧ x ∈ next answer t := by
  unfold Action.followed at h
  rcases List.mem_append.1 h with hfirst | hnext
  · exact .inl hfirst
  · cases hrun : action s with
    | done answer t =>
      rw [hrun] at hnext
      exact .inr ⟨answer, t, rfl, hnext⟩
    | failed e t =>
      rw [hrun] at hnext
      cases hnext
    | exhausted =>
      rw [hrun] at hnext
      cases hnext

/-- What is listed behind a check. -/
theorem Action.mem_checked {result : Except ε α} {next : α → σ → List ρ} {s : σ} {x : ρ}
    (h : x ∈ Action.checked result next s) : ∃ answer, result = .ok answer ∧ x ∈ next answer s := by
  unfold Action.checked at h
  cases result with
  | ok answer => exact ⟨answer, rfl, h⟩
  | error e => cases h

namespace Expr

open Execution

section Listed

variable {R : Execution → Execution → Prop} [Lasting R] {invoke : Invoker}
  {made : String → List Value → Execution → List ρ} (hR : ∀ e e', e.Plain e' → R e e')
  (hinvoke : ∀ name values, (invoke name values).Keeps R)

/-- What is listed for a call that is made in some execution. -/
def ListedFrom (R : Execution → Execution → Prop) (made : String → List Value → Execution → List ρ)
    (s : Execution) (x : ρ) : Prop :=
  ∃ name values t, R s t ∧ x ∈ made name values t

/-- What is listed from a later execution is listed from an earlier one. -/
theorem ListedFrom.before {s t : Execution} {x : ρ} (h : ListedFrom R made t x) (hst : R s t) :
    ListedFrom R made s x := by
  rcases h with ⟨name, values, u, htu, hmem⟩
  exact ⟨name, values, u, Lasting.trans hst htu, hmem⟩

include hR hinvoke

set_option linter.unusedSectionVars false in
mutual

/-- Whatever is listed for an expression is listed for one of its calls. -/
theorem exists_of_mem_listed : (e : Expr) → {s : Execution} → {x : ρ} → x ∈ e.listed invoke made s →
    ListedFrom R made s x
  | .number _, _, _, h | .text _, _, _, h | .reference _, _, _, h | .slot _, _, _, h
  | .global _, _, _, h => by
    simp [listed] at h
  | .index target position, s, x, h => by
    unfold listed at h
    rcases Action.mem_followed h with hfirst | ⟨v, t, hrun, hnext⟩
    · exact exists_of_mem_listed target hfirst
    · exact (exists_of_mem_listed position hnext).before
        ((eval_keeps hR target fun name _ => hinvoke name).of_done hrun)
  | .unary _ operand, s, x, h => by
    unfold listed at h
    exact exists_of_mem_listed operand h
  | .binary op left right, s, x, h => by
    have hbehind : ∀ {v t}, left.eval invoke s = .done v t → x ∈ right.listed invoke made t →
        ListedFrom R made s x := fun hrun hnext =>
      (exists_of_mem_listed right hnext).before
        ((eval_keeps hR left fun name _ => hinvoke name).of_done hrun)
    cases op with
    | and =>
      unfold listed at h
      rcases Action.mem_followed h with hfirst | ⟨v, t, hrun, hnext⟩
      · exact exists_of_mem_listed left hfirst
      · rcases Action.mem_checked hnext with ⟨b, -, hright⟩
        cases b with
        | true => exact hbehind hrun hright
        | false => cases hright
    | or =>
      unfold listed at h
      rcases Action.mem_followed h with hfirst | ⟨v, t, hrun, hnext⟩
      · exact exists_of_mem_listed left hfirst
      · rcases Action.mem_checked hnext with ⟨b, -, hright⟩
        cases b with
        | true => cases hright
        | false => exact hbehind hrun hright
    | _ =>
      unfold listed at h
      rcases Action.mem_followed h with hfirst | ⟨v, t, hrun, hnext⟩
      · exact exists_of_mem_listed left hfirst
      · exact hbehind hrun hnext
  | .assignSlot _ _ value, s, x, h => by
    unfold listed at h
    exact exists_of_mem_listed value h
  | .assignGlobal _ _ value, s, x, h => by
    unfold listed at h
    exact exists_of_mem_listed value h
  | .assignElement base position _ value, s, x, h => by
    have hkeeps (e : Expr) : (e.eval invoke).Keeps R := eval_keeps hR e fun name _ => hinvoke name
    unfold listed at h
    rcases Action.mem_followed h with hfirst | ⟨v, t, hrun, hnext⟩
    · exact exists_of_mem_listed value hfirst
    · refine ListedFrom.before ?_ ((hkeeps value).of_done hrun)
      rcases Action.mem_followed hnext with hbase | ⟨target, u, hrun', hlast⟩
      · exact exists_of_mem_listed base hbase
      · rcases Action.mem_checked hlast with ⟨id, -, hposition⟩
        exact (exists_of_mem_listed position hposition).before ((hkeeps base).of_done hrun')
  | .call command arguments, s, x, h => by
    unfold listed at h
    rcases Action.mem_followed h with hfirst | ⟨values, t, hrun, hmade⟩
    · exact exists_of_mem_listedAll arguments hfirst
    · exact ⟨command, values, t,
        (evalList_keeps hR arguments fun name _ => hinvoke name).of_done hrun, hmade⟩

/-- Whatever is listed for a list of expressions is listed for one of their calls. -/
theorem exists_of_mem_listedAll : (es : List Expr) → {s : Execution} → {x : ρ} →
    x ∈ listedAll invoke made es s → ListedFrom R made s x
  | [], _, _, h => by
    simp [listedAll] at h
  | e :: rest, s, x, h => by
    unfold listedAll at h
    rcases Action.mem_followed h with hfirst | ⟨v, t, hrun, hnext⟩
    · exact exists_of_mem_listed e hfirst
    · exact (exists_of_mem_listedAll rest hnext).before
        ((eval_keeps hR e fun name _ => hinvoke name).of_done hrun)

end

end Listed
end Expr

/-! ## Calls -/

/-- A call of a command that is about to be made. -/
structure Calling where
  name : String
  arguments : List Value
  line : Nat
  execution : Execution

/-- What becomes of a call. -/
def Calling.outcome (callee : Callee) (call : Calling) : Outcome Execution RuntimeCause Value :=
  invoke callee call.line call.name call.arguments call.execution

namespace Execution

variable (callee : Callee)

/-- The calls of the expression of a node. -/
def nodeCalls (node : Node) (e : Execution) : List Calling :=
  match node.code with
  | none => []
  | some code => code.listed (invoke callee node.line)
      (fun name arguments t => [⟨name, arguments, node.line, t⟩]) e

/-- The calls of a step. -/
def stepCalls (e : Execution) : List Calling :=
  match e.evaluated? with
  | some node => nodeCalls callee node e
  | none => []

/-- The calls of a run within a budget. -/
def runCalls (budget : Nat) : Nat → Nat → Execution → List Calling
  | 0, _ => fun _ => []
  | fuel + 1, taken =>
    Action.followed (stepCalls callee) (step callee) fun status =>
      match status with
      | .finished => fun _ => []
      | .running => if usedUp budget (taken + 1) then fun _ => [] else runCalls budget fuel (taken + 1)

variable {callee : Callee} (hcallee : callee.Keeps)
include hcallee

/-- A step makes its calls while the context is in the step. -/
theorem continues_of_mem_stepCalls {e : Execution} {call : Calling} (h : call ∈ stepCalls callee e) :
    e.Continues call.execution := by
  unfold stepCalls at h
  cases hevaluated : e.evaluated? with
  | none =>
    rw [hevaluated] at h
    cases h
  | some node =>
    rw [hevaluated] at h
    simp only [nodeCalls] at h
    cases hcode : node.code with
    | none =>
      rw [hcode] at h
      cases h
    | some code =>
      rw [hcode] at h
      rcases Expr.exists_of_mem_listed (R := Evolves) (fun _ _ hplain => hplain.quiet.toEvolves)
        (fun name values => invoke_evolves hcallee node.line name values) code h with
        ⟨name, values, t, hevolves, hmem⟩
      cases List.mem_singleton.1 hmem
      exact hevolves.continues

/-- A run makes its calls while its context is in the run. -/
theorem continues_of_mem_runCalls {budget fuel taken : Nat} {e : Execution} {call : Calling}
    (h : call ∈ runCalls callee budget fuel taken e) : e.Continues call.execution := by
  induction fuel generalizing taken e with
  | zero => cases h
  | succ fuel ih =>
    unfold runCalls at h
    rcases Action.mem_followed h with hstep | ⟨status, t, hrun, hrest⟩
    · exact continues_of_mem_stepCalls hcallee hstep
    · have hcontinues := (step_continues hcallee).of_done hrun
      cases status with
      | finished => cases hrest
      | running =>
        simp only at hrest
        split at hrest
        · cases hrest
        · exact Lasting.trans hcontinues (ih hrest)

end Execution
end ScriptMachine
