import ScriptMachine.Proofs.Chronicle

/-!
# The pieces of a chronicle

However long, the chronicle of an operation is put together from a few pieces: nothing happens
and the machine rests; the global exception is raised; something is evaluated in a context; a
run is refused; a run or the creation of a context begins, with a chronicle of its own inside.
What all chronicles have in common is proved here by induction on the pieces.

Main results:

- {lit}`Tale`: the pieces of a chronicle.
- {lit}`Tale.raised_of_alarm`: inside of a call an alarm is not forgotten.
- {lit}`Tale.evaluates_after_alarm`: whatever is evaluated behind an alarm is evaluated in a context
  that is newer than the alarm.
- {lit}`Tale.calm`: at depth zero an alarm inside of a call is forgotten.
- {lit}`Inside.depth` and {lit}`Inside.admissible`: the call depth counts what is under way, and
  how deep that can be.
-/

namespace ScriptMachine

/-! ## Machines -/

namespace Machine

/-- A machine at a later time, whatever is under way. -/
structure Follows (m m' : Machine) : Prop where
  settings : m'.settings = m.settings
  commands : ∀ command ∈ m'.commands.commands, command ∈ m.commands.commands
  count : m.contextCount ≤ m'.contextCount

/-- A machine behind something that happened: inside of a call a raised global exception is
still raised. -/
structure Endures (m m' : Machine) : Prop extends Follows m m' where
  depth : m'.depth = m.depth
  raised : 0 < m.depth → m.raised = true → m'.raised = true

/-- A machine behind something that has nothing to do with calls or the global exception. -/
structure Rests (m m' : Machine) : Prop extends Follows m m' where
  depth : m'.depth = m.depth
  undecided : m'.raised = m.raised

instance : Lasting Follows where
  refl _ := ⟨rfl, fun _ h => h, Nat.le_refl _⟩
  trans h h' := ⟨h'.settings.trans h.settings, fun command hmem => h.commands command (h'.commands command hmem),
    Nat.le_trans h.count h'.count⟩

instance : Lasting Endures where
  refl m := ⟨Lasting.refl m, rfl, fun _ h => h⟩
  trans h h' := ⟨Lasting.trans h.toFollows h'.toFollows, h'.depth.trans h.depth,
    fun hdepth hraised => h'.raised (by rw [h.depth]; exact hdepth) (h.raised hdepth hraised)⟩

instance : Lasting Rests where
  refl m := ⟨Lasting.refl m, rfl, rfl⟩
  trans h h' := ⟨Lasting.trans h.toFollows h'.toFollows, h'.depth.trans h.depth,
    h'.undecided.trans h.undecided⟩

theorem Grows.endures {m m' : Machine} (h : m.Grows m') : m.Endures m' :=
  ⟨⟨h.settings, h.commands, h.background.1⟩, h.depth, h.raised⟩

theorem Rests.endures {m m' : Machine} (h : m.Rests m') : m.Endures m' :=
  ⟨h.toFollows, h.depth, fun _ hraised => h.undecided.trans hraised⟩

/-- Whatever lets a machine grow and leaves its exception alone leaves it at rest. -/
theorem Grows.rests {m m' : Machine} (h : m.Grows m') (hsame : m'.raised = m.raised) :
    m.Rests m' :=
  ⟨h.endures.toFollows, h.depth, hsame⟩

theorem follows_enter (m : Machine) : m.Follows m.enter :=
  ⟨rfl, fun _ h => h, Nat.le_refl _⟩

theorem follows_leave (m : Machine) : m.Follows m.leave :=
  ⟨rfl, fun _ h => h, Nat.le_refl _⟩

/-- What happens one call deeper. -/
theorem Endures.nested {m n : Machine} (h : m.enter.Endures n) : m.Endures n.leave := by
  have hdepth : n.depth = m.depth + 1 := h.depth
  refine ⟨⟨h.settings, h.commands, h.count⟩, ?_, fun hpositive hraised => ?_⟩
  · show n.depth - 1 = m.depth
    omega
  · have hkept : n.raised = true := h.raised (Nat.succ_pos _) hraised
    show (if n.depth - 1 = 0 then false else n.raised) = true
    rw [if_neg (by omega)]
    exact hkept

/-- Leaving a call at depth one or above does not forget the global exception. -/
theorem raised_leave_of_deep {m : Machine} (hdeep : 1 < m.depth) : m.leave.raised = m.raised := by
  show (if m.depth - 1 = 0 then false else m.raised) = m.raised
  rw [if_neg (by omega)]

/-- Leaving the outermost call forgets the global exception. -/
theorem raised_leave_of_outermost {m : Machine} (h : m.depth = 1) : m.leave.raised = false := by
  show (if m.depth - 1 = 0 then false else m.raised) = false
  rw [if_pos (by omega)]

/-- Some command creates contexts of the running program without counting the calls. -/
def BackgroundsItself (m : Machine) : Prop :=
  ∃ command ∈ m.commands.commands, command.action = .host .backgroundSelf

/-- Commands only disappear. -/
theorem BackgroundsItself.of_follows {m m' : Machine} (h : m'.BackgroundsItself)
    (hfollows : m.Follows m') : m.BackgroundsItself := by
  rcases h with ⟨command, hmem, haction⟩
  exact ⟨command, hfollows.commands command hmem, haction⟩

end Machine

/-! ## Tales -/

/-- Activations inside of which the initializers of a context are evaluated without a command
that asks for it: none, or the run of a program. -/
def HostsCreation (underway : List Activation) : Prop :=
  underway = [] ∨ underway.head? = some .run

/-- The pieces of a chronicle, from one machine to another.  The activations are those under way.
When a context is given, the chronicle is that of a part of its run or of its initializers:
something may be evaluated in it, unless the global exception is raised.  Otherwise whatever is
evaluated is evaluated in newer contexts. -/
inductive Tale : List Activation → Option Nat → Machine → List Moment → Machine → Prop
  | rest {underway : List Activation} {own : Option Nat} {m n : Machine} (h : m.Rests n) :
      Tale underway own m [] n
  | alarm {underway : List Activation} {own : Option Nat} {m n : Machine} (h : m.Endures n)
      (hraised : n.raised = true) : Tale underway own m [⟨underway, m, .alarm⟩] n
  | append {underway : List Activation} {own : Option Nat} {m n k : Machine}
      {first second : List Moment} (h : Tale underway own m first n)
      (hstop : own.isSome = true → n.raised = true → second = [])
      (h' : Tale underway own n second k) : Tale underway own m (first ++ second) k
  | evaluated {underway : List Activation} {context : Nat} {m n : Machine} {inner : List Moment}
      (node : Node) (h : Tale underway none m inner n) :
      Tale underway (some context) m (⟨underway, m, .evaluation context node⟩ :: inner) n
  | owned {underway : List Activation} {context : Nat} {m n k : Machine}
      {first second : List Moment} (hnew : m.contextCount < context)
      (hlive : context ≤ n.contextCount) (h : Tale underway none m first n)
      (hstop : n.raised = true → second = []) (h' : Tale underway (some context) n second k) :
      Tale underway none m (first ++ second) k
  | refused {underway : List Activation} {m : Machine} (program : Program) (arguments : List Value)
      (hlimit : m.settings.maxCallDepth ≤ m.depth) :
      Tale underway none m [⟨underway, m, .request program arguments⟩] m
  | run {underway : List Activation} {m n : Machine} {inner : List Moment} (program : Program)
      (arguments : List Value) (hroom : m.depth < m.settings.maxCallDepth)
      (h : Tale (.run :: underway) none m.enter inner n) :
      Tale underway none m (⟨underway, m, .request program arguments⟩ ::
        ⟨.run :: underway, m.enter, .entered⟩ :: inner) n.leave
  | creation {underway : List Activation} {context : Nat} {m start n : Machine}
      {inner : List Moment} (hplace : HostsCreation underway ∨ m.BackgroundsItself)
      (hrests : m.Rests start) (hnew : m.contextCount < context)
      (hlive : context ≤ start.contextCount)
      (h : Tale (.creation :: underway) (some context) start.enter inner n) :
      Tale underway none m (⟨.creation :: underway, start.enter, .entered⟩ :: inner) n.leave

namespace Tale

variable {underway : List Activation} {own : Option Nat} {m n k : Machine} {moments : List Moment}

/-- Whatever the chronicle, the machine endures it. -/
theorem endures (h : Tale underway own m moments n) : m.Endures n := by
  induction h with
  | rest h => exact h.endures
  | alarm h _ => exact h
  | append _ _ _ ih ih' => exact Lasting.trans ih ih'
  | evaluated _ _ ih => exact ih
  | owned _ _ _ _ _ ih ih' => exact Lasting.trans ih ih'
  | refused _ _ _ => exact Lasting.refl _
  | run _ _ _ _ ih => exact ih.nested
  | creation _ hrests _ _ _ ih => exact Lasting.trans hrests.endures ih.nested

/-- A rest at the end adds nothing to a chronicle. -/
theorem extend (h : Tale underway own m moments n) (hrests : n.Rests k) :
    Tale underway own m moments k := by
  have hwhole := h.append (fun _ _ => rfl) (.rest hrests)
  rwa [List.append_nil] at hwhole

/-! ### The global exception -/

/-- Inside of a call, the exception that was raised is raised at the end. -/
theorem raised_of_alarm (h : Tale underway own m moments n) (hdepth : 0 < m.depth)
    {x : Moment} (hmem : x ∈ moments) (halarm : x.IsAlarm) : n.raised = true := by
  induction h with
  | rest h => cases hmem
  | alarm _ hraised => exact hraised
  | append h _ h' ih ih' =>
    have hdepth' : 0 < _ := h.endures.depth ▸ hdepth
    rcases List.mem_append.1 hmem with hmem | hmem
    · exact h'.endures.raised hdepth' (ih hdepth hmem)
    · exact ih' hdepth' hmem
  | evaluated node _ ih =>
    rcases List.mem_cons.1 hmem with rfl | hmem
    · cases halarm
    · exact ih hdepth hmem
  | owned _ _ h _ h' ih ih' =>
    have hdepth' : 0 < _ := h.endures.depth ▸ hdepth
    rcases List.mem_append.1 hmem with hmem | hmem
    · exact h'.endures.raised hdepth' (ih hdepth hmem)
    · exact ih' hdepth' hmem
  | refused program arguments _ =>
    rw [List.mem_singleton] at hmem
    subst hmem
    cases halarm
  | @run _ m n _ program arguments _ h ih =>
    have hdeep : n.depth = m.depth + 1 := h.endures.depth
    rcases List.mem_cons.1 hmem with rfl | hmem
    · cases halarm
    rcases List.mem_cons.1 hmem with rfl | hmem
    · cases halarm
    rw [Machine.raised_leave_of_deep (by omega)]
    exact ih (Nat.succ_pos _) hmem
  | @creation _ _ m start n _ _ hrests _ _ h ih =>
    have hdeep : n.depth = start.depth + 1 := h.endures.depth
    have hsame := hrests.depth
    rcases List.mem_cons.1 hmem with rfl | hmem
    · cases halarm
    rw [Machine.raised_leave_of_deep (by omega)]
    exact ih (Nat.succ_pos _) hmem

/-- Inside of a call, if the exception is not raised at the end, then nothing raised it and it was
not raised before. -/
theorem quiet_of_calm (h : Tale underway own m moments n) (hdepth : 0 < m.depth)
    (hcalm : n.raised = false) : m.raised = false ∧ ∀ x ∈ moments, ¬x.IsAlarm := by
  refine ⟨Bool.eq_false_iff.2 fun hraised => ?_, fun x hmem halarm => ?_⟩
  · rw [h.endures.raised hdepth hraised] at hcalm
    cases hcalm
  · rw [h.raised_of_alarm hdepth hmem halarm] at hcalm
    cases hcalm

/-- Inside of a call, two parts of a chronicle are quiet if the second one is. -/
theorem quiet_append {first second : List Moment} (h : Tale underway own m first n)
    (hdepth : 0 < m.depth) (hquiet : n.raised = false ∧ ∀ x ∈ second, ¬x.IsAlarm) :
    m.raised = false ∧ ∀ x ∈ first ++ second, ¬x.IsAlarm := by
  rcases h.quiet_of_calm hdepth hquiet.1 with ⟨hcalm, hearlier⟩
  exact ⟨hcalm, fun x hmem => (List.mem_append.1 hmem).elim (hearlier x) (hquiet.2 x)⟩

/-- At depth zero, the exception is not raised at the end unless it was raised before or was raised
outside of all calls. -/
theorem calm (h : Tale underway own m moments n) (hdepth : m.depth = 0) (hcalm : m.raised = false)
    (hinside : ∀ x ∈ moments, x.IsAlarm → x.underway ≠ underway) : n.raised = false := by
  induction h with
  | rest h => exact h.undecided.trans hcalm
  | alarm h _ => exact absurd rfl (hinside _ (List.mem_singleton.2 rfl) rfl)
  | append h _ _ ih ih' =>
    refine ih' (h.endures.depth.trans hdepth) ?_ fun x hmem =>
      hinside x (List.mem_append_right _ hmem)
    exact ih hdepth hcalm fun x hmem => hinside x (List.mem_append_left _ hmem)
  | evaluated node _ ih => exact ih hdepth hcalm fun x hmem => hinside x (List.mem_cons_of_mem _ hmem)
  | owned _ _ h _ _ ih ih' =>
    refine ih' (h.endures.depth.trans hdepth) ?_ fun x hmem =>
      hinside x (List.mem_append_right _ hmem)
    exact ih hdepth hcalm fun x hmem => hinside x (List.mem_append_left _ hmem)
  | refused _ _ _ => exact hcalm
  | @run _ m n _ _ _ _ h _ =>
    have hdeep : n.depth = m.depth + 1 := h.endures.depth
    exact Machine.raised_leave_of_outermost (by omega)
  | @creation _ _ m start n _ _ hrests _ _ h _ =>
    have hdeep : n.depth = start.depth + 1 := h.endures.depth
    have hsame := hrests.depth
    exact Machine.raised_leave_of_outermost (by omega)

/-! ### The order of moments -/

/-- Every moment lies between the beginning and the end. -/
theorem follows (h : Tale underway own m moments n) {x : Moment} (hmem : x ∈ moments) :
    m.Follows x.machine ∧ x.machine.Follows n := by
  induction h with
  | rest h => cases hmem
  | alarm h _ =>
    rw [List.mem_singleton] at hmem
    subst hmem
    exact ⟨Lasting.refl _, h.toFollows⟩
  | append h _ h' ih ih' =>
    rcases List.mem_append.1 hmem with hmem | hmem
    · exact ⟨(ih hmem).1, Lasting.trans (ih hmem).2 h'.endures.toFollows⟩
    · exact ⟨Lasting.trans h.endures.toFollows (ih' hmem).1, (ih' hmem).2⟩
  | evaluated node h ih =>
    rcases List.mem_cons.1 hmem with rfl | hmem
    · exact ⟨Lasting.refl _, h.endures.toFollows⟩
    · exact ih hmem
  | owned _ _ h _ h' ih ih' =>
    rcases List.mem_append.1 hmem with hmem | hmem
    · exact ⟨(ih hmem).1, Lasting.trans (ih hmem).2 h'.endures.toFollows⟩
    · exact ⟨Lasting.trans h.endures.toFollows (ih' hmem).1, (ih' hmem).2⟩
  | refused program arguments _ =>
    rw [List.mem_singleton] at hmem
    subst hmem
    exact ⟨Lasting.refl _, Lasting.refl _⟩
  | @run _ m n _ program arguments _ h ih =>
    rcases List.mem_cons.1 hmem with rfl | hmem
    · exact ⟨Lasting.refl _, h.endures.nested.toFollows⟩
    rcases List.mem_cons.1 hmem with rfl | hmem
    · exact ⟨m.follows_enter, Lasting.trans h.endures.toFollows n.follows_leave⟩
    · exact ⟨Lasting.trans m.follows_enter (ih hmem).1, Lasting.trans (ih hmem).2 n.follows_leave⟩
  | @creation _ _ m start n _ _ hrests _ _ h ih =>
    have hbefore : m.Follows start.enter := Lasting.trans hrests.toFollows start.follows_enter
    rcases List.mem_cons.1 hmem with rfl | hmem
    · exact ⟨hbefore, Lasting.trans h.endures.toFollows n.follows_leave⟩
    · exact ⟨Lasting.trans hbefore (ih hmem).1, Lasting.trans (ih hmem).2 n.follows_leave⟩

/-- Moments come one after the other. -/
theorem pairwise_follows (h : Tale underway own m moments n) :
    moments.Pairwise fun x y => x.machine.Follows y.machine := by
  induction h with
  | rest h => exact .nil
  | alarm h _ => exact List.pairwise_singleton _ _
  | append h _ h' ih ih' =>
    exact List.pairwise_append.2 ⟨ih, ih', fun x hx y hy =>
      Lasting.trans (h.follows hx).2 (h'.follows hy).1⟩
  | evaluated node h ih => exact .cons (fun y hy => (h.follows hy).1) ih
  | owned _ _ h _ h' ih ih' =>
    exact List.pairwise_append.2 ⟨ih, ih', fun x hx y hy =>
      Lasting.trans (h.follows hx).2 (h'.follows hy).1⟩
  | refused program arguments _ => exact List.pairwise_singleton _ _
  | @run _ m n inner program arguments _ h ih =>
    have hinner : ∀ y ∈ inner, m.Follows y.machine := fun y hy =>
      Lasting.trans m.follows_enter (h.follows hy).1
    refine .cons (fun y hy => ?_) (.cons (fun y hy => (h.follows hy).1) ih)
    rcases List.mem_cons.1 hy with rfl | hy
    · exact m.follows_enter
    · exact hinner y hy
  | creation _ _ _ _ h ih => exact .cons (fun y hy => (h.follows hy).1) ih

/-! ### Contexts -/

/-- Whatever is evaluated is evaluated in the context that is given or in a newer one. -/
theorem evaluates_fresh (h : Tale underway own m moments n) {x : Moment} (hmem : x ∈ moments)
    {context : Nat} (heval : x.Evaluates context) : own = some context ∨ m.contextCount < context := by
  induction h with
  | rest h => cases hmem
  | alarm h _ =>
    rw [List.mem_singleton] at hmem
    subst hmem
    rcases heval with ⟨_, h⟩
    cases h
  | append h _ _ ih ih' =>
    rcases List.mem_append.1 hmem with hmem | hmem
    · exact ih hmem
    · exact (ih' hmem).imp_right (Nat.lt_of_le_of_lt h.endures.count)
  | evaluated node h ih =>
    rcases List.mem_cons.1 hmem with rfl | hmem
    · rcases heval with ⟨_, h⟩
      cases h
      exact .inl rfl
    · rcases ih hmem with hnone | hnew
      · cases hnone
      · exact .inr hnew
  | owned hnew _ h _ _ ih ih' =>
    rcases List.mem_append.1 hmem with hmem | hmem
    · exact ih hmem
    · rcases ih' hmem with hown | hlater
      · cases hown
        exact .inr hnew
      · exact .inr (Nat.lt_of_le_of_lt h.endures.count hlater)
  | refused program arguments _ =>
    rw [List.mem_singleton] at hmem
    subst hmem
    rcases heval with ⟨_, h⟩
    cases h
  | run program arguments _ _ ih =>
    rcases List.mem_cons.1 hmem with rfl | hmem
    · rcases heval with ⟨_, h⟩
      cases h
    rcases List.mem_cons.1 hmem with rfl | hmem
    · rcases heval with ⟨_, h⟩
      cases h
    · exact ih hmem
  | creation _ hrests hnew _ _ ih =>
    rcases List.mem_cons.1 hmem with rfl | hmem
    · rcases heval with ⟨_, h⟩
      cases h
    · rcases ih hmem with hown | hlater
      · cases hown
        exact .inr hnew
      · exact .inr (Nat.lt_of_le_of_lt hrests.count hlater)

/-- Whatever is evaluated is evaluated in a context that exists by then. -/
theorem evaluates_live (h : Tale underway own m moments n)
    (hown : ∀ context, own = some context → context ≤ m.contextCount) {x : Moment}
    (hmem : x ∈ moments) {context : Nat} (heval : x.Evaluates context) :
    context ≤ x.machine.contextCount := by
  have hnone : ∀ {m : Machine} (context : Nat), none = some context → context ≤ m.contextCount :=
    fun _ h => by cases h
  induction h with
  | rest h => cases hmem
  | alarm h _ =>
    rw [List.mem_singleton] at hmem
    subst hmem
    rcases heval with ⟨_, h⟩
    cases h
  | append h _ _ ih ih' =>
    rcases List.mem_append.1 hmem with hmem | hmem
    · exact ih hown hmem
    · exact ih' (fun context h' => Nat.le_trans (hown context h') h.endures.count) hmem
  | evaluated node h ih =>
    rcases List.mem_cons.1 hmem with rfl | hmem
    · rcases heval with ⟨_, h⟩
      cases h
      exact hown _ rfl
    · exact ih hnone hmem
  | owned _ hlive h _ _ ih ih' =>
    rcases List.mem_append.1 hmem with hmem | hmem
    · exact ih hnone hmem
    · refine ih' (fun context h => ?_) hmem
      cases h
      exact hlive
  | refused program arguments _ =>
    rw [List.mem_singleton] at hmem
    subst hmem
    rcases heval with ⟨_, h⟩
    cases h
  | run program arguments _ _ ih =>
    rcases List.mem_cons.1 hmem with rfl | hmem
    · rcases heval with ⟨_, h⟩
      cases h
    rcases List.mem_cons.1 hmem with rfl | hmem
    · rcases heval with ⟨_, h⟩
      cases h
    · exact ih hnone hmem
  | creation _ _ _ hlive _ ih =>
    rcases List.mem_cons.1 hmem with rfl | hmem
    · rcases heval with ⟨_, h⟩
      cases h
    · refine ih (fun context h => ?_) hmem
      cases h
      exact hlive

/-- Inside of a call, whatever is evaluated behind an alarm is evaluated in a context that is
newer than the alarm. -/
theorem evaluates_after_alarm (h : Tale underway own m moments n) (hdepth : 0 < m.depth) :
    moments.Pairwise fun x y => x.IsAlarm → ∀ context, y.Evaluates context →
      x.machine.contextCount < context := by
  induction h with
  | rest h => exact .nil
  | alarm h _ => exact List.pairwise_singleton _ _
  | @append _ own m n _ first second h hstop h' ih ih' =>
    have hdepth' : 0 < n.depth := h.endures.depth ▸ hdepth
    refine List.pairwise_append.2 ⟨ih hdepth, ih' hdepth', fun x hx y hy halarm context heval => ?_⟩
    have hraised := h.raised_of_alarm hdepth hx halarm
    rcases h'.evaluates_fresh hy heval with hown | hnew
    · -- The context itself has no part in what comes behind an alarm.
      rw [hstop (by rw [hown]; rfl) hraised] at hy
      cases hy
    · exact Nat.lt_of_le_of_lt (h.follows hx).2.count hnew
  | evaluated node h ih => exact .cons (fun y hy halarm => by cases halarm) (ih hdepth)
  | @owned _ _ m n _ first second _ _ h hstop _ ih ih' =>
    have hdepth' : 0 < n.depth := h.endures.depth ▸ hdepth
    refine List.pairwise_append.2 ⟨ih hdepth, ih' hdepth', fun x hx y hy halarm => ?_⟩
    rw [hstop (h.raised_of_alarm hdepth hx halarm)] at hy
    cases hy
  | refused program arguments _ => exact List.pairwise_singleton _ _
  | run program arguments _ h ih =>
    exact .cons (fun y hy halarm => by cases halarm)
      (.cons (fun y hy halarm => by cases halarm) (ih (Nat.succ_pos _)))
  | creation _ _ _ _ h ih =>
    exact .cons (fun y hy halarm => by cases halarm) (ih (Nat.succ_pos _))

end Tale

/-! ## What is under way -/

/-- What is under way, and on which machine, at some moment inside of something that is under way
itself. -/
inductive Inside : List Activation → Machine → List Activation → Machine → Prop
  | here {underway : List Activation} (m : Machine) : Inside underway m underway m
  | later {underway inner : List Activation} {m k n : Machine} (h : m.Endures k)
      (h' : Inside underway k inner n) : Inside underway m inner n
  | run {underway inner : List Activation} {m n : Machine}
      (hroom : m.depth < m.settings.maxCallDepth) (h : Inside (.run :: underway) m.enter inner n) :
      Inside underway m inner n
  | creation {underway inner : List Activation} {m start n : Machine}
      (hplace : HostsCreation underway ∨ m.BackgroundsItself) (hrests : m.Rests start)
      (h : Inside (.creation :: underway) start.enter inner n) : Inside underway m inner n

/-- Every moment of a tale lies inside of what is under way at its beginning. -/
theorem Tale.inside {underway : List Activation} {own : Option Nat} {m n : Machine}
    {moments : List Moment} (h : Tale underway own m moments n) {x : Moment} (hmem : x ∈ moments) :
    Inside underway m x.underway x.machine := by
  induction h with
  | rest h => cases hmem
  | alarm h _ =>
    rw [List.mem_singleton] at hmem
    subst hmem
    exact .here _
  | append h _ _ ih ih' =>
    rcases List.mem_append.1 hmem with hmem | hmem
    · exact ih hmem
    · exact .later h.endures (ih' hmem)
  | evaluated node _ ih =>
    rcases List.mem_cons.1 hmem with rfl | hmem
    · exact .here _
    · exact ih hmem
  | owned _ _ h _ _ ih ih' =>
    rcases List.mem_append.1 hmem with hmem | hmem
    · exact ih hmem
    · exact .later h.endures (ih' hmem)
  | refused program arguments _ =>
    rw [List.mem_singleton] at hmem
    subst hmem
    exact .here _
  | run program arguments hroom _ ih =>
    rcases List.mem_cons.1 hmem with rfl | hmem
    · exact .here _
    rcases List.mem_cons.1 hmem with rfl | hmem
    · exact .run hroom (.here _)
    · exact .run hroom (ih hmem)
  | creation hplace hrests _ _ _ ih =>
    rcases List.mem_cons.1 hmem with rfl | hmem
    · exact .creation hplace hrests (.here _)
    · exact .creation hplace hrests (ih hmem)

/-- What can be under way when the calls of runs are limited and every creation of a context is
that of a run or of the host. -/
inductive Admissible (limit : Nat) : List Activation → Prop
  | nothing : Admissible limit []
  | turn : Admissible limit [.turn]
  | run {underway : List Activation} (h : Admissible limit underway)
      (hroom : underway.length < limit) : Admissible limit (.run :: underway)
  | creation {underway : List Activation} (h : Admissible limit underway)
      (hplace : HostsCreation underway) : Admissible limit (.creation :: underway)

namespace Admissible

variable {limit : Nat} {underway : List Activation}

/-- One more activation than the limit can be under way. -/
theorem length_le (h : Admissible limit underway) : underway.length ≤ limit + 1 := by
  induction h with
  | nothing => exact Nat.zero_le _
  | turn => exact Nat.succ_le_succ (Nat.zero_le _)
  | run h hroom _ =>
    rw [List.length_cons]
    omega
  | creation h hplace _ =>
    -- The creation is that of a run, which was within the limit.
    cases h with
    | nothing => exact Nat.succ_le_succ (Nat.zero_le _)
    | turn => rcases hplace with h | h <;> cases h
    | run h hroom =>
      simp only [List.length_cons]
      omega
    | creation h _ => rcases hplace with h | h <;> cases h

/-- As many runs as the limit allows can be under way. -/
theorem count_run_le (h : Admissible limit underway) : underway.count .run ≤ limit := by
  induction h with
  | nothing => exact Nat.zero_le _
  | turn => exact Nat.zero_le _
  | run h hroom _ =>
    have hcount := List.count_le_length (a := Activation.run) (l := ‹List Activation›)
    rw [List.count_cons_self]
    omega
  | creation h _ ih => rwa [List.count_cons_of_ne (by decide)]

end Admissible

namespace Inside

variable {underway inner : List Activation} {m n : Machine}

/-- A moment inside of something comes later. -/
theorem follows (h : Inside underway m inner n) : m.Follows n := by
  induction h with
  | here m => exact Lasting.refl m
  | later h _ ih => exact Lasting.trans h.toFollows ih
  | run _ _ ih => exact Lasting.trans (Machine.follows_enter _) ih
  | creation _ hrests _ ih =>
    exact Lasting.trans hrests.toFollows (Lasting.trans (Machine.follows_enter _) ih)

/-- The call depth is the number of activations that are under way. -/
theorem depth (h : Inside underway m inner n) (hdepth : m.depth = underway.length) :
    n.depth = inner.length := by
  induction h with
  | here m => exact hdepth
  | later h _ ih => exact ih (h.depth.trans hdepth)
  | run _ _ ih => exact ih (congrArg Nat.succ hdepth)
  | creation _ hrests _ ih => exact ih (congrArg Nat.succ (hrests.depth.trans hdepth))

/-- Only what can be under way is under way, unless a command creates contexts by itself. -/
theorem admissible {limit : Nat} (h : Inside underway m inner n) (hdepth : underway.length ≤ m.depth)
    (hlimit : m.settings.maxCallDepth = limit) (hcounted : ¬m.BackgroundsItself)
    (hadmissible : Admissible limit underway) : Admissible limit inner := by
  induction h with
  | here m => exact hadmissible
  | later h _ ih =>
    exact ih (h.depth.symm ▸ hdepth) (by rw [h.settings, hlimit])
      (fun hloop => hcounted (hloop.of_follows h.toFollows)) hadmissible
  | run hroom _ ih =>
    exact ih (Nat.succ_le_succ hdepth) hlimit hcounted (hadmissible.run (by omega))
  | creation hplace hrests _ ih =>
    have hfollows := Lasting.trans hrests.toFollows (Machine.follows_enter _)
    exact ih (Nat.succ_le_succ (hrests.depth.symm ▸ hdepth)) (by rw [hfollows.settings, hlimit])
      (fun hloop => hcounted (hloop.of_follows hfollows))
      (hadmissible.creation (hplace.resolve_right hcounted))

end Inside
end ScriptMachine
