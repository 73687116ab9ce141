import Mathlib.Logic.Function.Basic
import ScriptMachine.Proofs.Calm
import ScriptMachine.Proofs.Following

/-!
# Parties that share a machine

The contexts in the background of a machine belong to parties.  While the parties have no arrays in
common, and only one of them sees what all programs share, the turns of one party change nothing for
the others: the machine does for each party what a machine of its own would do, in which nobody else
has a turn.

Main results:

- {lit}`Machine.Unites`: a machine that matches the machines of all parties.
- {lit}`Machine.Unites.turn`: a turn of one party changes nothing for the others.
- {lit}`Machine.Houses.tick` and {lit}`Machine.Houses.ticks`: the ticks of a machine are, for each
  party, those of its own machine.
-/

namespace ScriptMachine

/-! ## Reports -/

/-- A pairing with more pairs. -/
theorem Turn.Like.mono {π π' : Pairing} {first second : Turn} (h : first.Like π second)
    (hle : π ≤ π') : first.Like π' second := by
  cases h with
  | waiting => exact .waiting
  | parked => exact .parked
  | completed hresult => exact .completed (Value.Like.option_mono hle hresult)
  | retired reason => exact .retired reason

namespace TickReport

/-- What is reported on some of the contexts. -/
def on (among : Nat → Bool) (report : TickReport) : TickReport where
  completed := report.completed.filter fun entry => among entry.1
  parked := report.parked.filter among
  retired := report.retired.filter fun entry => among entry.1

/-- Reports that differ in nothing but paired arrays. -/
structure Like (π : Pairing) (first second : TickReport) : Prop where
  completed : List.Forall₂ (fun p q => p.1 = q.1 ∧ Option.Rel (Value.Like π) p.2 q.2)
    first.completed second.completed
  parked : first.parked = second.parked
  retired : first.retired = second.retired

variable {π π' : Pairing} {first second : TickReport}

/-- A pairing with more pairs. -/
theorem Like.mono (h : first.Like π second) (hle : π ≤ π') : first.Like π' second :=
  { h with
    completed := h.completed.imp fun _ _ hentry =>
      ⟨hentry.1, Value.Like.option_mono hle hentry.2⟩ }

/-- Turns that end alike are reported alike. -/
theorem Like.add (h : first.Like π second) (id : Nat) {turn turn' : Turn} (hturn : turn.Like π turn') :
    (first.add id turn).Like π (second.add id turn') := by
  cases hturn with
  | waiting => exact h
  | parked => exact { h with parked := congrArg (id :: ·) h.parked }
  | completed hresult => exact { h with completed := .cons ⟨rfl, hresult⟩ h.completed }
  | retired reason => exact { h with retired := congrArg ((id, reason) :: ·) h.retired }

/-- What is reported on the context of a turn. -/
theorem on_add_of_mem (among : Nat → Bool) (report : TickReport) {id : Nat} (h : among id = true)
    (turn : Turn) : (report.add id turn).on among = (report.on among).add id turn := by
  cases turn <;> simp [add, on, h]

/-- What is reported on other contexts than that of a turn. -/
theorem on_add_of_not_mem (among : Nat → Bool) (report : TickReport) {id : Nat}
    (h : among id = false) (turn : Turn) : (report.add id turn).on among = report.on among := by
  cases turn <;> simp [add, on, h]

end TickReport

/-! ## Parties -/

/-- Parties to which contexts belong by their numbers.  At most one of them sees what all programs
share. -/
structure Parties (ι : Type) where
  of : Nat → ι
  shared : ι → Prop
  sole : ∀ {x y}, shared x → shared y → x = y

variable {ι : Type}

/-- A calm machine that matches the machines of all parties, which have no arrays in common. -/
structure Machine.Unites (P : Parties ι) (π : ι → Pairing) (m : Machine) (solo : ι → Machine) :
    Prop where
  calm : m.Calm
  harmless : ∀ command ∈ m.commands.commands, command.Harmless
  alike : ∀ x, m.Matches (P.shared x) (π x) (solo x)
  apart : ∀ {x y i j k}, π x i j → π y i k → x = y

/-- Where something is done for a party. -/
def Machine.Unites.comparison {P : Parties ι} {π : ι → Pairing} {m : Machine} {solo : ι → Machine}
    (h : m.Unites P π solo) (x : ι) : Comparison :=
  ⟨P.shared x, π x, m, solo x, h.harmless⟩

/-- Nothing has been done yet. -/
theorem Machine.Unites.parallels {P : Parties ι} {π : ι → Pairing} {m : Machine} {solo : ι → Machine}
    (h : m.Unites P π solo) (x : ι) : m.Parallels (h.comparison x) (π x) (solo x) :=
  { h.alike x with
    left := .refl _ m
    right := .refl _ (solo x)
    grows := .refl (π x) m.arrays (solo x).arrays }

/-- Other contexts in the background. -/
theorem Machine.Unites.withBackground {P : Parties ι} {π : ι → Pairing} {m : Machine}
    {solo : ι → Machine} (h : m.Unites P π solo) (contexts : List Context)
    (guests : ι → List Context) :
    Machine.Unites P π { m with background := contexts }
      fun x => { solo x with background := guests x } where
  calm := ⟨h.calm.depth, h.calm.raised⟩
  harmless := h.harmless
  alike := fun x =>
    { h.alike x with mingles := fun hshared => { (h.alike x).mingles hshared with } }
  apart := h.apart

variable [DecidableEq ι]

/-- Whether a context belongs to a party. -/
def Parties.holds (P : Parties ι) (x : ι) (id : Nat) : Bool :=
  P.of id = x

/-- A context belongs to its party. -/
theorem Parties.holds_of (P : Parties ι) (id : Nat) : P.holds (P.of id) id = true := by
  simp [holds]

/-- A context belongs to no other party. -/
theorem Parties.holds_of_ne (P : Parties ι) {x : ι} {id : Nat} (h : x ≠ P.of id) :
    P.holds x id = false := by
  simp [holds, h.symm]

/-- The contexts of a party. -/
def Parties.own (P : Parties ι) (x : ι) (contexts : List Context) : List Context :=
  contexts.filter fun c => P.holds x c.id

/-- A context of the party comes first. -/
theorem Parties.own_cons (P : Parties ι) (c : Context) (rest : List Context) :
    P.own (P.of c.id) (c :: rest) = c :: P.own (P.of c.id) rest :=
  List.filter_cons_of_pos (by simp [holds])

/-- A context of another party comes first. -/
theorem Parties.own_cons_of_ne (P : Parties ι) {x : ι} {c : Context} (h : x ≠ P.of c.id)
    (rest : List Context) : P.own x (c :: rest) = P.own x rest :=
  List.filter_cons_of_neg (by simp [holds, h.symm])

/-- Contexts that come first and others. -/
theorem Parties.own_append (P : Parties ι) (x : ι) (first second : List Context) :
    P.own x (first ++ second) = P.own x first ++ P.own x second :=
  List.filter_append ..

namespace Machine

/-- The contexts of each party. -/
def Guests (P : Parties ι) (π : ι → Pairing) (contexts : List Context) (guests : ι → List Context) :
    Prop :=
  ∀ x, List.Forall₂ (Context.Like (π x)) (P.own x contexts) (guests x)

/-- Every context is admitted to what its party sees. -/
def Admitted (P : Parties ι) (m : Machine) (contexts : List Context) : Prop :=
  ∀ c ∈ contexts, P.shared (P.of c.id) ∨ c.program.Private m.commands

namespace Unites

variable {P : Parties ι} {π : ι → Pairing} {m m' n' : Machine} {solo : ι → Machine} {x : ι}

/-- What is done for one party changes nothing for the others. -/
theorem behind (h : m.Unites P π solo) {ρ : Pairing} (hboth : m'.Parallels (h.comparison x) ρ n')
    (hcalm : m'.Calm) :
    m'.Unites P (Function.update π x ρ) (Function.update solo x n') where
  calm := hcalm
  harmless := by
    rw [hboth.left.commands]
    exact h.harmless
  alike := by
    intro y
    by_cases hy : y = x
    · subst hy
      rw [Function.update_self, Function.update_self]
      exact hboth.toMatches
    · rw [Function.update_of_ne hy, Function.update_of_ne hy]
      have hother := h.alike y
      have hleft := hboth.left
      have hprivate : P.shared y → ¬P.shared x := fun hshared hsame => hy (P.sole hshared hsame)
      have hkept : ∀ {i j : ArrayId}, π y i j → m'.arrays.elements i = m.arrays.elements i :=
        fun hpaired => hboth.grows.left _ (hother.arrays.exist hpaired).1
          fun _ hpaired' => hy (h.apart hpaired hpaired')
      exact {
        settings := hleft.settings.trans hother.settings
        files := hleft.files.trans hother.files
        commands := hleft.commands.trans hother.commands
        stale := hleft.stale.trans hother.stale
        raised := hcalm.raised.trans (h.calm.raised.symm.trans hother.raised)
        depth := hcalm.depth.trans (h.calm.depth.symm.trans hother.depth)
        arrays := {
          exist := fun hpaired =>
            have hlt := hother.arrays.exist hpaired
            ⟨Nat.lt_of_lt_of_le hlt.1 hboth.grows.left_size, hlt.2⟩
          unique := hother.arrays.unique
          elements := fun hpaired => by
            rw [hkept hpaired]
            exact hother.arrays.elements hpaired }
        mingles := fun hshared =>
          have hmingles := hother.mingles hshared
          have hx := hprivate hshared
          { globals := by
              rw [hleft.globals hx]
              exact hmingles.globals
            cache := (hleft.cache hx).trans hmingles.cache
            contextCount := (hleft.contextCount hx).trans hmingles.contextCount
            programCount := (hleft.programCount hx).trans hmingles.programCount
            random := (hleft.random hx).trans hmingles.random } }
  apart := by
    -- A pair that is new has an array that no other party can have.
    have hnew : ∀ {y i j k}, y ≠ x → ρ i j → ¬π y i k := by
      intro y i j k hy hpaired hpaired'
      rcases hboth.grows.fresh hpaired with hbefore | hfresh
      · exact hy (h.apart hpaired' hbefore)
      · exact absurd ((h.alike y).arrays.exist hpaired').1 (Nat.not_lt_of_le hfresh.1)
    intro y z i j k hy hz
    by_cases hyx : y = x <;> by_cases hzx : z = x
    · rw [hyx, hzx]
    · subst hyx
      rw [Function.update_self] at hy
      rw [Function.update_of_ne hzx] at hz
      exact absurd hz (hnew hzx hy)
    · subst hzx
      rw [Function.update_self] at hz
      rw [Function.update_of_ne hyx] at hy
      exact absurd hy (hnew hyx hz)
    · rw [Function.update_of_ne hyx] at hy
      rw [Function.update_of_ne hzx] at hz
      exact h.apart hy hz

/-- A turn for one party changes nothing for the others. -/
theorem turn (h : m.Unites P π solo) {c d : Context} (hlike : c.Like (π x) d)
    (hadmits : P.shared x ∨ c.program.Private m.commands) (fuel : Nat) (seconds : Float) :
    Outcome.Pairs (fun ρ m' n' => m'.Unites P (Function.update π x ρ) (Function.update solo x n') ∧
        m'.commands = m.commands ∧ m'.background = m.background ∧
          n'.background = (solo x).background) (TurnLike (h.comparison x)) (π x)
      (takeTurn fuel seconds c m) (takeTurn fuel seconds d (solo x)) := by
  have hpairs := takeTurn_pairs (C := h.comparison x) fuel seconds hlike hadmits _ _ (h.parallels x)
  generalize hturn : takeTurn fuel seconds c m = first at hpairs ⊢
  generalize takeTurn fuel seconds d (solo x) = second at hpairs ⊢
  cases hpairs with
  | @done ρ y z m' n' hle hstate hanswer =>
    rcases y with ⟨after, turn⟩
    have hcalm := takeTurn_calm hturn h.calm
    exact .done hle ⟨h.behind hstate hcalm, hstate.left.commands, hstate.left.background,
      hstate.right.background⟩ hanswer
  | failed hle hstate => exact absurd hturn (takeTurn_ne_failed _ _ _ _ _ _)
  | exhausted => exact .exhausted

end Unites

/-! ## Turns of all contexts -/

section Turns

variable {fuel : Nat} {seconds : Float} {c : Context} {rest : List Context} {m : Machine}

/-- The turns of some contexts are that of the first one and those of the others. -/
theorem exists_of_takeTurns_cons {kept : List Context} {report : TickReport} {m' : Machine}
    (h : takeTurns fuel seconds (c :: rest) m = .done (kept, report) m') :
    ∃ after turn n others later, takeTurn fuel seconds c m = .done (after, turn) n ∧
      takeTurns fuel seconds rest n = .done (others, later) m' ∧
        kept = (if turn.stays then [after] else []) ++ others ∧ report = later.add after.id turn := by
  rw [takeTurns] at h
  rcases Action.exists_of_bind_done h with ⟨⟨after, turn⟩, n, hturn, hbehind⟩
  rcases Action.exists_of_bind_done hbehind with ⟨⟨others, later⟩, k, hrest, hdone⟩
  cases hdone
  exact ⟨after, turn, n, others, later, hturn, hrest, rfl, rfl⟩

/-- The turn of the first context, and then those of the others. -/
theorem takeTurns_cons_of_done {after : Context} {turn : Turn} {n : Machine}
    (h : takeTurn fuel seconds c m = .done (after, turn) n) :
    takeTurns fuel seconds (c :: rest) m =
      match takeTurns fuel seconds rest n with
      | .done (others, later) k =>
        .done ((if turn.stays then [after] else []) ++ others, later.add after.id turn) k
      | .failed e k => .failed e k
      | .exhausted => .exhausted := by
  rw [takeTurns, Action.bind_run, h]
  simp only [Action.bind_run]
  cases takeTurns fuel seconds rest n with
  | done pair k => rfl
  | failed e k => rfl
  | exhausted => rfl

/-- The fuel runs out in the first turn. -/
theorem takeTurns_cons_of_exhausted (h : takeTurn fuel seconds c m = .exhausted) :
    takeTurns fuel seconds (c :: rest) m = .exhausted := by
  rw [takeTurns, Action.bind_run, h]

end Turns

namespace Unites

variable {P : Parties ι} {π : ι → Pairing} {m m' : Machine} {solo : ι → Machine}
  {contexts : List Context} {guests : ι → List Context} {fuel : Nat} {seconds : Float}

/-- Some turns were done for each party as on its own machine, and the contexts that stay in the
background are alike. -/
structure Ends (P : Parties ι) (fuel : Nat) (seconds : Float) (π : ι → Pairing) (m : Machine)
    (solo : ι → Machine) (guests : ι → List Context) (kept : List Context) (report : TickReport)
    (π' : ι → Pairing) (m' : Machine) (solo' : ι → Machine) : Prop where
  unites : m'.Unites P π' solo'
  admitted : Admitted P m' kept
  le : ∀ x, π x ≤ π' x
  commands : m'.commands = m.commands
  background : m'.background = m.background
  alone : ∀ x, (solo' x).background = (solo x).background
  each : ∀ x, ∃ kept' report',
    takeTurns fuel seconds (guests x) (solo x) = .done (kept', report') (solo' x) ∧
      List.Forall₂ (Context.Like (π' x)) (P.own x kept) kept' ∧
      (report.on (P.holds x)).Like (π' x) report'

/-- The contexts of the party whose context comes first, and those of the others. -/
theorem guests_cons {c : Context} {rest : List Context} (h : Guests P π (c :: rest) guests) :
    ∃ d others, guests (P.of c.id) = d :: others ∧ c.Like (π (P.of c.id)) d ∧
      Guests P π rest (Function.update guests (P.of c.id) others) := by
  have hown := h (P.of c.id)
  rw [P.own_cons] at hown
  generalize hlist : guests (P.of c.id) = list at hown
  cases hown with
  | @cons _ d _ others hlike hothers =>
    refine ⟨d, others, rfl, hlike, fun y => ?_⟩
    by_cases hy : y = P.of c.id
    · subst hy
      rw [Function.update_self]
      exact hothers
    · have hy' := h y
      rw [P.own_cons_of_ne hy] at hy'
      rw [Function.update_of_ne hy]
      exact hy'

/-- Behind a turn of one party, the contexts of all parties are alike. -/
theorem guests_update {ρ : Pairing} {x : ι} (h : Guests P π contexts guests) (hle : π x ≤ ρ) :
    Guests P (Function.update π x ρ) contexts guests := by
  intro y
  by_cases hy : y = x
  · subst hy
    rw [Function.update_self]
    exact (h y).imp fun _ _ hlike => hlike.mono hle
  · rw [Function.update_of_ne hy]
    exact h y

section Cons

variable {after after' d : Context} {turn turn' : Turn} {n n' : Machine} {ρ : Pairing}
  {own others kept' : List Context} {later report' : TickReport} {π' : ι → Pairing}
  {solo' : ι → Machine}

/-- The party whose context had the first turn, behind all turns. -/
theorem Ends.each_own (hguests : guests (P.of after.id) = d :: own)
    (hsolo : takeTurn fuel seconds d (solo (P.of after.id)) = .done (after', turn') n')
    (hafter : after.Like ρ after') (hended : turn.Like ρ turn') (hle : ρ ≤ π' (P.of after.id))
    (hdone : takeTurns fuel seconds own n' = .done (kept', report') (solo' (P.of after.id)))
    (hkept : List.Forall₂ (Context.Like (π' (P.of after.id))) (P.own (P.of after.id) others) kept')
    (hreport : (later.on (P.holds (P.of after.id))).Like (π' (P.of after.id)) report') :
    ∃ kept' report', takeTurns fuel seconds (guests (P.of after.id)) (solo (P.of after.id)) =
        .done (kept', report') (solo' (P.of after.id)) ∧
      List.Forall₂ (Context.Like (π' (P.of after.id)))
        (P.own (P.of after.id) ((if turn.stays then [after] else []) ++ others)) kept' ∧
      ((later.add after.id turn).on (P.holds (P.of after.id))).Like (π' (P.of after.id)) report' := by
  refine ⟨(if turn'.stays then [after'] else []) ++ kept', report'.add after'.id turn', ?_, ?_, ?_⟩
  · rw [hguests, takeTurns_cons_of_done hsolo, hdone]
  · have hstays : turn.stays = turn'.stays := by cases hended <;> rfl
    rw [P.own_append, hstays]
    refine List.rel_append ?_ hkept
    split
    · rw [P.own_cons]
      exact .cons (hafter.mono hle) .nil
    · exact .nil
  · rw [TickReport.on_add_of_mem _ _ (P.holds_of after.id), ← hafter.id]
    exact hreport.add after.id (hended.mono hle)

/-- Another party than that whose context had the first turn, behind all turns. -/
theorem Ends.each_other {x : ι} (hx : x ≠ P.of after.id)
    (hkept : List.Forall₂ (Context.Like (π' x)) (P.own x others) kept')
    (hreport : (later.on (P.holds x)).Like (π' x) report') :
    List.Forall₂ (Context.Like (π' x))
        (P.own x ((if turn.stays then [after] else []) ++ others)) kept' ∧
      ((later.add after.id turn).on (P.holds x)).Like (π' x) report' := by
  have hnone : P.own x (if turn.stays then [after] else []) = [] := by
    split
    · exact P.own_cons_of_ne hx []
    · rfl
  rw [P.own_append, hnone, TickReport.on_add_of_not_mem _ _ (P.holds_of_ne hx)]
  exact ⟨hkept, hreport⟩

/-- A turn of one party, and then the turns of all. -/
theorem Ends.cons (hguests : guests (P.of after.id) = d :: own)
    (hsolo : takeTurn fuel seconds d (solo (P.of after.id)) = .done (after', turn') n')
    (hle : π (P.of after.id) ≤ ρ) (hcommands : n.commands = m.commands)
    (hbackground : n.background = m.background)
    (halone : n'.background = (solo (P.of after.id)).background) (hafter : after.Like ρ after')
    (hended : turn.Like ρ turn')
    (hadmits : P.shared (P.of after.id) ∨ after.program.Private m.commands)
    (h : Ends P fuel seconds (Function.update π (P.of after.id) ρ) n
      (Function.update solo (P.of after.id) n') (Function.update guests (P.of after.id) own) others
      later π' m' solo') :
    Ends P fuel seconds π m solo guests ((if turn.stays then [after] else []) ++ others)
      (later.add after.id turn) π' m' solo' where
  unites := h.unites
  admitted := by
    intro other hmem
    rcases List.mem_append.1 hmem with hmem | hmem
    · have hsame : other = after := by
        split at hmem
        · exact List.mem_singleton.1 hmem
        · cases hmem
      rw [hsame, h.commands, hcommands]
      exact hadmits
    · exact h.admitted other hmem
  le := by
    intro x
    have hgrown := h.le x
    by_cases hx : x = P.of after.id
    · subst hx
      rw [Function.update_self] at hgrown
      exact le_trans hle hgrown
    · rw [Function.update_of_ne hx] at hgrown
      exact hgrown
  commands := h.commands.trans hcommands
  background := h.background.trans hbackground
  alone := by
    intro x
    have hback := h.alone x
    by_cases hx : x = P.of after.id
    · subst hx
      rw [Function.update_self] at hback
      exact hback.trans halone
    · rw [Function.update_of_ne hx] at hback
      exact hback
  each := by
    intro x
    rcases h.each x with ⟨kept', report', hdone, hkept, hreport⟩
    by_cases hx : x = P.of after.id
    · subst hx
      have hgrown := h.le (P.of after.id)
      rw [Function.update_self] at hgrown
      rw [Function.update_self, Function.update_self] at hdone
      exact Ends.each_own hguests hsolo hafter hended hgrown hdone hkept hreport
    · rw [Function.update_of_ne hx, Function.update_of_ne hx] at hdone
      exact ⟨kept', report', hdone, Ends.each_other hx hkept hreport⟩

end Cons

/-- Turns that are done are done for each party as on its own machine. -/
theorem ends_of_done (h : m.Unites P π solo) (hguests : Guests P π contexts guests)
    (hadmitted : Admitted P m contexts) {kept : List Context} {report : TickReport}
    (hturns : takeTurns fuel seconds contexts m = .done (kept, report) m') :
    ∃ π' solo', Ends P fuel seconds π m solo guests kept report π' m' solo' := by
  induction contexts generalizing m π solo guests kept report with
  | nil =>
    cases hturns
    refine ⟨π, solo, h, fun _ hmem => absurd hmem List.not_mem_nil, fun _ => le_refl _, rfl, rfl,
      fun _ => rfl, fun x => ?_⟩
    have hnone : guests x = [] := List.forall₂_nil_left_iff.1 (hguests x)
    rw [hnone]
    exact ⟨[], .empty, rfl, .nil, .nil, rfl, rfl⟩
  | cons c rest ih =>
    rcases exists_of_takeTurns_cons hturns with ⟨after, turn, n, others, later, hturn, hrest, rfl, rfl⟩
    have hid : after.id = c.id := (takeTurn_continues hturn).1
    rcases guests_cons hguests with ⟨d, own, hown, hlike, hothers⟩
    have hadmits := hadmitted c List.mem_cons_self
    rw [← hid] at hown hlike hothers hadmits
    have hpairs := h.turn hlike hadmits fuel seconds
    rw [hturn] at hpairs
    generalize hsolo : takeTurn fuel seconds d (solo (P.of after.id)) = outcome at hpairs
    cases hpairs with
    | @done ρ _ after' _ n' hle hstate hanswer =>
      rcases hstate with ⟨hunites, hcommands, hbackground, halone⟩
      rcases after' with ⟨after', turn'⟩
      have hadmitted' : Admitted P n rest := by
        intro other hmem
        rw [hcommands]
        exact hadmitted other (List.mem_cons_of_mem c hmem)
      rcases ih hunites (guests_update hothers hle) hadmitted' hrest with ⟨π', solo', hends⟩
      exact ⟨π', solo', .cons hown hsolo hle hcommands hbackground halone hanswer.context hanswer.turn
        hanswer.admits hends⟩

/-- When the fuel runs out, it runs out on the machine of some party. -/
theorem exhausted_of_exhausted (h : m.Unites P π solo) (hguests : Guests P π contexts guests)
    (hadmitted : Admitted P m contexts)
    (hturns : takeTurns fuel seconds contexts m = .exhausted) :
    ∃ x, takeTurns fuel seconds (guests x) (solo x) = .exhausted := by
  induction contexts generalizing m π solo guests with
  | nil => cases hturns
  | cons c rest ih =>
    rcases guests_cons hguests with ⟨d, own, hown, hlike, hothers⟩
    have hpairs := h.turn hlike (hadmitted c List.mem_cons_self) fuel seconds
    generalize hturn : takeTurn fuel seconds c m = first at hpairs
    generalize hsolo : takeTurn fuel seconds d (solo (P.of c.id)) = outcome at hpairs
    cases hpairs with
    | exhausted =>
      refine ⟨P.of c.id, ?_⟩
      rw [hown]
      exact takeTurns_cons_of_exhausted hsolo
    | failed hle hstate => exact absurd hturn (takeTurn_ne_failed _ _ _ _ _ _)
    | @done ρ after after' n n' hle hstate hanswer =>
      rcases hstate with ⟨hunites, hcommands, -, -⟩
      rcases after with ⟨after, turn⟩
      rcases after' with ⟨after', turn'⟩
      have hadmitted' : Admitted P n rest := by
        intro other hmem
        rw [hcommands]
        exact hadmitted other (List.mem_cons_of_mem c hmem)
      rw [takeTurns_cons_of_done hturn] at hturns
      have hrest : takeTurns fuel seconds rest n = .exhausted := by
        cases hothers : takeTurns fuel seconds rest n with
        | exhausted => rfl
        | _ =>
          rw [hothers] at hturns
          cases hturns
      rcases ih hunites (guests_update hothers hle) hadmitted' hrest with ⟨x, hx⟩
      refine ⟨x, ?_⟩
      by_cases hsame : x = P.of c.id
      · subst hsame
        rw [Function.update_self, Function.update_self] at hx
        rw [hown, takeTurns_cons_of_done hsolo, hx]
      · rw [Function.update_of_ne hsame, Function.update_of_ne hsame] at hx
        exact hx

end Unites

/-! ## Ticks -/

/-- A machine that matches the machines of all parties, with the contexts of all of them in the
background. -/
structure Houses (P : Parties ι) (π : ι → Pairing) (m : Machine) (solo : ι → Machine) : Prop
    extends Machine.Unites P π m solo where
  guests : Guests P π m.background fun x => (solo x).background
  admitted : Admitted P m m.background

/-- A tick gives turns to the contexts in the background, which are out of it meanwhile. -/
theorem tick_run (fuel : Nat) (seconds : Float) (m : Machine) :
    Machine.tick fuel seconds m =
      match takeTurns fuel seconds m.background { m with background := [] } with
      | .done (kept, report) n => .done report { n with background := kept ++ n.background }
      | .failed e n => .failed e n
      | .exhausted => .exhausted := by
  simp only [Machine.tick, Action.bind_run, Action.get_run, Action.put_run]
  cases takeTurns fuel seconds m.background { m with background := [] } with
  | done pair n => rfl
  | failed e n => rfl
  | exhausted => rfl

namespace Houses

variable {P : Parties ι} {π : ι → Pairing} {m m' : Machine} {solo : ι → Machine} {fuel : Nat}
  {seconds : Float}

/-- A tick that is done is done for each party as on its own machine. -/
theorem tick_done (h : m.Houses P π solo) {report : TickReport}
    (htick : Machine.tick fuel seconds m = .done report m') :
    ∃ π' solo', m'.Houses P π' solo' ∧ ∀ x, π x ≤ π' x ∧ ∃ report',
      Machine.tick fuel seconds (solo x) = .done report' (solo' x) ∧
        (report.on (P.holds x)).Like (π' x) report' := by
  rw [tick_run] at htick
  cases hturns : takeTurns fuel seconds m.background { m with background := [] } with
  | done pair n =>
    rcases pair with ⟨kept, _⟩
    rw [hturns] at htick
    cases htick
    have hunites := h.toUnites.withBackground [] fun _ => []
    rcases hunites.ends_of_done h.guests h.admitted hturns with ⟨π', solo', hends⟩
    have hempty : n.background = [] := hends.background
    choose kept' report' hdone hkept hreport using hends.each
    refine ⟨π', fun x => { solo' x with background := kept' x }, ?_, fun x => ⟨hends.le x, ?_⟩⟩
    · rw [hempty, List.append_nil]
      exact { hends.unites.withBackground kept kept' with
        guests := hkept
        admitted := hends.admitted }
    · refine ⟨report' x, ?_, hreport x⟩
      have halone : (solo' x).background = [] := hends.alone x
      rw [tick_run, hdone x]
      simp only [halone, List.append_nil]
  | failed e n =>
    rw [hturns] at htick
    cases htick
  | exhausted =>
    rw [hturns] at htick
    cases htick

/-- When the fuel runs out in a tick, it runs out in a tick of some party. -/
theorem tick_exhausted (h : m.Houses P π solo) (htick : Machine.tick fuel seconds m = .exhausted) :
    ∃ x, Machine.tick fuel seconds (solo x) = .exhausted := by
  rw [tick_run] at htick
  have hunites := h.toUnites.withBackground [] fun _ => []
  cases hturns : takeTurns fuel seconds m.background { m with background := [] } with
  | exhausted =>
    rcases hunites.exhausted_of_exhausted h.guests h.admitted hturns with ⟨x, hx⟩
    refine ⟨x, ?_⟩
    rw [tick_run, hx]
  | _ =>
    rw [hturns] at htick
    cases htick

/-- Ticks that are done are done for each party as on its own machine. -/
theorem ticks_done (h : m.Houses P π solo) {seconds : List Float} {reports : List TickReport}
    (hticks : ticks fuel seconds m = .done reports m') :
    ∃ π' solo', m'.Houses P π' solo' ∧ ∀ x, π x ≤ π' x ∧ ∃ reports',
      ticks fuel seconds (solo x) = .done reports' (solo' x) ∧
        List.Forall₂ (TickReport.Like (π' x)) (reports.map (·.on (P.holds x))) reports' := by
  induction seconds generalizing m π solo reports with
  | nil =>
    cases hticks
    exact ⟨π, solo, h, fun x => ⟨le_refl _, [], rfl, .nil⟩⟩
  | cons first rest ih =>
    rw [ticks] at hticks
    rcases Action.exists_of_bind_done hticks with ⟨report, n, htick, hbehind⟩
    rcases Action.exists_of_bind_done hbehind with ⟨others, k, hrest, hdone⟩
    cases hdone
    rcases h.tick_done htick with ⟨π₁, solo₁, h₁, heach₁⟩
    rcases ih h₁ hrest with ⟨π₂, solo₂, h₂, heach₂⟩
    refine ⟨π₂, solo₂, h₂, fun x => ?_⟩
    rcases heach₁ x with ⟨hle₁, report', htick', hreport⟩
    rcases heach₂ x with ⟨hle₂, others', hrest', hothers⟩
    refine ⟨le_trans hle₁ hle₂, report' :: others', ?_, .cons (hreport.mono hle₂) hothers⟩
    simp only [ticks, Action.bind_run, htick', hrest', Action.pure_run]

/-- When the fuel runs out in ticks, it runs out in ticks of some party. -/
theorem ticks_exhausted (h : m.Houses P π solo) {seconds : List Float}
    (hticks : ticks fuel seconds m = .exhausted) :
    ∃ x, ticks fuel seconds (solo x) = .exhausted := by
  induction seconds generalizing m π solo with
  | nil => cases hticks
  | cons first rest ih =>
    rw [ticks, Action.bind_run] at hticks
    cases htick : Machine.tick fuel first m with
    | exhausted =>
      rcases h.tick_exhausted htick with ⟨x, hx⟩
      refine ⟨x, ?_⟩
      rw [ticks, Action.bind_run, hx]
    | failed e n => exact absurd htick (tick_ne_failed _ _ _ _ _)
    | done report n =>
      rcases h.tick_done htick with ⟨π₁, solo₁, h₁, heach⟩
      have hrest : ticks fuel rest n = .exhausted := by
        rw [htick] at hticks
        simp only [Action.bind_run] at hticks
        cases hrest : ticks fuel rest n with
        | exhausted => rfl
        | _ =>
          rw [hrest] at hticks
          cases hticks
      rcases ih h₁ hrest with ⟨x, hx⟩
      rcases heach x with ⟨-, report', htick', -⟩
      refine ⟨x, ?_⟩
      simp only [ticks, Action.bind_run, htick', hx]

end Houses
end Machine
end ScriptMachine
