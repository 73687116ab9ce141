import ScriptMachine.Proofs.Reaching
import ScriptMachine.Proofs.Solos

/-!
# Contexts that are exchanged

When the contexts in the background belong to parties that reach no common array, and at most one of
which uses globals, runs scripts or draws random numbers, then only the order within each party
matters.  So two contexts of different parties can be exchanged if none of the contexts between them
belongs to their parties: all contexts are reported alike, and their variables and the arrays that
they reach are alike behind any ticks, apart from the identities of arrays that were created on the
way.

Main results:

- {lit}`Machine.Parted`: parties that reach no common array.
- {lit}`Machine.houses_of_parted`: a machine does for each of them what a machine of its own does.
- {lit}`Machine.ticks_exchanged`: exchanging two contexts of different parties changes neither what
  is reported on any context nor its variables and arrays.
- {lit}`Machine.order_matters`: contexts that only reach no common array themselves notice.
-/

namespace ScriptMachine

/-! ## Pairings through a third machine -/

/-- Arrays that are paired with one array of a third machine. -/
def Pairing.through (π ρ : Pairing) : Pairing :=
  fun i k => ∃ j, π i j ∧ ρ k j

section Through

variable {π ρ : Pairing}

/-- Lists that are related to one list. -/
theorem forall₂_through {α β γ : Type} {R : α → γ → Prop} {S : β → γ → Prop} {T : α → β → Prop}
    {xs : List α} {ys : List β} {us : List γ} (hxs : List.Forall₂ R xs us)
    (hys : List.Forall₂ S ys us) (h : ∀ x y u, R x u → S y u → T x y) : List.Forall₂ T xs ys := by
  induction hxs generalizing ys with
  | nil =>
    cases hys
    exact .nil
  | cons hx _ ih =>
    cases hys with
    | cons hy hys => exact .cons (h _ _ _ hx hy) (ih hys)

/-- Values that are alike to one value. -/
theorem Value.Like.through {v w u : Value} (hv : v.Like π u) (hw : w.Like ρ u) :
    v.Like (π.through ρ) w := by
  cases hv with
  | plain hplain =>
    cases hw with
    | plain _ => exact .plain hplain
    | array _ => cases hplain
  | array hpaired =>
    cases hw with
    | plain hplain => cases hplain
    | array hpaired' => exact .array ⟨_, hpaired, hpaired'⟩

/-- Optional values that are alike to one. -/
theorem Value.Like.option_through {v w u : Option Value} (hv : Option.Rel (Value.Like π) v u)
    (hw : Option.Rel (Value.Like ρ) w u) : Option.Rel (Value.Like (π.through ρ)) v w := by
  cases hv with
  | none =>
    cases hw
    exact .none
  | some hv =>
    cases hw with
    | some hw => exact .some (hv.through hw)

/-- Phases that are alike to one phase. -/
theorem Phase.Like.through {first second third : Phase} (h : first.Like π third)
    (h' : second.Like ρ third) : first.Like (π.through ρ) second := by
  cases h with
  | block next =>
    cases h'
    exact .block next
  | expression =>
    cases h'
    exact .expression
  | branch tested =>
    cases h'
    exact .branch tested
  | loopTest =>
    cases h'
    exact .loopTest
  | loopBody next =>
    cases h'
    exact .loopBody next
  | forEachStart =>
    cases h'
    exact .forEachStart
  | forEachBind hpaired position =>
    cases h' with
    | forEachBind hpaired' _ => exact .forEachBind ⟨_, hpaired, hpaired'⟩ position
  | forEachBody hpaired next position =>
    cases h' with
    | forEachBody hpaired' _ _ => exact .forEachBody ⟨_, hpaired, hpaired'⟩ next position

/-- Contexts that are alike to one context. -/
theorem Context.Like.through {c d e : Context} (h : c.Like π e) (h' : d.Like ρ e) :
    c.Like (π.through ρ) d where
  id := h.id.trans h'.id.symm
  program := h.program.trans h'.program.symm
  locals := forall₂_through h.locals h'.locals fun _ _ _ hv hw => hv.through hw
  frames := forall₂_through h.frames h'.frames fun _ _ _ hv hw =>
    ⟨hv.node.trans hw.node.symm, hv.phase.through hw.phase⟩
  pending := h.pending.trans h'.pending.symm
  result := Value.Like.option_through h.result h'.result
  halt := h.halt.trans h'.halt.symm
  backgrounded := h.backgrounded.trans h'.backgrounded.symm
  elapsed := h.elapsed.trans h'.elapsed.symm
  secondsPassed := h.secondsPassed.trans h'.secondsPassed.symm
  runs := h.runs.trans h'.runs.symm

/-- Reports that are alike to one report. -/
theorem TickReport.Like.through {first second third : TickReport} (h : first.Like π third)
    (h' : second.Like ρ third) : first.Like (π.through ρ) second where
  completed := forall₂_through h.completed h'.completed fun _ _ _ hv hw =>
    ⟨hv.1.trans hw.1.symm, Value.Like.option_through hv.2 hw.2⟩
  parked := h.parked.trans h'.parked.symm
  retired := h.retired.trans h'.retired.symm

/-- Arrays that are paired with those of a third machine. -/
theorem Arrays.Paired.through {s t u : Arrays} (h : s.Paired π u) (h' : t.Paired ρ u) :
    s.Paired (π.through ρ) t where
  exist := by
    rintro i k ⟨j, hpaired, hpaired'⟩
    exact ⟨(h.exist hpaired).1, (h'.exist hpaired').1⟩
  unique := by
    rintro i k i' k' ⟨j, hi, hk⟩ ⟨j', hi', hk'⟩
    exact (h.unique hi hi').trans (h'.unique hk hk').symm
  elements := by
    rintro i k ⟨j, hpaired, hpaired'⟩
    exact forall₂_through (h.elements hpaired) (h'.elements hpaired') fun _ _ _ hv hw => hv.through hw

end Through

/-! ## What concerns some contexts -/

section Some

variable {π : Pairing}

/-- Reports that are alike are alike on some of the contexts. -/
theorem TickReport.Like.on {first second : TickReport} (h : first.Like π second)
    (among : Nat → Bool) : (first.on among).Like π (second.on among) where
  completed :=
    List.rel_filter (fun _ _ hentry => iff_of_eq (congrArg (among · = true) hentry.1)) h.completed
  parked := congrArg (List.filter among) h.parked
  retired := congrArg (List.filter fun entry : Nat × RetireReason => among entry.1) h.retired

/-- A number that is among others is picked by itself. -/
theorem beq_and_of_mem {among : Nat → Bool} {id : Nat} (h : among id = true) (other : Nat) :
    ((other == id) && among other) = (other == id) := by
  by_cases hid : other = id
  · rw [hid, h, Bool.and_true]
  · rw [beq_false_of_ne hid, Bool.false_and]

/-- What is reported on a context is part of what is reported on several. -/
theorem TickReport.on_on {among : Nat → Bool} {id : Nat} (report : TickReport)
    (h : among id = true) : (report.on among).on (· == id) = report.on (· == id) := by
  simp only [TickReport.on, List.filter_filter, beq_and_of_mem h]

/-- Contexts that are alike are alike where their numbers are picked. -/
theorem Context.Like.filter {first second : List Context} (among : Nat → Bool)
    (h : List.Forall₂ (Context.Like π) first second) :
    List.Forall₂ (Context.Like π) (first.filter fun c => among c.id)
      (second.filter fun c => among c.id) :=
  List.rel_filter (fun _ _ hlike => iff_of_eq (congrArg (among · = true) hlike.id)) h

end Some

/-! ## What is reached -/

/-- The arrays that values reach, each of them paired with itself. -/
def Arrays.reached (arrays : Arrays) (values : List Value) : Pairing :=
  fun i j => i = j ∧ arrays.Reaches values i

/-- The values that a context holds: those of its variables, the result of its last run and the
arrays over which its loops go. -/
def Context.holdings (c : Context) : List Value :=
  c.locals ++ c.result.toList ++ c.frames.filterMap fun frame => frame.phase.collection?.map .array

section Reached

variable {arrays : Arrays} {values : List Value}

/-- A value that leads to reached arrays only is alike to itself. -/
theorem Value.Like.self {v : Value} (h : ∀ id, v.array? = some id → arrays.Reaches values id) :
    v.Like (arrays.reached values) v := by
  cases v with
  | array id => exact .array ⟨rfl, h id rfl⟩
  | _ => exact .plain rfl

/-- Values that are held are alike to themselves. -/
theorem Value.Like.all_self {held : List Value} (h : ∀ v ∈ held, v ∈ values) :
    List.Forall₂ (Value.Like (arrays.reached values)) held held :=
  List.forall₂_same.2 fun v hmem => .self fun _ harray => .held (h v hmem) harray

/-- A phase whose loop goes over a reached array is alike to itself. -/
theorem Phase.Like.self {phase : Phase}
    (h : ∀ id, phase.collection? = some id → arrays.Reaches values id) :
    phase.Like (arrays.reached values) phase := by
  cases phase with
  | block next => exact .block next
  | expression => exact .expression
  | branch tested => exact .branch tested
  | loopTest => exact .loopTest
  | loopBody next => exact .loopBody next
  | forEachStart => exact .forEachStart
  | forEachBind collection position => exact .forEachBind ⟨rfl, h collection rfl⟩ position
  | forEachBody next collection position => exact .forEachBody ⟨rfl, h collection rfl⟩ next position

/-- Reached arrays that exist are paired with themselves. -/
theorem Arrays.Paired.self (h : ∀ id, arrays.Reaches values id → id.index < arrays.lists.size) :
    arrays.Paired (arrays.reached values) arrays where
  exist := by
    rintro i _ ⟨rfl, hreached⟩
    exact ⟨h i hreached, h i hreached⟩
  unique := by
    rintro i _ i' _ ⟨rfl, -⟩ ⟨rfl, -⟩
    exact Iff.rfl
  elements := by
    rintro i _ ⟨rfl, hreached⟩
    exact List.forall₂_same.2 fun v hmem => .self fun _ harray => hreached.slot hmem harray

/-- A context whose holdings are among the values is alike to itself. -/
theorem Context.Like.self {c : Context} (h : ∀ v ∈ c.holdings, v ∈ values) :
    c.Like (arrays.reached values) c := by
  simp only [holdings, List.mem_append] at h
  have hlocals : List.Forall₂ (Value.Like (arrays.reached values)) c.locals c.locals :=
    Value.Like.all_self fun v hmem => h v (.inl (.inl hmem))
  have hresult : ∀ v, c.result = some v → v ∈ values := fun v hv =>
    h v (.inl (.inr (by simp [hv])))
  have hframes : ∀ frame ∈ c.frames, ∀ id, frame.phase.collection? = some id →
      arrays.Reaches values id := by
    intro frame hmem id hid
    refine .held (h (.array id) (.inr ?_)) rfl
    exact List.mem_filterMap.2 ⟨frame, hmem, by simp [hid]⟩
  refine ⟨rfl, rfl, hlocals, List.forall₂_same.2 fun frame hmem => ⟨rfl, ?_⟩, rfl, ?_, rfl, rfl, rfl,
    rfl, rfl⟩
  · exact .self (hframes frame hmem)
  · cases hc : c.result with
    | none => exact .none
    | some v => exact .some (.self fun _ harray => .held (hresult v hc) harray)

end Reached

/-! ## Parties that have nothing in common -/

/-- Every context is a party of its own, and none of them sees what all programs share. -/
def Parties.lone : Parties Nat where
  of id := id
  shared _ := False
  sole h := h.elim

instance : DecidablePred Parties.lone.shared :=
  fun _ => inferInstanceAs (Decidable False)

section Own

variable {ι : Type} [DecidableEq ι] (P : Parties ι)

/-- A context of a party is one of its own. -/
theorem Parties.mem_own {c : Context} {contexts : List Context} (h : c ∈ contexts) :
    c ∈ P.own (P.of c.id) contexts :=
  List.mem_filter.2 ⟨h, P.holds_of c.id⟩

/-- The contexts with one number belong to one party. -/
theorem Parties.filter_own (id : Nat) (contexts : List Context) :
    (P.own (P.of id) contexts).filter (fun c => c.id == id) =
      contexts.filter fun c => c.id == id := by
  simp only [own, List.filter_filter, beq_and_of_mem (P.holds_of id)]

/-- Exchanging contexts of different parties leaves the order within each party, if no context between
them belongs to these parties. -/
theorem Parties.own_exchanged {a b : Context} {front middle back : List Context}
    (hdiffer : P.of a.id ≠ P.of b.id)
    (hbetween : ∀ c ∈ middle, P.of c.id ≠ P.of a.id ∧ P.of c.id ≠ P.of b.id) (x : ι) :
    P.own x (front ++ b :: (middle ++ a :: back)) = P.own x (front ++ a :: (middle ++ b :: back)) := by
  have hnone : ∀ y, (∀ c ∈ middle, P.of c.id ≠ y) → P.own y middle = [] := fun y hy =>
    List.filter_eq_nil_iff.2 fun c hc => by simpa [holds] using hy c hc
  by_cases ha : x = P.of a.id
  · subst ha
    have hempty := hnone _ fun c hc => (hbetween c hc).1
    simp only [own_append, own_cons, own_cons_of_ne _ hdiffer, hempty, List.nil_append]
  · by_cases hb : x = P.of b.id
    · subst hb
      have hempty := hnone _ fun c hc => (hbetween c hc).2
      simp only [own_append, own_cons, own_cons_of_ne _ ha, hempty, List.nil_append]
    · simp only [own_append, own_cons_of_ne _ ha, own_cons_of_ne _ hb]

end Own

namespace Machine

section Parted

variable {ι : Type} [DecidableEq ι] {P : Parties ι} [DecidablePred P.shared] {m : Machine}
  {contexts others : List Context}

/-- The values that the contexts of a party hold, and those of globals if it sees what all programs
share. -/
def stakes (P : Parties ι) [DecidablePred P.shared] (m : Machine) (contexts : List Context) (x : ι) :
    List Value :=
  (P.own x contexts).flatMap Context.holdings ++
    if P.shared x then m.globals.entries.map Global.value else []

/-- Contexts belong to parties that reach no common array, and only one of the parties sees what all
programs share.  No exception is raised, and no command touches other commands, globals or the
background. -/
structure Parted (P : Parties ι) [DecidablePred P.shared] (m : Machine) (contexts : List Context) :
    Prop where
  calm : m.Calm
  harmless : ∀ command ∈ m.commands.commands, command.Harmless
  admitted : Admitted P m contexts
  exist : ∀ x id, m.arrays.Reaches (m.stakes P contexts x) id → id.index < m.arrays.lists.size
  apart : ∀ x y id, m.arrays.Reaches (m.stakes P contexts x) id →
    m.arrays.Reaches (m.stakes P contexts y) id → x = y

/-- A machine with the contexts of all parties in the background does for each of them what a machine
of its own does. -/
theorem houses_of_parted (h : m.Parted P contexts)
    (hown : ∀ x, P.own x others = P.own x contexts) :
    Houses P (fun x => m.arrays.reached (m.stakes P contexts x)) { m with background := others }
      fun x => { m with background := P.own x contexts } where
  calm := ⟨h.calm.depth, h.calm.raised⟩
  harmless := h.harmless
  alike := fun x =>
    { settings := rfl
      files := rfl
      commands := rfl
      stale := rfl
      raised := rfl
      depth := rfl
      arrays := .self (h.exist x)
      mingles := by
        intro hshared
        refine ⟨List.forall₂_same.2 fun entry hentry => ⟨rfl, rfl, .self fun _ harray => ?_⟩, rfl, rfl,
          rfl, rfl⟩
        refine .held (List.mem_append_right _ ?_) harray
        rw [if_pos hshared]
        exact List.mem_map_of_mem hentry }
  apart := by
    rintro x y i j k ⟨-, hreached⟩ ⟨-, hreached'⟩
    exact h.apart x y i hreached hreached'
  guests := by
    intro x
    rw [hown x]
    refine List.forall₂_same.2 fun c hc => .self fun v hv => ?_
    exact List.mem_append_left _ (List.mem_flatMap.2 ⟨c, hc, hv⟩)
  admitted := by
    intro c hc
    have hmem := P.mem_own hc
    rw [hown] at hmem
    exact h.admitted c (List.mem_filter.1 hmem).1

end Parted

/-! ## Both orders -/

/-- What ticks report on a context is alike, the context stays in the background or not, and its
variables and the arrays that it reaches are alike. -/
structure Resembles (id : Nat) (π : Pairing) (reports reports' : List TickReport) (m m' : Machine) :
    Prop where
  arrays : m.arrays.Paired π m'.arrays
  reports : List.Forall₂ (TickReport.Like π) (reports.map (·.on (· == id)))
    (reports'.map (·.on (· == id)))
  contexts : List.Forall₂ (Context.Like π) (m.background.filter (·.id == id))
    (m'.background.filter (·.id == id))

section Both

variable {ι : Type} [DecidableEq ι] {P : Parties ι} {π ρ : ι → Pairing} {m n : Machine}

/-- Machines that do the same for a party as one machine of its own look alike to each of its
contexts. -/
theorem resembles_of_houses {solo solo' : ι → Machine} {id : Nat}
    {reports reports' own : List TickReport} (hm : m.Houses P π solo) (hn : n.Houses P ρ solo')
    (hsame : solo (P.of id) = solo' (P.of id))
    (hreports : List.Forall₂ (TickReport.Like (π (P.of id)))
      (reports.map (·.on (P.holds (P.of id)))) own)
    (hreports' : List.Forall₂ (TickReport.Like (ρ (P.of id)))
      (reports'.map (·.on (P.holds (P.of id)))) own) :
    Resembles id ((π (P.of id)).through (ρ (P.of id))) reports reports' m n where
  arrays := by
    have harrays := (hm.alike (P.of id)).arrays
    rw [hsame] at harrays
    exact harrays.through (hn.alike (P.of id)).arrays
  reports := by
    have hboth := forall₂_through hreports hreports' fun _ _ _ h h' => h.through h'
    rw [List.forall₂_map_left_iff, List.forall₂_map_right_iff] at hboth ⊢
    refine hboth.imp fun report report' hlike => ?_
    have hon := hlike.on (· == id)
    rwa [TickReport.on_on _ (P.holds_of id), TickReport.on_on _ (P.holds_of id)] at hon
  contexts := by
    have hcontexts : List.Forall₂ _ _ (solo (P.of id)).background := hm.guests (P.of id)
    rw [hsame] at hcontexts
    have hboth := forall₂_through hcontexts (hn.guests (P.of id)) fun _ _ _ h h' => h.through h'
    have hfilter := Context.Like.filter (· == id) hboth
    rwa [P.filter_own, P.filter_own] at hfilter

variable {solo : ι → Machine} (hm : m.Houses P π solo) (hn : n.Houses P ρ solo)
include hm hn

/-- Ticks that are done on one machine are done on another one that does the same for all parties. -/
theorem exists_done_of_houses {fuel : Nat} {seconds : List Float} {reports : List TickReport}
    {m' : Machine} (hrun : ticks fuel seconds m = .done reports m') :
    ∃ reports' n', ticks fuel seconds n = .done reports' n' := by
  cases hother : ticks fuel seconds n with
  | done reports' n' => exact ⟨reports', n', rfl⟩
  | failed e n' => exact absurd hother (ticks_ne_failed _ _ _ _ _)
  | exhausted =>
    rcases hm.ticks_done hrun with ⟨π', solo', -, heach⟩
    rcases hn.ticks_exhausted hother with ⟨x, hx⟩
    rcases heach x with ⟨-, own, hown, -⟩
    rw [hx] at hown
    cases hown

/-- Machines that do the same for all parties as machines of their own look alike to each context
behind any ticks. -/
theorem ticks_resemble {fuel : Nat} {seconds : List Float} {reports reports' : List TickReport}
    {m' n' : Machine} (hrun : ticks fuel seconds m = .done reports m')
    (hrun' : ticks fuel seconds n = .done reports' n') (id : Nat) :
    ∃ σ, (π (P.of id)).through (ρ (P.of id)) ≤ σ ∧ Resembles id σ reports reports' m' n' := by
  rcases hm.ticks_done hrun with ⟨π', solo', hm', heach⟩
  rcases hn.ticks_done hrun' with ⟨ρ', solo'', hn', heach'⟩
  rcases heach (P.of id) with ⟨hle, own, hown, hreports⟩
  rcases heach' (P.of id) with ⟨hle', own', hown', hreports'⟩
  rw [hown, Outcome.done.injEq] at hown'
  rcases hown' with ⟨rfl, hsame⟩
  refine ⟨(π' (P.of id)).through (ρ' (P.of id)), ?_,
    resembles_of_houses hm' hn' hsame hreports hreports'⟩
  rintro i k ⟨j, hpaired, hpaired'⟩
  exact ⟨j, hle _ _ hpaired, hle' _ _ hpaired'⟩

end Both

section Exchanged

variable {ι : Type} [DecidableEq ι] {P : Parties ι} [DecidablePred P.shared] {m : Machine}
  {contexts others front middle back : List Context} {a b : Context}

/-- While the order within each party is kept, the ticks end in both orders or in none, and what they
do looks alike to every context. -/
theorem ticks_reordered (h : m.Parted P contexts) (hown : ∀ x, P.own x others = P.own x contexts)
    (fuel : Nat) (seconds : List Float) :
    let first := ticks fuel seconds { m with background := contexts }
    let second := ticks fuel seconds { m with background := others }
    (first = .exhausted ∧ second = .exhausted) ∨
      ∃ reports n reports' n', first = .done reports n ∧ second = .done reports' n' ∧
        ∀ c ∈ contexts,
          ∃ π, m.arrays.reached c.holdings ≤ π ∧ Resembles c.id π reports reports' n n' := by
  intro first second
  have hfirst := houses_of_parted h fun _ => rfl
  have hsecond := houses_of_parted h hown
  cases hrun : first with
  | failed e n => exact absurd hrun (ticks_ne_failed _ _ _ _ _)
  | exhausted =>
    refine .inl ⟨rfl, ?_⟩
    cases hother : second with
    | exhausted => rfl
    | failed e n => exact absurd hother (ticks_ne_failed _ _ _ _ _)
    | done reports' n' =>
      rcases exists_done_of_houses hsecond hfirst hother with ⟨reports, n, hdone⟩
      cases hrun.symm.trans hdone
  | done reports n =>
    rcases exists_done_of_houses hfirst hsecond hrun with ⟨reports', n', hother⟩
    refine .inr ⟨reports, n, reports', n', rfl, hother, fun c hc => ?_⟩
    rcases ticks_resemble hfirst hsecond hrun hother c.id with ⟨π, hle, hresembles⟩
    refine ⟨π, ?_, hresembles⟩
    -- The context holds what its party holds.
    rintro i _ ⟨rfl, hreached⟩
    have hstake : m.arrays.Reaches (m.stakes P contexts (P.of c.id)) i := hreached.mono fun v hv =>
      List.mem_append_left _ (List.mem_flatMap.2 ⟨c, P.mem_own hc, hv⟩)
    exact hle i i ⟨i, ⟨rfl, hstake⟩, ⟨rfl, hstake⟩⟩

end Exchanged

/-! ## Programs of one statement -/

/-- A valid program of one statement, which is an expression. -/
def stating (id : Nat) (code : Expr) (calls : List String) : Program :=
  { Program.fresh id none with
    tree := some ⟨#[⟨.entry, [], none, 2, [1], none⟩,
      ⟨.expression, [], none, 3, [], some code⟩], 0, []⟩
    state := .valid
    references := some ⟨calls, []⟩ }

/-- The only code of such a program is its statement. -/
theorem code_stating {id : Nat} {code found : Expr} {calls : List String} {tree : Tree} {k : Nat}
    {node : Node} (htree : (stating id code calls).tree = some tree)
    (hnode : tree.nodes[k]? = some node) (hcode : node.code = some found) : found = code := by
  cases htree
  match k with
  | 0 =>
    cases hnode
    cases hcode
  | 1 =>
    cases hnode
    cases hcode
    rfl
  | k + 2 => cases hnode

/-- Such a program calls what its statement calls. -/
theorem calls_stating {id : Nat} {code : Expr} {calls : List String} {name : String}
    (h : (stating id code calls).Calls name) : name ∈ code.calls := by
  rcases h with ⟨tree, htree, k, node, found, hnode, hcode, hmem⟩
  rw [code_stating htree hnode hcode] at hmem
  exact hmem

/-- Such a program touches the globals that its statement touches. -/
theorem touches_stating {id : Nat} {code : Expr} {calls : List String} {key : String}
    (h : (stating id code calls).Touches key) : key ∈ code.keys := by
  rcases h with ⟨tree, htree, k, node, found, hnode, hcode, hmem⟩
  rw [code_stating htree hnode hcode] at hmem
  exact hmem

/-- A program that appends a text to the array in its first variable. -/
def appending (id : Nat) : Program :=
  stating id (.call "ArrayInsert" [.slot 0, .text "t"]) ["arrayinsert"]

/-- A machine with empty arrays, some more commands and a pending exception or none. -/
def furnished (more : List Command) (raised : Bool) : Machine :=
  { Machine.start .standard .empty with
    arrays := ⟨#[[], [], []]⟩
    commands := ⟨CommandTable.standard.commands ++ more⟩
    cache := [⟨"scripts/Appending.lute".toList, appending 2⟩]
    raised := raised }

/-- Nothing but the values themselves is reached there. -/
theorem array_of_reaches_furnished {more : List Command} {raised : Bool} {values : List Value}
    {id : ArrayId} (h : (furnished more raised).arrays.Reaches values id) : .array id ∈ values := by
  have hnone : ∀ other, (furnished more raised).arrays.elements other = [] := by
    rintro ⟨index⟩
    match index with
    | 0 | 1 | 2 | _ + 3 => rfl
  cases h with
  | @held v _ hmem harray =>
    cases v with
    | array _ =>
      cases harray
      exact hmem
    | _ => cases harray
  | slot _ hmem _ =>
    rw [hnone] at hmem
    cases hmem

/-- A context that appends to an array. -/
def appender (id : Nat) (array : ArrayId) : Context :=
  .create id (appending id) [.array array]

/-- Contexts that append to arrays of their own. -/
def appenders : List Context :=
  [appender 1 ⟨0⟩, appender 3 ⟨2⟩, appender 2 ⟨1⟩]

/-- What each of these contexts is and holds. -/
theorem mem_appenders {c : Context} (h : c ∈ appenders) :
    c.program = appending c.id ∧ c.holdings = [.array ⟨c.id - 1⟩] ∧ 0 < c.id ∧ c.id ≤ 3 := by
  simp only [appenders, List.mem_cons, List.not_mem_nil, or_false] at h
  rcases h with rfl | rfl | rfl <;> exact ⟨rfl, rfl, by decide, by decide⟩

/-- Each of these contexts reaches one array. -/
theorem reaches_appenders {x : Nat} {id : ArrayId}
    (h : (furnished [] false).arrays.Reaches ((furnished [] false).stakes .lone appenders x) id) :
    id.index + 1 = x ∧ id.index < 3 := by
  rcases List.mem_append.1 (array_of_reaches_furnished h) with hmem | hmem
  · rcases List.mem_flatMap.1 hmem with ⟨c, hc, hheld⟩
    rcases List.mem_filter.1 hc with ⟨hc, hparty⟩
    rcases mem_appenders hc with ⟨-, hholdings, hpositive, hle⟩
    rw [hholdings] at hheld
    cases List.mem_singleton.1 hheld
    have hof : c.id = x := of_decide_eq_true hparty
    show c.id - 1 + 1 = x ∧ c.id - 1 < 3
    omega
  · cases hmem

/-- A program that appends to an array is private. -/
theorem private_appending (id : Nat) : (appending id).Private .standard where
  keys key h := absurd (touches_stating h) List.not_mem_nil
  calls name h command hcommand := by
    cases List.mem_singleton.1 (calls_stating h)
    cases (show _ = some (Builtin.command .arrayInsert) from rfl).symm.trans hcommand
    rintro (h | h) <;> cases h

/-- These contexts have nothing in common. -/
theorem parted_appenders : (furnished [] false).Parted .lone appenders where
  calm := ⟨rfl, rfl⟩
  harmless command hcommand := by
    rw [furnished, List.append_nil] at hcommand
    rcases List.mem_map.1 hcommand with ⟨builtin, -, rfl⟩
    trivial
  admitted c hc := by
    rw [(mem_appenders hc).1]
    exact .inr (private_appending c.id)
  exist _ _ h := (reaches_appenders h).2
  apart _ _ _ h h' := (reaches_appenders h).1.symm.trans (reaches_appenders h').1

/-- Contexts of valid programs that use no globals, call none of the commands that run scripts, raise
errors or draw random numbers, and have no variables that reach a common array. -/
structure Unrelated (m : Machine) (a b : Context) : Prop where
  ids : a.id ≠ b.id
  valid : m.isValid a.program = true ∧ m.isValid b.program = true
  keys : ∀ key, ¬a.program.Touches key ∧ ¬b.program.Touches key
  calls : ∀ name, a.program.Calls name ∨ b.program.Calls name →
    name ∉ ["Call", "Error", "RandomNumber"]
  apart : ∀ id, m.arrays.Reaches a.locals id → ¬m.arrays.Reaches b.locals id

/-- The ticks of both orders of the background are done, but what they do does not look alike to a
context. -/
def Notices (m : Machine) (fuel : Nat) (seconds : List Float) (contexts others : List Context)
    (c : Context) : Prop :=
  ∃ reports n reports' n', ticks fuel seconds { m with background := contexts } = .done reports n ∧
    ticks fuel seconds { m with background := others } = .done reports' n' ∧
    ∀ π, m.arrays.reached c.holdings ≤ π → ¬Resembles c.id π reports reports' n n'

section Notices

variable {m n n' : Machine} {fuel : Nat} {seconds : List Float} {contexts others : List Context}
  {c : Context} {reports reports' : List TickReport}

/-- A context that is retired in one order only notices. -/
theorem notices_of_retired
    (hrun : ticks fuel seconds { m with background := contexts } = .done reports n)
    (hrun' : ticks fuel seconds { m with background := others } = .done reports' n')
    (hretired : (reports.map fun report => (report.on (· == c.id)).retired.map Prod.fst) ≠
      reports'.map fun report => (report.on (· == c.id)).retired.map Prod.fst) :
    m.Notices fuel seconds contexts others c := by
  refine ⟨reports, n, reports', n', hrun, hrun', fun π _ hresembles => hretired ?_⟩
  have hreports := hresembles.reports
  rw [List.forall₂_map_left_iff, List.forall₂_map_right_iff] at hreports
  rw [← List.forall₂_eq_eq_eq, List.forall₂_map_left_iff, List.forall₂_map_right_iff]
  exact hreports.imp fun _ _ hlike => congrArg (List.map Prod.fst) hlike.retired

/-- A context notices when an array that it holds gets another number of elements. -/
theorem notices_of_length
    (hrun : ticks fuel seconds { m with background := contexts } = .done reports n)
    (hrun' : ticks fuel seconds { m with background := others } = .done reports' n')
    {id : ArrayId} (hheld : .array id ∈ c.holdings)
    (hlength : (n.arrays.elements id).length ≠ (n'.arrays.elements id).length) :
    m.Notices fuel seconds contexts others c := by
  refine ⟨reports, n, reports', n', hrun, hrun', fun π hle hresembles => hlength ?_⟩
  exact (hresembles.arrays.elements (hle id id ⟨rfl, .held hheld rfl⟩)).length_eq

end Notices

/-- Contexts that have an array each, of which one runs a given statement and one appends. -/
theorem unrelated_stating {more : List Command} {raised : Bool} {code : Expr} {calls : List String}
    (hkeys : code.keys = [])
    (hcalls : ∀ name ∈ code.calls, name ∉ ["Call", "Error", "RandomNumber"]) :
    (furnished more raised).Unrelated (.create 1 (stating 1 code calls) [.array ⟨0⟩])
      (appender 2 ⟨1⟩) where
  ids := show 1 ≠ 2 by decide
  valid := ⟨rfl, rfl⟩
  keys key := by
    refine ⟨fun h => ?_, fun h => absurd (touches_stating h) List.not_mem_nil⟩
    have hmem := touches_stating h
    rw [hkeys] at hmem
    cases hmem
  calls := by
    rintro name (h | h)
    · exact hcalls name (calls_stating h)
    · cases List.mem_singleton.1 (calls_stating h)
      decide
  apart := by
    intro id h h'
    cases List.mem_singleton.1 (array_of_reaches_furnished h)
    cases List.mem_singleton.1 (array_of_reaches_furnished h')

/-- A command of the host that unregisters a built-in one. -/
def hide : Command :=
  ⟨⟨"Hide", none, "", "", [], .numeric, false⟩, .host (.unregister "ArrayInsert")⟩

/-- A context that appends the elements of one array to another one. -/
def copier : Context :=
  .create 3 { Program.fresh 3 none with
    tree := some ⟨#[⟨.entry, [], none, 2, [1], none⟩,
      ⟨.forEach "e" 2, [], none, 3, [2], some (.slot 0)⟩,
      ⟨.expression, [], none, 4, [], some (.call "ArrayInsert" [.slot 1, .slot 2])⟩], 0, []⟩
    state := .valid
    references := some ⟨["arrayinsert"], []⟩ } [.array ⟨0⟩, .array ⟨1⟩, .number 0.0]

end Machine
end ScriptMachine
