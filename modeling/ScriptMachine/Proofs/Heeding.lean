import ScriptMachine.Proofs.Referring

/-!
# Removals that are heeded

When a command or a global goes away, the machine goes through the programs that it knows, those
in its cache and those of its background, and marks as stale what refers to it.  This is right as
long as the references of these programs are those of their code and their numbers tell them
apart.  A machine in which this is so is orderly, and then every valid program in its cache finds
all that its code refers to.

The programs that a host or a run holds are unknown to the machine, but they may come to be known
later.  They are a parameter here.

Main results:

- {lit}`Machine.exists_stale_of_symbols`: what the removal of names marks as stale.
- {lit}`Machine.Orderly.isValid_of_symbols`: in an orderly machine, these are the programs whose
  code refers to one of the names.
- {lit}`Machine.load_ends`: how the load of a script can end.
- {lit}`Machine.load_supplies`: loading a script keeps a machine orderly.
- {lit}`Machine.removeGlobal_staysOrderly` and {lit}`Machine.unregister_staysOrderly`: so do
  removals.
-/

namespace ScriptMachine

open Text

/-! ## Faithful programs -/

namespace Program

/-- A faithful program depends on the names to which its code refers. -/
theorem Faithful.depends_iff {program : Program} (h : program.Faithful)
    (hvalid : program.state = .valid) (symbol : String) :
    (program.references.any fun references => references.dependsOn symbol) = true ↔
      program.Refers symbol := by
  rcases h hvalid with ⟨references, hfound, hnamed, -⟩
  rw [hfound, Option.any_some]
  exact hnamed.dependsOn symbol

/-- A faithful program names its globals by folded names. -/
theorem Faithful.folded {program : Program} (h : program.Faithful) (hvalid : program.state = .valid)
    {key : String} (htouches : program.Touches key) : fold key = key := by
  rcases h hvalid with ⟨references, -, -, hfolded⟩
  exact hfolded key htouches

/-- References do not depend on the spelling of a name. -/
theorem refers_congr (program : Program) {symbol other : String} (h : fold symbol = fold other) :
    program.Refers symbol ↔ program.Refers other := by
  simp only [Refers, sameName_iff, h]

/-- Between two machines, a global or a command went away to which the code of a program refers. -/
def Bereft (program : Program) (m m' : Machine) : Prop :=
  (∃ name, m.globals.contains name = true ∧ m'.globals.contains name = false ∧
    program.Refers name) ∨
  ∃ command ∈ m.commands.commands, command ∉ m'.commands.commands ∧
    ∃ key ∈ command.signature.keys, program.Refers key

/-- Where nothing goes away no program is bereft. -/
theorem not_bereft (program : Program) {m m' : Machine}
    (hcommands : ∀ command ∈ m.commands.commands, command ∈ m'.commands.commands)
    (hglobals : ∀ name, m.globals.contains name = true → m'.globals.contains name = true) :
    ¬program.Bereft m m' := by
  rintro (⟨name, hbefore, hafter, -⟩ | ⟨command, hbefore, hafter, -⟩)
  · rw [hglobals name hbefore] at hafter
    cases hafter
  · exact hafter (hcommands command hbefore)

/-- What went away between two machines went away before or behind a third one. -/
theorem Bereft.split {program : Program} {m k : Machine} (h : program.Bereft m k) (n : Machine) :
    program.Bereft m n ∨ program.Bereft n k := by
  rcases h with ⟨name, hbefore, hafter, hrefers⟩ | ⟨command, hbefore, hafter, hrefers⟩
  · cases hbetween : n.globals.contains name with
    | false => exact .inl (.inl ⟨name, hbefore, hbetween, hrefers⟩)
    | true => exact .inr (.inl ⟨name, hbetween, hafter, hrefers⟩)
  · by_cases hbetween : command ∈ n.commands.commands
    · exact .inr (.inr ⟨command, hbetween, hafter, hrefers⟩)
    · exact .inl (.inr ⟨command, hbefore, hbetween, hrefers⟩)

end Program

/-! ## Orderly machines -/

namespace Machine

/-- Commands are registered under all names that the code of a program calls, and all globals that
it uses are declared. -/
structure Provides (m : Machine) (program : Program) : Prop where
  registered : ∀ name, program.Calls name →
    ∃ command ∈ m.commands.commands, command.signature.name = name
  declared : ∀ key, program.Touches key → m.globals.contains key = true

/-- A program is known to the machine or held by somebody else. -/
def Knows (held : Program → Prop) (m : Machine) (program : Program) : Prop :=
  program ∈ m.knownPrograms ∨ held program

/-- Programs are faithful and told apart by their numbers, and every valid program in the cache is
provided with what its code refers to. -/
structure Orderly (held : Program → Prop) (m : Machine) : Prop where
  assembled : m.commands.Assembled
  faithful : ∀ program, m.Knows held program → program.Faithful
  numbered : ∀ program, m.Knows held program → program.id ≤ m.programCount
  unique : ∀ program other, m.Knows held program → m.Knows held other →
    program.id = other.id → program = other
  current : ∀ entry ∈ m.cache, m.isValid entry.program = true → m.Provides entry.program

/-- The machine finds a program in its cache, or a context in the background runs it. -/
def Reaches (m : Machine) (program : Program) : Prop :=
  (∃ path, m.cached? path = some program) ∨ ∃ context ∈ m.background, context.program = program

/-- Stale programs stay stale, nothing but stale programs leaves the cache, nothing leaves the
background, and what refers to a global or command that went away has become stale. -/
structure Heeds (m m' : Machine) : Prop where
  stale : ∀ id ∈ m.stale, id ∈ m'.stale
  cached : ∀ path program, m.cached? path = some program → m'.isValid program = true →
    m'.cached? path = some program
  background : ∀ context ∈ m.background, context ∈ m'.background
  bereft : ∀ program, m.Reaches program → program.Bereft m m' → m'.isValid program = false

/-- An orderly machine is orderly afterwards, and has heeded what went away. -/
def StaysOrderly (held : Program → Prop) (m m' : Machine) : Prop :=
  m.Orderly held → m'.Orderly held ∧ m.Heeds m'

variable {held held' : Program → Prop} {m m' n k : Machine}

/-- A program is valid unless it was compiled with mistakes or has become stale. -/
theorem isValid_iff (m : Machine) (program : Program) :
    m.isValid program = true ↔ program.state = .valid ∧ program.id ∉ m.stale := by
  simp [isValid]

/-- What is found in the cache stands in it. -/
theorem exists_entry_of_cached? {path : List Char} {program : Program}
    (h : m.cached? path = some program) : ∃ entry ∈ m.cache, entry.program = program := by
  unfold cached? at h
  rcases Option.map_eq_some_iff.1 h with ⟨entry, hfound, rfl⟩
  exact ⟨entry, List.mem_of_find?_eq_some hfound, rfl⟩

/-- What is found in the cache is found there as long as its entry is kept. -/
theorem cached?_filter {path : List Char} {program : Program} {keeps : CacheEntry → Bool}
    (h : m.cached? path = some program)
    (hkeeps : ∀ entry : CacheEntry, entry.program = program → keeps entry = true) :
    ({ m with cache := m.cache.filter keeps } : Machine).cached? path = some program := by
  unfold cached? at h ⊢
  rcases Option.map_eq_some_iff.1 h with ⟨entry, hfound, hentry⟩
  rcases List.find?_eq_some_iff_append.1 hfound with ⟨hsame, before, behind, heq, hbefore⟩
  refine Option.map_eq_some_iff.2 ⟨entry, ?_, hentry⟩
  rw [List.find?_filter, List.find?_eq_some_iff_append]
  refine ⟨by simp [hkeeps entry hentry, hsame], before, behind, heq, fun other hmem => ?_⟩
  have hother := hbefore other hmem
  simp_all

/-- The machine knows the programs in its cache. -/
theorem mem_known_of_cache {entry : CacheEntry} (h : entry ∈ m.cache) :
    entry.program ∈ m.knownPrograms :=
  List.mem_append_left _ (List.mem_map_of_mem h)

/-- The machine knows the programs in its background. -/
theorem mem_known_of_background {context : Context} (h : context ∈ m.background) :
    context.program ∈ m.knownPrograms :=
  List.mem_append_right _ (List.mem_map_of_mem h)

/-- The machine knows what it reaches. -/
theorem Reaches.known {program : Program} (h : m.Reaches program) : program ∈ m.knownPrograms := by
  rcases h with ⟨path, hcached⟩ | ⟨context, hmem, rfl⟩
  · rcases exists_entry_of_cached? hcached with ⟨entry, hmem, rfl⟩
    exact mem_known_of_cache hmem
  · exact mem_known_of_background hmem

/-- What is known stands in the cache or the background or is held. -/
theorem Knows.elim {P : Program → Prop} {program : Program} (h : m.Knows held program)
    (hcache : ∀ entry ∈ m.cache, P entry.program)
    (hbackground : ∀ context ∈ m.background, P context.program)
    (hheld : ∀ other, held other → P other) : P program := by
  rcases h with hknown | hother
  · rcases List.mem_append.1 hknown with hcached | hrun
    · rcases List.mem_map.1 hcached with ⟨entry, hmem, rfl⟩
      exact hcache entry hmem
    · rcases List.mem_map.1 hrun with ⟨context, hmem, rfl⟩
      exact hbackground context hmem
  · exact hheld program hother

/-- A program is provided with its names as long as these only get more. -/
theorem Provides.mono {program : Program} (h : m.Provides program)
    (hcommands : ∀ command ∈ m.commands.commands, command ∈ n.commands.commands)
    (hglobals : ∀ name, m.globals.contains name = true → n.globals.contains name = true) :
    n.Provides program := by
  refine ⟨fun name hcalls => ?_, fun key htouches => hglobals key (h.declared key htouches)⟩
  rcases h.registered name hcalls with ⟨command, hfound, hname⟩
  exact ⟨command, hcommands command hfound, hname⟩

namespace Heeds

/-- A program that is valid afterwards was valid before. -/
theorem isValid (h : m.Heeds m') {program : Program} (hvalid : m'.isValid program = true) :
    m.isValid program = true := by
  rw [isValid_iff] at hvalid ⊢
  exact ⟨hvalid.1, fun hstale => hvalid.2 (h.stale _ hstale)⟩

/-- A program that the machine reaches is reached afterwards while it is valid. -/
theorem reaches (h : m.Heeds m') {program : Program} (hreaches : m.Reaches program)
    (hvalid : m'.isValid program = true) : m'.Reaches program := by
  rcases hreaches with ⟨path, hcached⟩ | ⟨context, hmem, hprogram⟩
  · exact .inl ⟨path, h.cached path program hcached hvalid⟩
  · exact .inr ⟨context, h.background context hmem, hprogram⟩

/-- Nothing goes away. -/
theorem of_adding (hcommands : ∀ command ∈ m.commands.commands, command ∈ m'.commands.commands)
    (hglobals : ∀ name, m.globals.contains name = true → m'.globals.contains name = true)
    (hcache : m'.cache = m.cache) (hbackground : ∀ context ∈ m.background, context ∈ m'.background)
    (hstale : ∀ id ∈ m.stale, id ∈ m'.stale) : m.Heeds m' where
  stale := hstale
  cached := by
    intro path program hcached _
    unfold cached? at hcached ⊢
    rw [hcache]
    exact hcached
  background := hbackground
  bereft := fun program _ hbereft => absurd hbereft (program.not_bereft hcommands hglobals)

end Heeds

instance : Lasting Heeds where
  refl _ := .of_adding (fun _ h => h) (fun _ h => h) rfl (fun _ h => h) fun _ h => h
  trans {m n k} h h' := by
    refine ⟨fun id hid => h'.stale id (h.stale id hid), fun path program hcached hvalid => ?_,
      fun context hmem => h'.background context (h.background context hmem),
      fun program hreaches hbereft => ?_⟩
    · exact h'.cached path program (h.cached path program hcached (h'.isValid hvalid)) hvalid
    · cases hvalid : k.isValid program with
      | false => rfl
      | true =>
        have hbetween := h'.isValid hvalid
        rcases hbereft.split n with hfirst | hsecond
        · rw [h.bereft program hreaches hfirst] at hbetween
          cases hbetween
        · rw [h'.bereft program (h.reaches hreaches hbetween) hsecond] at hvalid
          cases hvalid

instance (held : Program → Prop) : Lasting (StaysOrderly held) where
  refl m h := ⟨h, Lasting.refl m⟩
  trans h h' := fun horderly =>
    have hfirst := h horderly
    have hsecond := h' hfirst.1
    ⟨hsecond.1, Lasting.trans hfirst.2 hsecond.2⟩

/-- A machine that knows no other programs is orderly as long as its cache is. -/
theorem Orderly.transfer (h : m.Orderly held) (hassembled : n.commands.Assembled)
    (hknows : ∀ program, n.Knows held' program → m.Knows held program)
    (hcount : m.programCount ≤ n.programCount)
    (hcurrent : ∀ entry ∈ n.cache, n.isValid entry.program = true → n.Provides entry.program) :
    n.Orderly held' where
  assembled := hassembled
  faithful := fun program hknown => h.faithful program (hknows program hknown)
  numbered := fun program hknown => Nat.le_trans (h.numbered program (hknows program hknown)) hcount
  unique := fun program other hknown hknown' =>
    h.unique program other (hknows program hknown) (hknows other hknown')
  current := hcurrent

/-- A machine with the same names is orderly if it has nothing new in its cache, and if nothing but
known programs is held or run in its background. -/
theorem Orderly.narrow (h : m.Orderly held) (hcommands : n.commands = m.commands)
    (hglobals : n.globals = m.globals) (hcount : n.programCount = m.programCount)
    (hstale : n.stale = m.stale) (hcache : ∀ entry ∈ n.cache, entry ∈ m.cache)
    (hbackground : ∀ context ∈ n.background, m.Knows held context.program)
    (hheld : ∀ program, held' program → m.Knows held program) : n.Orderly held' := by
  refine h.transfer (by rw [hcommands]; exact h.assembled) (fun program hknown => ?_)
    (Nat.le_of_eq hcount.symm) fun entry hmem hvalid => ?_
  · exact hknown.elim (fun entry hmem => .inl (mem_known_of_cache (hcache entry hmem)))
      hbackground hheld
  · have hbefore : m.isValid entry.program = true := by
      rw [isValid_iff, hstale] at hvalid
      exact (isValid_iff _ _).2 hvalid
    exact (h.current entry (hcache entry hmem) hbefore).mono (fun _ h => by rw [hcommands]; exact h)
      fun _ h => by rw [hglobals]; exact h

/-- What was known before may be held, and what is held no longer does not matter. -/
theorem Orderly.mono (h : m.Orderly held) (hheld : ∀ program, held' program → m.Knows held program) :
    m.Orderly held' :=
  h.narrow rfl rfl rfl rfl (fun _ hmem => hmem)
    (fun _ hmem => .inl (mem_known_of_background hmem)) hheld

/-- A machine of which nothing goes away. -/
theorem StaysOrderly.of_adding (hassembled : m.commands.Assembled → m'.commands.Assembled)
    (hcommands : ∀ command ∈ m.commands.commands, command ∈ m'.commands.commands)
    (hglobals : ∀ name, m.globals.contains name = true → m'.globals.contains name = true)
    (hcache : m'.cache = m.cache) (hbackground : m'.background = m.background)
    (hcount : m.programCount ≤ m'.programCount) (hstale : ∀ id ∈ m.stale, id ∈ m'.stale) :
    m.StaysOrderly held m' := by
  have hheeds : m.Heeds m' :=
    .of_adding hcommands hglobals hcache (fun _ h => by rw [hbackground]; exact h) hstale
  have hknows : ∀ program, m'.Knows held program → m.Knows held program := by
    intro program hknown
    unfold Knows knownPrograms at hknown
    rw [hcache, hbackground] at hknown
    exact hknown
  intro h
  refine ⟨h.transfer (hassembled h.assembled) hknows hcount fun entry hmem hvalid => ?_, hheeds⟩
  rw [hcache] at hmem
  exact (h.current entry hmem (hheeds.isValid hvalid)).mono hcommands hglobals

/-- A machine with the same names, in which programs were numbered or became stale. -/
theorem StaysOrderly.of_same (hcommands : m'.commands = m.commands)
    (hglobals : ∀ name, m'.globals.contains name = m.globals.contains name)
    (hcache : m'.cache = m.cache) (hbackground : m'.background = m.background)
    (hcount : m.programCount ≤ m'.programCount) (hstale : ∀ id ∈ m.stale, id ∈ m'.stale) :
    m.StaysOrderly held m' :=
  .of_adding (fun h => by rw [hcommands]; exact h) (fun _ h => by rw [hcommands]; exact h)
    (fun name h => by rw [hglobals]; exact h) hcache hbackground hcount hstale

/-- What matters for names and programs. -/
def library (m : Machine) :
    CommandTable × Globals × List CacheEntry × List Context × Nat × List Nat :=
  (m.commands, m.globals, m.cache, m.background, m.programCount, m.stale)

/-- A machine that differs in nothing that matters for names and programs. -/
theorem StaysOrderly.of_library (h : m'.library = m.library) : m.StaysOrderly held m' := by
  simp only [library, Prod.mk.injEq] at h
  rcases h with ⟨hcommands, hglobals, hcache, hbackground, hcount, hstale⟩
  exact .of_same hcommands (fun name => by rw [hglobals]) hcache hbackground (Nat.le_of_eq hcount.symm)
    fun id hid => by rw [hstale]; exact hid

/-- A plain change. -/
theorem Plain.staysOrderly (h : m.Plain m') : m.StaysOrderly held m' := by
  have hcount : m'.programCount = m.programCount := by rw [h.same]
  have hstale : m'.stale = m.stale := by rw [h.same]
  exact .of_same (by rw [h.same]) h.declared (by rw [h.same]) (by rw [h.same])
    (Nat.le_of_eq hcount.symm) fun id hid => by rw [hstale]; exact hid

/-! ## Removals -/

/-- Invalidation changes nothing but the list of stale programs. -/
theorem exists_stale_of_programs (symbol : String) (programs : List Program) (m : Machine) :
    ∃ stale, programs.foldl (invalidateIfDependent symbol) m = { m with stale := stale } ∧
      ∀ id, id ∈ stale ↔ id ∈ m.stale ∨ ∃ program ∈ programs, program.state = .valid ∧
        (program.references.any fun references => references.dependsOn symbol) = true ∧
          program.id = id := by
  induction programs generalizing m with
  | nil => exact ⟨m.stale, rfl, by simp⟩
  | cons first rest ih =>
    rcases ih (invalidateIfDependent symbol m first) with ⟨stale, hrest, hstale⟩
    have hfirst : ∃ between, invalidateIfDependent symbol m first = { m with stale := between } ∧
        ∀ id, id ∈ between ↔ id ∈ m.stale ∨ (first.state = .valid ∧
          (first.references.any fun references => references.dependsOn symbol) = true ∧
            first.id = id) := by
      unfold invalidateIfDependent invalidate
      by_cases hdepends : (first.references.any fun references => references.dependsOn symbol) = true
      · rw [if_pos hdepends]
        by_cases hvalid : m.isValid first = true
        · rw [if_pos hvalid]
          refine ⟨_, rfl, fun id => ?_⟩
          rw [List.mem_cons, eq_comm, or_comm]
          simp [((isValid_iff m first).1 hvalid).1, hdepends]
        · rw [if_neg hvalid]
          refine ⟨m.stale, rfl, fun id => ⟨.inl, ?_⟩⟩
          rintro (hmem | ⟨hstate, -, rfl⟩)
          · exact hmem
          · rw [isValid_iff] at hvalid
            exact Decidable.byContradiction fun hfresh => hvalid ⟨hstate, hfresh⟩
      · rw [if_neg hdepends]
        exact ⟨m.stale, rfl, by simp [hdepends]⟩
    rcases hfirst with ⟨between, hbetween, hmem⟩
    rw [List.foldl_cons, hrest, hbetween]
    refine ⟨stale, rfl, fun id => ?_⟩
    rw [hstale, hbetween, hmem, or_assoc]
    simp only [List.mem_cons, or_and_right, exists_or, exists_eq_left]

/-- What the removal of some names marks as stale: the known valid programs that depend on one of
them. -/
theorem exists_stale_of_symbols (symbols : List String) (m : Machine) :
    ∃ stale, symbols.foldl invalidateDependents m = { m with stale := stale } ∧
      ∀ id, id ∈ stale ↔ id ∈ m.stale ∨ ∃ program ∈ m.knownPrograms, program.state = .valid ∧
        (∃ symbol ∈ symbols,
          (program.references.any fun references => references.dependsOn symbol) = true) ∧
          program.id = id := by
  induction symbols generalizing m with
  | nil => exact ⟨m.stale, rfl, by simp⟩
  | cons symbol rest ih =>
    rcases exists_stale_of_programs symbol m.knownPrograms m with ⟨between, hfirst, hbetween⟩
    rcases ih { m with stale := between } with ⟨stale, hrest, hstale⟩
    refine ⟨stale, ?_, fun id => ?_⟩
    · rw [List.foldl_cons, invalidateDependents, hfirst, hrest]
    · rw [hstale, hbetween]
      have hknown : knownPrograms { m with stale := between } = m.knownPrograms := rfl
      rw [hknown, or_assoc]
      simp only [List.mem_cons, or_and_right, and_or_left, exists_or, exists_eq_left]

/-- In an orderly machine, the removal of some names makes those known programs stale whose code
refers to one of them, and no other program. -/
theorem Orderly.isValid_of_symbols (h : m.Orderly held) (symbols : List String) {program : Program}
    (hknown : m.Knows held program) :
    (symbols.foldl invalidateDependents m).isValid program = true ↔
      m.isValid program = true ∧
        ¬(program ∈ m.knownPrograms ∧ ∃ symbol ∈ symbols, program.Refers symbol) := by
  rcases exists_stale_of_symbols symbols m with ⟨stale, heq, hstale⟩
  rw [heq, isValid_iff, isValid_iff, hstale, not_or, and_assoc]
  refine and_congr_right fun hstate => and_congr_right fun _ => not_congr ⟨?_, ?_⟩
  · rintro ⟨other, hother, -, ⟨symbol, hmem, hdepends⟩, hid⟩
    cases h.unique other program (.inl hother) hknown hid
    exact ⟨hother, symbol, hmem, ((h.faithful program hknown).depends_iff hstate symbol).1 hdepends⟩
  · rintro ⟨hmine, symbol, hmem, hrefers⟩
    exact ⟨program, hmine, hstate,
      ⟨symbol, hmem, ((h.faithful program hknown).depends_iff hstate symbol).2 hrefers⟩, rfl⟩

/-- A program is provided with names as long as none of its names went away. -/
theorem Provides.of_not_bereft {program : Program} (h : m.Provides program)
    (hfolded : ∀ key, program.Touches key → fold key = key) (hkept : ¬program.Bereft m n) :
    n.Provides program := by
  refine ⟨fun name hcalls => ?_, fun key htouches => ?_⟩
  · rcases h.registered name hcalls with ⟨command, hfound, hname⟩
    by_cases hstill : command ∈ n.commands.commands
    · exact ⟨command, hstill, hname⟩
    · have hkey : fold name ∈ command.signature.keys := by
        rw [← hname]
        exact List.mem_map_of_mem (List.mem_cons_self ..)
      have hrefers : program.Refers (fold name) := .inl ⟨name, hcalls, by simp [sameName_iff]⟩
      exact absurd (.inr ⟨command, hfound, hstill, fold name, hkey, hrefers⟩) hkept
  · cases hstill : n.globals.contains key with
    | true => rfl
    | false =>
      have hrefers : program.Refers key := .inr (by rw [hfolded key htouches]; exact htouches)
      exact absurd (.inl ⟨key, h.declared key htouches, hstill, hrefers⟩) hkept

/-- The machine with other commands and globals. -/
def withNames (commands : CommandTable) (globals : Globals) (m : Machine) : Machine :=
  { m with commands := commands, globals := globals }

/-- Which names there are does not matter for an invalidation. -/
theorem isValid_withNames (commands : CommandTable) (globals : Globals) (symbols : List String)
    (program : Program) :
    (symbols.foldl invalidateDependents (m.withNames commands globals)).isValid program = true ↔
      (symbols.foldl invalidateDependents m).isValid program = true := by
  rcases exists_stale_of_symbols symbols m with ⟨stale, heq, hstale⟩
  rcases exists_stale_of_symbols symbols (m.withNames commands globals) with ⟨stale', heq', hstale'⟩
  have hsame : ∀ id, id ∈ stale' ↔ id ∈ stale := fun id => (hstale' id).trans (hstale id).symm
  rw [heq, heq', isValid_iff, isValid_iff, hsame]

/-- How a machine differs after names went away: in its names and its list of stale programs only,
and of the programs that somebody holds, those have become stale that the machine knows and whose
code refers to one of the names. -/
structure Forgets (held : Program → Prop) (names : String → Prop) (m m' : Machine) : Prop where
  frame : m' = { m with commands := m'.commands, globals := m'.globals, stale := m'.stale }
  stale : ∀ id ∈ m.stale, id ∈ m'.stale
  isValid : ∀ program, m.Knows held program →
    (m'.isValid program = true ↔ m.isValid program = true ∧
      ¬(program ∈ m.knownPrograms ∧ ∃ name, names name ∧ program.Refers name))

/-- The names may be spelled otherwise. -/
theorem Forgets.congr {names names' : String → Prop} (h : m.Forgets held names m')
    (hnames : ∀ program : Program,
      (∃ name, names name ∧ program.Refers name) ↔ ∃ name, names' name ∧ program.Refers name) :
    m.Forgets held names' m' :=
  ⟨h.frame, h.stale, fun program hknown => by rw [h.isValid program hknown, hnames program]⟩

/-- What becomes of an orderly machine that gets other names, once some symbols are invalidated. -/
theorem Orderly.forgets (h : m.Orderly held) (commands : CommandTable) (globals : Globals)
    (symbols : List String) :
    m.Forgets held (· ∈ symbols)
        (symbols.foldl invalidateDependents (m.withNames commands globals)) ∧
      (symbols.foldl invalidateDependents (m.withNames commands globals)).commands = commands ∧
      (symbols.foldl invalidateDependents (m.withNames commands globals)).globals = globals := by
  have hvalid := fun program => isValid_withNames (m := m) commands globals symbols program
  rcases exists_stale_of_symbols symbols (m.withNames commands globals) with ⟨stale, heq, hstale⟩
  rw [heq] at hvalid ⊢
  refine ⟨⟨rfl, fun id hid => (hstale id).2 (.inl hid), fun program hknown => ?_⟩, rfl, rfl⟩
  rw [hvalid program, h.isValid_of_symbols symbols hknown]

/-- Commands and globals that go away are heeded if all their names are forgotten. -/
theorem Forgets.staysOrderly {names : String → Prop} (h : m.Forgets held names m')
    (hassembled : m.commands.Assembled → m'.commands.Assembled)
    (hglobals : ∀ name, m.globals.contains name = true → m'.globals.contains name = false →
      ∃ symbol, names symbol ∧ fold symbol = fold name)
    (hcommands : m.commands.Distinct → ∀ command ∈ m.commands.commands,
      command ∉ m'.commands.commands →
        ∀ key ∈ command.signature.keys, ∃ symbol, names symbol ∧ fold symbol = fold key) :
    m.StaysOrderly held m' := by
  intro horderly
  -- The names of a program that is bereft are among those that are forgotten.
  have hrefers : ∀ program : Program, program.Bereft m m' →
      ∃ symbol, names symbol ∧ program.Refers symbol := by
    rintro program (⟨name, hbefore, hafter, hname⟩ | ⟨command, hbefore, hafter, key, hkey, hname⟩)
    · rcases hglobals name hbefore hafter with ⟨symbol, hmem, hfold⟩
      exact ⟨symbol, hmem, (program.refers_congr hfold).2 hname⟩
    · rcases hcommands horderly.assembled.distinct command hbefore hafter key hkey with
        ⟨symbol, hmem, hfold⟩
      exact ⟨symbol, hmem, (program.refers_congr hfold).2 hname⟩
  have hcache : m'.cache = m.cache := by rw [h.frame]
  have hbackground : m'.background = m.background := by rw [h.frame]
  have hcount : m'.programCount = m.programCount := by rw [h.frame]
  refine ⟨horderly.transfer (hassembled horderly.assembled) (fun program hknown => ?_)
      (Nat.le_of_eq hcount.symm) fun entry hmem hstill => ?_,
    ⟨h.stale, fun path program hcached _ => ?_, fun context hmem => ?_,
      fun program hreaches hbereft => ?_⟩⟩
  · unfold Knows knownPrograms at hknown
    rw [hcache, hbackground] at hknown
    exact hknown
  · rw [hcache] at hmem
    have hknown := mem_known_of_cache hmem
    rcases (h.isValid entry.program (.inl hknown)).1 hstill with ⟨hbefore, hnone⟩
    have hfolded : ∀ key, entry.program.Touches key → fold key = key := fun key htouches =>
      (horderly.faithful entry.program (.inl hknown)).folded ((isValid_iff m _).1 hbefore).1 htouches
    exact (horderly.current entry hmem hbefore).of_not_bereft hfolded
      fun hbereft => hnone ⟨hknown, hrefers entry.program hbereft⟩
  · unfold cached? at hcached ⊢
    rw [hcache]
    exact hcached
  · rw [hbackground]
    exact hmem
  · refine Bool.eq_false_iff.2 fun hstill => ?_
    exact ((h.isValid program (.inl hreaches.known)).1 hstill).2
      ⟨hreaches.known, hrefers program hbereft⟩

/-- Removing a global forgets its name if it is declared. -/
theorem Orderly.removeGlobal_forgets (h : m.Orderly held) (name : String) :
    m.Forgets held (fun other => other = name ∧ m.globals.contains name = true)
        (m.removeGlobal name) ∧
      (m.removeGlobal name).commands = m.commands ∧
      (m.removeGlobal name).globals = m.globals.remove name := by
  unfold removeGlobal
  by_cases hdeclared : m.globals.contains name = true
  · rw [if_pos hdeclared]
    rcases h.forgets m.commands (m.globals.remove name) [name] with ⟨hforgets, hcommands, hglobals⟩
    exact ⟨hforgets.congr fun program => by simp [hdeclared], hcommands, hglobals⟩
  · rw [if_neg hdeclared, m.globals.remove_of_not_contains (Bool.eq_false_iff.2 hdeclared)]
    exact ⟨⟨rfl, fun _ hid => hid, fun program _ => by simp [hdeclared]⟩, rfl, rfl⟩

/-- Removing a global. -/
theorem removeGlobal_staysOrderly (m : Machine) (name : String) :
    m.StaysOrderly held (m.removeGlobal name) := by
  intro h
  rcases h.removeGlobal_forgets name with ⟨hforgets, hcommands, hglobals⟩
  refine hforgets.staysOrderly (fun hassembled => by rw [hcommands]; exact hassembled)
    (fun other hbefore hafter => ?_) (fun _ command hmem hlost => ?_) h
  · rw [hglobals] at hafter
    have hfold : fold name = fold other := by
      refine Decidable.byContradiction fun hdifferent => ?_
      rw [Globals.contains_remove_ne _ hdifferent, hbefore] at hafter
      cases hafter
    refine ⟨name, ⟨rfl, ?_⟩, hfold⟩
    simpa [Globals.contains, Globals.find?, hfold] using hbefore
  · rw [hcommands] at hlost
    exact absurd hmem hlost

/-- A command that nothing answers to is not removed. -/
theorem unregister_failed {name : String} {e : CommandError} (h : m.unregister name = .error e) :
    m.commands.lookup? name = none ∧ e = .notRegistered name := by
  unfold unregister CommandTable.unregister at h
  cases hlookup : m.commands.lookup? name with
  | none =>
    rw [hlookup] at h
    cases h
    exact ⟨rfl, rfl⟩
  | some command =>
    rw [hlookup] at h
    cases h

/-- Removing a command forgets its name and its alias. -/
theorem Orderly.unregister_forgets (h : m.Orderly held) {name : String} {command : Command}
    (hremoved : m.unregister name = .ok (command, m')) :
    m.Forgets held (· ∈ command.signature.keys) m' ∧
      m.commands.unregister name = .ok (command, m'.commands) ∧ m'.globals = m.globals := by
  unfold unregister at hremoved
  cases htable : m.commands.unregister name with
  | error e =>
    rw [htable] at hremoved
    cases hremoved
  | ok pair =>
    rcases pair with ⟨found, commands⟩
    rw [htable] at hremoved
    cases hremoved
    rcases h.forgets commands m.globals (command.signature.name :: command.signature.shortName.toList)
      with ⟨hforgets, hcommands, hglobals⟩
    refine ⟨hforgets.congr fun program => ⟨?_, ?_⟩,
      congrArg (fun table => Except.ok (command, table)) hcommands.symm, hglobals⟩
    · rintro ⟨symbol, hmem, hrefers⟩
      exact ⟨fold symbol, List.mem_map_of_mem hmem,
        (program.refers_congr (fold_fold symbol)).2 hrefers⟩
    · rintro ⟨key, hkey, hrefers⟩
      rcases List.mem_map.1 hkey with ⟨symbol, hmem, rfl⟩
      exact ⟨symbol, hmem, (program.refers_congr (fold_fold symbol)).1 hrefers⟩

/-- Removing a command. -/
theorem unregister_staysOrderly {name : String} {command : Command}
    (hremoved : m.unregister name = .ok (command, m')) : m.StaysOrderly held m' := by
  intro h
  rcases h.unregister_forgets hremoved with ⟨hforgets, htable, hglobals⟩
  refine hforgets.staysOrderly (fun hassembled => hassembled.unregistered htable)
    (fun other hbefore hafter => ?_) (fun hdistinct other hbefore hafter key hkey => ?_) h
  · rw [hglobals, hbefore] at hafter
    cases hafter
  · rw [hdistinct.eq_of_unregister htable hbefore hafter] at hkey
    exact ⟨key, hkey, rfl⟩

/-- Marking as stale what refers to a name. -/
theorem invalidateDependents_staysOrderly (m : Machine) (symbol : String) :
    m.StaysOrderly held (m.invalidateDependents symbol) := by
  intro h
  rcases h.forgets m.commands m.globals [symbol] with ⟨hforgets, hcommands, hglobals⟩
  refine hforgets.staysOrderly (fun hassembled => by rw [hcommands]; exact hassembled)
    (fun other hbefore hafter => ?_) (fun _ command hmem hlost => ?_) h
  · rw [hglobals, hbefore] at hafter
    cases hafter
  · rw [hcommands] at hlost
    exact absurd hmem hlost

/-! ## New programs -/

/-- One more program is held. -/
def Holding (held : Program → Prop) (program other : Program) : Prop :=
  held other ∨ other = program

/-- A program with a new number may be held. -/
theorem Orderly.countProgram (h : m.Orderly held) {program : Program}
    (hid : program.id = m.programCount + 1) (hfaithful : program.Faithful) :
    m.countProgram.Orderly (Holding held program) := by
  have hknows : ∀ other, m.countProgram.Knows (Holding held program) other →
      m.Knows held other ∨ other = program := by
    rintro other (hknown | hheld | hnew)
    · exact .inl (.inl hknown)
    · exact .inl (.inr hheld)
    · exact .inr hnew
  have hfresh : ∀ other, m.Knows held other → other.id ≠ program.id := by
    intro other hknown heq
    have hnumbered := h.numbered other hknown
    omega
  refine ⟨h.assembled, fun other hknown => ?_, fun other hknown => ?_,
    fun first second hfirst hsecond heq => ?_, fun entry hmem hvalid => ?_⟩
  · rcases hknows other hknown with hold | rfl
    · exact h.faithful other hold
    · exact hfaithful
  · rcases hknows other hknown with hold | rfl
    · exact Nat.le_succ_of_le (h.numbered other hold)
    · exact Nat.le_of_eq hid
  · rcases hknows first hfirst with hold | rfl
    · rcases hknows second hsecond with hold' | rfl
      · exact h.unique first second hold hold' heq
      · exact absurd heq (hfresh first hold)
    · rcases hknows second hsecond with hold' | rfl
      · exact absurd heq.symm (hfresh second hold')
      · rfl
  · exact (h.current entry hmem hvalid).mono (fun _ h => h) fun _ h => h

/-- Numbering a program changes nothing else. -/
theorem countProgram_heeds (m : Machine) : m.Heeds m.countProgram :=
  .of_adding (fun _ h => h) (fun _ h => h) rfl (fun _ h => h) fun _ h => h

/-- A machine provides for a program that was compiled with its names. -/
theorem provides_of_compile {id : Nat} {path : Option String} {source : List Char}
    {program : Program} (hassembled : m.commands.Assembled)
    (h : Program.compile m.globals m.commands id path source = .ok program) : m.Provides program := by
  refine ⟨fun name hcalls => ?_, fun key htouches =>
    Program.declared_of_compile hassembled h htouches⟩
  rcases Program.registered_of_compile hassembled h hcalls with ⟨command, hlookup, hname⟩
  exact ⟨command, (CommandTable.lookup?_mem _ _ _ hlookup).1, hname⟩

/-- Compiling a source text makes a new program. -/
theorem exists_compile_run (path : Option String) (source : String) (m : Machine) :
    ∃ program, compile path source m = .done program m.countProgram ∧
      Program.compile m.globals m.commands (m.programCount + 1) path source.toList = .ok program := by
  rcases Program.exists_compile m.globals m.commands (m.programCount + 1) path source.toList with
    ⟨program, hcompile, -⟩
  refine ⟨program, ?_, hcompile⟩
  unfold compile
  simp only [countProgram, hcompile]

/-- The cache answers the same for the same path. -/
theorem cached?_congr (m : Machine) {path other : List Char} (h : Path.same path other = true) :
    m.cached? path = m.cached? other := by
  rw [Path.same_iff] at h
  have hsame : ∀ entry : CacheEntry, Path.same entry.path path = Path.same entry.path other := by
    intro entry
    simp only [Path.same, h.1, h.2]
  simp only [cached?, hsame]

/-- What a path leads to in the cache once a program is stored for another one. -/
theorem cached?_store (m : Machine) (path other : List Char) (program : Program) :
    (m.store path program).cached? other =
      if Path.same path other then some program else m.cached? other := by
  by_cases hsame : Path.same path other = true
  · simp [cached?, store, hsame]
  · -- An entry for the other path is none for this one.
    have hkept : ∀ entry : CacheEntry, Path.same entry.path other = true →
        Path.same entry.path path = false := by
      intro entry hentry
      refine Bool.eq_false_iff.2 fun hpath => hsame ?_
      rw [Path.same_iff] at hentry hpath ⊢
      exact ⟨hpath.1.symm.trans hentry.1, hpath.2.symm.trans hentry.2⟩
    rw [if_neg hsame]
    simp only [cached?, store, List.find?_cons, hsame, List.find?_filter]
    congr 2
    funext entry
    cases hentry : Path.same entry.path other with
    | false => simp
    | true => simp [hkept entry hentry]

/-- A program that is stored for a path takes the place of a stale one. -/
theorem heeds_store {path : List Char} (program : Program)
    (hstale : ∀ old, m.cached? path = some old → m.isValid old = false) :
    m.Heeds (m.store path program) where
  stale := fun _ h => h
  cached := by
    intro other old hcached hvalid
    rw [cached?_store]
    by_cases hsame : Path.same path other = true
    · rw [cached?_congr m hsame, hcached] at hstale
      have hstill : m.isValid old = true := hvalid
      rw [hstale old rfl] at hstill
      cases hstill
    · rw [if_neg hsame]
      exact hcached
  background := fun _ h => h
  bereft := fun other _ hbereft => absurd hbereft (other.not_bereft (fun _ h => h) fun _ h => h)

/-- A held program that is provided with its names may be stored. -/
theorem Orderly.store (h : m.Orderly held) {program : Program} (hheld : held program)
    (hprovides : m.Provides program) (path : List Char) : (m.store path program).Orderly held := by
  have hentry : ∀ entry ∈ (m.store path program).cache,
      entry = ⟨path, program⟩ ∨ entry ∈ m.cache := fun entry hmem =>
    (List.mem_cons.1 hmem).imp id fun hold => (List.mem_filter.1 hold).1
  refine h.transfer h.assembled (fun other hknown => ?_) (Nat.le_refl _) fun entry hmem hvalid => ?_
  · refine hknown.elim (fun entry hmem => ?_)
      (fun context hmem => .inl (mem_known_of_background hmem)) fun _ hother => .inr hother
    rcases hentry entry hmem with rfl | hold
    · exact .inr hheld
    · exact .inl (mem_known_of_cache hold)
  · rcases hentry entry hmem with rfl | hold
    · exact hprovides.mono (fun _ h => h) fun _ h => h
    · exact (h.current entry hold hvalid).mono (fun _ h => h) fun _ h => h

end Machine

/-- Whatever an operation answers, the machine stays orderly, heeds what goes away, and the program
of the answer may be held. -/
def Operation.Supplies (operation : Operation Program) : Prop :=
  ∀ (held : Program → Prop) (m : Machine), m.Orderly held →
    (∀ program m', operation m = .done program m' →
      m'.Orderly (Machine.Holding held program) ∧ m.Heeds m') ∧
    ∀ e m', operation m = .failed e m' → m'.Orderly held ∧ m.Heeds m'

/-- The program of an answer need not be held. -/
theorem Operation.Supplies.staysOrderly {operation : Operation Program} (h : operation.Supplies)
    (held : Program → Prop) : operation.Keeps (Machine.StaysOrderly held) := by
  intro m
  cases hrun : operation m with
  | done program m' =>
    intro horderly
    rcases (h held m horderly).1 program m' hrun with ⟨hafter, hheeds⟩
    exact ⟨hafter.mono fun other hother => .inr (.inl hother), hheeds⟩
  | failed e m' => exact fun horderly => (h held m horderly).2 e m' hrun
  | exhausted => trivial

namespace Machine

variable {held : Program → Prop} {m m' : Machine}

/-- Compiling a source text. -/
theorem compile_supplies (path : Option String) (source : String) :
    (compile path source).Supplies := by
  intro held m h
  rcases exists_compile_run path source m with ⟨program, hrun, hcompile⟩
  rw [hrun]
  refine ⟨fun found m' hdone => ?_, fun e m' hfailed => by cases hfailed⟩
  cases hdone
  exact ⟨h.countProgram (Program.id_of_compile hcompile)
    (Program.faithful_of_compile hcompile), countProgram_heeds m⟩

/-- Compiling a file. -/
theorem compileFile_supplies (path : String) : (compileFile path).Supplies := by
  intro held m h
  unfold compileFile
  cases m.files.read path.toList with
  | ok source => exact compile_supplies _ _ held m h
  | error e =>
    refine ⟨fun program m' hdone => ?_, fun e m' hfailed => by cases hfailed⟩
    cases hdone
    have hfaithful : (Program.unreadable (m.programCount + 1) path e).Faithful :=
      fun hvalid => by cases hvalid
    exact ⟨h.countProgram rfl hfaithful, countProgram_heeds m⟩

/-- A path leads to a text that compiles to the given valid program. -/
def Compiles (m : Machine) (path : List Char) (program : Program) : Prop :=
  ∃ source, m.files.read path = .ok source ∧
    Program.compile m.globals m.commands (m.programCount + 1) (some (String.ofList path))
      source.toList = .ok program ∧ m.isValid program = true

/-- How the load of a path can end. -/
inductive LoadEnds (m : Machine) (path : List Char) : Outcome Machine MachineError Program → Prop
  /-- The cached program is valid. -/
  | cached {program : Program} (hcached : m.cached? path = some program)
      (hvalid : m.isValid program = true) : LoadEnds m path (.done program m)
  /-- No valid program is cached, and a new one is stored. -/
  | compiled {program : Program}
      (hstale : ∀ old, m.cached? path = some old → m.isValid old = false)
      (hcompiles : m.Compiles path program) :
      LoadEnds m path (.done program (m.countProgram.store path program))
  /-- No valid program is cached, and there is no text or it has mistakes. -/
  | failed {e : MachineError} {m' : Machine}
      (hstale : ∀ old, m.cached? path = some old → m.isValid old = false)
      (hnone : ∀ program, ¬m.Compiles path program) (hsame : m' = m ∨ m' = m.countProgram) :
      LoadEnds m path (.failed e m')

/-- Loading a script that is not cached. -/
theorem loadFresh_ends {path : List Char}
    (hstale : ∀ old, m.cached? path = some old → m.isValid old = false) :
    m.LoadEnds path (loadFresh path m) := by
  simp only [loadFresh, Action.bind_run, Action.get_run]
  cases hread : m.files.read path with
  | error e =>
    refine .failed hstale ?_ (.inl rfl)
    rintro program ⟨source, hsource, -⟩
    rw [hread] at hsource
    cases hsource
  | ok source =>
    rcases exists_compile_run (some (String.ofList path)) source m with ⟨program, hrun, hcompile⟩
    simp only [Action.bind_run, Action.get_run, hrun]
    by_cases hvalid : m.countProgram.isValid program = true
    · rw [if_pos hvalid]
      exact .compiled hstale ⟨source, hread, hcompile, hvalid⟩
    · rw [if_neg hvalid]
      refine .failed hstale ?_ (.inr rfl)
      rintro other ⟨text, htext, hother, hstill⟩
      rw [hread] at htext
      cases htext
      rw [hcompile] at hother
      cases hother
      exact hvalid hstill

/-- Loading a script answers with the cached program while it is valid, and compiles the text of
the script otherwise. -/
theorem load_ends (name : String) (m : Machine) : m.LoadEnds (m.resolve name) (load name m) := by
  simp only [load, Action.bind_run, Action.get_run]
  cases hcached : m.cached? (m.resolve name) with
  | none => exact loadFresh_ends fun old h => by rw [hcached] at h; cases h
  | some program =>
    simp only
    by_cases hvalid : m.isValid program = true
    · rw [if_pos hvalid]
      exact .cached hcached hvalid
    · rw [if_neg hvalid]
      refine loadFresh_ends fun old h => ?_
      rw [hcached] at h
      cases h
      exact Bool.eq_false_iff.2 hvalid

/-- Loading a script. -/
theorem load_supplies (name : String) : (load name).Supplies := by
  intro held m h
  have hends := load_ends name m
  generalize load name m = outcome at hends ⊢
  cases hends with
  | cached hcached hvalid =>
    refine ⟨fun program m' hdone => ?_, fun e m' hfailed => (by cases hfailed)⟩
    cases hdone
    refine ⟨h.mono fun other hother => ?_, Lasting.refl m⟩
    rcases hother with hheld | rfl
    · exact .inr hheld
    · exact .inl (Reaches.known (.inl ⟨_, hcached⟩))
  | compiled hstale hcompiles =>
    refine ⟨fun program m' hdone => ?_, fun e m' hfailed => (by cases hfailed)⟩
    cases hdone
    rcases hcompiles with ⟨source, -, hcompile, -⟩
    have hnew := h.countProgram (Program.id_of_compile hcompile)
      (Program.faithful_of_compile hcompile)
    have hprovides := provides_of_compile h.assembled hcompile
    exact ⟨hnew.store (.inr rfl) (hprovides.mono (fun _ h => h) fun _ h => h) _,
      Lasting.trans (countProgram_heeds m) (heeds_store _ hstale)⟩
  | failed hstale hnone hsame =>
    refine ⟨fun program m' hdone => (by cases hdone), fun e m' hfailed => ?_⟩
    cases hfailed
    rcases hsame with rfl | rfl
    · exact ⟨h, Lasting.refl _⟩
    · exact StaysOrderly.of_same rfl (fun _ => rfl) rfl rfl (Nat.le_succ _) (fun _ hid => hid) h

/-- Putting a context of a held program into the background. -/
theorem addBackground_staysOrderly (m : Machine) {context : Context} (hheld : held context.program) :
    m.StaysOrderly held (m.addBackground context) := by
  intro h
  refine ⟨h.narrow rfl rfl rfl rfl (fun _ hmem => hmem) (fun other hmem => ?_) fun _ hother => .inr hother,
    .of_adding (fun _ h => h) (fun _ h => h) rfl (fun _ h => List.mem_append_left _ h) fun _ h => h⟩
  rcases List.mem_append.1 hmem with hold | hnew
  · exact .inl (mem_known_of_background hold)
  · rw [List.mem_singleton.1 hnew]
    exact .inr hheld

end Machine
end ScriptMachine
