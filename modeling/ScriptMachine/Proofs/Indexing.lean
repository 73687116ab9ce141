import Mathlib.Data.List.Basic
import Mathlib.Data.List.Induction
import ScriptMachine.Machine.Action
import ScriptMachine.Proofs.Resolving

/-!
# A command table with an index

A table can find its commands without going through them: an index leads from every folded name
and alias to the object of a command.  The list and the index are two copies of one relation, and
each is kept up for itself.  A registration enters the keys one by one and then lists the object;
a removal filters the list and the index by the identity of the object, not by its names.  After
any changes the two copies agree, and the table is the list of its commands.

Main results:

- {lit}`IndexedTable.register` and {lit}`IndexedTable.unregister`: the changes of the two copies.
- {lit}`IndexedTable.Agrees`: what the two copies have in common.
- {lit}`IndexedTable.register_iff` and {lit}`IndexedTable.unregister_iff`: what the changes do to
  copies that agree.
- {lit}`IndexedTable.history_faithful`: what holds of a table after any changes.
-/

namespace ScriptMachine

open Text

/-! ## Tables of objects -/

/-- A table of command objects. -/
structure IndexedTable where
  /-- The objects, in order of registration. -/
  listed : List Nat
  /-- The object of every key. -/
  index : Std.HashMap String Nat

namespace IndexedTable

/-- No objects. -/
def empty : IndexedTable := ⟨[], ∅⟩

/-- The object that is found under a name. -/
def lookup? (table : IndexedTable) (name : String) : Option Nat :=
  table.index[fold name]?

/-- Enters an object under a key. -/
def enter (id : Nat) (table : IndexedTable) (key : String) : IndexedTable :=
  { table with index := table.index.insert key id }

/-- Lists an object behind all others. -/
def append (id : Nat) (table : IndexedTable) : IndexedTable :=
  { table with listed := table.listed ++ [id] }

/-- Takes an object out of the list. -/
def unlist (id : Nat) (table : IndexedTable) : IndexedTable :=
  { table with listed := table.listed.filter (· != id) }

/-- Takes an object out of the index. -/
def unindex (id : Nat) (table : IndexedTable) : IndexedTable :=
  { table with index := table.index.filter fun _ other => other != id }

/-- Removes the object that is found under a name from both copies. -/
def unregister (name : String) : Action IndexedTable CommandError Nat := do
  let table ← Action.get
  match table.lookup? name with
  | none => Action.fail (.notRegistered name)
  | some id =>
    Action.change (unlist id)
    Action.change (unindex id)
    return id

/-- A change of a table. -/
inductive Change where
  | register (id : Nat)
  | unregister (name : String)

section Changes

variable (commandOf : Nat → Command)

/-- Adds an object under the keys of its command, unless one of them is taken. -/
def register (id : Nat) : Action IndexedTable CommandError Unit := do
  let keys := (commandOf id).signature.keys
  let table ← Action.get
  match keys.find? table.index.contains with
  | some key => Action.fail (.duplicate key)
  | none =>
    Action.change fun table => keys.foldl (enter id) table
    Action.change (append id)

/-- Makes a change and answers with the object that it is about. -/
def make : Change → Action IndexedTable CommandError Nat
  | .register id => do
    register commandOf id
    return id
  | .unregister name => unregister name

/-- The table behind a change, whether it was refused or not. -/
def change (table : IndexedTable) (change : Change) : IndexedTable :=
  match make commandOf change table with
  | .done _ table => table
  | .failed _ table => table
  | .exhausted => table

/-- The table behind a sequence of changes, at first without objects. -/
def history (changes : List Change) : IndexedTable :=
  changes.foldl (change commandOf) empty

/-- The table without its index. -/
def plain (table : IndexedTable) : CommandTable :=
  ⟨table.listed.map commandOf⟩

end Changes

/-! ## Agreement -/

variable {commandOf : Nat → Command} {table : IndexedTable}

/-- The list and the index agree. -/
structure Agrees (commandOf : Nat → Command) (table : IndexedTable) : Prop where
  /-- No object is listed twice. -/
  nodup : table.listed.Nodup
  /-- A key leads to the listed object that has it. -/
  index : ∀ key id,
    table.index[key]? = some id ↔ id ∈ table.listed ∧ key ∈ (commandOf id).signature.keys

/-- Keys are folded already. -/
theorem fold_of_mem_keys {signature : Signature} {key : String} (h : key ∈ signature.keys) :
    fold key = key := by
  rcases List.mem_map.1 h with ⟨name, -, rfl⟩
  exact fold_fold name

/-- A command answers to its keys. -/
theorem answersTo_iff_mem {signature : Signature} {name : String} :
    signature.answersTo name = true ↔ fold name ∈ signature.keys :=
  List.contains_iff_mem

theorem agrees_empty : empty.Agrees commandOf where
  nodup := List.nodup_nil
  index key id := by simp [empty]

namespace Agrees

variable (h : table.Agrees commandOf)
include h

/-- A name finds the listed object that answers to it. -/
theorem lookup?_iff (name : String) (id : Nat) : table.lookup? name = some id ↔
    id ∈ table.listed ∧ (commandOf id).signature.answersTo name = true := by
  rw [answersTo_iff_mem]
  exact h.index (fold name) id

/-- Listed objects that share a key are the same. -/
theorem eq_of_key {first second : Nat} {key : String} (hfirst : first ∈ table.listed)
    (hsecond : second ∈ table.listed) (hkey : key ∈ (commandOf first).signature.keys)
    (hkey' : key ∈ (commandOf second).signature.keys) : first = second := by
  have hleads := (h.index key first).2 ⟨hfirst, hkey⟩
  rw [(h.index key second).2 ⟨hsecond, hkey'⟩] at hleads
  exact (Option.some.inj hleads).symm

/-- Next to a listed object that answers to a name, no other listed object does. -/
theorem answersTo_eq {id other : Nat} {name : String} (hlisted : id ∈ table.listed)
    (hanswers : (commandOf id).signature.answersTo name = true) (hother : other ∈ table.listed) :
    (commandOf other).signature.answersTo name = (other == id) := by
  rw [Bool.eq_iff_iff, beq_iff_eq]
  constructor
  · intro hanswers'
    exact h.eq_of_key hother hlisted (answersTo_iff_mem.1 hanswers') (answersTo_iff_mem.1 hanswers)
  · rintro rfl
    exact hanswers

/-- No two listed objects share a key. -/
theorem distinct : table.listed.Pairwise fun first second =>
    ∀ key ∈ (commandOf first).signature.keys, key ∉ (commandOf second).signature.keys := by
  refine h.nodup.imp_of_mem fun hfirst hsecond hne key hkey hkey' => ?_
  exact hne (h.eq_of_key hfirst hsecond hkey hkey')

/-- A key is in the index exactly when a listed object has it. -/
theorem contains_iff (key : String) : table.index.contains key = true ↔
    ∃ id ∈ table.listed, key ∈ (commandOf id).signature.keys := by
  rw [Std.HashMap.contains_eq_isSome_getElem?, Option.isSome_iff_exists]
  exact exists_congr fun id => h.index key id

/-- The index knows a key exactly when the plain table does. -/
theorem contains_plain {key : String} (hfolded : fold key = key) :
    (table.plain commandOf).contains key = table.index.contains key := by
  rw [Bool.eq_iff_iff, h.contains_iff]
  unfold CommandTable.contains CommandTable.lookup? plain
  simp only [List.find?_isSome, List.mem_map, exists_exists_and_eq_and, answersTo_iff_mem, hfolded]

end Agrees

/-! ## Registration -/

/-- Entering keys leads each of them to the object and leaves the others alone. -/
theorem foldl_enter (id : Nat) (keys : List String) (table : IndexedTable) :
    (keys.foldl (enter id) table).listed = table.listed ∧ ∀ key,
      (keys.foldl (enter id) table).index[key]? =
        if key ∈ keys then some id else table.index[key]? := by
  induction keys generalizing table with
  | nil => simp
  | cons first rest ih =>
    rcases ih (table.enter id first) with ⟨hlisted, hindex⟩
    refine ⟨hlisted, fun key => ?_⟩
    rw [List.foldl_cons, hindex]
    simp only [enter, Std.HashMap.getElem?_insert, beq_iff_eq, List.mem_cons]
    by_cases hrest : key ∈ rest
    · simp [hrest]
    · simp [hrest, eq_comm]

/-- A table behind the registration of an object. -/
structure Joins (commandOf : Nat → Command) (id : Nat) (table table' : IndexedTable) : Prop where
  listed : table'.listed = table.listed ++ [id]
  index : ∀ key, table'.index[key]? =
    if key ∈ (commandOf id).signature.keys then some id else table.index[key]?

/-- An object whose keys are free joins the table; for any other, the first key that is taken is
named and the table stays as it is. -/
theorem Agrees.register_iff (h : table.Agrees commandOf) (id : Nat) :
    (∀ key ∈ (commandOf id).signature.keys, ∀ other ∈ table.listed,
        key ∉ (commandOf other).signature.keys) ∧
      (∃ table', register commandOf id table = .done () table' ∧ table.Joins commandOf id table') ∨
    ∃ key ∈ (commandOf id).signature.keys,
      (∃ other ∈ table.listed, key ∈ (commandOf other).signature.keys) ∧
      register commandOf id table = .failed (.duplicate key) table := by
  cases hfind : (commandOf id).signature.keys.find? table.index.contains with
  | none =>
    refine .inl ⟨fun key hkey other hother hshared => ?_,
      ((commandOf id).signature.keys.foldl (enter id) table).append id, ?_, ?_⟩
    · exact List.find?_eq_none.1 hfind key hkey ((h.contains_iff key).2 ⟨other, hother, hshared⟩)
    · simp [register, Action.bind_run, hfind]
    · rcases foldl_enter id (commandOf id).signature.keys table with ⟨hlisted, hindex⟩
      exact ⟨congrArg (· ++ [id]) hlisted, hindex⟩
  | some key =>
    refine .inr ⟨key, List.mem_of_find?_eq_some hfind, ?_, ?_⟩
    · exact (h.contains_iff key).1 (List.find?_some hfind)
    · simp [register, Action.bind_run, hfind]

/-- The copies of a table that an object with free keys has joined agree. -/
theorem Agrees.joins {id : Nat} {table' : IndexedTable} (h : table.Agrees commandOf)
    (hfree : ∀ key ∈ (commandOf id).signature.keys, ∀ other ∈ table.listed,
      key ∉ (commandOf other).signature.keys)
    (hjoins : table.Joins commandOf id table') : table'.Agrees commandOf := by
  -- The object has a key, for it has a name, so it is not listed yet.
  have hname : fold (commandOf id).signature.name ∈ (commandOf id).signature.keys :=
    List.mem_map_of_mem (List.mem_cons_self ..)
  have hnew : id ∉ table.listed := fun hlisted => hfree _ hname id hlisted hname
  constructor
  · rw [hjoins.listed]
    refine List.nodup_append.2 ⟨h.nodup, List.pairwise_singleton .., ?_⟩
    intro other hother added hadded
    rw [List.mem_singleton.1 hadded]
    rintro rfl
    exact hnew hother
  · intro key other
    rw [hjoins.index, hjoins.listed, List.mem_append, List.mem_singleton]
    by_cases hkey : key ∈ (commandOf id).signature.keys
    · rw [if_pos hkey, Option.some_inj]
      constructor
      · rintro rfl
        exact ⟨.inr rfl, hkey⟩
      · rintro ⟨hlisted | rfl, hshared⟩
        · exact absurd hshared (hfree key hkey other hlisted)
        · rfl
    · rw [if_neg hkey, h.index]
      constructor
      · rintro ⟨hlisted, hshared⟩
        exact ⟨.inl hlisted, hshared⟩
      · rintro ⟨hlisted | rfl, hshared⟩
        · exact ⟨hlisted, hshared⟩
        · exact absurd hshared hkey

/-! ## Removal -/

/-- A table behind the removal of an object. -/
structure Parts (commandOf : Nat → Command) (id : Nat) (table table' : IndexedTable) : Prop where
  listed : table'.listed = table.listed.erase id
  index : ∀ key, table'.index[key]? =
    if key ∈ (commandOf id).signature.keys then none else table.index[key]?

/-- A removal takes both keys of the object that answers to the name, and no other key; without
such an object the table stays as it is. -/
theorem Agrees.unregister_iff (h : table.Agrees commandOf) (name : String) :
    (∃ id ∈ table.listed, (commandOf id).signature.answersTo name = true ∧
      ∃ table', unregister name table = .done id table' ∧ table.Parts commandOf id table') ∨
    (∀ id ∈ table.listed, (commandOf id).signature.answersTo name = false) ∧
      unregister name table = .failed (.notRegistered name) table := by
  cases hlookup : table.lookup? name with
  | none =>
    refine .inr ⟨fun id hlisted => ?_, by simp [unregister, Action.bind_run, hlookup]⟩
    rw [Bool.eq_false_iff]
    intro hanswers
    rw [(h.lookup?_iff name id).2 ⟨hlisted, hanswers⟩] at hlookup
    cases hlookup
  | some id =>
    rcases (h.lookup?_iff name id).1 hlookup with ⟨hlisted, hanswers⟩
    refine .inl ⟨id, hlisted, hanswers, (table.unlist id).unindex id, ?_, ?_, fun key => ?_⟩
    · simp only [unregister, Action.bind_run, Action.get_run, hlookup]
      rfl
    · exact (h.nodup.erase_eq_filter id).symm
    · show (table.index.filter fun _ other => other != id)[key]? = _
      rw [Std.HashMap.getElem?_filter']
      cases hleads : table.index[key]? with
      | none => simp
      | some other =>
        rcases (h.index key other).1 hleads with ⟨hother, hkey⟩
        by_cases hsame : other = id
        · subst hsame
          simp [hkey]
        · -- Another listed object has the key, so the removed one has not.
          have hapart : key ∉ (commandOf id).signature.keys :=
            fun hkey' => hsame (h.eq_of_key hother hlisted hkey hkey')
          simp [hsame, hapart]

/-- The copies of a table that an object has parted from agree. -/
theorem Agrees.parts {id : Nat} {table' : IndexedTable} (h : table.Agrees commandOf)
    (hlisted : id ∈ table.listed) (hparts : table.Parts commandOf id table') :
    table'.Agrees commandOf := by
  constructor
  · rw [hparts.listed]
    exact h.nodup.erase id
  · intro key other
    rw [hparts.index, hparts.listed, h.nodup.mem_erase_iff]
    by_cases hkey : key ∈ (commandOf id).signature.keys
    · simp only [if_pos hkey, reduceCtorEq, false_iff]
      rintro ⟨⟨hne, hother⟩, hshared⟩
      exact hne (h.eq_of_key hother hlisted hshared hkey)
    · rw [if_neg hkey, h.index, and_assoc]
      refine ⟨fun ⟨hother, hshared⟩ => ⟨?_, hother, hshared⟩, And.right⟩
      rintro rfl
      exact hkey hshared

/-! ## The table without its index -/

namespace Agrees

variable (h : table.Agrees commandOf)
include h

/-- Going through the list finds what the index finds. -/
theorem find?_listed (name : String) :
    table.listed.find? (fun id => (commandOf id).signature.answersTo name) =
      table.lookup? name := by
  cases hlookup : table.lookup? name with
  | none =>
    refine List.find?_eq_none.2 fun id hlisted hanswers => ?_
    rw [(h.lookup?_iff name id).2 ⟨hlisted, hanswers⟩] at hlookup
    cases hlookup
  | some id =>
    rcases (h.lookup?_iff name id).1 hlookup with ⟨hlisted, hanswers⟩
    have hsome : (table.listed.find?
        fun id => (commandOf id).signature.answersTo name).isSome = true :=
      List.find?_isSome.2 ⟨id, hlisted, hanswers⟩
    rcases Option.isSome_iff_exists.1 hsome with ⟨other, hother⟩
    have hfound := (h.lookup?_iff name other).2
      ⟨List.mem_of_find?_eq_some hother, by simpa using List.find?_some hother⟩
    rw [hother, ← hfound, hlookup]

/-- The plain table finds the command of the object that is found. -/
theorem lookup?_plain (name : String) :
    (table.plain commandOf).lookup? name = (table.lookup? name).map commandOf := by
  rw [← h.find?_listed name]
  exact List.find?_map

/-- The plain table names the same key of a command as taken. -/
theorem find?_keys (id : Nat) :
    (commandOf id).signature.keys.find? (table.plain commandOf).contains =
      (commandOf id).signature.keys.find? table.index.contains := by
  rw [← List.head?_filter, ← List.head?_filter]
  refine congrArg List.head? (List.filter_congr fun key hkey => ?_)
  exact h.contains_plain (fold_of_mem_keys hkey)

/-- The plain table refuses the same registrations for the same key, and otherwise lists the
command. -/
theorem register_plain (id : Nat) :
    (∃ table', register commandOf id table = .done () table' ∧
      (table.plain commandOf).register (commandOf id) = .ok (table'.plain commandOf)) ∨
    ∃ key, register commandOf id table = .failed (.duplicate key) table ∧
      (table.plain commandOf).register (commandOf id) = .error (.duplicate key) := by
  unfold CommandTable.register
  rw [h.find?_keys]
  cases hfind : (commandOf id).signature.keys.find? table.index.contains with
  | none =>
    rcases foldl_enter id (commandOf id).signature.keys table with ⟨hlisted, -⟩
    refine .inl ⟨((commandOf id).signature.keys.foldl (enter id) table).append id, ?_, ?_⟩
    · simp [register, Action.bind_run, hfind]
    · simp [plain, append, hlisted]
  | some key => exact .inr ⟨key, by simp [register, Action.bind_run, hfind], rfl⟩

/-- The plain table refuses the same removals, and otherwise answers with the command of the
object. -/
theorem unregister_plain (name : String) :
    (∃ id table', unregister name table = .done id table' ∧
      (table.plain commandOf).unregister name = .ok (commandOf id, table'.plain commandOf)) ∨
    unregister name table = .failed (.notRegistered name) table ∧
      (table.plain commandOf).unregister name = .error (.notRegistered name) := by
  unfold CommandTable.unregister
  rw [h.lookup?_plain]
  cases hlookup : table.lookup? name with
  | none => exact .inr ⟨by simp [unregister, Action.bind_run, hlookup], rfl⟩
  | some id =>
    rcases (h.lookup?_iff name id).1 hlookup with ⟨hlisted, -⟩
    refine .inl ⟨id, (table.unlist id).unindex id, ?_, ?_⟩
    · simp only [unregister, Action.bind_run, Action.get_run, hlookup]
      rfl
    · -- Only the object itself answers to the name of its command.
      have hkey : fold (commandOf id).signature.name ∈ (commandOf id).signature.keys :=
        List.mem_map_of_mem (List.mem_cons_self ..)
      have hothers : ∀ other ∈ table.listed,
          (!(commandOf other).signature.answersTo (commandOf id).signature.name) = (other != id) :=
        fun other hother => congrArg (!·) (h.answersTo_eq hlisted (answersTo_iff_mem.2 hkey) hother)
      simp only [Option.map_some, plain, unlist, unindex, List.filter_map]
      rw [← List.filter_congr hothers]
      rfl

end Agrees

/-! ## Any changes -/

/-- The table behind one more change. -/
theorem history_append (commandOf : Nat → Command) (changes : List Change) (last : Change) :
    history commandOf (changes ++ [last]) = change commandOf (history commandOf changes) last := by
  simp [history]

/-- The registration of an object at a date was accepted, and no later change removes a command by
a name to which the object answers. -/
def Remains (commandOf : Nat → Command) (changes : List Change) (date id : Nat) : Prop :=
  changes[date]? = some (.register id) ∧
  (∃ table', register commandOf id (history commandOf (changes.take date)) = .done () table') ∧
  ∀ later name, date < later → changes[later]? = some (.unregister name) →
    (commandOf id).signature.answersTo name = false

/-- What remains behind one more change: what remained before, unless the change removes it, and
what the change adds. -/
theorem remains_append {changes : List Change} {last : Change} {date id : Nat} :
    Remains commandOf (changes ++ [last]) date id ↔
      (Remains commandOf changes date id ∧
        ∀ name, last = .unregister name → (commandOf id).signature.answersTo name = false) ∨
      (date = changes.length ∧ last = .register id ∧
        ∃ table', register commandOf id (history commandOf changes) = .done () table') := by
  have hlast : (changes ++ [last])[changes.length]? = some last := by simp
  have hbefore {other : Nat} (hlt : other < changes.length) :
      (changes ++ [last])[other]? = changes[other]? := List.getElem?_append_left hlt
  have htake {other : Nat} (hle : other ≤ changes.length) :
      (changes ++ [last]).take other = changes.take other := List.take_append_of_le_length hle
  constructor
  · rintro ⟨hdate, haccepted, hlater⟩
    rcases Nat.lt_trichotomy date changes.length with hlt | rfl | hgt
    · rw [hbefore hlt] at hdate
      rw [htake (Nat.le_of_lt hlt)] at haccepted
      refine .inl ⟨⟨hdate, haccepted, fun later name hlt' hname => ?_⟩, fun name hname => ?_⟩
      · have hinside := (List.getElem?_eq_some_iff.1 hname).1
        exact hlater later name hlt' (by rw [hbefore hinside, hname])
      · exact hlater _ name hlt (by rw [hlast, hname])
    · rw [hlast, Option.some_inj] at hdate
      rw [htake (Nat.le_refl _), List.take_length] at haccepted
      exact .inr ⟨rfl, hdate, haccepted⟩
    · have hbound := (List.getElem?_eq_some_iff.1 hdate).1
      simp at hbound
      omega
  · rintro (⟨⟨hdate, haccepted, hlater⟩, hkept⟩ | ⟨rfl, rfl, haccepted⟩)
    · have hlt := (List.getElem?_eq_some_iff.1 hdate).1
      refine ⟨by rw [hbefore hlt, hdate], by rwa [htake (Nat.le_of_lt hlt)],
        fun later name hlt' hname => ?_⟩
      rcases Nat.lt_trichotomy later changes.length with hinside | rfl | hgt
      · exact hlater later name hlt' (by rw [← hbefore hinside, hname])
      · exact hkept name (by simpa using hname)
      · have hbound := (List.getElem?_eq_some_iff.1 hname).1
        simp at hbound
        omega
    · refine ⟨hlast, by rwa [htake (Nat.le_refl _), List.take_length], ?_⟩
      intro later name hlt hname
      have hbound := (List.getElem?_eq_some_iff.1 hname).1
      simp at hbound
      omega

/-- The list is that of the registrations that remain, in order of their dates. -/
def Ordered (commandOf : Nat → Command) (changes : List Change) (table : IndexedTable) : Prop :=
  ∃ dated : List (Nat × Nat), dated.map Prod.snd = table.listed ∧
    dated.Pairwise (fun first second => first.1 < second.1) ∧
    ∀ date id, (date, id) ∈ dated ↔ Remains commandOf changes date id

/-- The change of a table without an index, refused or not. -/
def plainChange (commandOf : Nat → Command) (table : CommandTable) : Change → CommandTable
  | .register id => (table.register (commandOf id)).toOption.getD table
  | .unregister name => ((table.unregister name).toOption.map Prod.snd).getD table

/-- What holds of a table behind changes that are known. -/
structure Follows (commandOf : Nat → Command) (changes : List Change) (table : IndexedTable) :
    Prop where
  agrees : table.Agrees commandOf
  ordered : table.Ordered commandOf changes
  plain : changes.foldl (plainChange commandOf) .empty = table.plain commandOf

section Step

variable {changes : List Change} {dated : List (Nat × Nat)}

/-- An accepted registration remains behind all others. -/
theorem Ordered.joins {id : Nat} {table' : IndexedTable}
    (h : (history commandOf changes).Ordered commandOf changes)
    (hdone : register commandOf id (history commandOf changes) = .done () table')
    (hjoins : (history commandOf changes).Joins commandOf id table') :
    table'.Ordered commandOf (changes ++ [.register id]) := by
  rcases h with ⟨dated, hlisted, hsorted, hdated⟩
  refine ⟨dated ++ [(changes.length, id)], ?_, ?_, fun date other => ?_⟩
  · rw [hjoins.listed, List.map_append, hlisted]
    rfl
  · refine List.pairwise_append.2 ⟨hsorted, List.pairwise_singleton .., ?_⟩
    intro first hfirst last hlast
    rw [List.mem_singleton.1 hlast]
    exact (List.getElem?_eq_some_iff.1 ((hdated first.1 first.2).1 hfirst).1).1
  · rw [remains_append, List.mem_append, List.mem_singleton, hdated]
    refine or_congr (by simp) ⟨?_, ?_⟩
    · rintro ⟨rfl, rfl⟩
      exact ⟨rfl, rfl, table', hdone⟩
    · rintro ⟨rfl, hid, -⟩
      cases hid
      rfl

/-- Refused registrations do not remain. -/
theorem Ordered.refused {id : Nat} {e : CommandError} {table : IndexedTable}
    (h : (history commandOf changes).Ordered commandOf changes)
    (hfailed : register commandOf id (history commandOf changes) = .failed e table) :
    (history commandOf changes).Ordered commandOf (changes ++ [.register id]) := by
  rcases h with ⟨dated, hlisted, hsorted, hdated⟩
  refine ⟨dated, hlisted, hsorted, fun date other => ?_⟩
  rw [remains_append, hdated]
  refine ⟨fun hremains => .inl ⟨hremains, by simp⟩, ?_⟩
  rintro (⟨hremains, -⟩ | ⟨-, hid, table', hdone⟩)
  · exact hremains
  · cases hid
    rw [hfailed] at hdone
    cases hdone

/-- A removal takes the registrations of objects that answer to the name. -/
theorem Ordered.removed {name : String} {table' : IndexedTable}
    (h : (history commandOf changes).Ordered commandOf changes)
    (hlisted' : table'.listed = (history commandOf changes).listed.filter fun id =>
      !(commandOf id).signature.answersTo name) :
    table'.Ordered commandOf (changes ++ [.unregister name]) := by
  rcases h with ⟨dated, hlisted, hsorted, hdated⟩
  refine ⟨dated.filter fun entry => !(commandOf entry.2).signature.answersTo name, ?_,
    hsorted.filter _, fun date other => ?_⟩
  · rw [hlisted', ← hlisted, List.filter_map]
    rfl
  · rw [remains_append, List.mem_filter, hdated]
    simp

/-- One more change, from a table behind all others. -/
theorem Follows.step (h : (history commandOf changes).Follows commandOf changes) (last : Change) :
    (history commandOf (changes ++ [last])).Follows commandOf (changes ++ [last]) := by
  rcases h with ⟨hagrees, hordered, hplain⟩
  rw [history_append]
  cases last with
  | register id =>
    have hsame := hagrees.register_plain id
    rcases hagrees.register_iff id with ⟨hfree, table', hdone, hjoins⟩ | ⟨key, -, -, hfailed⟩
    · have hchange : change commandOf (history commandOf changes) (.register id) = table' := by
        simp [change, make, Action.bind_run, hdone]
      rw [hchange]
      refine ⟨hagrees.joins hfree hjoins, hordered.joins hdone hjoins, ?_⟩
      rcases hsame with ⟨table'', hdone', hregister⟩ | ⟨key, hfailed, -⟩
      · rw [hdone] at hdone'
        cases hdone'
        rw [List.foldl_append, hplain]
        simp [plainChange, hregister, Except.toOption]
      · rw [hdone] at hfailed
        cases hfailed
    · have hchange : change commandOf (history commandOf changes) (.register id) =
          history commandOf changes := by
        simp [change, make, Action.bind_run, hfailed]
      rw [hchange]
      refine ⟨hagrees, hordered.refused hfailed, ?_⟩
      rcases hsame with ⟨table', hdone, -⟩ | ⟨key', -, hregister⟩
      · rw [hfailed] at hdone
        cases hdone
      · rw [List.foldl_append, hplain]
        simp [plainChange, hregister, Except.toOption]
  | unregister name =>
    have hsame := hagrees.unregister_plain name
    rcases hagrees.unregister_iff name with
      ⟨id, hlisted, hanswers, table', hdone, hparts⟩ | ⟨hnone, hfailed⟩
    · have hchange : change commandOf (history commandOf changes) (.unregister name) = table' := by
        simp [change, make, hdone]
      rw [hchange]
      refine ⟨hagrees.parts hlisted hparts, hordered.removed ?_, ?_⟩
      · rw [hparts.listed, hagrees.nodup.erase_eq_filter]
        refine List.filter_congr fun other hother => ?_
        rw [hagrees.answersTo_eq hlisted hanswers hother]
        rfl
      · rcases hsame with ⟨id', table'', hdone', hunregister⟩ | ⟨hfailed, -⟩
        · rw [hdone] at hdone'
          cases hdone'
          rw [List.foldl_append, hplain]
          simp [plainChange, hunregister, Except.toOption]
        · rw [hdone] at hfailed
          cases hfailed
    · have hchange : change commandOf (history commandOf changes) (.unregister name) =
          history commandOf changes := by
        simp [change, make, hfailed]
      rw [hchange]
      refine ⟨hagrees, hordered.removed ?_, ?_⟩
      · refine (List.filter_eq_self.2 fun id hlisted => ?_).symm
        rw [hnone id hlisted]
        rfl
      · rcases hsame with ⟨id', table'', hdone', -⟩ | ⟨-, hunregister⟩
        · rw [hfailed] at hdone'
          cases hdone'
        · rw [List.foldl_append, hplain]
          simp [plainChange, hunregister, Except.toOption]

end Step

/-- A table behind any changes follows them. -/
theorem follows (commandOf : Nat → Command) (changes : List Change) :
    (history commandOf changes).Follows commandOf changes := by
  induction changes using List.reverseRecOn with
  | nil =>
    refine ⟨agrees_empty, ⟨[], rfl, List.Pairwise.nil, fun date id => ?_⟩, rfl⟩
    simp [Remains]
  | append_singleton changes last ih => exact ih.step last

/-- What holds of a table behind changes that are known.  The keys of a command are its folded name
and alias. -/
structure Faithful (commandOf : Nat → Command) (changes : List Change) (table : IndexedTable) :
    Prop where
  /-- No two entries of the list share a name or an alias. -/
  distinct : table.listed.Pairwise fun first second =>
    ∀ key ∈ (commandOf first).signature.keys, key ∉ (commandOf second).signature.keys
  /-- A name finds the listed object that answers to it, and nothing if there is none. -/
  found : ∀ name id, table.lookup? name = some id ↔
    id ∈ table.listed ∧ (commandOf id).signature.answersTo name = true
  /-- The list is that of the registrations that remain, in their order. -/
  ordered : table.Ordered commandOf changes
  /-- A registration is accepted when none of its keys is taken; then its keys lead to the object
  and all others where they led before.  Otherwise it is rejected for a key that is taken, and
  nothing changes. -/
  registered : ∀ id,
    (∀ key ∈ (commandOf id).signature.keys, ∀ other ∈ table.listed,
        key ∉ (commandOf other).signature.keys) ∧
      (∃ table', register commandOf id table = .done () table' ∧ table.Joins commandOf id table') ∨
    ∃ key ∈ (commandOf id).signature.keys,
      (∃ other ∈ table.listed, key ∈ (commandOf other).signature.keys) ∧
      register commandOf id table = .failed (.duplicate key) table
  /-- A removal by a name or an alias takes the object that answers to it, with its keys, and leaves
  all other objects and keys.  Without such an object nothing changes. -/
  unregistered : ∀ name,
    (∃ id ∈ table.listed, (commandOf id).signature.answersTo name = true ∧
      ∃ table', unregister name table = .done id table' ∧ table.Parts commandOf id table') ∨
    (∀ id ∈ table.listed, (commandOf id).signature.answersTo name = false) ∧
      unregister name table = .failed (.notRegistered name) table
  /-- Without the index, the same changes lead to the same list of commands. -/
  plain : changes.foldl (plainChange commandOf) .empty = table.plain commandOf

/-- After any registrations and removals, accepted or not, the list and the index of a table say the
same, in order of the registrations that remain, and each further change is made to both or to
neither. -/
theorem history_faithful (commandOf : Nat → Command) (changes : List Change) :
    (history commandOf changes).Faithful commandOf changes := by
  rcases follows commandOf changes with ⟨hagrees, hordered, hplain⟩
  exact
    { distinct := hagrees.distinct
      found := hagrees.lookup?_iff
      ordered := hordered
      registered := hagrees.register_iff
      unregistered := hagrees.unregister_iff
      plain := hplain }

end IndexedTable
end ScriptMachine
