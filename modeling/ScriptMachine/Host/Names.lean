/-!
# Names for things that a host holds

A host keeps programs, contexts and values under names of its own.  A name holds one thing
at a time, and putting another thing under it lets go of the first.

Main results:

- {lit}`Names.get?_set`: what is put under a name is found there.
- {lit}`Names.get?_drop`: a dropped name holds nothing.
- {lit}`Names.mem_held_set`: nothing but what is put under a name comes to be held.
- {lit}`Names.Tidy.held_perm`: what is held is what a name holds, and the rest.
-/

namespace ScriptMachine

/-- Things by name. -/
structure Names (α : Type) where
  entries : List (String × α)

namespace Names

variable {α : Type}

/-- No names. -/
def empty : Names α := ⟨[]⟩

/-- What a name holds. -/
def get? (names : Names α) (name : String) : Option α :=
  (names.entries.find? fun entry => entry.1 == name).map Prod.snd

/-- Forgets a name. -/
def drop (names : Names α) (name : String) : Names α :=
  ⟨names.entries.filter fun entry => !(entry.1 == name)⟩

/-- Puts something under a name. -/
def set (names : Names α) (name : String) (x : α) : Names α :=
  ⟨(name, x) :: (names.drop name).entries⟩

/-- Everything that is held. -/
def held (names : Names α) : List α :=
  names.entries.map Prod.snd

/-- What is put under a name is found there. -/
theorem get?_set (names : Names α) (name : String) (x : α) :
    (names.set name x).get? name = some x := by
  simp [get?, set]

/-- Other names keep what they hold. -/
theorem get?_set_ne (names : Names α) (name other : String) (x : α) (h : other ≠ name) :
    (names.set name x).get? other = names.get? other := by
  have hne : (name == other) = false := by simpa using fun heq => h heq.symm
  simp only [get?, set, drop, List.find?_cons, hne, List.find?_filter]
  congr 2
  funext entry
  by_cases hentry : entry.1 = other <;> simp [hentry, h]

/-- A dropped name holds nothing. -/
theorem get?_drop (names : Names α) (name : String) : (names.drop name).get? name = none := by
  simp [get?, drop, List.find?_filter]

/-- Another name is not forgotten. -/
theorem get?_drop_ne (names : Names α) {name other : String} (h : other ≠ name) :
    (names.drop name).get? other = names.get? other := by
  simp only [get?, drop, List.find?_filter]
  congr 2
  funext entry
  by_cases hentry : entry.1 = other <;> simp [hentry, h]

/-- What a name holds is held. -/
theorem mem_held_of_get? {names : Names α} {name : String} {x : α}
    (h : names.get? name = some x) : x ∈ names.held := by
  rcases Option.map_eq_some_iff.1 h with ⟨entry, hfound, rfl⟩
  exact List.mem_map_of_mem (List.mem_of_find?_eq_some hfound)

/-- What is held once a name is forgotten was held before. -/
theorem mem_held_drop {names : Names α} {name : String} {x : α}
    (h : x ∈ (names.drop name).held) : x ∈ names.held := by
  rcases List.mem_map.1 h with ⟨entry, hmem, rfl⟩
  exact List.mem_map_of_mem (List.mem_filter.1 hmem).1

/-- Nothing but what is put under a name comes to be held. -/
theorem mem_held_set {names : Names α} {name : String} {x y : α}
    (h : y ∈ (names.set name x).held) : y = x ∨ y ∈ names.held := by
  rcases List.mem_cons.1 h with rfl | hmem
  · exact .inl rfl
  · exact .inr (mem_held_drop hmem)

/-! ## Tidy names -/

section Tidy

variable {names : Names α} {name : String} {x : α}

/-- No name is there twice. -/
def Tidy (names : Names α) : Prop :=
  (names.entries.map Prod.fst).Nodup

theorem Tidy.drop (h : names.Tidy) (name : String) : (names.drop name).Tidy :=
  h.sublist (List.filter_sublist.map Prod.fst)

theorem Tidy.set (h : names.Tidy) (name : String) (x : α) : (names.set name x).Tidy := by
  refine List.nodup_cons.2 ⟨fun hmem => ?_, h.drop name⟩
  rcases List.mem_map.1 hmem with ⟨entry, hentry, hname⟩
  simpa [hname] using (List.mem_filter.1 hentry).2

/-- What is held is what a name holds, and the rest. -/
theorem Tidy.held_perm (h : names.Tidy) (hget : names.get? name = some x) :
    names.held.Perm (x :: (names.drop name).held) := by
  rcases names with ⟨entries⟩
  unfold Tidy at h
  unfold get? at hget
  simp only [held, Names.drop] at h hget ⊢
  induction entries with
  | nil => cases hget
  | cons entry rest ih =>
    rcases List.nodup_cons.1 h with ⟨hfirst, hrest⟩
    by_cases hname : entry.1 = name
    · -- Behind the entry nothing has its name.
      have hothers : rest.filter (fun other => !(other.1 == name)) = rest := by
        refine List.filter_eq_self.2 fun other hother => ?_
        have hne : other.1 ≠ name := fun heq => hfirst (by
          rw [hname, ← heq]
          exact List.mem_map_of_mem hother)
        simpa using hne
      simp only [List.find?_cons, beq_iff_eq.2 hname, Option.map_some, Option.some.injEq] at hget
      simp [hname, hothers, hget]
    · have hkept : ((entry :: rest).filter fun other => !(other.1 == name)) =
          entry :: rest.filter fun other => !(other.1 == name) := by
        simp [hname]
      have hfound := ih hrest (by simpa [List.find?_cons, hname] using hget)
      rw [hkept, List.map_cons, List.map_cons]
      exact (hfound.cons entry.2).trans (.swap ..)

/-- Forgetting a name that holds nothing changes nothing. -/
theorem drop_of_get?_eq_none (h : names.get? name = none) : names.drop name = names := by
  unfold get? at h
  rw [Option.map_eq_none_iff, List.find?_eq_none] at h
  rcases names with ⟨entries⟩
  simp only [Names.drop, Names.mk.injEq]
  exact List.filter_eq_self.2 fun entry hmem => by simpa using h entry hmem

end Tidy

end Names
end ScriptMachine
