import Mathlib.Data.List.SplitBy
import ScriptMachine.Proofs.Blanking
import ScriptMachine.Proofs.Declaring

/-!
# Groups of physical lines

The physical lines of a source fall into groups: every line of a group but its last goes on in the
next one, and only the last group of all may end in a line that goes on.  There is one way to group
them.  The logical lines are these groups, each joined under the number of its first line, without
those that are blank then.  The numbers of the logical lines ascend, so no two of them share one.

What is left of a line behind its comment does not depend on the grammar.  An expression holds no
comment, and behind an expression every comment is found.

Main results:

- {lit}`Source.isGrouping_iff`: the one grouping of physical lines.
- {lit}`Source.IsGrouping.foldContinuations_eq`: lines are joined group by group.
- {lit}`Source.logicalLines_grouped`: the logical lines of every source.
- {lit}`Source.clean_remarked`: expressions with comments behind them.
-/

namespace ScriptMachine
namespace Source

open Text

/-! ## Groups of lines -/

/-- Lines in groups.  Every line of a group but its last goes on in the next line, and the last line
of every group but the last group does not. -/
structure IsGrouping (physical : List Line) (groups : List (List Line)) : Prop where
  flatten_eq : groups.flatten = physical
  ne_nil : ∀ group ∈ groups, group ≠ []
  continued : ∀ group ∈ groups, ∀ line ∈ group.dropLast, isContinued line.text = true
  finished : ∀ group ∈ groups.dropLast, ∀ line ∈ group.getLast?, isContinued line.text = false

/-- The line that a group is joined to, under the number of its first line: its lines lose their
markers, and all but the first lose their leading blanks. -/
def joinGroup : List Line → Option Line
  | [] => none
  | first :: rest =>
    some { first with
      text := withoutMarker first.text ++ rest.flatMap fun line => trimStart (withoutMarker line.text) }

/-- The logical line of a group, with its shorthands expanded; none when nothing but blanks is
left. -/
def logicalLine? (group : List Line) : Option Line :=
  (joinGroup group).bind fun line =>
    if (trim line.text).isEmpty then none
    else some { line with text := expandShorthands line.text }

/-! ## The one grouping -/

/-- The groups of lines: a line starts a group unless the line in front of it goes on. -/
def groupsOf (physical : List Line) : List (List Line) :=
  physical.splitBy fun line _ => isContinued line.text

/-- In a chain whose links do not ask for the next item, all items but the last satisfy the link. -/
theorem isChain_iff_dropLast {α : Type} {p : α → Prop} {items : List α} :
    items.IsChain (fun item _ => p item) ↔ ∀ item ∈ items.dropLast, p item := by
  induction items with
  | nil => simp
  | cons first rest ih =>
    cases rest with
    | nil => simp
    | cons second others =>
      simp only [List.isChain_cons_cons, ih, List.dropLast_cons_cons, List.forall_mem_cons]

/-- Groups that are not empty are linked when no group but the last ends in a line that goes on. -/
theorem isChain_groups_iff {groups : List (List Line)} (hne : ∀ group ∈ groups, group ≠ []) :
    (groups.IsChain fun group next => ∃ ha, ∃ _ : next ≠ [],
      isContinued (group.getLast ha).text = false) ↔
      ∀ group ∈ groups.dropLast, ∀ line ∈ group.getLast?, isContinued line.text = false := by
  rw [← isChain_iff_dropLast]
  -- A next group has a first line because no group is empty.
  have hlink : ∀ group ∈ groups, ∀ next ∈ groups,
      ((∃ ha, ∃ _ : next ≠ [], isContinued (group.getLast ha).text = false) ↔
        ∀ line ∈ group.getLast?, isContinued line.text = false) := by
    intro group hgroup next hnext
    rw [List.getLast?_eq_some_getLast (hne group hgroup)]
    constructor
    · rintro ⟨ha, -, hlast⟩ line hline
      cases hline
      exact hlast
    · intro hlast
      exact ⟨hne group hgroup, hne next hnext, hlast _ rfl⟩
  clear hne
  induction groups with
  | nil => simp
  | cons first rest ih =>
    cases rest with
    | nil => simp
    | cons second others =>
      have hrest := ih fun group hgroup next hnext =>
        hlink group (List.mem_cons_of_mem _ hgroup) next (List.mem_cons_of_mem _ hnext)
      rw [List.isChain_cons_cons, List.isChain_cons_cons]
      exact and_congr (hlink first (by simp) second (by simp)) hrest

/-- Lines have one grouping. -/
theorem isGrouping_iff {physical : List Line} {groups : List (List Line)} :
    IsGrouping physical groups ↔ groups = groupsOf physical := by
  rw [eq_comm, groupsOf, List.splitBy_eq_iff]
  constructor
  · rintro ⟨hflatten, hne, hcontinued, hfinished⟩
    refine ⟨hflatten.symm, fun hnil => hne [] hnil rfl, ?_, (isChain_groups_iff hne).2 hfinished⟩
    intro group hgroup
    exact isChain_iff_dropLast.2 (hcontinued group hgroup)
  · rintro ⟨hflatten, hnil, hcontinued, hfinished⟩
    have hne : ∀ group ∈ groups, group ≠ [] := fun group hgroup hempty => hnil (hempty ▸ hgroup)
    refine ⟨hflatten.symm, hne, ?_, (isChain_groups_iff hne).1 hfinished⟩
    intro group hgroup
    exact isChain_iff_dropLast.1 (hcontinued group hgroup)

/-! ## Joining groups -/

/-- A group is joined to one line, behind an unfinished one. -/
theorem foldContinuations_group (unfinished : Option Line) {first : Line} {rest : List Line}
    (h : ∀ line ∈ (first :: rest).dropLast, isContinued line.text = true) :
    foldContinuations unfinished (first :: rest) =
      [{ joinLine unfinished first with
        text := (joinLine unfinished first).text ++
          rest.flatMap fun line => trimStart (withoutMarker line.text) }] := by
  induction rest generalizing unfinished first with
  | nil => simp [foldContinuations]
  | cons second others ih =>
    rw [List.dropLast_cons_cons, List.forall_mem_cons] at h
    rw [foldContinuations, if_pos h.1, ih _ h.2]
    simp [joinLine]

namespace IsGrouping

variable {physical : List Line} {groups : List (List Line)}

/-- The groups behind the first one group the lines behind it. -/
theorem tail {group : List Line} (h : IsGrouping physical (group :: groups)) :
    IsGrouping groups.flatten groups where
  flatten_eq := rfl
  ne_nil := fun other hother => h.ne_nil other (List.mem_cons_of_mem _ hother)
  continued := fun other hother => h.continued other (List.mem_cons_of_mem _ hother)
  finished := by
    intro other hother
    cases groups with
    | nil => cases hother
    | cons next others => exact h.finished other (List.mem_cons_of_mem _ hother)

/-- Lines are joined group by group. -/
theorem foldContinuations_eq (h : IsGrouping physical groups) :
    foldContinuations none physical = groups.filterMap joinGroup := by
  rw [← h.flatten_eq]
  induction groups generalizing physical with
  | nil => rfl
  | cons group others ih =>
    have hne : group ≠ [] := h.ne_nil group (by simp)
    have hgroup : foldContinuations none group = (joinGroup group).toList := by
      rcases List.exists_cons_of_ne_nil hne with ⟨first, rest, rfl⟩
      exact foldContinuations_group none (h.continued _ (by simp))
    have hcons : (group :: others).filterMap joinGroup =
        (joinGroup group).toList ++ others.filterMap joinGroup := by
      cases hjoin : joinGroup group <;> simp [hjoin]
    rw [hcons, ← ih h.tail, ← hgroup, List.flatten_cons]
    cases others with
    | nil => rw [List.flatten_nil, List.append_nil]; exact (List.append_nil _).symm
    | cons next behind => exact foldContinuations_append none hne (h.finished group (by simp)) _

end IsGrouping

/-! ## Logical lines -/

/-- A logical line has the number of the first line of its group. -/
theorem number_logicalLine? {group : List Line} {line : Line} (h : logicalLine? group = some line) :
    ∃ first ∈ group, first.number = line.number := by
  cases group with
  | nil => cases h
  | cons first rest =>
    rw [logicalLine?, joinGroup, Option.bind_some] at h
    split at h
    · cases h
    · cases h
      exact ⟨first, List.mem_cons_self, rfl⟩

/-- The numbers of logical lines ascend when those of the lines in their groups do. -/
theorem ascending_filterMap {groups : List (List Line)} (h : Ascending groups.flatten) :
    Ascending (groups.filterMap logicalLine?) := by
  refine List.Pairwise.filterMap _ ?_ (List.pairwise_flatten.1 h).2
  intro group next hlt line hline later hlater
  rcases number_logicalLine? hline with ⟨first, hfirst, hnumber⟩
  rcases number_logicalLine? hlater with ⟨behind, hbehind, hafter⟩
  rw [← hnumber, ← hafter]
  exact hlt first hfirst behind hbehind

/-- Lines kept by their numbers, and one more; a line with its number is overwritten. -/
def keep (kept : List Line) (line : Line) : List Line :=
  match kept with
  | [] => [line]
  | first :: rest =>
    if line.number < first.number then line :: kept
    else if line.number = first.number then line :: rest
    else first :: keep rest line

/-- A line with the greatest number is kept last. -/
theorem keep_of_lt {kept : List Line} {line : Line} (h : ∀ other ∈ kept, other.number < line.number) :
    keep kept line = kept ++ [line] := by
  induction kept with
  | nil => rfl
  | cons first rest ih =>
    rw [List.forall_mem_cons] at h
    rw [keep, if_neg (Nat.not_lt_of_gt h.1), if_neg (Nat.ne_of_gt h.1), ih h.2, List.cons_append]

/-- Lines whose numbers ascend are all kept, in their order. -/
theorem foldl_keep {kept lines : List Line} (h : Ascending (kept ++ lines)) :
    lines.foldl keep kept = kept ++ lines := by
  induction lines generalizing kept with
  | nil => exact (List.append_nil kept).symm
  | cons line rest ih =>
    have hbefore : ∀ other ∈ kept, other.number < line.number := fun other hother =>
      (List.pairwise_append.1 h).2.2 other hother line List.mem_cons_self
    rw [List.append_cons] at h ⊢
    rw [List.foldl_cons, keep_of_lt hbefore, ih h]

/-- What is left of the lines of a text, in their order. -/
theorem mem_physicalLines_iff {source : List Char} {line : Line} :
    line ∈ physicalLines source ↔ ∃ n raw, (lines source)[n]? = some raw ∧
      line = ⟨n + 1, trimEnd (beforeComment .outside raw)⟩ ∧ line.text ≠ [] := by
  constructor
  · intro hline
    rcases List.mem_filterMap.1 hline with ⟨⟨text, number⟩, hmem, hkept⟩
    simp only [List.isEmpty_iff] at hkept
    split at hkept
    · cases hkept
    · next hleft =>
      cases hkept
      rcases List.mk_mem_zipIdx_iff_le_and_getElem?_sub.1 hmem with ⟨hle, hget⟩
      rw [List.getElem?_map, Option.map_eq_some_iff] at hget
      rcases hget with ⟨raw, hraw, rfl⟩
      refine ⟨number - 1, raw, hraw, ?_, hleft⟩
      rw [Nat.sub_add_cancel hle]
      rfl
  · rintro ⟨n, raw, hraw, rfl, hleft⟩
    exact mem_physicalLines hraw hleft

/-- The logical lines of a source are its groups, joined. -/
theorem logicalLines_eq_groups {source : List Char} {groups : List (List Line)}
    (h : IsGrouping (physicalLines source) groups) :
    logicalLines source = groups.filterMap logicalLine? := by
  unfold logicalLines
  rw [h.foldContinuations_eq, List.filterMap_filterMap]
  rfl

/-- The logical lines of every source.  Comments and trailing blanks are stripped from its lines, and
what is not empty then keeps its number.  There is one way to group these lines, and each group is
joined under the number of its first line; blank results are dropped and shorthands are expanded.  Kept
by their numbers, no logical line overwrites another one. -/
theorem logicalLines_grouped (source : List Char) :
    (∀ line, line ∈ physicalLines source ↔ ∃ n raw, (lines source)[n]? = some raw ∧
      line = ⟨n + 1, trimEnd (beforeComment .outside raw)⟩ ∧ line.text ≠ []) ∧
    Ascending (physicalLines source) ∧
    ∃ groups, (∀ others, IsGrouping (physicalLines source) others ↔ others = groups) ∧
      logicalLines source = groups.filterMap logicalLine? ∧
      Ascending (logicalLines source) ∧
      (logicalLines source).foldl keep [] = logicalLines source ∧
      ∀ line ∈ logicalLines source, 1 ≤ line.number ∧ line.number ≤ (lines source).length := by
  have hgroups := isGrouping_iff.2 (rfl : groupsOf (physicalLines source) = _)
  have hlogical := logicalLines_eq_groups hgroups
  have hphysical := physicalLines_ascending source
  have hascending : Ascending (logicalLines source) := by
    rw [hlogical]
    apply ascending_filterMap
    rwa [hgroups.flatten_eq]
  refine ⟨fun line => mem_physicalLines_iff, hphysical, groupsOf (physicalLines source),
    fun others => isGrouping_iff, hlogical, hascending, foldl_keep hascending, ?_⟩
  intro line hline
  rw [hlogical] at hline
  rcases List.mem_filterMap.1 hline with ⟨group, hgroup, hjoined⟩
  rcases number_logicalLine? hjoined with ⟨first, hfirst, hnumber⟩
  have hmem : first ∈ physicalLines source := by
    rw [← hgroups.flatten_eq]
    exact List.mem_flatten.2 ⟨group, hgroup, hfirst⟩
  rcases mem_physicalLines_iff.1 hmem with ⟨n, raw, hraw, rfl, -⟩
  rw [← hnumber]
  exact ⟨Nat.le_add_left 1 n, (List.getElem?_eq_some_iff.1 hraw).1⟩

/-- A continued line with a comment line and an empty line behind it, and a line that is never
finished. -/
example : logicalLines "a + \\ ; x\n; y\n\n  b\n@s.t(c) \\".toList =
    [⟨1, "a + b".toList⟩, ⟨5, "call(\"s/t\", c) ".toList⟩] := by decide +kernel

/-! ## Comments behind expressions -/

/-- Cleaning a text that is read as a term only trims its end, and behind it a comment is found: the
scan for comments agrees with the grammar on where string literals end. -/
theorem clean_remarked {text : List Char} {term : Term} (h : Term.parse text = .ok term)
    (comment : List Char) :
    clean .commentsOnly text = trimEnd text ∧
      clean .commentsOnly (text ++ ' ' :: ';' :: comment) = trimEnd text := by
  have hspeaks := (Term.parse_eq_ok_iff.1 h).speaks
  have hblank : Speaks (text ++ [' ']) (term.said ++ []) := hspeaks.append ⟨rfl, rfl, rfl⟩
  constructor
  · show trimEnd (beforeComment .outside text) = trimEnd text
    rw [beforeComment_eq_self hspeaks.comment]
  · show trimEnd (beforeComment .outside (text ++ ' ' :: ';' :: comment)) = trimEnd text
    rw [List.append_cons, beforeComment_append _ _ _ hblank.comment hblank.after,
      trimEnd_append_blanks (by simpa using (by decide : isBlank ' ' = true))]

/-- A literal with a quote, a semicolon and a backslash in it, and a comment with a quote. -/
theorem clean_remarked_literal : ∃ term,
    Term.parse "say(\"a\\\"; (b\\\\\") ".toList = .ok term ∧
      clean .commentsOnly "say(\"a\\\"; (b\\\\\") ".toList = "say(\"a\\\"; (b\\\\\")".toList ∧
      clean .commentsOnly "say(\"a\\\"; (b\\\\\")  ;c \" d".toList = "say(\"a\\\"; (b\\\\\")".toList := by
  rcases @Term.exists_parse "say(\"a\\\"; (b\\\\\") ".toList (by decide +kernel) with ⟨term, hterm⟩
  rcases clean_remarked hterm "c \" d".toList with ⟨hplain, hremarked⟩
  exact ⟨term, hterm, hplain, hremarked⟩

end Source
end ScriptMachine
