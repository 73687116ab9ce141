import ScriptMachine.Expr.Grammar
import ScriptMachine.Proofs.Rendering

/-!
# What parsers consume

Of a parser it matters here what it answers and what it leaves of the text, but neither where in the
source it stands nor which attempts it records.  Blanks at the front of what is left make no
difference either, since whatever comes next begins by skipping them.

Main results:

- {lit}`Parser.Takes` and {lit}`Parser.Reads`: a parser answers and leaves a text, exactly or up to
  blanks at its front.
- {lit}`Parser.Rejects`: a parser fails on a text.
- {lit}`Parser.Repeats.many`: a repetition reads one item after another.
-/

namespace ScriptMachine
namespace Parser

variable {α β γ : Type}

/-! ## Answers and failures -/

/-- The text without the blanks at its front. -/
def unblanked (s : List Char) : List Char :=
  s.dropWhile fun c => c == ' ' || c == '\t'

/-- The parser answers on a text and leaves another. -/
def Takes (p : Parser α) (x : α) (s r : List Char) : Prop :=
  ∀ position attempts, ∃ position' attempts',
    p ⟨position, s⟩ attempts = (some (x, ⟨position', r⟩), attempts')

/-- The parser answers on a text and leaves another, up to blanks. -/
def Reads (p : Parser α) (x : α) (s r : List Char) : Prop :=
  ∃ r', p.Takes x s r' ∧ unblanked r' = unblanked r

/-- The parser fails on a text. -/
def Rejects (p : Parser α) (s : List Char) : Prop :=
  ∀ position attempts, ∃ attempts', p ⟨position, s⟩ attempts = (none, attempts')

/-! ## Blanks -/

/-- Blanks are skipped. -/
theorem unblanked_append {gap : List Char} (h : Blanks gap) (s : List Char) :
    unblanked (gap ++ s) = unblanked s := by
  induction gap with
  | nil => rfl
  | cons c rest ih =>
    have hc : (c == ' ' || c == '\t') = true := by
      rcases h c (by simp) with rfl | rfl <;> rfl
    rw [← ih fun d hd => h d (by simp [hd])]
    simp [unblanked, hc]

/-- Anything else is not skipped. -/
theorem unblanked_cons {c : Char} (h : c ≠ ' ') (h' : c ≠ '\t') (s : List Char) :
    unblanked (c :: s) = c :: s := by
  simp [unblanked, h, h']

/-- Nothing is left to skip. -/
@[simp] theorem unblanked_unblanked (s : List Char) : unblanked (unblanked s) = unblanked s := by
  unfold unblanked
  induction s with
  | nil => rfl
  | cons c rest ih =>
    rw [List.dropWhile_cons]
    by_cases hc : (c == ' ' || c == '\t') = true
    · simpa only [hc, if_true] using ih
    · simp [hc]

/-- Skipping makes no text longer. -/
theorem length_unblanked_le (s : List Char) : (unblanked s).length ≤ s.length :=
  (List.dropWhile_sublist _).length_le

/-- Blanks at the end are all that is skipped there. -/
theorem unblanked_eq_nil {gap : List Char} (h : Blanks gap) : unblanked gap = [] := by
  have hskipped := unblanked_append h []
  rw [List.append_nil] at hskipped
  exact hskipped

/-! ## Taking -/

section Takes

variable {p q : Parser α} {f : α → Parser β} {x : α} {y : β} {s m r : List Char}

/-- What is taken exactly is read. -/
theorem Takes.reads (h : p.Takes x s r) : p.Reads x s r :=
  ⟨r, h, rfl⟩

/-- Answering takes nothing. -/
theorem Takes.pure (x : α) (s : List Char) : (Pure.pure x : Parser α).Takes x s s :=
  fun position attempts => ⟨position, attempts, rfl⟩

/-- One parser behind another. -/
theorem Takes.bind (h : p.Takes x s m) (hf : (f x).Takes y m r) : (p >>= f).Takes y s r := by
  intro position attempts
  rcases h position attempts with ⟨between, tried, hp⟩
  rcases hf between tried with ⟨last, after, hlast⟩
  refine ⟨last, after, ?_⟩
  show Parser.bind p f ⟨position, s⟩ attempts = _
  unfold Parser.bind
  rw [hp]
  exact hlast

/-- What is taken is changed in the answer. -/
theorem Takes.map (h : p.Takes x s r) (f : α → β) :
    (p >>= fun x => Pure.pure (f x)).Takes (f x) s r :=
  h.bind (.pure (f x) r)

/-- A rule takes what its parser takes. -/
theorem Takes.named (h : p.Takes x s r) (rule : Rule) : (Parser.named rule p).Takes x s r := by
  intro position attempts
  rcases h position attempts with ⟨last, after, hp⟩
  refine ⟨last, after, ?_⟩
  unfold Parser.named
  rw [hp]

/-- The first of two choices. -/
theorem Takes.or_left (h : p.Takes x s r) : (Parser.or p q).Takes x s r := by
  intro position attempts
  rcases h position attempts with ⟨last, after, hp⟩
  refine ⟨last, after, ?_⟩
  unfold Parser.or
  rw [hp]

/-- The second of two choices. -/
theorem Takes.or_right (hp : p.Rejects s) (h : q.Takes x s r) : (Parser.or p q).Takes x s r := by
  intro position attempts
  rcases hp position attempts with ⟨tried, hp⟩
  rcases h position tried with ⟨last, after, hq⟩
  refine ⟨last, after, ?_⟩
  unfold Parser.or
  rw [hp]
  exact hq

/-- What may be missing is taken if it is there. -/
theorem Takes.optional (h : p.Takes x s r) : (Parser.optional p).Takes (some x) s r := by
  intro position attempts
  rcases h position attempts with ⟨last, after, hp⟩
  refine ⟨last, after, ?_⟩
  unfold Parser.optional
  rw [hp]

/-- Nothing is taken where what may be missing is missing. -/
theorem Takes.optional_none (h : p.Rejects s) : (Parser.optional p).Takes none s s := by
  intro position attempts
  rcases h position attempts with ⟨after, hp⟩
  refine ⟨position, after, ?_⟩
  unfold Parser.optional
  rw [hp]

/-- A function on texts is taken at its word. -/
theorem Takes.take {f : List Char → Option (α × List Char)} (h : f s = some (x, r)) :
    (Parser.take f).Takes x s r := by
  intro position attempts
  refine ⟨position + (s.length - r.length), attempts, ?_⟩
  unfold Parser.take
  rw [h]

/-- Skipping takes the blanks at the front. -/
theorem Takes.skip (s : List Char) : Parser.skip.Takes () s (unblanked s) :=
  .take rfl

end Takes

/-! ## Reading -/

section Reads

variable {p q : Parser α} {f : α → Parser β} {x : α} {y : β} {s m r : List Char}

/-- Blanks at the front of what is left make no difference. -/
theorem Reads.congr (h : p.Reads x s m) (heq : unblanked m = unblanked r) : p.Reads x s r := by
  rcases h with ⟨r', htakes, hleft⟩
  exact ⟨r', htakes, hleft.trans heq⟩

/-- A parser behind one that takes. -/
theorem Takes.bind_reads (h : p.Takes x s m) (hf : (f x).Reads y m r) : (p >>= f).Reads y s r := by
  rcases hf with ⟨r', htakes, hleft⟩
  exact ⟨r', h.bind htakes, hleft⟩

/-- A parser that skips blanks first, behind one that reads. -/
theorem Reads.bind_skip (h : p.Reads x s m) (hf : (f x).Reads y (unblanked m) r) :
    (p >>= fun x => Parser.skip >>= fun _ => f x).Reads y s r := by
  rcases h with ⟨m', htakes, hleft⟩
  rw [← hleft] at hf
  exact htakes.bind_reads ((Takes.skip m').bind_reads hf)

/-- What is read is changed in the answer. -/
theorem Reads.map (h : p.Reads x s r) (f : α → β) :
    (p >>= fun x => Pure.pure (f x)).Reads (f x) s r := by
  rcases h with ⟨r', htakes, hleft⟩
  exact ⟨r', htakes.map f, hleft⟩

/-- A rule reads what its parser reads. -/
theorem Reads.named (h : p.Reads x s r) (rule : Rule) : (Parser.named rule p).Reads x s r := by
  rcases h with ⟨r', htakes, hleft⟩
  exact ⟨r', htakes.named rule, hleft⟩

/-- The first of two choices. -/
theorem Reads.or_left (h : p.Reads x s r) : (Parser.or p q).Reads x s r := by
  rcases h with ⟨r', htakes, hleft⟩
  exact ⟨r', htakes.or_left, hleft⟩

/-- The second of two choices. -/
theorem Reads.or_right (hp : p.Rejects s) (h : q.Reads x s r) : (Parser.or p q).Reads x s r := by
  rcases h with ⟨r', htakes, hleft⟩
  exact ⟨r', htakes.or_right hp, hleft⟩

/-- What may be missing is read if it is there. -/
theorem Reads.optional (h : p.Reads x s r) : (Parser.optional p).Reads (some x) s r := by
  rcases h with ⟨r', htakes, hleft⟩
  exact ⟨r', htakes.optional, hleft⟩

end Reads

/-! ## Rejecting -/

section Rejects

variable {p q : Parser α} {f : α → Parser β} {x : α} {s m : List Char}

/-- A parser that fails at once. -/
theorem Rejects.fail (s : List Char) : (Parser.fail : Parser α).Rejects s :=
  fun _ attempts => ⟨attempts, rfl⟩

/-- What begins with a failure fails. -/
theorem Rejects.bind (h : p.Rejects s) (f : α → Parser β) : (p >>= f).Rejects s := by
  intro position attempts
  rcases h position attempts with ⟨after, hp⟩
  refine ⟨after, ?_⟩
  show Parser.bind p f ⟨position, s⟩ attempts = _
  unfold Parser.bind
  rw [hp]

/-- What goes on with a failure fails. -/
theorem Takes.bind_rejects (h : p.Takes x s m) (hf : (f x).Rejects m) : (p >>= f).Rejects s := by
  intro position attempts
  rcases h position attempts with ⟨between, tried, hp⟩
  rcases hf between tried with ⟨after, hlast⟩
  refine ⟨after, ?_⟩
  show Parser.bind p f ⟨position, s⟩ attempts = _
  unfold Parser.bind
  rw [hp]
  exact hlast

/-- What skips blanks and then fails fails. -/
theorem Reads.bind_skip_rejects (h : p.Reads x s m) (hf : (f x).Rejects (unblanked m)) :
    (p >>= fun x => Parser.skip >>= fun _ => f x).Rejects s := by
  rcases h with ⟨m', htakes, hleft⟩
  rw [← hleft] at hf
  exact htakes.bind_rejects ((Takes.skip m').bind_rejects hf)

/-- A rule fails with its parser. -/
theorem Rejects.named (h : p.Rejects s) (rule : Rule) : (Parser.named rule p).Rejects s := by
  intro position attempts
  rcases h position attempts with ⟨after, hp⟩
  refine ⟨after.record rule position attempts, ?_⟩
  unfold Parser.named
  rw [hp]

/-- A choice fails with both of its parsers. -/
theorem Rejects.or (hp : p.Rejects s) (hq : q.Rejects s) : (Parser.or p q).Rejects s := by
  intro position attempts
  rcases hp position attempts with ⟨tried, hp⟩
  rcases hq position tried with ⟨after, hq⟩
  refine ⟨after, ?_⟩
  unfold Parser.or
  rw [hp]
  exact hq

/-- A function on texts is taken at its word. -/
theorem Rejects.take {f : List Char → Option (α × List Char)} (h : f s = none) :
    (Parser.take f).Rejects s := by
  intro position attempts
  refine ⟨attempts, ?_⟩
  unfold Parser.take
  rw [h]

end Rejects

/-! ## Fixed texts -/

/-- What stands behind a beginning. -/
theorem behind?_append (start s : List Char) : behind? start (start ++ s) = some s := by
  induction start with
  | nil => rfl
  | cons c rest ih => simpa [behind?] using ih

/-- A text with another first character does not begin so. -/
theorem behind?_cons_ne {c d : Char} (h : c ≠ d) (start s : List Char) :
    behind? (c :: start) (d :: s) = none :=
  if_neg h

/-- Given characters are taken. -/
theorem Takes.literal {text : String} {s : List Char} (r : List Char) (h : s = text.toList ++ r) :
    (Parser.literal text).Takes () s r := by
  apply Takes.take
  rw [h, behind?_append]
  rfl

/-- Other characters are rejected. -/
theorem Rejects.literal {text : String} {s : List Char} (h : behind? text.toList s = none) :
    (Parser.literal text).Rejects s := by
  apply Rejects.take
  rw [h]
  rfl

/-- A symbol that stands at the front is taken, unless an earlier one in the list does too. -/
theorem Takes.oneOf {symbols : List (String × α)} {symbol : String} {x : α} {s r : List Char}
    (hfind : symbols.find? (fun entry => (behind? entry.1.toList s).isSome) = some (symbol, x))
    (h : s = symbol.toList ++ r) : (Parser.oneOf symbols).Takes x s r := by
  induction symbols with
  | nil => cases hfind
  | cons entry others ih =>
    rcases entry with ⟨first, y⟩
    cases hbehind : behind? first.toList s with
    | none =>
      rw [List.find?_cons_of_neg (by simp [hbehind])] at hfind
      exact (Takes.or_right ((Rejects.literal hbehind).bind _) (ih hfind))
    | some rest =>
      rw [List.find?_cons_of_pos (by simp [hbehind])] at hfind
      cases hfind
      exact Takes.or_left ((Takes.literal r h).bind (.pure x r))

/-- A text with none of the symbols in front is rejected. -/
theorem Rejects.oneOf {symbols : List (String × α)} {s : List Char}
    (h : ∀ entry ∈ symbols, behind? entry.1.toList s = none) : (Parser.oneOf symbols).Rejects s := by
  induction symbols with
  | nil => exact .fail s
  | cons entry others ih =>
    exact ((Rejects.literal (h entry (by simp))).bind _).or (ih fun other hother =>
      h other (by simp [hother]))

/-! ## Repetition -/

/-- One item is read after another, with blanks between them, until there is none. -/
inductive Repeats (item : Parser α) : List α → List Char → List Char → Prop where
  | stop {s : List Char} (h : item.Rejects (unblanked s)) : Repeats item [] s s
  | more {x : α} {xs : List α} {s m r : List Char} (h : item.Reads x (unblanked s) m)
      (hless : (unblanked m).length < (unblanked s).length) (hrest : Repeats item xs m r) :
      Repeats item (x :: xs) s r

namespace Repeats

variable {item : Parser α} {xs : List α} {s r : List Char}

/-- There are no more items than characters. -/
theorem length_le (h : Repeats item xs s r) : xs.length ≤ (unblanked s).length := by
  induction h with
  | stop h => exact Nat.zero_le _
  | more h hless hrest ih =>
    rw [List.length_cons]
    omega

/-- Blanks at the front make no difference. -/
theorem congr {t : List Char} (h : Repeats item xs s r) (heq : unblanked s = unblanked t) :
    ∃ r', Repeats item xs t r' ∧ unblanked r' = unblanked r := by
  cases h with
  | stop h => exact ⟨t, .stop (heq ▸ h), heq.symm⟩
  | more h hless hrest => exact ⟨r, .more (heq ▸ h) (heq ▸ hless) hrest, rfl⟩

/-- Further items are read within a bound. -/
theorem manyMore (h : Repeats item xs s r) {bound : Nat} (hbound : xs.length ≤ bound) {t : List Char}
    (heq : unblanked t = unblanked s) : (Parser.manyMore item bound).Reads xs t r := by
  induction h generalizing bound t with
  | @stop s h =>
    cases bound with
    | zero => exact ⟨t, fun position attempts => ⟨position, attempts, rfl⟩, heq⟩
    | succ bound =>
      rw [← heq] at h
      refine ⟨t, fun position attempts => ?_, heq⟩
      rcases (Takes.skip t).bind_rejects (f := fun _ => item) h position attempts with ⟨after, hnone⟩
      change Parser.bind Parser.skip _ _ _ = _ at hnone
      refine ⟨position, after, ?_⟩
      unfold Parser.manyMore
      simp only [hnone]
  | @more x xs s m r h hless hrest ih =>
    cases bound with
    | zero => simp at hbound
    | succ bound =>
      rw [← heq] at h
      rcases h with ⟨m', hitem, hleft⟩
      rcases ih (Nat.le_of_succ_le_succ hbound) hleft with ⟨r', hothers, hlast⟩
      refine ⟨r', fun position attempts => ?_, hlast⟩
      rcases (Takes.skip t).bind (f := fun _ => item) hitem position attempts with
        ⟨between, tried, hfirst⟩
      change Parser.bind Parser.skip _ _ _ = _ at hfirst
      rcases hothers between tried with ⟨last, after, hrest⟩
      refine ⟨last, after, ?_⟩
      unfold Parser.manyMore
      simp only [hfirst, hrest]

/-- A repetition reads all items, behind blanks that were skipped. -/
theorem many (h : Repeats item xs s r) : (Parser.many item).Reads xs (unblanked s) r := by
  cases h with
  | stop h =>
    refine ⟨unblanked s, fun position attempts => ?_, unblanked_unblanked s⟩
    rcases h position attempts with ⟨after, hnone⟩
    refine ⟨position, after, ?_⟩
    unfold Parser.many
    simp only [hnone]
  | @more x xs _ m _ h hless hrest =>
    rcases h with ⟨m', hitem, hleft⟩
    have hbound : xs.length ≤ m'.length + 1 := by
      have hle := hrest.length_le
      have hshort := length_unblanked_le m'
      rw [hleft] at hshort
      omega
    rcases hrest.manyMore hbound hleft with ⟨r', hothers, hlast⟩
    refine ⟨r', fun position attempts => ?_, hlast⟩
    rcases hitem position attempts with ⟨between, tried, hfirst⟩
    rcases hothers between tried with ⟨last, after, hrest⟩
    refine ⟨last, after, ?_⟩
    unfold Parser.many
    simp only [hfirst, hrest]

end Repeats
end Parser
end ScriptMachine
