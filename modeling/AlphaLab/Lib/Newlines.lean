/-
  Text as a file opened in text mode reads it back.

  Writing changes no character; reading turns a carriage return, alone or before a
  line feed, into one line feed (`universalNewlines`).  A text without a carriage
  return is read as it was written, and no other is
  (`universalNewlines_eq_self_iff`).  `partitionLine` is the text's first line and what
  follows it.
-/
import Mathlib.Tactic

namespace Newlines

def universalNewlines : List Char → List Char
  | [] => []
  | '\r' :: '\n' :: cs => '\n' :: universalNewlines cs
  | c :: cs => (if c = '\r' then '\n' else c) :: universalNewlines cs

/-- The characters before the first line feed and those after it, if there is one. -/
def partitionLine (cs : List Char) : Option (List Char × List Char) :=
  match cs.dropWhile (· ≠ '\n') with
  | [] => none
  | _ :: rest => some (cs.takeWhile (· ≠ '\n'), rest)

theorem carriageReturn_notMem (cs : List Char) : '\r' ∉ universalNewlines cs := by
  induction cs using universalNewlines.induct with
  | case1 => simp [universalNewlines]
  | case2 cs ih => simp [universalNewlines, ih]
  | case3 c cs hpair ih =>
    rw [universalNewlines.eq_3 c cs hpair]
    by_cases hc : c = '\r'
    · simp [hc, ih]
    · simp [hc, ih, Ne.symm hc]

theorem universalNewlines_append {cs : List Char} (h : '\r' ∉ cs) (rest : List Char) :
    universalNewlines (cs ++ rest) = cs ++ universalNewlines rest := by
  induction cs with
  | nil => rfl
  | cons c cs ih =>
    rw [List.mem_cons, not_or] at h
    have hpair : ∀ more, c = '\r' → cs ++ rest = '\n' :: more → False :=
      fun _ hc _ => h.1 hc.symm
    rw [List.cons_append, universalNewlines.eq_3 c _ hpair, if_neg (Ne.symm h.1), ih h.2,
      List.cons_append]

/-- **A text is read as it was written exactly where it has no carriage return.** -/
theorem universalNewlines_eq_self_iff {cs : List Char} : universalNewlines cs = cs ↔ '\r' ∉ cs := by
  constructor
  · intro h
    rw [← h]
    exact carriageReturn_notMem cs
  · intro h
    have happend := universalNewlines_append h []
    simpa [universalNewlines] using happend

theorem partitionLine_append {line rest : List Char} (h : '\n' ∉ line) :
    partitionLine (line ++ '\n' :: rest) = some (line, rest) := by
  have hall : ∀ c ∈ line, decide (c ≠ '\n') = true := by
    intro c hc
    rw [decide_eq_true_eq]
    rintro rfl
    exact h hc
  have hdrop : (line ++ '\n' :: rest).dropWhile (· ≠ '\n') = '\n' :: rest := by
    rw [List.dropWhile_append_of_pos hall]
    simp
  have htake : (line ++ '\n' :: rest).takeWhile (· ≠ '\n') = line := by
    rw [List.takeWhile_append_of_pos hall]
    simp
  rw [partitionLine, hdrop, htake]

end Newlines
