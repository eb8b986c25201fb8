/-
  Logs that are written at their end.

  `Chronicle R log` says that every entry is right (`R`) after the entries before it.  It
  holds of a log written by appending right entries, and of every log that such a log
  continues.
-/
import Mathlib.Tactic

namespace Fallible

variable {α : Type}

/-- Every entry is right after those before it. -/
def Chronicle (R : List α → α → Prop) (log : List α) : Prop :=
  ∀ earlier entry later, log = earlier ++ entry :: later → R earlier entry

namespace Chronicle

variable {R : List α → α → Prop} {log : List α}

theorem nil : Chronicle R [] := by
  intro earlier entry later h
  simp at h

/-- **The next entry**: a log goes on right just when it was and the next entry is. -/
theorem append_singleton {entry : α} :
    Chronicle R (log ++ [entry]) ↔ Chronicle R log ∧ R log entry := by
  constructor
  · intro h
    refine ⟨?_, h log entry [] rfl⟩
    rintro earlier e later rfl
    exact h earlier e (later ++ [entry]) (by simp)
  · rintro ⟨hlog, hentry⟩ earlier e later h
    rcases List.eq_nil_or_concat later with rfl | ⟨later', last, rfl⟩
    · obtain ⟨rfl, rfl⟩ := (by simpa using List.append_inj' h rfl : log = earlier ∧ entry = e)
      exact hentry
    · have hsplit : log = earlier ++ e :: later' ∧ entry = last := by
        have h' : log ++ [entry] = (earlier ++ e :: later') ++ [last] := by simpa using h
        simpa using List.append_inj' h' rfl
      exact hlog earlier e later' hsplit.1

theorem of_append {more : List α} (h : Chronicle R (log ++ more)) : Chronicle R log := by
  rintro earlier e later rfl
  exact h earlier e (later ++ more) (by simp)

end Chronicle

end Fallible
