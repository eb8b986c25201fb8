/-
  Append-only logs that share their buffers (`common/append_log.py`).

  A log is a view of a buffer that other logs view too; the buffer grows where the view that is
  appended to ends where it does.

  * `LogView` with its operations `append`, `extend` and `retainLast`, and its readings `iter`,
    `index`, `slice` and `reversed`;
  * `LogRun` is a tree of operations, each on any of the views made before it;
  * `logs_are_tuples`: every view reads as the tuple that its own operations give.
-/
import AlphaLab.Lib.Runs

namespace AlphaLab

open Fallible

variable {α : Type}

/-! ## Slices of tuples -/

/-- `[start:stop:step]` -/
structure Slice where
  start : Option ℤ := none
  stop : Option ℤ := none
  step : Option ℤ := none

/-- An end of a slice of so many elements, brought between the two bounds. -/
def Slice.adjust (length : ℕ) (lower upper position : ℤ) : ℤ :=
  if position < 0 then max (position + length) lower else min position upper

/-- `slice.indices`; a step of zero is refused. -/
def Slice.indices (s : Slice) (length : ℕ) : Option (ℤ × ℤ × ℤ) :=
  let step := s.step.getD 1
  if step = 0 then none
  else if 0 < step then
    some (s.start.elim 0 (adjust length 0 length), s.stop.elim length (adjust length 0 length), step)
  else
    some (s.start.elim (length - 1) (adjust length (-1) (length - 1)),
      s.stop.elim (-1) (adjust length (-1) (length - 1)), step)

/-- `range(start, stop, step)` -/
def rangeOf (start stop step : ℤ) : List ℤ :=
  (List.range (if 0 < step then (stop - start + step - 1) / step
    else (start - stop - step - 1) / -step).toNat).map fun i : ℕ => start + i * step

/-- `l[a:b]`, for ends that are not negative. -/
def between (a b : ℕ) (l : List α) : List α := (l.take b).drop a

def tupleIndex (l : List α) (i : ℤ) : Option α :=
  let i := if i < 0 then i + l.length else i
  if i < 0 then none else l[i.toNat]?

def tupleSlice (l : List α) (s : Slice) : Option (List α) := do
  let (start, stop, step) ← s.indices l.length
  if step = 1 then some (between start.toNat stop.toNat l)
  else (rangeOf start stop step).mapM fun position => l[position.toNat]?

theorem Slice.adjust_mem (length : ℕ) {lower upper : ℤ} (hlower : lower ≤ 0)
    (hle : lower ≤ upper) (hupper : length - 1 ≤ upper) (position : ℤ) :
    lower ≤ adjust length lower upper position ∧ adjust length lower upper position ≤ upper := by
  unfold adjust
  split_ifs <;> omega

theorem Slice.indices_bounds {s : Slice} {length : ℕ} {start stop step : ℤ}
    (h : s.indices length = some (start, stop, step)) :
    (0 < step ∧ 0 ≤ start ∧ stop ≤ length) ∨ (step < 0 ∧ start < length ∧ -1 ≤ stop) := by
  unfold indices at h
  dsimp only at h
  split_ifs at h with hzero hpos
  · obtain ⟨rfl, rfl, rfl⟩ := Option.some.inj h
    refine Or.inl ⟨hpos, ?_, ?_⟩
    · cases s.start with
      | none => exact le_rfl
      | some a => exact (adjust_mem length le_rfl (by omega) (by omega) a).1
    · cases s.stop with
      | none => exact le_rfl
      | some b => exact (adjust_mem length le_rfl (by omega) (by omega) b).2
  · obtain ⟨rfl, rfl, rfl⟩ := Option.some.inj h
    refine Or.inr ⟨by omega, ?_, ?_⟩
    · cases s.start with
      | none => exact sub_one_lt _
      | some a =>
        exact Int.lt_of_le_sub_one (adjust_mem length (by omega) (by omega) le_rfl a).2
    · cases s.stop with
      | none => exact le_rfl
      | some b => exact (adjust_mem length (by omega) (by omega) le_rfl b).1

/-- The positions of a slice are those of elements. -/
theorem Slice.mem_range {s : Slice} {length : ℕ} {start stop step position : ℤ}
    (h : s.indices length = some (start, stop, step))
    (hposition : position ∈ rangeOf start stop step) : 0 ≤ position ∧ position < length := by
  obtain ⟨i, hi, rfl⟩ := List.mem_map.mp hposition
  have hcount := Int.lt_toNat.mp (List.mem_range.mp hi)
  rcases indices_bounds h with ⟨hpos, hstart, hstop⟩ | ⟨hneg, hstart, hstop⟩
  · rw [if_pos hpos, ← Int.add_one_le_iff, Int.le_ediv_iff_mul_le hpos, add_mul] at hcount
    have hnonneg : 0 ≤ (i : ℤ) * step := mul_nonneg (by omega) hpos.le
    omega
  · rw [if_neg hneg.not_gt, ← Int.add_one_le_iff, Int.le_ediv_iff_mul_le (by omega), add_mul,
      mul_neg] at hcount
    have hnonpos : (i : ℤ) * step ≤ 0 := mul_nonpos_of_nonneg_of_nonpos (by omega) hneg.le
    omega

/-! ## Views -/

abbrev Buffers (α : Type) := List (List α)

/-- `AppendOnlyLog`: a view of `length` entries of a buffer from `start`. -/
structure LogView where
  buffer : ℕ
  start : ℕ
  length : ℕ
  /-- How many entries this log's history dropped before its first. -/
  dropped : ℕ

def releaseAfter : ℕ := 32

namespace LogView

variable (v : LogView) (buffers : Buffers α)

def entries : List α := buffers.getD v.buffer []

def fresh (buffers : Buffers α) (items : List α) (dropped : ℕ) : Buffers α × LogView :=
  (buffers ++ [items], ⟨buffers.length, 0, items.length, dropped⟩)

/-- `append`: onto the shared buffer, or onto a copy of its own where others have gone on. -/
def append (item : α) : Buffers α × LogView :=
  if v.start + v.length = (v.entries buffers).length then
    (buffers.set v.buffer (v.entries buffers ++ [item]), { v with length := v.length + 1 })
  else fresh buffers (between v.start (v.start + v.length) (v.entries buffers) ++ [item]) v.dropped

def extend (items : List α) : Buffers α × LogView :=
  items.foldl (fun s item => s.2.append s.1 item) (buffers, v)

/-- `retain_last`: only the newest `count` entries, on a copy once the dropped outnumber them. -/
def retainLast (count : ℕ) : Buffers α × LogView :=
  if v.length ≤ count then (buffers, v)
  else
    let excess := v.length - count
    let start := v.start + excess
    if count < start ∧ releaseAfter ≤ start then
      (buffers ++ [between start (start + count) (v.entries buffers)],
        ⟨buffers.length, 0, count, v.dropped + excess⟩)
    else (buffers, ⟨v.buffer, start, count, v.dropped + excess⟩)

/-- `__iter__` and `to_tuple` -/
def iter : List α := between v.start (v.start + v.length) (v.entries buffers)

/-- `__getitem__`, of a position. -/
def index (i : ℤ) : Option α :=
  let i := if i < 0 then i + v.length else i
  if i < 0 ∨ v.length ≤ i then none else (v.entries buffers)[v.start + i.toNat]?

/-- `__getitem__`, of a slice. -/
def slice (s : Slice) : Option (List α) := do
  let (start, stop, step) ← s.indices v.length
  if step = 1 then
    some (between (v.start + start.toNat) (v.start + stop.toNat) (v.entries buffers))
  else (rangeOf start stop step).mapM fun position => (v.entries buffers)[v.start + position.toNat]?

def reversed : List α := (between v.start (v.start + v.length) (v.entries buffers)).reverse

end LogView

/-- A tuple, and how many entries were dropped before it. -/
structure PlainLog (α : Type) where
  items : List α
  dropped : ℕ

namespace PlainLog

def append (l : PlainLog α) (item : α) : PlainLog α := { l with items := l.items ++ [item] }

def extend (l : PlainLog α) (items : List α) : PlainLog α := { l with items := l.items ++ items }

def retainLast (l : PlainLog α) (count : ℕ) : PlainLog α :=
  ⟨l.items.drop (l.items.length - count), l.dropped + (l.items.length - count)⟩

end PlainLog

/-- **A view reads as a tuple does**: walked, indexed, sliced and reversed. -/
structure LogView.Reports (buffers : Buffers α) (v : LogView) (l : PlainLog α) : Prop where
  iter : v.iter buffers = l.items
  length : v.length = l.items.length
  index : ∀ i, v.index buffers i = tupleIndex l.items i
  slice : ∀ s, v.slice buffers s = tupleSlice l.items s
  reversed : v.reversed buffers = l.items.reverse
  dropped : v.dropped = l.dropped

/-- One operation: a log made of items, or a call on the view of that number. -/
inductive LogCall (α : Type)
  | new (items : List α)
  | restored (items : List α) (dropped : ℤ)
  | append (view : ℕ) (item : α)
  | extend (view : ℕ) (items : List α)
  | retainLast (view : ℕ) (count : ℤ)

/-- The buffers, and every view made so far with what its own operations give. -/
structure LogRun (α : Type) where
  buffers : Buffers α := []
  views : List (LogView × PlainLog α) := []

namespace LogRun

variable (r : LogRun α)

def made (made : Buffers α × LogView) (l : PlainLog α) : LogRun α :=
  ⟨made.1, r.views ++ [(made.2, l)]⟩

def step (r : LogRun α) : LogCall α → Except Unit (LogRun α)
  | .new items => .ok (r.made (LogView.fresh r.buffers items 0) ⟨items, 0⟩)
  | .restored items dropped => do
    require (0 ≤ dropped) ()
    return r.made (LogView.fresh r.buffers items dropped.toNat) ⟨items, dropped.toNat⟩
  | .append view item => do
    let (v, l) ← orRefuse r.views[view]? ()
    return r.made (v.append r.buffers item) (l.append item)
  | .extend view items => do
    let (v, l) ← orRefuse r.views[view]? ()
    return r.made (v.extend r.buffers items) (l.extend items)
  | .retainLast view count => do
    let (v, l) ← orRefuse r.views[view]? ()
    require (0 ≤ count) ()
    return r.made (v.retainLast r.buffers count.toNat) (l.retainLast count.toNat)

end LogRun

/-! ## What a view sees -/

structure LogView.Sees (buffers : Buffers α) (v : LogView) (l : PlainLog α) : Prop where
  held : v.buffer < buffers.length
  within : v.start + v.length ≤ (v.entries buffers).length
  seen : v.iter buffers = l.items
  dropped : v.dropped = l.dropped

def Grown (buffers buffers' : Buffers α) : Prop :=
  buffers.length ≤ buffers'.length ∧ ∀ a, buffers.getD a [] <+: buffers'.getD a []

theorem Grown.refl (buffers : Buffers α) : Grown buffers buffers :=
  ⟨le_rfl, fun _ => List.prefix_refl _⟩

theorem Grown.trans {buffers buffers' buffers'' : Buffers α} (h : Grown buffers buffers')
    (h' : Grown buffers' buffers'') : Grown buffers buffers'' :=
  ⟨h.1.trans h'.1, fun a => (h.2 a).trans (h'.2 a)⟩

theorem grown_concat (buffers : Buffers α) (items : List α) : Grown buffers (buffers ++ [items]) := by
  refine ⟨by simp, ?_⟩
  intro a
  rcases lt_or_ge a buffers.length with ha | ha
  · rw [List.getD_eq_getElem?_getD, List.getD_eq_getElem?_getD, List.getElem?_append_left ha]
  · rw [List.getD_eq_getElem?_getD, List.getElem?_eq_none ha]
    exact List.nil_prefix

theorem grown_set (buffers : Buffers α) (address : ℕ) (item : α) :
    Grown buffers (buffers.set address (buffers.getD address [] ++ [item])) := by
  refine ⟨by simp, ?_⟩
  intro a
  simp only [List.getD_eq_getElem?_getD, List.getElem?_set]
  split_ifs with ha hlt
  · subst ha
    simp
  · subst ha
    simp [List.getElem?_eq_none (not_lt.mp hlt)]
  · exact List.prefix_refl _

theorem between_prefix {a b : ℕ} {l l' : List α} (h : l <+: l') (hb : b ≤ l.length) :
    between a b l' = between a b l := by
  obtain ⟨rest, rfl⟩ := h
  rw [between, List.take_append_of_le_length hb, between]

theorem length_between {a b : ℕ} {l : List α} (hb : b ≤ l.length) :
    (between a b l).length = b - a := by
  simp [between, hb]

theorem getElem?_between (a b i : ℕ) (l : List α) :
    (between a b l)[i]? = if a + i < b then l[a + i]? else none := by
  rw [between, List.getElem?_drop, List.getElem?_take]

theorem between_between {a b c d : ℕ} {l : List α} (hd : a + d ≤ b) :
    between c d (between a b l) = between (a + c) (a + d) l := by
  apply List.ext_getElem?
  intro i
  simp only [getElem?_between]
  split_ifs <;> first | omega | rfl | rw [Nat.add_assoc]

namespace LogView

variable {buffers buffers' : Buffers α} {v : LogView} {l : PlainLog α}

theorem Sees.length (h : v.Sees buffers l) : v.length = l.items.length := by
  rw [← h.seen, iter, length_between h.within]
  omega

/-- **No interference**: what a view sees stays while the buffers grow. -/
theorem Sees.mono (h : v.Sees buffers l) (hgrown : Grown buffers buffers') : v.Sees buffers' l := by
  have hprefix : v.entries buffers <+: v.entries buffers' := hgrown.2 v.buffer
  refine ⟨h.held.trans_le hgrown.1, h.within.trans hprefix.length_le, ?_, h.dropped⟩
  rw [iter, between_prefix hprefix h.within]
  exact h.seen

theorem sees_fresh (buffers : Buffers α) (items : List α) (dropped : ℕ) :
    (fresh buffers items dropped).2.Sees (fresh buffers items dropped).1 ⟨items, dropped⟩ := by
  have hentries : (fresh buffers items dropped).2.entries (fresh buffers items dropped).1 = items := by
    simp [entries, fresh]
  refine ⟨by simp [fresh], ?_, ?_, rfl⟩
  · rw [hentries]
    simp [fresh]
  · rw [iter, hentries]
    simp [fresh, between]

/-- What an operation makes of a view: a view of the tuple it makes, and no other touched. -/
def Made (buffers : Buffers α) (made : Buffers α × LogView) (l : PlainLog α) : Prop :=
  Grown buffers made.1 ∧ made.2.Sees made.1 l

theorem made_fresh (buffers : Buffers α) (items : List α) (dropped : ℕ) :
    Made buffers (fresh buffers items dropped) ⟨items, dropped⟩ :=
  ⟨grown_concat buffers items, sees_fresh buffers items dropped⟩

theorem Sees.append (h : v.Sees buffers l) (item : α) :
    Made buffers (v.append buffers item) (l.append item) := by
  unfold LogView.append
  split_ifs with hend
  · refine ⟨grown_set buffers v.buffer item, ?_⟩
    have hentries : ({ v with length := v.length + 1 } : LogView).entries
        (buffers.set v.buffer (v.entries buffers ++ [item])) = v.entries buffers ++ [item] := by
      simp [entries, List.getD_eq_getElem?_getD, h.held]
    refine ⟨by simpa using h.held, ?_, ?_, h.dropped⟩
    · rw [hentries]
      simp
      omega
    · have hiter := h.seen
      rw [iter, between, hend, List.take_length] at hiter
      rw [iter, hentries, between, List.take_of_length_le (by simp; omega),
        List.drop_append_of_le_length (Nat.le.intro hend), hiter]
      rfl
  · have hmade := made_fresh buffers (v.iter buffers ++ [item]) v.dropped
    rw [h.seen, h.dropped] at hmade
    rw [← iter, h.seen, h.dropped]
    exact hmade

theorem Sees.extend (h : v.Sees buffers l) (items : List α) :
    Made buffers (v.extend buffers items) (l.extend items) := by
  induction items generalizing buffers v l with
  | nil =>
    refine ⟨.refl _, ?_⟩
    simpa [LogView.extend, PlainLog.extend] using h
  | cons item items ih =>
    obtain ⟨hgrown, hsees⟩ := h.append item
    obtain ⟨hgrown', hsees'⟩ := ih hsees
    refine ⟨hgrown.trans hgrown', ?_⟩
    simpa [LogView.extend, PlainLog.extend, PlainLog.append] using hsees'

theorem Sees.retainLast (h : v.Sees buffers l) (count : ℕ) :
    Made buffers (v.retainLast buffers count) (l.retainLast count) := by
  have hlength := h.length
  unfold LogView.retainLast PlainLog.retainLast
  rw [← hlength]
  split_ifs with hle
  · rw [Nat.sub_eq_zero_of_le hle]
    exact ⟨.refl _, by simpa using h⟩
  · dsimp only
    have hkept : between (v.start + (v.length - count)) (v.start + (v.length - count) + count)
        (v.entries buffers) = l.items.drop (v.length - count) := by
      rw [← h.seen, iter, between, between, List.drop_drop]
      congr 2
      omega
    split_ifs with hrelease
    · have hmade := made_fresh buffers (l.items.drop (v.length - count))
        (l.dropped + (v.length - count))
      have hcount : (l.items.drop (v.length - count)).length = count := by
        rw [List.length_drop]
        omega
      rw [fresh, hcount] at hmade
      rw [hkept, h.dropped]
      exact hmade
    · refine ⟨.refl _, h.held, ?_, ?_, ?_⟩
      · have hwithin := h.within
        change v.start + (v.length - count) + count ≤ (v.entries buffers).length
        omega
      · exact hkept
      · rw [← h.dropped]

theorem mapM_congr {β γ : Type} {f g : β → Option γ} {l : List β} (h : ∀ b ∈ l, f b = g b) :
    l.mapM f = l.mapM g := by
  induction l with
  | nil => rfl
  | cons b l ih =>
    rw [List.mapM_cons, List.mapM_cons, h b List.mem_cons_self,
      ih fun b' hb' => h b' (List.mem_cons_of_mem _ hb')]

theorem Sees.entries_at (h : v.Sees buffers l) {i : ℕ} (hi : i < v.length) :
    (v.entries buffers)[v.start + i]? = l.items[i]? := by
  rw [← h.seen, iter, getElem?_between, if_pos (by omega)]

/-- **What a view sees is what it reports.** -/
theorem Sees.reports (h : v.Sees buffers l) : v.Reports buffers l := by
  have hlength := h.length
  refine ⟨h.seen, hlength, ?_, ?_, ?_, h.dropped⟩
  · intro i
    unfold LogView.index tupleIndex
    dsimp only
    rw [← hlength]
    generalize (if i < 0 then i + (v.length : ℤ) else i) = position
    by_cases hneg : position < 0
    · rw [if_pos (Or.inl hneg), if_pos hneg]
    · rw [if_neg hneg]
      by_cases hbound : (v.length : ℤ) ≤ position
      · rw [if_pos (Or.inr hbound), List.getElem?_eq_none (by omega)]
      · rw [if_neg (by omega), h.entries_at (by omega)]
  · intro s
    unfold LogView.slice tupleSlice
    rw [← hlength]
    cases hindices : s.indices v.length with
    | none => rfl
    | some ends =>
      obtain ⟨start, stop, step⟩ := ends
      simp only [Option.bind_eq_bind, Option.bind_some]
      split_ifs with hone
      · subst hone
        obtain ⟨-, hstart, hstop⟩ := (Slice.indices_bounds hindices).resolve_right (by omega)
        rw [← h.seen, iter, between_between (by omega)]
      · refine mapM_congr ?_
        intro position hposition
        obtain ⟨hnonneg, hlt⟩ := Slice.mem_range hindices hposition
        exact h.entries_at (by omega)
  · rw [reversed, ← iter, h.seen]

end LogView

def LogRun.AllSeen (r : LogRun α) : Prop := ∀ v ∈ r.views, v.1.Sees r.buffers v.2

theorem LogRun.AllSeen.made {r : LogRun α} (h : r.AllSeen) {made : Buffers α × LogView}
    {l : PlainLog α} (hmade : LogView.Made r.buffers made l) : (r.made made l).AllSeen := by
  intro v hv
  rcases List.mem_append.mp hv with hv | hv
  · exact (h v hv).mono hmade.1
  · obtain rfl := List.mem_singleton.mp hv
    exact hmade.2

/-- **One call** leaves every view as it was, and its own as it should be. -/
theorem LogRun.AllSeen.step {r r' : LogRun α} (h : r.AllSeen) {c : LogCall α}
    (hstep : r.step c = .ok r') : r'.AllSeen := by
  have hview : ∀ {view : ℕ} {v : LogView × PlainLog α}, orRefuse r.views[view]? () = .ok v →
      v.1.Sees r.buffers v.2 := fun hv => h _ (List.mem_of_getElem? (orRefuse_ok.mp hv))
  cases c with
  | new items =>
    obtain rfl := ok_inj.mp hstep
    exact h.made (LogView.made_fresh _ _ _)
  | restored items dropped =>
    obtain ⟨_, -, hstep⟩ := bind_ok.mp hstep
    obtain rfl := pure_ok.mp hstep
    exact h.made (LogView.made_fresh _ _ _)
  | append view item =>
    obtain ⟨⟨v, l⟩, hv, hstep⟩ := bind_ok.mp hstep
    obtain rfl := pure_ok.mp hstep
    exact h.made ((hview hv).append item)
  | extend view items =>
    obtain ⟨⟨v, l⟩, hv, hstep⟩ := bind_ok.mp hstep
    obtain rfl := pure_ok.mp hstep
    exact h.made ((hview hv).extend items)
  | retainLast view count =>
    obtain ⟨⟨v, l⟩, hv, hstep⟩ := bind_ok.mp hstep
    obtain ⟨_, -, hstep⟩ := bind_ok.mp hstep
    obtain rfl := pure_ok.mp hstep
    exact h.made ((hview hv).retainLast count.toNat)

/-- **Logs are tuples**: after any tree of operations, every view made reads as the tuple that its
    own operations give, whatever was done with other views of its buffer. -/
theorem logs_are_tuples {r : LogRun α} (h : Runs LogRun.step (fun _ _ => True) {} r) :
    ∀ v ∈ r.views, v.1.Reports r.buffers v.2 := by
  have hseen : r.AllSeen := by
    refine h.invariant LogRun.AllSeen ?_ ?_
    · intro v hv
      cases hv
    · intro s c t hs _ hstep
      exact hs.step hstep
  exact fun v hv => (hseen v hv).reports

def sharedCalls : List (LogCall ℕ) :=
  [.new [1, 2, 3], .retainLast 0 2, .append 0 4, .append 1 5]

theorem logs_are_tuples_shared : ∃ r, Runs LogRun.step (fun _ _ => True) {} r ∧
    (∀ v ∈ r.views, v.1.Reports r.buffers v.2) ∧
    r.views.map (fun v => (v.2.items, v.2.dropped)) =
      [([1, 2, 3], 0), ([2, 3], 1), ([1, 2, 3, 4], 0), ([2, 3, 5], 1)] := by
  obtain ⟨r, hrun, hviews⟩ := exists_ok_of (x := sharedCalls.foldlM LogRun.step {})
    (fun r => r.views.map (fun v => (v.2.items, v.2.dropped)) =
      [([1, 2, 3], 0), ([2, 3], 1), ([1, 2, 3, 4], 0), ([2, 3, 5], 1)]) (by decide +kernel)
  have hreached := Runs.of_foldlM hrun fun _ _ _ => trivial
  exact ⟨r, hreached, logs_are_tuples hreached, hviews⟩

end AlphaLab
