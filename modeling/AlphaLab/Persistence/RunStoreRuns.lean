/-
  The file store beside the memory store, over runs of calls.

  * `Related` is what the two keep alike: a run's directory mirrors its checkpoints, and
    an empty directory stands for none;
  * `stores_agree_iff`: the two answer alike exactly where no checkpoint that holds a
    carriage return is read, and every checkpoint's file name is one the file system
    takes.
-/
import AlphaLab.Persistence.RunStore

namespace AlphaLab

open Fallible Newlines

def putFirst (calls : List StoreCall) (ref : RunStateRef) : Option String :=
  calls.findSome? fun call =>
    match call with
    | .put runId sequence payload =>
      if runId = ref.runId ∧ sequence = ref.sequence then some payload else none
    | .get _ | .latest _ | .listRuns => none

def StoreCall.runId? : StoreCall → Option String
  | .put runId _ _ => some runId
  | .get ref => some ref.runId
  | .latest runId => some runId
  | .listRuns => none

/-- No two of the identities share a directory: their digests differ where they are cut. -/
def Platform.DirectoriesApart (p : Platform) (calls : List StoreCall) : Prop :=
  ∀ a ∈ calls.filterMap StoreCall.runId?, ∀ b ∈ calls.filterMap StoreCall.runId?,
    p.runDir a = p.runDir b → a = b

/-- **The stores agree on calls**: they answer alike from empty, and each `get` of a stored
    checkpoint returns its payload. -/
structure StoresAgree (p : Platform) (calls : List StoreCall) : Prop where
  alike : answers (FileRunStateStore.call p) {} calls = answers MemoryRunStateStore.call {} calls
  exact : ∀ before ref after payload, calls = before ++ .get ref :: after →
    putFirst before ref = some payload →
      (answers (FileRunStateStore.call p) {} calls)[before.length]? =
        some (some (.payload payload))

/-- The condition: what is read back holds no carriage return, and what is put has a
    name the file system takes. -/
structure StorableCalls (p : Platform) (calls : List StoreCall) : Prop where
  read : ∀ before ref after, calls = before ++ .get ref :: after →
    ∀ payload, putFirst before ref = some payload → '\r' ∉ payload.toList
  named : ∀ runId sequence payload, StoreCall.put runId sequence payload ∈ calls →
    ∀ ref, RunStateRef.of runId sequence = .ok ref → p.takesName ref.sequence = true

/-! ## The relation -/

structure Mirrors (p : Platform) (ref : RunStateRef) (checkpoints : Dict ℕ String)
    (dir : RunDirectory) : Prop where
  some_ : checkpoints.entries ≠ []
  identity : dir.identity = some (p.identity ref.runId)
  states : ∀ n, dir.states.get? n = (checkpoints.get? n).map (p.contents (ref.at_ n))
  named : ∀ n payload, checkpoints.get? n = some payload → p.takesName n = true

structure Related (p : Platform) (ids : List String) (f : FileRunStateStore)
    (m : MemoryRunStateStore) : Prop where
  absent : ∀ id ∈ ids, m.runs.get? id = none →
    ∀ dir, f.directories.get? (p.runDir id) = some dir → dir = {}
  kept : ∀ id checkpoints, m.runs.get? id = some checkpoints → id ∈ ids ∧
    ∃ ref dir, ref.runId = id ∧ f.directories.get? (p.runDir id) = some dir ∧
      Mirrors p ref checkpoints dir
  directories : ∀ name dir, f.directories.get? name = some dir → ∃ id ∈ ids, name = p.runDir id

section
variable {p : Platform} {ids : List String} {f : FileRunStateStore} {m : MemoryRunStateStore}
  {ref : RunStateRef} {payload : String}

def Apart (p : Platform) (ids : List String) : Prop :=
  ∀ a ∈ ids, ∀ b ∈ ids, p.runDir a = p.runDir b → a = b

theorem related_empty (p : Platform) (ids : List String) : Related p ids {} {} := by
  constructor
  · intro id _ _ dir hdir
    cases hdir
  · intro id checkpoints h
    cases h
  · intro name dir h
    cases h

variable {runId : String}

theorem of_eq_ok {sequence : ℤ} (h : RunStateRef.of runId sequence = .ok ref) :
    ref.runId = runId ∧ (ref.sequence : ℤ) = sequence := by
  unfold RunStateRef.of at h
  split_ifs at h with hnamed hseparator hsequence
  obtain rfl := Except.ok.inj h
  exact ⟨rfl, Int.toNat_of_nonneg hsequence⟩

def MemoryRunStateStore.held (m : MemoryRunStateStore) (ref : RunStateRef) : Option String :=
  (m.runs.get? ref.runId).bind (·.get? ref.sequence)

/-- **What a file reads back** is checked against the digest of what was written. -/
theorem verified_contents (p : Platform) (ref : RunStateRef) (payload : String) :
    (do
      let (header, read) ← Platform.split (readText (p.contents ref payload))
      p.verified ref header read) =
        if p.sha256 (readText payload) = p.sha256 payload then .ok (readText payload)
        else .error (.altered ref.runId ref.sequence) := by
  obtain ⟨hfeed, hreturn⟩ := p.serialize_oneLine (p.envelopeFields ref payload)
  have hread : universalNewlines (p.contents ref payload).toList =
      (p.envelope ref payload).toList ++ '\n' :: (readText payload).toList := by
    have hfeedKept : universalNewlines ('\n' :: payload.toList) =
        '\n' :: universalNewlines payload.toList := by
      rw [universalNewlines.eq_3 _ _ fun _ h => absurd h (by decide), if_neg (by decide)]
    rw [Platform.contents, String.toList_ofList, Platform.envelope,
      universalNewlines_append hreturn, hfeedKept, readText, String.toList_ofList]
  have hsplit : Platform.split (readText (p.contents ref payload)) =
      .ok (p.envelope ref payload, readText payload) := by
    rw [Platform.split, readText, String.toList_ofList, hread,
      show partitionLine ((p.envelope ref payload).toList ++ '\n' :: (readText payload).toList) =
        some ((p.envelope ref payload).toList, (readText payload).toList) from
      partitionLine_append hfeed]
    dsimp only
    rw [String.ofList_toList, String.ofList_toList]
  rw [hsplit]
  change p.verified ref (p.envelope ref payload) (readText payload) = _
  have hversion : Dict.getList "schema_version" (p.envelopeFields ref payload) =
      some (.inr runStateEnvelopeSchema) := rfl
  have hdigest : Dict.getList "digest" (p.envelopeFields ref payload) =
      some (.inl (p.sha256 payload)) := rfl
  rw [Platform.verified, Platform.envelope, p.deserialize_serialize]
  simp only [orRefuse, bind, Except.bind, require, hversion, hdigest, if_true]
  by_cases hsame : p.sha256 (readText payload) = p.sha256 payload
  · rw [if_pos hsame, if_pos (by rw [hsame])]
    rfl
  · rw [if_neg hsame, if_neg]
    intro heq
    exact hsame (Sum.inl.inj (Option.some.inj heq)).symm

theorem readText_eq_self_iff : readText payload = payload ↔ '\r' ∉ payload.toList := by
  rw [← universalNewlines_eq_self_iff, readText]
  constructor
  · intro h
    conv_rhs => rw [← h]
    rw [String.toList_ofList]
  · intro h
    rw [h, String.ofList_toList]

/-! ## Steps -/

theorem get?_ensureDirectory (f : FileRunStateStore) (id name : String) :
    (f.ensureDirectory p id).directories.get? name =
      if name = p.runDir id then some ((f.directories.get? (p.runDir id)).getD {})
      else f.directories.get? name := by
  unfold FileRunStateStore.ensureDirectory
  by_cases hname : name = p.runDir id
  · subst hname
    rw [if_pos rfl]
    cases hget : f.directories.get? (p.runDir id) with
    | none => simp
    | some dir => simp [hget]
  · rw [if_neg hname]
    split_ifs
    · rfl
    · exact Dict.get?_set_of_ne _ _ hname

theorem Related.congr {m' : MemoryRunStateStore} (h : Related p ids f m)
    (hget : ∀ id, m'.runs.get? id = m.runs.get? id) : Related p ids f m' := by
  refine ⟨?_, ?_, h.directories⟩
  · intro id hid hnone
    exact h.absent id hid ((hget id).symm.trans hnone)
  · intro id checkpoints hstored
    exact h.kept id checkpoints ((hget id).symm.trans hstored)

variable {checkpoints : Dict ℕ String} {dir : RunDirectory}

theorem Related.set (h : Related p ids f m) (hapart : Apart p ids) (hid : ref.runId ∈ ids)
    (hmirrors : Mirrors p ref checkpoints dir) :
    Related p ids ⟨(f.ensureDirectory p ref.runId).directories.set (p.runDir ref.runId) dir⟩
      ⟨m.runs.set ref.runId checkpoints⟩ := by
  have hget : ∀ name, name ≠ p.runDir ref.runId →
      ((f.ensureDirectory p ref.runId).directories.set (p.runDir ref.runId) dir).get? name =
        f.directories.get? name := by
    intro name hname
    rw [Dict.get?_set_of_ne _ _ hname, get?_ensureDirectory, if_neg hname]
  constructor
  · intro id hmem hnone other hother
    have hne : id ≠ ref.runId := by
      rintro rfl
      rw [Dict.get?_set_self] at hnone
      cases hnone
    rw [Dict.get?_set_of_ne _ _ hne] at hnone
    rw [hget _ fun heq => hne (hapart id hmem ref.runId hid heq)] at hother
    exact h.absent id hmem hnone other hother
  · intro id stored hstored
    by_cases hid' : id = ref.runId
    · subst hid'
      rw [Dict.get?_set_self] at hstored
      obtain rfl := Option.some.inj hstored
      exact ⟨hid, ref, dir, rfl, Dict.get?_set_self _ _ _, hmirrors⟩
    · rw [Dict.get?_set_of_ne _ _ hid'] at hstored
      obtain ⟨hmem, other, otherDir, rfl, hother, hkept⟩ := h.kept id stored hstored
      refine ⟨hmem, other, otherDir, rfl, ?_, hkept⟩
      rw [hget _ fun heq => hid' (hapart _ hmem ref.runId hid heq)]
      exact hother
  · intro name other hother
    by_cases hname : name = p.runDir ref.runId
    · exact ⟨ref.runId, hid, hname⟩
    · rw [hget name hname] at hother
      exact h.directories name other hother

theorem Mirrors.put {other : RunStateRef} (hrun : other.runId = ref.runId)
    (h : Mirrors p other checkpoints dir) (hnamed : p.takesName ref.sequence = true) :
    Mirrors p ref (checkpoints.set ref.sequence payload)
      (FileRunStateStore.written p dir ref payload) := by
  have hat : ∀ n, other.at_ n = ref.at_ n := by
    intro n
    cases other
    cases ref
    cases hrun
    rfl
  constructor
  · intro hempty
    have hself := Dict.get?_set_self checkpoints ref.sequence payload
    rw [Dict.get?, hempty] at hself
    cases hself
  · rw [FileRunStateStore.written, h.identity, hrun]
    rfl
  · intro n
    rw [FileRunStateStore.written, Dict.get?_set, Dict.get?_set]
    by_cases hn : n = ref.sequence
    · subst hn
      rw [if_pos rfl, if_pos rfl]
      rfl
    · rw [if_neg hn, if_neg hn, h.states n, hat]
  · intro n stored hstored
    rw [Dict.get?_set] at hstored
    by_cases hn : n = ref.sequence
    · subst hn
      exact hnamed
    · rw [if_neg hn] at hstored
      exact h.named n stored hstored

theorem Mirrors.first (p : Platform) (ref : RunStateRef) (payload : String)
    (hnamed : p.takesName ref.sequence = true) :
    Mirrors p ref (Dict.empty.set ref.sequence payload)
      (FileRunStateStore.written p {} ref payload) := by
  constructor
  · intro hempty
    have hself := Dict.get?_set_self (Dict.empty : Dict ℕ String) ref.sequence payload
    rw [Dict.get?, hempty] at hself
    cases hself
  · rfl
  · intro n
    rw [FileRunStateStore.written, Dict.get?_set, Dict.get?_set]
    by_cases hn : n = ref.sequence
    · subst hn
      rw [if_pos rfl, if_pos rfl]
      rfl
    · rw [if_neg hn, if_neg hn]
      rfl
  · intro n stored hstored
    rw [Dict.get?_set] at hstored
    by_cases hn : n = ref.sequence
    · subst hn
      exact hnamed
    · rw [if_neg hn] at hstored
      cases hstored

/-- **A put** answers alike and keeps the stores related, where the file system takes
    the name; elsewhere the file store refuses what the memory store stores. -/
theorem Related.putAt (h : Related p ids f m) (hapart : Apart p ids) (hid : ref.runId ∈ ids)
    (payload : String) :
    (p.takesName ref.sequence = true →
      (f.putAt p ref payload).2.toOption = (m.putAt ref payload).2.toOption ∧
        Related p ids (f.putAt p ref payload).1 (m.putAt ref payload).1) ∧
      (p.takesName ref.sequence = false →
        (f.putAt p ref payload).2.toOption ≠ (m.putAt ref payload).2.toOption) := by
  unfold FileRunStateStore.putAt MemoryRunStateStore.putAt
  dsimp only
  rw [get?_ensureDirectory, if_pos rfl, Option.getD_some]
  cases hruns : m.runs.get? ref.runId with
  | none =>
    have hdir : (f.directories.get? (p.runDir ref.runId)).getD {} = {} := by
      cases hget : f.directories.get? (p.runDir ref.runId) with
      | none => rfl
      | some dir => exact h.absent ref.runId hid hruns dir hget
    have hnothing : (Dict.empty : Dict ℕ String).get? ref.sequence = none := rfl
    rw [hdir, Option.getD_none, hnothing]
    constructor
    · intro hnamed
      rw [hnamed, if_neg (by decide), if_neg (by simp), if_neg (by simp)]
      exact ⟨rfl, h.set hapart hid (.first p ref payload hnamed)⟩
    · intro hunnamed
      rw [hunnamed, if_pos rfl, if_neg (by simp)]
      intro heq
      cases heq
  | some checkpoints =>
    obtain ⟨-, other, dir, hother, hget, hmirrors⟩ := h.kept _ _ hruns
    rw [hget, Option.getD_some, Option.getD_some, hmirrors.states]
    constructor
    · intro hnamed
      rw [hnamed, if_neg (by decide)]
      cases hstored : checkpoints.get? ref.sequence with
      | some stored =>
        rw [Option.map_some, if_pos Option.isSome_some, if_pos Option.isSome_some]
        have hensured : f.ensureDirectory p ref.runId = f := by
          rw [FileRunStateStore.ensureDirectory, hget]
          rfl
        refine ⟨rfl, ?_⟩
        rw [hensured]
        refine h.congr fun id => ?_
        by_cases hsame : id = ref.runId
        · subst hsame
          rw [Dict.get?_set_self, hruns]
        · exact Dict.get?_set_of_ne _ _ hsame
      | none =>
        rw [Option.map_none, if_neg (by simp), if_neg (by simp)]
        exact ⟨rfl, h.set hapart hid (hmirrors.put hother hnamed)⟩
    · intro hunnamed
      rw [hunnamed, if_pos rfl]
      cases hstored : checkpoints.get? ref.sequence with
      | some stored =>
        have hnamed := hmirrors.named _ stored hstored
        rw [hunnamed] at hnamed
        cases hnamed
      | none =>
        rw [if_neg (by simp)]
        intro heq
        cases heq

theorem Related.put (h : Related p ids f m) (hapart : Apart p ids) (sequence : ℤ) (payload : String)
    (hid : runId ∈ ids) :
    ((∀ ref, RunStateRef.of runId sequence = .ok ref → p.takesName ref.sequence = true) →
      (f.put p runId sequence payload).2.toOption = (m.put runId sequence payload).2.toOption ∧
        Related p ids (f.put p runId sequence payload).1 (m.put runId sequence payload).1) ∧
      (¬ (∀ ref, RunStateRef.of runId sequence = .ok ref → p.takesName ref.sequence = true) →
        (f.put p runId sequence payload).2.toOption ≠
          (m.put runId sequence payload).2.toOption) := by
  rw [FileRunStateStore.put, MemoryRunStateStore.put]
  cases hof : RunStateRef.of runId sequence with
  | error e =>
    refine ⟨fun _ => ⟨rfl, h⟩, fun hnot => absurd (fun ref hr => ?_) hnot⟩
    exact nomatch hr
  | ok ref =>
    obtain ⟨rfl, -⟩ := of_eq_ok hof
    obtain ⟨halike, hdiffer⟩ := h.putAt hapart hid payload
    constructor
    · intro hmeets
      exact halike (hmeets ref rfl)
    · intro hnot
      refine hdiffer (Bool.not_eq_true _ ▸ fun hnamed => hnot fun other hother => ?_)
      obtain rfl := Except.ok.inj hother
      exact hnamed

theorem get_of_stored {stored : String} (hdir : f.directories.get? (p.runDir ref.runId) = some dir)
    (hstored : dir.states.get? ref.sequence = some stored) :
    f.get p ref = (do
      let (header, read) ← Platform.split (readText stored)
      p.verified ref header read) := by
  rw [FileRunStateStore.get, hdir]
  change (orRefuse (dir.states.get? ref.sequence) _ >>= _) = _
  rw [hstored]
  rfl

/-- **A get** refuses what neither store holds; of what both hold, the file store reads
    back a text, or refuses it as altered. -/
theorem Related.get (h : Related p ids f m) (ref : RunStateRef) (hid : ref.runId ∈ ids) :
    (m.held ref = none → (f.get p ref).toOption = none ∧ (m.get ref).toOption = none) ∧
      ∀ payload, m.held ref = some payload → m.get ref = .ok payload ∧
        f.get p ref = if p.sha256 (readText payload) = p.sha256 payload
          then .ok (readText payload) else .error (.altered ref.runId ref.sequence) := by
  unfold MemoryRunStateStore.held MemoryRunStateStore.get
  cases hruns : m.runs.get? ref.runId with
  | none =>
    refine ⟨fun _ => ⟨?_, rfl⟩, fun payload hheld => by cases hheld⟩
    unfold FileRunStateStore.get
    cases hget : f.directories.get? (p.runDir ref.runId) with
    | none => rfl
    | some dir =>
      rw [h.absent ref.runId hid hruns dir hget]
      rfl
  | some checkpoints =>
    obtain ⟨-, other, dir, hother, hget, hmirrors⟩ := h.kept _ _ hruns
    have hat : other.at_ ref.sequence = ref := by
      cases other
      cases ref
      cases hother
      rfl
    have hstates : dir.states.get? ref.sequence =
        (checkpoints.get? ref.sequence).map (p.contents ref) := by
      rw [hmirrors.states, hat]
    rw [Option.bind_some]
    constructor
    · intro hnone
      rw [hnone] at hstates
      constructor
      · rw [FileRunStateStore.get, hget]
        change (orRefuse (dir.states.get? ref.sequence) _ >>= _).toOption = none
        rw [hstates]
        rfl
      · change (orRefuse (checkpoints.get? ref.sequence) _).toOption = none
        rw [hnone]
        rfl
    · intro payload hheld
      rw [hheld] at hstates
      refine ⟨congrArg (orRefuse · _) hheld, ?_⟩
      exact (get_of_stored hget hstates).trans (verified_contents p ref payload)

theorem getLast?_sequences {l l' : List ℕ} (h : ∀ n, n ∈ l ↔ n ∈ l') :
    (l.insertionSort (· ≤ ·)).getLast? = l'.max? := by
  cases hlast : (l.insertionSort (· ≤ ·)).getLast? with
  | none =>
    rw [List.getLast?_eq_none_iff] at hlast
    have hnil : l' = [] := by
      rw [List.eq_nil_iff_forall_not_mem]
      intro n hn
      have hmem := (List.mem_insertionSort (· ≤ ·)).mpr ((h n).mpr hn)
      rw [hlast] at hmem
      cases hmem
    rw [hnil]
    rfl
  | some last =>
    obtain ⟨init, hinit⟩ := List.getLast?_eq_some_iff.mp hlast
    have hsorted := List.pairwise_insertionSort (· ≤ ·) l
    rw [hinit, List.pairwise_append] at hsorted
    have hmem : ∀ n, n ∈ l' ↔ n ∈ init ∨ n = last := by
      intro n
      rw [← h, ← List.mem_insertionSort (· ≤ ·), hinit, List.mem_append, List.mem_singleton]
    refine (List.max?_eq_some_iff.mpr ⟨(hmem last).mpr (Or.inr rfl), ?_⟩).symm
    intro n hn
    rcases (hmem n).mp hn with hn | rfl
    · exact hsorted.2.2 n hn last (List.mem_singleton_self last)
    · exact le_refl n

theorem Related.latest (h : Related p ids f m) (hid : runId ∈ ids) :
    f.latest p runId = m.latest runId := by
  unfold FileRunStateStore.latest MemoryRunStateStore.latest
  cases hof : RunStateRef.of runId 0 with
  | error e => rfl
  | ok ref =>
    simp only [bind, Except.bind]
    cases hruns : m.runs.get? runId with
    | none =>
      cases hget : f.directories.get? (p.runDir runId) with
      | none => rfl
      | some dir =>
        rw [h.absent runId hid hruns dir hget]
        rfl
    | some checkpoints =>
      obtain ⟨-, other, dir, -, hget, hmirrors⟩ := h.kept _ _ hruns
      rw [hget, Option.getD_some]
      have hkeys : ∀ n, n ∈ dir.states.keys ↔ n ∈ checkpoints.keys := by
        intro n
        rw [Dict.mem_keys_iff, Dict.mem_keys_iff, hmirrors.states n]
        simp only [Option.map_eq_some_iff]
        constructor
        · rintro ⟨_, payload, hpayload, -⟩
          exact ⟨payload, hpayload⟩
        · rintro ⟨payload, hpayload⟩
          exact ⟨_, payload, hpayload, rfl⟩
      dsimp only
      rw [FileRunStateStore.sequences, getLast?_sequences hkeys]

/-! ## The runs listed -/

theorem Related.directory (h : Related p ids f m) {name : String}
    (hget : f.directories.get? name = some dir) :
    dir = {} ∨ ∃ (ref : RunStateRef) (checkpoints : Dict ℕ String),
      m.runs.get? ref.runId = some checkpoints ∧ name = p.runDir ref.runId ∧
        Mirrors p ref checkpoints dir := by
  obtain ⟨id, hid, rfl⟩ := h.directories name dir hget
  cases hruns : m.runs.get? id with
  | none => exact Or.inl (h.absent id hid hruns dir hget)
  | some checkpoints =>
    obtain ⟨-, ref, dir', rfl, hget', hmirrors⟩ := h.kept id checkpoints hruns
    obtain rfl := Option.some.inj (hget.symm.trans hget')
    exact Or.inr ⟨ref, checkpoints, hruns, rfl, hmirrors⟩

theorem Mirrors.identityOf (h : Mirrors p ref checkpoints dir) :
    FileRunStateStore.identityOf p dir = .ok (some ref.runId) := by
  have hsome : FileRunStateStore.sequences dir ≠ [] := by
    intro hnil
    obtain ⟨entry, hentry⟩ := List.exists_mem_of_ne_nil _ h.some_
    have hstored := h.states entry.1
    rw [(Dict.get?_eq_some checkpoints).mpr hentry, Option.map_some] at hstored
    have hmem : entry.1 ∈ FileRunStateStore.sequences dir :=
      (List.mem_insertionSort (· ≤ ·)).mpr ((Dict.mem_keys_iff _).mpr ⟨_, hstored⟩)
    rw [hnil] at hmem
    cases hmem
  have hread : readText (p.identity ref.runId) = p.identity ref.runId :=
    readText_eq_self_iff.mpr (p.serialize_oneLine _).2
  rw [FileRunStateStore.identityOf, h.identity]
  dsimp only
  rw [if_neg hsome, hread, Platform.identity, p.deserialize_serialize]
  rfl

theorem insertionSort_perm {l l' : List String} (h : l.Perm l') :
    l.insertionSort (· ≤ ·) = l'.insertionSort (· ≤ ·) := by
  refine List.Perm.eq_of_pairwise (fun a b _ _ => le_antisymm)
    (List.pairwise_insertionSort (· ≤ ·) l) (List.pairwise_insertionSort (· ≤ ·) l') ?_
  exact (List.perm_insertionSort _ _).trans (h.trans (List.perm_insertionSort _ _).symm)

def listed (p : Platform) (dir : RunDirectory) : Option String :=
  (FileRunStateStore.identityOf p dir).toOption.join

theorem Mirrors.listed (h : Mirrors p ref checkpoints dir) : listed p dir = some ref.runId := by
  rw [AlphaLab.listed, h.identityOf]
  rfl

theorem Related.listed (h : Related p ids f m) {name id : String}
    (hget : f.directories.get? name = some dir) (hlisted : listed p dir = some id) :
    name = p.runDir id ∧ ∃ checkpoints, m.runs.get? id = some checkpoints := by
  rcases h.directory hget with rfl | ⟨ref, checkpoints, hruns, rfl, hmirrors⟩
  · cases hlisted
  · rw [hmirrors.listed] at hlisted
    obtain rfl := Option.some.inj hlisted
    exact ⟨rfl, checkpoints, hruns⟩

theorem Related.listRuns (h : Related p ids f m) : f.listRuns p = .ok m.listRuns := by
  have hread : ∀ dir ∈ f.directories.values,
      FileRunStateStore.identityOf p dir = .ok (AlphaLab.listed p dir) := by
    intro dir hdir
    obtain ⟨name, hname⟩ := Dict.mem_values.mp hdir
    rcases h.directory hname with rfl | ⟨ref, checkpoints, -, -, hmirrors⟩
    · rfl
    · rw [hmirrors.listed]
      exact hmirrors.identityOf
  have hfile : (f.directories.values.filterMap (AlphaLab.listed p)).Nodup := by
    have hkeys := f.directories.nodup
    rw [List.Nodup, List.pairwise_map] at hkeys
    rw [Dict.values, List.filterMap_map, List.Nodup, List.pairwise_filterMap]
    refine hkeys.imp_of_mem ?_
    rintro e e' he he' hne a ha b hb rfl
    have hname := (h.listed ((Dict.get?_eq_some _).mpr he) ha).1
    exact hne (hname.trans (h.listed ((Dict.get?_eq_some _).mpr he') hb).1.symm)
  have hmemory : ((m.runs.entries.filter fun run => run.2.entries ≠ []).map Prod.fst).Nodup :=
    m.runs.nodup.sublist (List.filter_sublist.map _)
  have hperm : (f.directories.values.filterMap (AlphaLab.listed p)).Perm
      ((m.runs.entries.filter fun run => run.2.entries ≠ []).map Prod.fst) := by
    rw [List.perm_ext_iff_of_nodup hfile hmemory]
    intro id
    simp only [List.mem_filterMap, List.mem_map, List.mem_filter, decide_eq_true_eq]
    constructor
    · rintro ⟨dir, hdir, hlisted⟩
      obtain ⟨name, hname⟩ := Dict.mem_values.mp hdir
      obtain ⟨-, checkpoints, hruns⟩ := h.listed hname hlisted
      obtain ⟨-, _, _, -, -, hmirrors⟩ := h.kept _ _ hruns
      exact ⟨(id, checkpoints), ⟨(Dict.get?_eq_some _).mp hruns, hmirrors.some_⟩, rfl⟩
    · rintro ⟨⟨runId, checkpoints⟩, ⟨hentry, -⟩, rfl⟩
      obtain ⟨-, ref, dir, hname, hget, hmirrors⟩ :=
        h.kept _ _ ((Dict.get?_eq_some _).mpr hentry)
      exact ⟨dir, Dict.mem_values.mpr ⟨_, hget⟩, hname ▸ hmirrors.listed⟩
  rw [FileRunStateStore.listRuns, mapM_ok hread]
  change Except.ok (((f.directories.values.map (AlphaLab.listed p)).filterMap id).insertionSort
    (· ≤ ·)) = Except.ok m.listRuns
  rw [MemoryRunStateStore.listRuns, List.filterMap_map, Function.id_comp]
  exact congrArg Except.ok (insertionSort_perm hperm)

def Meets (p : Platform) (m : MemoryRunStateStore) : StoreCall → Prop
  | .put runId sequence _ =>
    ∀ ref, RunStateRef.of runId sequence = .ok ref → p.takesName ref.sequence = true
  | .get ref => ∀ payload, m.held ref = some payload → '\r' ∉ payload.toList
  | .latest _ | .listRuns => True

/-- **One call**: it answers alike and keeps the stores related exactly where it meets
    the condition. -/
theorem Related.call (h : Related p ids f m) (hapart : Apart p ids) {call : StoreCall}
    (hid : ∀ id, call.runId? = some id → id ∈ ids) :
    (Meets p m call → (f.call p call).2.toOption = (m.call call).2.toOption ∧
      Related p ids (f.call p call).1 (m.call call).1) ∧
      (¬ Meets p m call → (f.call p call).2.toOption ≠ (m.call call).2.toOption) := by
  have hmap : ∀ {α : Type} (r : Except StoreRefusal α) (k : α → StoreAnswer),
      (r.map k).toOption = r.toOption.map k := by
    intro α r k
    cases r <;> rfl
  cases call with
  | put runId sequence payload =>
    change (_ → (((f.put p runId sequence payload).2.map StoreAnswer.stored).toOption =
      ((m.put runId sequence payload).2.map StoreAnswer.stored).toOption ∧
        Related p ids (f.put p runId sequence payload).1 (m.put runId sequence payload).1)) ∧
      (_ → ((f.put p runId sequence payload).2.map StoreAnswer.stored).toOption ≠
        ((m.put runId sequence payload).2.map StoreAnswer.stored).toOption)
    obtain ⟨halike, hdiffer⟩ := h.put hapart sequence payload (hid runId rfl)
    rw [hmap, hmap]
    constructor
    · intro hmeets
      obtain ⟨hsame, hrelated⟩ := halike hmeets
      exact ⟨by rw [hsame], hrelated⟩
    · intro hnot heq
      exact hdiffer hnot (Option.map_injective (fun _ _ hr => StoreAnswer.stored.inj hr) heq)
  | get ref =>
    obtain ⟨hneither, hboth⟩ := h.get ref (hid _ rfl)
    change (_ → (((f.get p ref).map StoreAnswer.payload).toOption =
      ((m.get ref).map StoreAnswer.payload).toOption ∧ Related p ids f m)) ∧
      (_ → ((f.get p ref).map StoreAnswer.payload).toOption ≠
        ((m.get ref).map StoreAnswer.payload).toOption)
    rw [hmap, hmap]
    cases hheld : m.held ref with
    | none =>
      obtain ⟨hfile, hmemory⟩ := hneither hheld
      rw [hfile, hmemory]
      refine ⟨fun _ => ⟨rfl, h⟩, fun hnot => absurd (fun _ hr => ?_) hnot⟩
      rw [hheld] at hr
      cases hr
    | some payload =>
      obtain ⟨hmemory, hfile⟩ := hboth payload hheld
      rw [hfile, hmemory]
      constructor
      · intro hmeets
        have hread := readText_eq_self_iff.mpr (hmeets payload hheld)
        rw [hread, if_pos rfl]
        exact ⟨rfl, h⟩
      · intro hnot heq
        refine hnot fun other hother => ?_
        obtain rfl := Option.some.inj (hheld.symm.trans hother)
        split_ifs at heq with hdigest
        · -- what is returned is not what was stored
          exact readText_eq_self_iff.mp (StoreAnswer.payload.inj (Option.some.inj heq))
        · cases heq
  | latest runId =>
    refine ⟨fun _ => ⟨?_, h⟩, fun hnot => absurd trivial hnot⟩
    change ((f.latest p runId).map StoreAnswer.latest).toOption =
      ((m.latest runId).map StoreAnswer.latest).toOption
    rw [h.latest (hid _ rfl)]
  | listRuns =>
    refine ⟨fun _ => ⟨?_, h⟩, fun hnot => absurd trivial hnot⟩
    change ((f.listRuns p).map StoreAnswer.runs).toOption = _
    rw [h.listRuns]
    rfl

def MeetsAll (p : Platform) (m : MemoryRunStateStore) : List StoreCall → Prop
  | [] => True
  | call :: calls => Meets p m call ∧ MeetsAll p (m.call call).1 calls

variable {calls : List StoreCall}

/-- **Calls one after another** are answered alike exactly where each meets the
    condition. -/
theorem Related.answers_iff (h : Related p ids f m) (hapart : Apart p ids)
    (hids : ∀ id ∈ calls.filterMap StoreCall.runId?, id ∈ ids) :
    answers (FileRunStateStore.call p) f calls = answers MemoryRunStateStore.call m calls ↔
      MeetsAll p m calls := by
  induction calls generalizing f m with
  | nil => exact ⟨fun _ => trivial, fun _ => rfl⟩
  | cons call calls ih =>
    have hfirst : ∀ id, call.runId? = some id → id ∈ ids := by
      intro id hid
      exact hids id (List.mem_filterMap.mpr ⟨call, List.mem_cons_self, hid⟩)
    have hrest : ∀ id ∈ calls.filterMap StoreCall.runId?, id ∈ ids := by
      intro id hid
      obtain ⟨other, hmem, hother⟩ := List.mem_filterMap.mp hid
      exact hids id (List.mem_filterMap.mpr ⟨other, List.mem_cons_of_mem _ hmem, hother⟩)
    obtain ⟨halike, hdiffer⟩ := h.call hapart hfirst
    rw [answers, answers, MeetsAll, List.cons.injEq]
    by_cases hmeets : Meets p m call
    · obtain ⟨hsame, hrelated⟩ := halike hmeets
      rw [ih hrelated hrest]
      exact ⟨fun hr => ⟨hmeets, hr.2⟩, fun hr => ⟨hsame, hr.2⟩⟩
    · exact ⟨fun hr => absurd hr.1 (hdiffer hmeets), fun hr => absurd hr.1 hmeets⟩

/-! ## What the memory store holds -/

def memoryAfter (m : MemoryRunStateStore) (calls : List StoreCall) : MemoryRunStateStore :=
  calls.foldl (fun m call => (m.call call).1) m

theorem held_putAt (m : MemoryRunStateStore) (put ref : RunStateRef) (payload : String) :
    (m.putAt put payload).1.held ref =
      (m.held ref).or
        (if put.runId = ref.runId ∧ put.sequence = ref.sequence then some payload else none) := by
  unfold MemoryRunStateStore.putAt MemoryRunStateStore.held
  dsimp only
  by_cases hrun : ref.runId = put.runId
  · cases hruns : m.runs.get? put.runId with
    | none =>
      rw [Option.getD_none, if_neg (by simp), hrun, Dict.get?_set_self, hruns, Option.bind_some,
        Dict.get?_set]
      by_cases hseq : ref.sequence = put.sequence
      · simp [hseq]
      · simp [hseq, Ne.symm hseq]
    | some checkpoints =>
      rw [Option.getD_some]
      by_cases hseq : ref.sequence = put.sequence
      · cases hstored : checkpoints.get? put.sequence with
        | none => simp [hrun, hseq, hruns, hstored]
        | some stored => simp [hrun, hseq, hruns, hstored]
      · split_ifs with hstored hsame
        · exact absurd hsame.2.symm hseq
        · rw [hrun, Dict.get?_set_self, hruns, Option.or_none]
        · rename_i hsame
          exact absurd hsame.2.symm hseq
        · rw [hrun, Dict.get?_set_self, hruns, Option.bind_some, Option.bind_some,
            Dict.get?_set_of_ne _ _ hseq, Option.or_none]
  · have hother : ¬(put.runId = ref.runId ∧ put.sequence = ref.sequence) :=
      fun hsame => hrun hsame.1.symm
    rw [if_neg hother, Option.or_none]
    split_ifs
    · rw [Dict.get?_set_of_ne _ _ hrun]
    · rw [Dict.get?_set_of_ne _ _ hrun]

theorem held_call (m : MemoryRunStateStore) (call : StoreCall) (ref : RunStateRef) :
    (m.call call).1.held ref = (m.held ref).or (putFirst [call] ref) := by
  cases call with
  | put runId sequence payload =>
    change (m.put runId sequence payload).1.held ref = _
    rw [MemoryRunStateStore.put, putFirst, List.findSome?_singleton]
    dsimp only
    cases hof : RunStateRef.of runId sequence with
    | error e =>
      -- a reference is valid, so what was refused is not it
      have hother : ¬(runId = ref.runId ∧ sequence = (ref.sequence : ℤ)) := by
        rintro ⟨rfl, rfl⟩
        rw [RunStateRef.of, dif_pos ref.named, dif_pos ref.noSeparator,
          if_pos (Int.natCast_nonneg _)] at hof
        cases hof
      rw [if_neg hother, Option.or_none]
    | ok put =>
      obtain ⟨rfl, rfl⟩ := of_eq_ok hof
      dsimp only
      rw [held_putAt]
      simp only [Nat.cast_inj]
  | get _ | latest _ | listRuns =>
    change m.held ref = (m.held ref).or none
    rw [Option.or_none]

/-- **What the memory store holds is what it was first given.** -/
theorem held_memoryAfter (m : MemoryRunStateStore) (calls : List StoreCall) (ref : RunStateRef) :
    (memoryAfter m calls).held ref = (m.held ref).or (putFirst calls ref) := by
  induction calls generalizing m with
  | nil => exact (Option.or_none).symm
  | cons call calls ih =>
    have hfirst : putFirst (call :: calls) ref = (putFirst [call] ref).or (putFirst calls ref) := by
      rw [← List.singleton_append, putFirst, List.findSome?_append]
      rfl
    rw [hfirst, ← Option.or_assoc, ← held_call]
    exact ih (m.call call).1

theorem meetsAll_iff :
    MeetsAll p m calls ↔
      ∀ before call after, calls = before ++ call :: after →
        Meets p (memoryAfter m before) call := by
  induction calls generalizing m with
  | nil =>
    refine ⟨fun _ before call after h => ?_, fun _ => trivial⟩
    cases before <;> cases h
  | cons call calls ih =>
    rw [MeetsAll, ih]
    constructor
    · rintro ⟨hfirst, hrest⟩ before other after h
      cases before with
      | nil =>
        obtain ⟨rfl, -⟩ := List.cons.inj h
        exact hfirst
      | cons first before =>
        obtain ⟨rfl, htail⟩ := List.cons.inj h
        exact hrest before other after htail
    · intro h
      refine ⟨h [] call calls rfl, fun before other after hcalls => ?_⟩
      exact h (call :: before) other after (congrArg (call :: ·) hcalls)

theorem storableCalls_iff : StorableCalls p calls ↔ MeetsAll p {} calls := by
  have hheld : ∀ before ref, (memoryAfter {} before).held ref = putFirst before ref := by
    intro before ref
    rw [held_memoryAfter]
    exact Option.none_or
  rw [meetsAll_iff]
  constructor
  · rintro ⟨hread, hnamed⟩ before call after rfl
    cases call with
    | put runId sequence payload =>
      exact hnamed runId sequence payload (List.mem_append_right _ List.mem_cons_self)
    | get ref =>
      intro payload hpayload
      exact hread before ref after rfl payload ((hheld before ref).symm.trans hpayload)
    | latest _ => trivial
    | listRuns => trivial
  · intro h
    constructor
    · intro before ref after hcalls payload hpayload
      exact h before _ after hcalls payload ((hheld before ref).trans hpayload)
    · intro runId sequence payload hmem
      obtain ⟨before, after, hcalls⟩ := List.append_of_mem hmem
      exact h before _ after hcalls

theorem answers_getElem? {σ : Type} (call : σ → StoreCall → σ × Except StoreRefusal StoreAnswer)
    (s : σ) (before : List StoreCall) (c : StoreCall) (after : List StoreCall) :
    (answers call s (before ++ c :: after))[before.length]? =
      some (call (before.foldl (fun s c => (call s c).1) s) c).2.toOption := by
  induction before generalizing s with
  | nil => rfl
  | cons first before ih =>
    rw [List.cons_append, answers, List.length_cons, List.getElem?_cons_succ, List.foldl_cons]
    exact ih (call s first).1

/-- Answers alike are exact: the memory store returns what it was given. -/
theorem exact_of_alike {calls before after : List StoreCall}
    (halike : answers (FileRunStateStore.call p) {} calls =
      answers MemoryRunStateStore.call {} calls)
    (hcalls : calls = before ++ .get ref :: after) (hput : putFirst before ref = some payload) :
    (answers (FileRunStateStore.call p) {} calls)[before.length]? =
      some (some (.payload payload)) := by
  have hheld : (memoryAfter {} before).held ref = some payload := by
    rw [held_memoryAfter, hput]
    rfl
  have hget : (memoryAfter {} before).get ref = .ok payload := by
    unfold MemoryRunStateStore.held at hheld
    obtain ⟨checkpoints, hruns, hstored⟩ := Option.bind_eq_some_iff.mp hheld
    rw [MemoryRunStateStore.get, hruns]
    exact congrArg (orRefuse · _) hstored
  rw [halike, hcalls, answers_getElem?]
  change some ((((memoryAfter {} before).get ref).map StoreAnswer.payload).toOption) = _
  rw [hget]
  rfl

/-- **The stores agree on calls exactly where** no checkpoint that holds a carriage return
    is read back and every checkpoint has a name the file system takes, of runs whose
    digests tell them apart. -/
theorem stores_agree_iff (p : Platform) (calls : List StoreCall) (h : p.DirectoriesApart calls) :
    StoresAgree p calls ↔ StorableCalls p calls := by
  have halike := (related_empty p (calls.filterMap StoreCall.runId?)).answers_iff h fun _ => id
  rw [storableCalls_iff, ← halike]
  constructor
  · exact StoresAgree.alike
  · intro hsame
    exact ⟨hsame, fun before ref after payload => exact_of_alike hsame⟩

end

/-! ## A carriage return -/

/-- A text as the numbers of its characters. -/
instance encodableString : Encodable String :=
  Encodable.ofLeftInjection (fun text => text.toList.map Char.toNat)
    (fun numbers => some (String.ofList (numbers.map Char.ofNat))) fun text => by
      have hid : Char.ofNat ∘ Char.toNat = id := funext fun c => Char.ofNat_toNat c
      rw [List.map_map, hid, List.map_id, String.ofList_toList]

instance encodableFlatObject : Encodable FlatObject :=
  inferInstanceAs (Encodable (List (String × (String ⊕ ℤ))))

def unaryPlatform : Platform where
  sha256 := id
  serialize fields := String.ofList (List.replicate (Encodable.encode fields) 'x')
  deserialize text := Encodable.decode text.toList.length
  takesName _ := true
  deserialize_serialize fields := by simp
  serialize_oneLine fields := by simp [List.mem_replicate]

def firstOfRun : RunStateRef := ⟨"run", 0, by decide, by decide⟩

def putAndGet (payload : String) : List StoreCall := [.put "run" 0 payload, .get firstOfRun]

theorem putAndGet_apart (p : Platform) (payload : String) :
    p.DirectoriesApart (putAndGet payload) := by
  intro a ha b hb _
  have hrun : ∀ c ∈ (putAndGet payload).filterMap StoreCall.runId?, c = "run" := by
    intro c hc
    simpa [putAndGet, StoreCall.runId?, firstOfRun] using hc
  rw [hrun a ha, hrun b hb]

theorem two_lines_read_back : StoresAgree unaryPlatform (putAndGet "two\nlines") := by
  refine (stores_agree_iff unaryPlatform _ (putAndGet_apart _ _)).mpr
    ⟨?_, fun _ _ _ _ _ _ => rfl⟩
  rintro before ref after hcalls payload hput
  rcases before with _ | ⟨first, _ | ⟨second, before⟩⟩
  · cases hcalls
  · cases hcalls
    obtain rfl : "two\nlines" = payload := Option.some.inj hput
    decide
  · have hlength := congrArg List.length hcalls
    simp only [putAndGet, List.length_cons, List.length_nil, List.length_append] at hlength
    omega

/-- **A payload with a carriage return is not read back**: its bytes are refused as
    altered, where the memory store returns it. -/
theorem carriage_return_not_read_back : ¬ StoresAgree unaryPlatform (putAndGet "a\rb") := by
  rintro ⟨halike, -⟩
  obtain ⟨-, hget, -⟩ := ((related_empty unaryPlatform _).answers_iff
    (putAndGet_apart _ _) fun _ => id).mp halike
  refine hget "a\rb" ?_ (by decide)
  rw [held_call]
  rfl

end AlphaLab
