/-
  The references the lifecycle passes between packages (`lifecycle/identity.py`).

  A reference is a name and a version number, rendered `name@version`.  A name may
  not hold the separator, so a rendered reference is read back as it was
  (`parseRef_render`) and no two references are rendered alike (`render_injective`).
-/
import AlphaLab.Portfolio.State

namespace AlphaLab

open Fallible

inductive LifecycleRefusal where
  | notPermitted (actorId permission : String)
  | input (what : String)
  | transition (what : String)
  | deploymentManager (what : String)
  | modelRegistry (what : String)

def sortedEntries {ν : Type} (d : Dict String ν) : List (String × ν) :=
  d.entries.insertionSort fun a b => a.1 ≤ b.1

/-! ## References -/

def separator : Char := '@'

/-- A name and a version number, as `_validate` admits them. -/
structure VersionRef where
  name : String
  version : ℤ
  named : blank name = false
  noSeparator : separator ∉ name.toList
  positive : 1 ≤ version
deriving DecidableEq

theorem VersionRef.ext_of {a b : VersionRef} (hname : a.name = b.name)
    (hversion : a.version = b.version) : a = b := by
  cases a
  cases b
  simp only at hname hversion
  subst hname hversion
  rfl

structure ModelRef extends VersionRef

structure StrategyVersionRef extends VersionRef
deriving DecidableEq

/-- `_validate`, and the reference it admits. -/
def VersionRef.of (kind name : String) (version : ℤ) : Except LifecycleRefusal VersionRef :=
  if hnamed : blank name = false then
    if hseparator : separator ∉ name.toList then
      if hpositive : 1 ≤ version then .ok ⟨name, version, hnamed, hseparator, hpositive⟩
      else .error (.input (kind ++ " version"))
    else .error (.input (kind ++ " name"))
  else .error (.input (kind ++ " name"))

/-- `name@version` -/
def renderRef (name : String) (version : ℤ) : String :=
  String.ofList (name.toList ++ separator :: (toString version).toList)

/-- `__str__` of a reference. -/
def VersionRef.render (ref : VersionRef) : String := renderRef ref.name ref.version

/-- `StrategyVersionRef(name, version)` -/
def StrategyVersionRef.of (name : String) (version : ℤ) :
    Except LifecycleRefusal StrategyVersionRef :=
  return ⟨← VersionRef.of "Strategy" name version⟩

/-- `ModelRef(name, version)` -/
def ModelRef.of (name : String) (version : ℤ) : Except LifecycleRefusal ModelRef :=
  return ⟨← VersionRef.of "Model" name version⟩

/-- `DeploymentRef`: where a release runs, and which release it is. -/
structure DeploymentRef where
  environment : String
  release : VersionRef
  placed : blank environment = false

/-- `DeploymentRef(environment, release_name, release_version)` -/
def DeploymentRef.of (environment releaseName : String) (releaseVersion : ℤ) :
    Except LifecycleRefusal DeploymentRef :=
  if hplaced : blank environment = false then do
    let release ← VersionRef.of "Release" releaseName releaseVersion
    return ⟨environment, release, hplaced⟩
  else .error (.input "Deployment environment")

/-! ## Reading a reference back -/

/-- `rpartition`: what stands before and after the last `c`. -/
def rpartition (c : Char) (text : List Char) : Option (List Char × List Char) :=
  match text.reverse.dropWhile (· ≠ c) with
  | [] => none
  | _ :: before => some (before.reverse, (text.reverse.takeWhile (· ≠ c)).reverse)

/-- `strip`: the text without the blanks around it. -/
def strip (text : List Char) : List Char :=
  ((text.dropWhile isSpace).reverse.dropWhile isSpace).reverse

/-- The number decimal digits stand for; a single underscore may stand between two of them. -/
def readDigits (text : List Char) : Option ℕ :=
  let digits := text.filter (· ≠ '_')
  let spaced := text.head? ≠ some '_' ∧ text.getLast? ≠ some '_' ∧ ¬ ['_', '_'] <:+: text
  if digits ≠ [] ∧ digits.all Char.isDigit ∧ spaced then some (Nat.ofDigitChars 10 digits 0)
  else none

/-- `int(text)`: decimal digits after a sign, if there is one. -/
def parseInt (text : List Char) : Option ℤ :=
  match strip text with
  | '-' :: digits => (readDigits digits).map fun n => -(n : ℤ)
  | '+' :: digits => (readDigits digits).map fun n => (n : ℤ)
  | digits => (readDigits digits).map fun n => (n : ℤ)

/-- `parse_ref`: the parts of a rendered reference. -/
def parseRef (reference : String) : Except LifecycleRefusal (String × ℤ) := do
  let (name, version) ← orRefuse (rpartition separator reference.toList) (.input "reference")
  let parsed ← orRefuse (parseInt version) (.input "reference version")
  require (1 ≤ parsed) (.input "reference version")
  return (String.ofList name, parsed)

theorem rpartition_append {c : Char} {before after : List Char} (h : c ∉ after) :
    rpartition c (before ++ c :: after) = some (before, after) := by
  have hne : ∀ x ∈ after.reverse, decide (x ≠ c) = true := by
    intro x hx
    refine decide_eq_true ?_
    rintro rfl
    exact h (List.mem_reverse.mp hx)
  have hreverse : (before ++ c :: after).reverse = after.reverse ++ c :: before.reverse := by
    simp
  have hdrop : (before ++ c :: after).reverse.dropWhile (· ≠ c) = c :: before.reverse := by
    rw [hreverse, List.dropWhile_append_of_pos hne]
    simp
  have htake : (before ++ c :: after).reverse.takeWhile (· ≠ c) = after.reverse := by
    rw [hreverse, List.takeWhile_append_of_pos hne]
    simp
  rw [rpartition, hdrop, htake]
  simp

theorem strip_of_no_space {text : List Char} (h : ∀ c ∈ text, isSpace c = false) :
    strip text = text := by
  have hdrop : ∀ l : List Char, (∀ c ∈ l, isSpace c = false) → l.dropWhile isSpace = l := by
    intro l hl
    cases l with
    | nil => rfl
    | cons c l =>
      have hc := hl c (by simp)
      simp [hc]
  rw [strip, hdrop text h, hdrop text.reverse fun c hc => h c (List.mem_reverse.mp hc),
    List.reverse_reverse]

theorem isSpace_of_isDigit {c : Char} (h : c.isDigit = true) : isSpace c = false := by
  have hrange : 48 ≤ c.val ∧ c.val ≤ 57 := by simpa [Char.isDigit] using h
  rw [isSpace, decide_eq_false_iff_not]
  intro hmem
  simp only [List.mem_cons, List.not_mem_nil, or_false] at hmem
  rcases hmem with hc | hc | hc | hc | hc | hc | hc | hc | hc | hc | hc | hc | hc | hc | hc | hc |
    hc | hc | hc | hc | hc | hc | hc | hc | hc | hc | hc | hc | hc <;>
    rw [hc] at hrange <;> exact absurd hrange (by decide)

theorem readDigits_of_digits {text : List Char} (hne : text ≠ [])
    (h : ∀ c ∈ text, c.isDigit = true) : readDigits text = some (Nat.ofDigitChars 10 text 0) := by
  have hplain : '_' ∉ text := fun hc => absurd (h '_' hc) (by decide)
  have hfilter : text.filter (· ≠ '_') = text := by
    refine List.filter_eq_self.mpr fun c hc => decide_eq_true ?_
    rintro rfl
    exact hplain hc
  have hhead : text.head? ≠ some '_' := fun hc => hplain (List.mem_of_head? hc)
  have hlast : text.getLast? ≠ some '_' := fun hc => hplain (List.mem_of_getLast? hc)
  have hpair : ¬ ['_', '_'] <:+: text := fun hc => hplain (hc.subset (by simp))
  have hall : text.all Char.isDigit = true := List.all_eq_true.mpr h
  rw [readDigits]
  simp only [hfilter]
  exact if_pos ⟨hne, hall, hhead, hlast, hpair⟩

theorem parseInt_toString (n : ℕ) : parseInt (toString (n : ℤ)).toList = some n := by
  have htext : toString (n : ℤ) = Nat.repr n := rfl
  have hdigits : ∀ c ∈ (Nat.repr n).toList, c.isDigit = true := by
    intro c hc
    rw [Nat.toList_repr] at hc
    exact Nat.isDigit_of_mem_toDigits (by decide) (by decide) hc
  have hstrip : strip (Nat.repr n).toList = (Nat.repr n).toList :=
    strip_of_no_space fun c hc => isSpace_of_isDigit (hdigits c hc)
  rw [htext, parseInt, hstrip]
  split
  · next digits hsign =>
    have hminus := hdigits '-' (by rw [hsign]; simp)
    exact absurd hminus (by decide)
  · next digits hsign =>
    have hplus := hdigits '+' (by rw [hsign]; simp)
    exact absurd hplus (by decide)
  · rw [readDigits_of_digits (by simp) hdigits]
    simp

theorem separator_notMem_toString (n : ℕ) : separator ∉ (toString (n : ℤ)).toList := by
  have htext : toString (n : ℤ) = Nat.repr n := rfl
  rw [htext, Nat.toList_repr]
  intro h
  have hdigit := Nat.isDigit_of_mem_toDigits (by decide) (by decide) h
  exact absurd hdigit (by decide)

/-- **A rendered reference is read back as it was.** -/
theorem parseRef_render (ref : VersionRef) : parseRef ref.render = .ok (ref.name, ref.version) := by
  obtain ⟨n, hn⟩ : ∃ n : ℕ, ref.version = n := ⟨ref.version.toNat, by have := ref.positive; omega⟩
  have hparts : rpartition separator ref.render.toList =
      some (ref.name.toList, (toString ref.version).toList) := by
    rw [VersionRef.render, renderRef, String.toList_ofList, hn]
    exact rpartition_append (separator_notMem_toString n)
  have hversion : parseInt (toString ref.version).toList = some ref.version := by
    rw [hn]
    exact parseInt_toString n
  rw [parseRef, hparts]
  change (orRefuse (parseInt (toString ref.version).toList) _ >>= _) = _
  rw [hversion]
  change (require (1 ≤ ref.version) _ >>= _) = _
  rw [require, if_pos ref.positive]
  change Except.ok (String.ofList ref.name.toList, ref.version) = _
  rw [String.ofList_toList]

theorem render_injective {a b : VersionRef} (h : a.render = b.render) :
    a.name = b.name ∧ a.version = b.version := by
  have hread : parseRef a.render = parseRef b.render := congrArg parseRef h
  rw [parseRef_render, parseRef_render] at hread
  exact Prod.ext_iff.mp (Except.ok.inj hread)

theorem VersionRef.of_self (kind : String) (ref : VersionRef) :
    VersionRef.of kind ref.name ref.version = .ok ref := by
  rw [VersionRef.of, dif_pos ref.named, dif_pos ref.noSeparator, dif_pos ref.positive]

end AlphaLab
