/-
  Manifests and their checksums (`deployment_manager/packaging.py`).

  * `manifestText` is the text a checksum is a digest of, `DividedAlike` says that two manifests
    with one text are cut into keys and values at the same places;
  * `checksum_tells_iff`: equal checksums are of equal manifests iff the two are cut alike.
-/
import AlphaLab.Lib.Joined
import AlphaLab.Lib.SortBy
import AlphaLab.Lifecycle.Releases

namespace AlphaLab

open Fallible Joined

abbrev Manifest := Dict String String × Dict String String

/-- `==` of two manifests: their mappings read the same. -/
def SameManifest (a b : Manifest) : Prop :=
  (∀ key, a.1.get? key = b.1.get? key) ∧ ∀ key, a.2.get? key = b.2.get? key

def ReleasePackage.manifest (package : ReleasePackage) : Manifest :=
  (package.components, package.config)

def manifestText (m : Manifest) : String :=
  let line : String × String → String := fun e => e.1 ++ "=" ++ e.2
  "\n".intercalate (["components"] ++ (sortedEntries m.1).map line ++ ["config"] ++
    (sortedEntries m.2).map line)

theorem computeChecksum_eq (sha256 : String → String) (m : Manifest) :
    computeChecksum sha256 m.1 m.2 = sha256 (manifestText m) := rfl

def entryChars (d : Dict String String) : List (List Char × List Char) :=
  (sortedEntries d).map fun e => (e.1.toList, e.2.toList)

/-- Two manifests with one text are cut into keys and values at the same places. -/
def DividedAlike (a b : Manifest) : Prop :=
  manifestText a = manifestText b →
    lengths (entryChars a.1) = lengths (entryChars b.1) ∧
      lengths (entryChars a.2) = lengths (entryChars b.2)

/-- No key holds a line feed or a sign of equality, and no value a line feed. -/
def Manifest.Plain (m : Manifest) : Prop :=
  ∀ d ∈ [m.1, m.2], ∀ e ∈ d.entries, Joined.Plain '\n' '=' (e.1.toList, e.2.toList)

theorem buildRelease_config {sha256 : String → String} {name : String} {version : ℤ}
    {components config : Dict String String} {timestamp : ℚ} {package : ReleasePackage}
    (h : buildRelease sha256 name version components config timestamp = .ok package) :
    package.manifest = (components, config) ∧
      package.checksum = computeChecksum sha256 components config := by
  obtain ⟨_, -, h⟩ := bind_ok.mp h
  obtain ⟨_, -, h⟩ := bind_ok.mp h
  obtain ⟨_, -, h⟩ := bind_ok.mp h
  obtain rfl := Except.ok.inj h
  exact ⟨rfl, rfl⟩

/-! ## What a text tells -/

theorem sortedEntries_perm (d : Dict String String) : (sortedEntries d).Perm d.entries :=
  sortBy_perm Prod.fst d.entries

theorem sortedEntries_eq_iff {d e : Dict String String} :
    sortedEntries d = sortedEntries e ↔ ∀ key, d.get? key = e.get? key := by
  have hmem : sortedEntries d = sortedEntries e ↔ ∀ x, x ∈ d.entries ↔ x ∈ e.entries := by
    constructor
    · intro h x
      rw [← (sortedEntries_perm d).mem_iff, h, (sortedEntries_perm e).mem_iff]
    · intro h
      have hsorted : sortBy Prod.fst d.entries = sortBy Prod.fst e.entries :=
        sortBy_eq_of_mem_iff d.nodup e.nodup h
      exact hsorted
  rw [hmem]
  constructor
  · intro h key
    refine Option.ext fun v => ?_
    rw [Dict.get?_eq_some, Dict.get?_eq_some, h]
  · rintro h ⟨key, v⟩
    rw [← Dict.get?_eq_some, ← Dict.get?_eq_some, h]

theorem entryChars_injective {d e : Dict String String} (h : entryChars d = entryChars e) :
    sortedEntries d = sortedEntries e := by
  refine List.map_injective_iff.mpr ?_ h
  rintro ⟨k, v⟩ ⟨k', v'⟩ hkv
  obtain ⟨hk, hv⟩ := Prod.ext_iff.mp hkv
  exact Prod.ext (String.toList_injective hk) (String.toList_injective hv)

theorem toList_manifestText (m : Manifest) : (manifestText m).toList =
    ['\n'].intercalate (sectioned '=' "components".toList "config".toList (entryChars m.1)
      (entryChars m.2)) := by
  have hlines : ∀ d : Dict String String,
      ((sortedEntries d).map fun e => e.1 ++ "=" ++ e.2).map String.toList =
        (entryChars d).map (entryText '=') := by
    intro d
    rw [entryChars, List.map_map, List.map_map]
    refine List.map_congr_left fun e _ => ?_
    simp [entryText]
  rw [manifestText, String.toList_intercalate]
  simp only [List.map_append, hlines, sectioned]
  simp

theorem sameManifest_of_text {a b : Manifest} (hcut : DividedAlike a b)
    (h : manifestText a = manifestText b) : SameManifest a b := by
  obtain ⟨hcomponents, hconfig⟩ := hcut h
  have htext := congrArg String.toList h
  rw [toList_manifestText, toList_manifestText] at htext
  obtain ⟨hcomponents, hconfig⟩ := sectioned_of_lengths hcomponents hconfig htext
  exact ⟨sortedEntries_eq_iff.mp (entryChars_injective hcomponents),
    sortedEntries_eq_iff.mp (entryChars_injective hconfig)⟩

/-- **Equal checksums are of equal manifests** iff the two are cut alike. -/
theorem checksum_tells_iff {sha256 : String → String} (hsha : Function.Injective sha256)
    (a b : Manifest) :
    (computeChecksum sha256 a.1 a.2 = computeChecksum sha256 b.1 b.2 → SameManifest a b) ↔
      DividedAlike a b := by
  rw [computeChecksum_eq, computeChecksum_eq, hsha.eq_iff]
  constructor
  · intro h htext
    obtain ⟨hcomponents, hconfig⟩ := h htext
    rw [entryChars, entryChars, entryChars, entryChars, sortedEntries_eq_iff.mpr hcomponents,
      sortedEntries_eq_iff.mpr hconfig]
    exact ⟨rfl, rfl⟩
  · exact sameManifest_of_text

theorem dividedAlike_of_plain {a b : Manifest} (ha : a.Plain) (hb : b.Plain) :
    DividedAlike a b := by
  have hplain : ∀ {d : Dict String String},
      (∀ e ∈ d.entries, Joined.Plain '\n' '=' (e.1.toList, e.2.toList)) →
        ∀ e ∈ entryChars d, Joined.Plain '\n' '=' e := by
    intro d hd e he
    obtain ⟨x, hx, rfl⟩ := List.mem_map.mp he
    exact hd x ((sortedEntries_perm d).mem_iff.mp hx)
  intro htext
  replace htext := congrArg String.toList htext
  rw [toList_manifestText, toList_manifestText] at htext
  obtain ⟨hcomponents, hconfig⟩ := sectioned_injective (by decide) (by decide) (by decide)
    (hplain (ha a.1 (by simp))) (hplain (ha a.2 (by simp))) (hplain (hb b.1 (by simp)))
    (hplain (hb b.2 (by simp))) htext
  rw [hcomponents, hconfig]
  exact ⟨rfl, rfl⟩

end AlphaLab
