import CraftecCore.Library.SortedMap
import Mathlib.Data.List.Lex
import Mathlib.Data.String.Basic

/-!
# FileSystem — the file operations a program calls

`FileSystem D` gives the operations on a disk of type `D`; each may fail, and a failed one may still
have changed the disk.  `FileTree` is the disk on which every operation succeeds: a map from paths
to contents, with directories implied by the paths.
-/

namespace FileSystem

abbrev Path := List String

/-- The extension of a file name: what follows its last dot, if something precedes that dot. -/
def extension (name : String) : Option String :=
  if name = ".." then
    none
  else
    -- `rsplitn(2, ".")` on the name: no dot, nothing before the dot, or an extension
    match name.toList.reverse.dropWhile (· ≠ '.') with
    | [] => none
    | [_] => none
    | _ => some (String.ofList (name.toList.reverse.takeWhile (· ≠ '.')).reverse)

/-- A name that ends in a dot and a dot-free text has that text as its extension. -/
theorem extension_append {stem ext : String} (hstem : stem ≠ "") (hext : ext ≠ "")
    (hdot : '.' ∉ ext.toList) : extension (stem ++ "." ++ ext) = some ext := by
  have hrev : (stem ++ "." ++ ext).toList.reverse =
      ext.toList.reverse ++ '.' :: stem.toList.reverse := by
    simp
  have hfree : ∀ c ∈ ext.toList.reverse, decide (c ≠ '.') = true := by
    intro c hc
    have hne : c ≠ '.' := fun heq => hdot (heq ▸ List.mem_reverse.1 hc)
    simpa using hne
  have hnot : stem ++ "." ++ ext ≠ ".." := by
    intro heq
    -- the last character of the name is one of the extension, hence no dot
    have hlast := congrArg (fun s => s.toList.reverse) heq
    simp only [hrev] at hlast
    cases hcases : ext.toList.reverse with
    | nil =>
        have hnil : ext.toList = [] := by simpa using hcases
        exact hext (String.toList_inj.1 hnil)
    | cons c cs =>
        have hc := hfree c (hcases ▸ List.mem_cons_self)
        rw [hcases] at hlast
        have hdotc : c = '.' := by simpa using congrArg List.head? hlast
        simp [hdotc] at hc
  have hstem' : stem.toList.reverse ≠ [] := by
    intro hnil
    exact hstem (String.toList_inj.1 (by simpa using hnil))
  have hdrop : (stem ++ "." ++ ext).toList.reverse.dropWhile (· ≠ '.') =
      '.' :: stem.toList.reverse := by
    rw [hrev, List.dropWhile_append_of_pos hfree]
    simp
  have htake : (stem ++ "." ++ ext).toList.reverse.takeWhile (· ≠ '.') = ext.toList.reverse := by
    rw [hrev, List.takeWhile_append_of_pos hfree]
    simp
  rw [extension, if_neg hnot, hdrop, htake]
  cases hcases : stem.toList.reverse with
  | nil => exact absurd hcases hstem'
  | cons c cs => simp

end FileSystem

class FileSystem (D : Type) where
  createDirAll : FileSystem.Path → D → Except String Unit × D
  /-- Open for appending, creating the file if it is missing. -/
  openAppend : FileSystem.Path → D → Except String Unit × D
  /-- Append to an open file. -/
  writeAll : FileSystem.Path → List UInt8 → D → Except String Unit × D
  /-- Names of the files in a directory. -/
  readDir : FileSystem.Path → D → Except String (List String)
  read : FileSystem.Path → D → Except String (List UInt8)

/-! ## A disk that never fails -/

structure FileTree where
  files : SortedMap FileSystem.Path (List UInt8)
  deriving DecidableEq

namespace FileTree

open FileSystem

def empty : FileTree :=
  { files := SortedMap.empty }

def openAppend (path : Path) (t : FileTree) : FileTree :=
  match t.files.get? path with
  | none => { files := t.files.insert path [] }
  | some _ => t

def writeAll (path : Path) (data : List UInt8) (t : FileTree) : FileTree :=
  { files := t.files.insert path ((t.files.get? path).getD [] ++ data) }

def names (dir : Path) (t : FileTree) : List String :=
  (t.files.keys.filter fun path => path.dropLast = dir).filterMap List.getLast?

instance : FileSystem FileTree where
  createDirAll _ t := (.ok (), t)
  openAppend path t := (.ok (), t.openAppend path)
  writeAll path data t := (.ok (), t.writeAll path data)
  readDir dir t := .ok (t.names dir)
  read path t :=
    match t.files.get? path with
    | none => .error "entity not found"
    | some data => .ok data

theorem mem_names {dir : Path} {t : FileTree} {name : String} :
    name ∈ t.names dir ↔ dir ++ [name] ∈ t.files.keys := by
  simp only [names, List.mem_filterMap, List.mem_filter, decide_eq_true_eq]
  constructor
  · rintro ⟨path, ⟨hmem, hdir⟩, hname⟩
    -- a path is its directory and its last component
    have hpath : path = dir ++ [name] := by
      rw [← hdir]
      exact (List.dropLast_append_getLast? name hname).symm
    exact hpath ▸ hmem
  · intro hmem
    exact ⟨dir ++ [name], ⟨hmem, by simp⟩, by simp⟩

theorem mem_keys_openAppend {path path' : Path} {t : FileTree} :
    path' ∈ (t.openAppend path).files.keys ↔ path' = path ∨ path' ∈ t.files.keys := by
  unfold openAppend
  split
  · by_cases h : path' = path
    · simp [SortedMap.mem_keys, h]
    · simp [SortedMap.mem_keys, h, SortedMap.get?_insert_of_ne]
  · rename_i data hget
    have hmem : path ∈ t.files.keys := SortedMap.mem_keys.2 ⟨data, hget⟩
    constructor
    · exact Or.inr
    · rintro (rfl | h)
      · exact hmem
      · exact h

theorem mem_keys_writeAll {path path' : Path} {data : List UInt8} {t : FileTree} :
    path' ∈ (t.writeAll path data).files.keys ↔ path' = path ∨ path' ∈ t.files.keys := by
  by_cases h : path' = path
  · simp [writeAll, SortedMap.mem_keys, h]
  · simp [writeAll, SortedMap.mem_keys, h, SortedMap.get?_insert_of_ne]

end FileTree
