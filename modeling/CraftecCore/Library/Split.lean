import Mathlib.Data.List.TakeWhile

/-!
# Split — texts cut at a character
-/

namespace Split

/-- `s.split_once(c)`: what stands before and behind the first `c`. -/
def splitOnce (c : Char) (s : String) : Option (String × String) :=
  match s.toList.dropWhile fun d => d ≠ c with
  | [] => none
  | _ :: rest => some (String.ofList (s.toList.takeWhile fun d => d ≠ c), String.ofList rest)

/-- `s.split(c)`. -/
def pieces (c : Char) (s : String) : List String :=
  (s.toList.splitOn c).map String.ofList

def glue (c : Char) (front back : String) : String :=
  String.ofList (front.toList ++ c :: back.toList)

@[simp] theorem toList_glue (c : Char) (front back : String) :
    (glue c front back).toList = front.toList ++ c :: back.toList :=
  String.toList_ofList

variable {c : Char} {s front back : String}

theorem splitOnce_glue (hfront : c ∉ front.toList) (back : String) :
    splitOnce c (glue c front back) = some (front, back) := by
  have hall : ∀ d ∈ front.toList, (decide (d ≠ c)) = true := by
    intro d hd
    have hne : d ≠ c := fun h => hfront (h ▸ hd)
    simpa using hne
  rw [splitOnce, toList_glue, List.dropWhile_append_of_pos hall, List.takeWhile_append_of_pos hall]
  simp

/-- The first `c` is the one that is cut at. -/
theorem splitOnce_eq_some_iff :
    splitOnce c s = some (front, back) ↔ c ∉ front.toList ∧ s = glue c front back := by
  constructor
  · intro h
    have hwhole := List.takeWhile_append_dropWhile (p := fun d => decide (d ≠ c)) (l := s.toList)
    unfold splitOnce at h
    split at h
    · cases h
    · rename_i d rest hdrop
      cases h
      have hd : d = c := by
        have hhead := List.head?_dropWhile_not (fun d => decide (d ≠ c)) s.toList
        rw [hdrop] at hhead
        simpa using hhead
      constructor
      · intro hmem
        rw [String.toList_ofList] at hmem
        simpa using List.mem_takeWhile_imp hmem
      · rw [hdrop, hd] at hwhole
        rw [glue, String.toList_ofList, String.toList_ofList, hwhole, String.ofList_toList]
  · rintro ⟨hfront, rfl⟩
    exact splitOnce_glue hfront back

end Split
