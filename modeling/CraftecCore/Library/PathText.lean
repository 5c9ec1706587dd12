import Mathlib.Data.List.Infix
import Mathlib.Data.Set.Finite.Basic
import Mathlib.Order.Interval.Set.Infinite

/-!
# PathText — paths as texts, and the files they name

A path is a text whose components stand between slashes.  Joining puts one path behind another,
unless the second is absolute; resolving walks the components from the root or from a current
directory, where `.` and nothing stay and `..` goes back.  A walk stays below its start exactly when
`below` follows it to the end; one that leaves its start does so from every directory whose name it
does not contain.
-/

namespace PathText

abbrev Name := List Char

def components (path : String) : List Name :=
  path.toList.splitOn '/'

def isAbsolute (path : String) : Bool :=
  path.toList.head? = some '/'

/-- `dir.join(file)`: an absolute file replaces the directory, and a separator is put in between if
it is missing. -/
def join (dir file : String) : String :=
  if isAbsolute file then
    file
  else if dir = "" ∨ dir.toList.getLast? = some '/' then
    dir ++ file
  else
    dir ++ "/" ++ file

/-- One component, seen from a directory. -/
def enter (dir : List Name) (name : Name) : List Name :=
  if name = [] ∨ name = ['.'] then
    dir
  else if name = ['.', '.'] then
    dir.dropLast
  else
    dir ++ [name]

def walk (dir : List Name) (names : List Name) : List Name :=
  names.foldl enter dir

/-- The file that a path names, for a process in the directory `cwd`. -/
def resolve (cwd : List Name) (path : String) : List Name :=
  walk (if isAbsolute path then [] else cwd) (components path)

def Inside (dir file : List Name) : Prop :=
  ∃ rest, rest ≠ [] ∧ file = dir ++ rest

/-- The walk from a place below some start, as long as it does not leave that start. -/
def below : List Name → List Name → Option (List Name)
  | place, [] => some place
  | place, name :: names =>
      if name = [] ∨ name = ['.'] then
        below place names
      else if name = ['.', '.'] then
        if place = [] then none else below place.dropLast names
      else
        below (place ++ [name]) names

/-- Where a relative path leads below the directory it is read in, if it stays there. -/
def relative (path : String) : Option (List Name) :=
  if isAbsolute path then none else below [] (components path)

/-! ## Components -/

theorem components_append_slash (front back : String) :
    components (front ++ "/" ++ back) = components front ++ components back := by
  simpa [components] using List.splitOn_append_cons_self front.toList back.toList

/-- Text without a slash goes to the last component. -/
theorem components_append {back : String} (hback : '/' ∉ back.toList) (front : String) :
    ∃ names last, components (front ++ back) = names ++ [last ++ back.toList] := by
  have hgen : ∀ cs : List Char, ∃ names last,
      (cs ++ back.toList).splitOn '/' = names ++ [last ++ back.toList] := by
    intro cs
    induction cs with
    | nil => exact ⟨[], [], by simpa using List.splitOn_eq_singleton hback⟩
    | cons c cs ih =>
        rcases ih with ⟨names, last, heq⟩
        rw [List.cons_append, List.splitOn_cons_eq_if_modifyHead, heq]
        by_cases hc : c = '/'
        · exact ⟨[] :: names, last, by simp [hc]⟩
        · cases names with
          | nil => exact ⟨[], c :: last, by simp [hc]⟩
          | cons name names => exact ⟨(c :: name) :: names, last, by simp [hc]⟩
  rw [components, String.toList_append]
  exact hgen front.toList

/-! ## Walks -/

theorem walk_append (dir names names' : List Name) :
    walk dir (names ++ names') = walk (walk dir names) names' :=
  List.foldl_append

/-- Resolving a joined path: the walk of the file from the directory, or from the root. -/
theorem resolve_join (cwd : List Name) (dir file : String) :
    resolve cwd (join dir file) =
      walk (if isAbsolute file then [] else resolve cwd dir) (components file) := by
  by_cases hfile : isAbsolute file = true
  · simp [join, resolve, hfile]
  rw [join, if_neg hfile, if_neg hfile]
  by_cases hdir : dir = ""
  · have hstay : resolve cwd "" = cwd := by simp [resolve, isAbsolute, components, walk, enter]
    rw [hdir, hstay, if_pos (Or.inl rfl), String.empty_append, resolve, if_neg hfile]
  · -- the directory is not empty, so it alone decides from where the walk starts
    have habs : ∀ rest : String, isAbsolute (dir ++ rest) = isAbsolute dir := by
      intro rest
      have hne : dir.toList ≠ [] := fun h => hdir (String.toList_eq_nil_iff.1 h)
      rw [isAbsolute, isAbsolute, String.toList_append, List.head?_append_of_ne_nil _ hne]
    by_cases hslash : dir.toList.getLast? = some '/'
    · rcases List.getLast?_eq_some_iff.1 hslash with ⟨front, hfront⟩
      have hdir' : dir = String.ofList front ++ "/" := by
        apply String.toList_inj.1
        simpa using hfront
      have hempty : components dir = components (String.ofList front) ++ [[]] := by
        have := components_append_slash (String.ofList front) ""
        simpa [hdir', components] using this
      rw [if_pos (Or.inr hslash), resolve, habs, resolve, hempty, walk_append]
      rw [hdir', components_append_slash, walk_append]
      simp [walk, enter]
    · rw [if_neg (by simp [hdir, hslash]), resolve, String.append_assoc, habs,
        ← String.append_assoc, components_append_slash, walk_append]
      rfl

/-- A walk that stays below its start goes the same way below every directory. -/
theorem walk_of_below (dir : List Name) : ∀ {names place out : List Name},
    below place names = some out → walk (dir ++ place) names = dir ++ out
  | [], place, out, h => by
      have heq : place = out := by simpa [below] using h
      rw [heq]
      rfl
  | name :: names, place, out, h => by
      rw [below] at h
      by_cases hstay : name = [] ∨ name = ['.']
      · rw [if_pos hstay] at h
        rw [walk, List.foldl_cons, enter, if_pos hstay]
        exact walk_of_below dir h
      rw [if_neg hstay] at h
      by_cases hback : name = ['.', '.']
      · rw [if_pos hback] at h
        by_cases hplace : place = []
        · simp [hplace] at h
        · -- one step back does not reach the directory itself
          rw [if_neg hplace] at h
          rw [walk, List.foldl_cons, enter, if_neg hstay, if_pos hback,
            List.dropLast_append_of_ne_nil hplace]
          exact walk_of_below dir h
      · rw [if_neg hback] at h
        rw [walk, List.foldl_cons, enter, if_neg hstay, if_neg hback, List.append_assoc]
        exact walk_of_below dir h

/-- A walk reaches no names but those of its start and of its path. -/
theorem mem_walk {x : Name} : ∀ {names dir : List Name}, x ∈ walk dir names → x ∈ dir ∨ x ∈ names
  | [], _, h => Or.inl h
  | name :: names, dir, h => by
      have hrest : x ∈ enter dir name ∨ x ∈ names := mem_walk h
      rcases hrest with henter | hmem
      · unfold enter at henter
        split at henter
        · exact Or.inl henter
        · split at henter
          · exact Or.inl (List.mem_of_mem_dropLast henter)
          · rcases List.mem_append.1 henter with hdir | hname
            · exact Or.inl hdir
            · exact Or.inr (List.mem_cons.2 (Or.inl (List.mem_singleton.1 hname)))
      · exact Or.inr (List.mem_cons_of_mem _ hmem)

/-- A walk that leaves a directory does not come back into it, unless by its name. -/
theorem notMem_walk_of_below {x : Name} : ∀ {names place : List Name}, x ∉ place → x ∉ names →
    below place names = none → x ∉ walk (x :: place) names
  | [], _, _, _, h => by simp [below] at h
  | name :: names, place, hplace, hnames, h => by
      have hname : x ≠ name := fun heq => hnames (heq ▸ List.mem_cons_self)
      have hrest : x ∉ names := fun hmem => hnames (List.mem_cons_of_mem _ hmem)
      rw [below] at h
      by_cases hstay : name = [] ∨ name = ['.']
      · rw [if_pos hstay] at h
        rw [walk, List.foldl_cons, enter, if_pos hstay]
        exact notMem_walk_of_below hplace hrest h
      rw [if_neg hstay] at h
      by_cases hback : name = ['.', '.']
      · rw [if_pos hback] at h
        rw [walk, List.foldl_cons, enter, if_neg hstay, if_pos hback]
        by_cases hempty : place = []
        · -- here the directory is left
          have hleft : (x :: place).dropLast = [] := by rw [hempty]; rfl
          intro hmem
          rw [hleft] at hmem
          exact (mem_walk hmem).elim List.not_mem_nil hrest
        · rw [if_neg hempty] at h
          rw [List.dropLast_cons_of_ne_nil hempty]
          exact notMem_walk_of_below (fun hmem => hplace (List.mem_of_mem_dropLast hmem)) hrest h
      · rw [if_neg hback] at h
        rw [walk, List.foldl_cons, enter, if_neg hstay, if_neg hback, List.cons_append]
        refine notMem_walk_of_below ?_ hrest h
        intro hmem
        rcases List.mem_append.1 hmem with hold | hnew
        · exact hplace hold
        · exact hname (List.mem_singleton.1 hnew)

/-- A walk that ends with a proper name ends at a file of that name. -/
theorem below_append_name {last : Name} (hempty : last ≠ []) (hdot : last ≠ ['.'])
    (hback : last ≠ ['.', '.']) : ∀ {names place out : List Name},
    below place (names ++ [last]) = some out → ∃ front, out = front ++ [last]
  | [], place, out, h => by
      have heq : place ++ [last] = out := by simpa [below, hempty, hdot, hback] using h
      exact ⟨place, heq.symm⟩
  | name :: names, place, out, h => by
      rw [List.cons_append, below] at h
      by_cases hstay : name = [] ∨ name = ['.']
      · rw [if_pos hstay] at h
        exact below_append_name hempty hdot hback h
      rw [if_neg hstay] at h
      by_cases hgo : name = ['.', '.']
      · rw [if_pos hgo] at h
        by_cases hplace : place = []
        · simp [hplace] at h
        · rw [if_neg hplace] at h
          exact below_append_name hempty hdot hback h
      · rw [if_neg hgo] at h
        exact below_append_name hempty hdot hback h

/-! ## Every directory -/

/-- A name that is none of the given ones, and names a directory of its own under the root. -/
theorem exists_fresh (names : List Name) :
    ∃ fresh : Name, fresh ∉ names ∧ ∀ cwd, resolve cwd ("/" ++ String.ofList fresh) = [fresh] := by
  let name : ℕ → Name := fun n => List.replicate (n + 1) 'a'
  have hinj : Function.Injective name := by
    intro m n heq
    have hlen := congrArg List.length heq
    simpa [name] using hlen
  rcases (Set.infinite_range_of_injective hinj).exists_notMem_finset names.toFinset with
    ⟨fresh, ⟨n, rfl⟩, hfresh⟩
  refine ⟨name n, by simpa using hfresh, ?_⟩
  intro cwd
  have hslash : '/' ∉ name n := by
    intro hmem
    exact absurd (List.eq_of_mem_replicate hmem) (by decide)
  have hcomponents : components ("/" ++ String.ofList (name n)) = [[], name n] := by
    have := components_append_slash "" (String.ofList (name n))
    simpa [components, List.splitOn_eq_singleton hslash] using this
  have habs : isAbsolute ("/" ++ String.ofList (name n)) = true := by simp [isAbsolute]
  rw [resolve, if_pos habs, hcomponents]
  have hne : ∀ c cs, name n = c :: cs → c = 'a' := by
    intro c cs heq
    exact List.eq_of_mem_replicate (heq ▸ List.mem_cons_self)
  have hproper : name n ≠ [] ∧ name n ≠ ['.'] ∧ name n ≠ ['.', '.'] := by
    refine ⟨by simp [name], ?_, ?_⟩
    · exact fun heq => absurd (hne _ _ heq) (by decide)
    · exact fun heq => absurd (hne _ _ heq) (by decide)
  simp [walk, enter, hproper.1, hproper.2.1, hproper.2.2]

/-- A path that stays inside is the same walk from every directory. -/
theorem resolve_join_of_relative {file : String} {rest : List Name}
    (hrest : relative file = some rest) (cwd : List Name) (dir : String) :
    resolve cwd (join dir file) = resolve cwd dir ++ rest := by
  by_cases habs : isAbsolute file = true
  · simp [relative, habs] at hrest
  · rw [relative, if_neg habs] at hrest
    have hwalk := walk_of_below (resolve cwd dir) hrest
    rw [List.append_nil] at hwalk
    rw [resolve_join, if_neg habs, hwalk]

/-- A path stays inside every directory that it is read in exactly when it is relative and never
goes back behind its start. -/
theorem inside_join_iff {file : String} (hname : ∃ names last, components file = names ++ [last] ∧
    last ≠ [] ∧ last ≠ ['.'] ∧ last ≠ ['.', '.']) :
    (∀ cwd dir, Inside (resolve cwd dir) (resolve cwd (join dir file))) ↔
      ∃ rest, relative file = some rest := by
  constructor
  · intro hall
    rcases exists_fresh (components file) with ⟨fresh, hfresh, hroot⟩
    rcases hall [] ("/" ++ String.ofList fresh) with ⟨rest, -, heq⟩
    rw [resolve_join, hroot] at heq
    -- what is inside this directory has its name
    have hmem : fresh ∈ walk (if isAbsolute file then [] else [fresh]) (components file) := by
      rw [heq]
      exact List.mem_append_left _ (List.mem_singleton_self fresh)
    unfold relative
    by_cases habs : isAbsolute file = true
    · rw [if_pos habs] at hmem
      exact absurd (mem_walk hmem) (by simp [hfresh])
    · rw [if_neg habs] at hmem ⊢
      cases hbelow : below [] (components file) with
      | some out => exact ⟨out, rfl⟩
      | none => exact absurd hmem (notMem_walk_of_below List.not_mem_nil hfresh hbelow)
  · rintro ⟨rest, hrest⟩ cwd dir
    refine ⟨rest, ?_, resolve_join_of_relative hrest cwd dir⟩
    -- it ends with its name
    unfold relative at hrest
    split at hrest
    · cases hrest
    · rcases hname with ⟨names, last, heq, hempty, hdot, hback⟩
      rcases below_append_name hempty hdot hback (heq ▸ hrest) with ⟨front, hfront⟩
      simp [hfront]

end PathText
