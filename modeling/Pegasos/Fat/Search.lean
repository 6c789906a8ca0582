import Mathlib.Logic.Function.Iterate
import Pegasos.Fat.Directory
import Pegasos.Fat.Names

/-!
# Searching the directories of a volume

What `dir_find_ent` and the loop of `dir_find_path` come to on any volume, also one with wild
chains, as relations on the slots of the directories.
-/

namespace Pegasos.Fat

/-- The directories of a volume: the slots of the root directory and of each cluster, and the
links of the FAT. -/
structure Dirs where
  rootSlots : List Slot
  clusterSlots : Nat → List Slot
  next : Nat → Nat

namespace Dirs

/-- The first slots of a directory. -/
def slotsAt (dirs : Dirs) (c : Nat) : List Slot := if c = 0 then dirs.rootSlots else dirs.clusterSlots c

/-- The search of some slots of a cluster, and of the clusters behind it, comes to this slot. -/
inductive Finds (dirs : Dirs) (data : Nat → Sector) (key : Option (Fin 11 → UInt8)) :
    Nat → List Slot → Slot → Prop where
  | here {c : Nat} {slots : List Slot} {slot : Slot} (found : scan data key slots = .found slot) :
      Finds dirs data key c slots slot
  | next {c : Nat} {slots : List Slot} {slot : Slot} (through : scan data key slots = .through)
      (sub : c ≠ 0) (more : dirs.next c < 0xff0)
      (later : Finds dirs data key (dirs.next c) (dirs.clusterSlots (dirs.next c)) slot) :
      Finds dirs data key c slots slot

/-- The search of a directory comes to this slot. -/
def FoundIn (dirs : Dirs) (data : Nat → Sector) (key : Option (Fin 11 → UInt8)) (c : Nat)
    (slot : Slot) : Prop := dirs.Finds data key c (dirs.slotsAt c) slot

/-- The slot of an element in a directory. -/
def EleIn (dirs : Dirs) (data : Nat → Sector) (c : Nat) (ele : List UInt8) (slot : Slot) : Prop :=
  ∃ name, pathParseFn (stringAt ele 0) ele.length = some name ∧ dirs.FoundIn data (some name) c slot

/-- The slot of the last one of some elements, from a directory on. -/
inductive ResolvesFrom (dirs : Dirs) (data : Nat → Sector) :
    Nat → List UInt8 → List (List UInt8) → Slot → Prop where
  | last {c : Nat} {ele : List UInt8} {slot : Slot} (found : dirs.EleIn data c ele slot) :
      ResolvesFrom dirs data c ele [] slot
  | more {c : Nat} {ele ele' : List UInt8} {rest : List (List UInt8)} {slot slot' : Slot}
      (found : dirs.EleIn data c ele slot) (isDir : (slot.dirent data).attr &&& FA_DIR ≠ 0)
      (behind : ResolvesFrom dirs data (clusterOfInt (slot.dirent data).cluster0) ele' rest slot') :
      ResolvesFrom dirs data c ele (ele' :: rest) slot'

variable {dirs : Dirs} {data : Nat → Sector} {key : Option (Fin 11 → UInt8)} {c : Nat}
  {slots : List Slot} {slot slot' : Slot} {ele : List UInt8} {rest : List (List UInt8)}

theorem Finds.unique (finds : dirs.Finds data key c slots slot)
    (finds' : dirs.Finds data key c slots slot') : slot = slot' := by
  induction finds with
  | here found =>
      cases finds' with
      | here found' => exact Scan.found.inj (found.symm.trans found')
      | next through sub more later => exact nomatch found.symm.trans through
  | next through sub more later ih =>
      cases finds' with
      | here found' => exact nomatch through.symm.trans found'
      | next through' sub' more' later' => exact ih later'

theorem FoundIn.unique (found : dirs.FoundIn data key c slot)
    (found' : dirs.FoundIn data key c slot') : slot = slot' := Finds.unique found found'

theorem EleIn.unique (found : dirs.EleIn data c ele slot) (found' : dirs.EleIn data c ele slot') :
    slot = slot' := by
  obtain ⟨name, parsed, found⟩ := found
  obtain ⟨name', parsed', found'⟩ := found'
  obtain rfl := Option.some.inj (parsed.symm.trans parsed')
  exact found.unique found'

theorem ResolvesFrom.unique (found : dirs.ResolvesFrom data c ele rest slot)
    (found' : dirs.ResolvesFrom data c ele rest slot') : slot = slot' := by
  induction found with
  | last found =>
      cases found' with
      | last found' => exact found.unique found'
  | more found isDir behind ih =>
      cases found' with
      | more found' isDir' behind' =>
          obtain rfl := found.unique found'
          exact ih behind'

/-- What is found is in a cluster, and what is looked for. -/
theorem Finds.spec (finds : dirs.Finds data key c slots slot) :
    (slot ∈ slots ∨ ∃ d < 0xff0, slot ∈ dirs.clusterSlots d) ∧ isFound key (slot.dirent data) = true := by
  induction finds with
  | here found =>
      have spec := scan_found found
      exact ⟨.inl spec.1, spec.2.1⟩
  | next through sub more later ih =>
      refine ⟨.inr ?_, ih.2⟩
      rcases ih.1 with member | elsewhere
      · exact ⟨_, more, member⟩
      · exact elsewhere

/-- The search of a directory ends with this cluster. -/
def Stops (dirs : Dirs) (data : Nat → Sector) (key : Option (Fin 11 → UInt8)) (c : Nat) : Prop :=
  scan data key (dirs.clusterSlots c) ≠ .through ∨ c = 0 ∨ 0xff0 ≤ dirs.next c

/-- The search goes on to the first cluster that it stops at. -/
theorem finds_iff_stops : dirs.Finds data key c (dirs.clusterSlots c) slot ↔
    ∃ k, (∀ i < k, ¬dirs.Stops data key (dirs.next^[i] c)) ∧
      scan data key (dirs.clusterSlots (dirs.next^[k] c)) = .found slot := by
  constructor
  · intro finds
    generalize same : dirs.clusterSlots c = slots at finds
    induction finds with
    | here found =>
        subst same
        exact ⟨0, fun i less => absurd less (Nat.not_lt_zero i), found⟩
    | next through sub more later ih =>
        subst same
        obtain ⟨k, first, found⟩ := ih rfl
        refine ⟨k + 1, fun i less => ?_, found⟩
        cases i with
        | zero => exact not_or.mpr ⟨not_not.mpr through, not_or.mpr ⟨sub, Nat.not_le.mpr more⟩⟩
        | succ i => exact first i (Nat.lt_of_succ_lt_succ less)
  · rintro ⟨k, first, found⟩
    induction k generalizing c with
    | zero => exact .here found
    | succ k ih =>
        have here := first 0 (Nat.succ_pos k)
        rw [Function.iterate_zero_apply, Stops, not_or, not_not, not_or] at here
        obtain ⟨through, sub, more⟩ := here
        refine .next through sub (Nat.not_le.mp more) (ih (fun i less => ?_) found)
        exact first (i + 1) (Nat.succ_lt_succ less)

theorem foundIn_iff (sub : c ≠ 0) : dirs.FoundIn data key c slot ↔
    ∃ k, (∀ i < k, ¬dirs.Stops data key (dirs.next^[i] c)) ∧
      scan data key (dirs.clusterSlots (dirs.next^[k] c)) = .found slot := by
  rw [FoundIn, slotsAt, if_neg sub, finds_iff_stops]

theorem foundIn_root : dirs.FoundIn data key 0 slot ↔ scan data key dirs.rootSlots = .found slot := by
  constructor
  · rintro (found | ⟨-, sub, -, -⟩)
    · exact found
    · exact absurd rfl sub
  · exact .here

/-- A slot that is not what is looked for is passed over. -/
theorem Finds.cons (more : ¬(key ≠ none ∧ (slot.dirent data).name 0 = 0))
    (other : ¬isFound key (slot.dirent data) = true) (finds : dirs.Finds data key c slots slot') :
    dirs.Finds data key c (slot :: slots) slot' := by
  have same : scan data key (slot :: slots) = scan data key slots := by
    rw [scan, if_neg more, if_neg other]
  cases finds with
  | here found => exact .here (same.trans found)
  | next through sub more later => exact .next (same.trans through) sub more later

/-- A directory that paths lead to. -/
inductive Directory (dirs : Dirs) (data : Nat → Sector) : Nat → Prop where
  | root : Directory dirs data 0
  | sub {c : Nat} {ele : List UInt8} {slot : Slot} (directory : Directory dirs data c)
      (found : dirs.EleIn data c ele slot) (isDir : (slot.dirent data).attr &&& FA_DIR ≠ 0) :
      Directory dirs data (clusterOfInt (slot.dirent data).cluster0)

/-- A cluster of a directory. -/
inductive DirCluster (dirs : Dirs) (data : Nat → Sector) : Nat → Prop where
  | first {c : Nat} (directory : dirs.Directory data c) (sub : c ≠ 0) : DirCluster dirs data c
  | next {c : Nat} (cluster : DirCluster dirs data c) (more : dirs.next c < 0xff0) :
      DirCluster dirs data (dirs.next c)

/-- What is found in a directory is in one of its clusters. -/
theorem Finds.inCluster (cluster : c ≠ 0 → dirs.DirCluster data c)
    (finds : dirs.Finds data key c slots slot) :
    slot ∈ slots ∨ ∃ d, dirs.DirCluster data d ∧ slot ∈ dirs.clusterSlots d := by
  induction finds with
  | here found => exact .inl (scan_found found).1
  | next through sub more later ih =>
      have next := DirCluster.next (cluster sub) more
      rcases ih fun _ => next with member | elsewhere
      · exact .inr ⟨_, next, member⟩
      · exact .inr elsewhere

theorem FoundIn.inCluster (directory : dirs.Directory data c) (found : dirs.FoundIn data key c slot) :
    slot ∈ dirs.rootSlots ∨ ∃ d, dirs.DirCluster data d ∧ slot ∈ dirs.clusterSlots d := by
  rcases Finds.inCluster (.first directory) found with member | elsewhere
  · rw [slotsAt] at member
    split at member
    · exact .inl member
    · next sub => exact .inr ⟨c, .first directory sub, member⟩
  · exact .inr elsewhere

/-- The directory behind a path. -/
theorem ResolvesFrom.directory (directory : dirs.Directory data c)
    (found : dirs.ResolvesFrom data c ele rest slot) (isDir : (slot.dirent data).attr &&& FA_DIR ≠ 0) :
    dirs.Directory data (clusterOfInt (slot.dirent data).cluster0) := by
  induction found with
  | last found => exact .sub directory found isDir
  | more found isDir' behind ih => exact ih (.sub directory found isDir') isDir

/-- Elements with others behind them lead to a directory. -/
theorem ResolvesFrom.split {ele' : List UInt8} {rest' : List (List UInt8)}
    (found : dirs.ResolvesFrom data c ele (rest ++ ele' :: rest') slot') :
    ∃ slot, dirs.ResolvesFrom data c ele rest slot ∧ (slot.dirent data).attr &&& FA_DIR ≠ 0 ∧
      dirs.ResolvesFrom data (clusterOfInt (slot.dirent data).cluster0) ele' rest' slot' := by
  induction rest generalizing c ele with
  | nil =>
      cases found with
      | more found isDir behind => exact ⟨_, .last found, isDir, behind⟩
  | cons first rest ih =>
      cases found with
      | more found isDir behind =>
          obtain ⟨slot, front, isDir', behind'⟩ := ih behind
          exact ⟨slot, .more found isDir front, isDir', behind'⟩

/-- Elements that resolve to a slot, where all directories on the way but the root are `good`. -/
inductive LeadsTo (dirs : Dirs) (data : Nat → Sector) (good : Nat → Prop) :
    Nat → List UInt8 → List (List UInt8) → Slot → Prop where
  | last {c : Nat} {ele : List UInt8} {slot : Slot} (known : c ≠ 0 → good c)
      (found : dirs.EleIn data c ele slot) : LeadsTo dirs data good c ele [] slot
  | more {c : Nat} {ele ele' : List UInt8} {rest : List (List UInt8)} {slot slot' : Slot}
      (known : c ≠ 0 → good c) (found : dirs.EleIn data c ele slot)
      (isDir : (slot.dirent data).attr &&& FA_DIR ≠ 0)
      (behind : LeadsTo dirs data good (clusterOfInt (slot.dirent data).cluster0) ele' rest slot') :
      LeadsTo dirs data good c ele (ele' :: rest) slot'

/-- Elements behind those that lead to a directory. -/
theorem LeadsTo.append {good : Nat → Prop} {ele' : List UInt8} {rest' : List (List UInt8)}
    (leads : dirs.LeadsTo data good c ele rest slot)
    (isDir : (slot.dirent data).attr &&& FA_DIR ≠ 0)
    (behind : dirs.LeadsTo data good (clusterOfInt (slot.dirent data).cluster0) ele' rest' slot') :
    dirs.LeadsTo data good c ele (rest ++ ele' :: rest') slot' := by
  induction leads with
  | last known found => exact .more known found isDir behind
  | more known found isDir' _ ih => exact .more known found isDir' (ih isDir behind)

theorem LeadsTo.resolves {good : Nat → Prop} (leads : dirs.LeadsTo data good c ele rest slot) :
    dirs.ResolvesFrom data c ele rest slot := by
  induction leads with
  | last known found => exact .last found
  | more known found isDir _ ih => exact .more found isDir ih

theorem ResolvesFrom.leadsTo (directory : dirs.Directory data c)
    (found : dirs.ResolvesFrom data c ele rest slot) :
    dirs.LeadsTo data (dirs.DirCluster data) c ele rest slot := by
  induction found with
  | last found => exact .last (.first directory) found
  | more found isDir _ ih => exact .more (.first directory) found isDir (ih (.sub directory found isDir))

/-- Without directories in the root directory, no cluster is one of a directory. -/
theorem not_dirCluster (flat : ∀ slot ∈ dirs.rootSlots, (slot.dirent data).attr &&& FA_DIR = 0) (c : Nat) :
    ¬dirs.DirCluster data c := by
  have root {d : Nat} (directory : dirs.Directory data d) : d = 0 := by
    induction directory with
    | root => rfl
    | @sub d ele slot directory found isDir ih =>
        subst ih
        obtain ⟨name, -, found⟩ := found
        exact absurd (flat slot (scan_found (foundIn_root.mp found)).1) isDir
  intro cluster
  induction cluster with
  | first directory sub => exact sub (root directory)
  | next cluster more ih => exact ih

end Dirs

end Pegasos.Fat
