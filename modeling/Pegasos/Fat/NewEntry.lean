import Pegasos.Fat.Search

/-!
# A new entry in a directory

A free slot of a directory gets an entry with a name that was not there.  The search for the
name comes to the slot, and every other search that came to a slot comes to the same one.
-/

namespace Pegasos.Fat

namespace Dirs

/-- The free slot `p`, which is in one cluster at most, gets an entry with the name `ele`.  The
other slots, and the links of the clusters of directories, stay as they are. -/
structure Enters (dirs dirs' : Dirs) (data data' : Nat → Sector) (p : Slot)
    (ele : Fin 11 → UInt8) : Prop where
  rootSlots : dirs'.rootSlots = dirs.rootSlots
  clusterSlots : dirs'.clusterSlots = dirs.clusterSlots
  next : ∀ c, dirs.DirCluster data c → dirs'.next c = dirs.next c
  free : isFound none (p.dirent data) = true
  name : (p.dirent data').name = ele
  first : ele 0 ≠ 0
  root : ∀ slot ∈ dirs.rootSlots, slot ≠ p → slot.dirent data' = slot.dirent data
  cluster : ∀ c, ∀ slot ∈ dirs.clusterSlots c, slot ≠ p → slot.dirent data' = slot.dirent data
  alone : ∀ c d, dirs.DirCluster data c → dirs.DirCluster data d → p ∈ dirs.clusterSlots c →
    p ∈ dirs.clusterSlots d → c = d
  apart : p ∈ dirs.rootSlots → ∀ c, dirs.DirCluster data c → p ∉ dirs.clusterSlots c

end Dirs

variable {data data' : Nat → Sector} {p slot s : Slot} {ele key : Fin 11 → UInt8} {slots : List Slot}

/-! ## One list of slots -/

theorem name_ne_zero_of_used {dirent : Dirent} (used : ¬isFound none dirent = true) :
    dirent.name 0 ≠ 0 := by
  intro zero
  exact used (decide_eq_true (.inl zero))

/-- Where no slot is free, the search for a name does not end. -/
theorem scan_used (through : scan data none slots = .through) (key : Fin 11 → UInt8) :
    scan data (some key) slots = .through ∨ ∃ s, scan data (some key) slots = .found s := by
  induction slots with
  | nil => exact .inl rfl
  | cons slot rest ih =>
      rw [scan, if_neg fun both => both.1 rfl] at through
      split at through
      · cases through
      · next used =>
          rw [scan, if_neg fun both => name_ne_zero_of_used used both.2]
          split
          · exact .inr ⟨slot, rfl⟩
          · exact ih through

section Entered

variable (free : isFound none (p.dirent data) = true) (name : (p.dirent data').name = ele)
  (first : ele 0 ≠ 0)
include free name first

/-- A search that comes to another slot, or through, does so again. -/
theorem scan_keeps {result : Scan} (same : ∀ slot ∈ slots, slot ≠ p → slot.dirent data' = slot.dirent data)
    (ran : scan data (some key) slots = result) (goesOn : result ≠ .ended) (other : result ≠ .found p)
    (differs : p ∈ slots → key ≠ ele) : scan data' (some key) slots = result := by
  induction slots with
  | nil => exact ran
  | cons slot rest ih =>
      have later := ih (fun slot member => same slot (List.mem_cons_of_mem _ member))
      rw [scan] at ran ⊢
      by_cases here : slot = p
      · subst here
        have used : ¬(some key ≠ none ∧ (slot.dirent data').name 0 = 0) := fun both =>
          first (name ▸ both.2)
        have passed : ¬isFound (some key) (slot.dirent data') = true := fun found =>
          differs List.mem_cons_self ((of_decide_eq_true found).symm.trans name)
        rw [if_neg used, if_neg passed]
        split at ran
        · exact absurd ran.symm goesOn
        · split at ran
          · exact absurd ran.symm other
          · exact later ran fun member => differs (List.mem_cons_of_mem _ member)
      · rw [same slot List.mem_cons_self here]
        split at ran
        · exact absurd ran.symm goesOn
        · next more =>
            rw [if_neg more]
            split at ran
            · next found => rwa [if_pos found]
            · next passed =>
                rw [if_neg passed]
                exact later ran fun member => differs (List.mem_cons_of_mem _ member)

/-- Where the search for a free slot came to `p`, or through, the search for the name comes
there, if the name was not in front of it. -/
theorem scan_entered {result : Scan}
    (same : ∀ slot ∈ slots, slot ≠ p → slot.dirent data' = slot.dirent data)
    (ran : scan data none slots = result) (isHere : result = .through ∨ result = .found p) :
    (∃ s, scan data (some ele) slots = .found s) ∨ scan data' (some ele) slots = result := by
  induction slots with
  | nil => exact .inr ran
  | cons slot rest ih =>
      rw [scan, if_neg fun both => both.1 rfl] at ran
      split at ran
      · subst ran
        obtain rfl : slot = p := Scan.found.inj (isHere.resolve_left (by simp))
        have used : ¬(some ele ≠ none ∧ (slot.dirent data').name 0 = 0) := fun both =>
          first (name ▸ both.2)
        refine .inr ?_
        rw [scan, if_neg used]
        exact if_pos (decide_eq_true name)
      · next used =>
          have apart : slot ≠ p := by
            rintro rfl
            exact used free
          have more : ¬(some ele ≠ none ∧ (slot.dirent data).name 0 = 0) := fun both =>
            name_ne_zero_of_used used both.2
          rw [scan, scan, same slot List.mem_cons_self apart, if_neg more, if_neg more]
          split
          · exact .inl ⟨slot, rfl⟩
          · exact ih (fun slot member => same slot (List.mem_cons_of_mem _ member)) ran

end Entered

/-! ## Directories -/

namespace Dirs

variable {dirs dirs' : Dirs} {key' : Option (Fin 11 → UInt8)} {b c clus : Nat}
  {e : List UInt8} {r : List (List UInt8)}

theorem slotsAt_zero : dirs.slotsAt 0 = dirs.rootSlots := if_pos rfl

theorem slotsAt_sub (sub : c ≠ 0) : dirs.slotsAt c = dirs.clusterSlots c := if_neg sub

namespace Enters

variable (enters : dirs.Enters dirs' data data' p ele)
include enters

theorem slotsAt (c : Nat) : dirs'.slotsAt c = dirs.slotsAt c := by
  rw [Dirs.slotsAt, Dirs.slotsAt, enters.rootSlots, enters.clusterSlots]

theorem slotsAt_same (c : Nat) :
    ∀ slot ∈ dirs.slotsAt c, slot ≠ p → slot.dirent data' = slot.dirent data := by
  by_cases root : c = 0
  · subst root
    rw [slotsAt_zero]
    exact enters.root
  · rw [slotsAt_sub root]
    exact enters.cluster c

/-- Where the search for a free slot came to `p`, that for the name does, if the name was not
there. -/
theorem finds (known : c ≠ 0 → dirs.DirCluster data c)
    (same : ∀ slot ∈ slots, slot ≠ p → slot.dirent data' = slot.dirent data)
    (found : dirs.Finds data none c slots p) :
    (∃ s, dirs.Finds data (some ele) c slots s) ∨ dirs'.Finds data' (some ele) c slots p := by
  generalize isNone : none = key', isSlot : p = p' at found
  induction found with
  | here found =>
      subst isNone isSlot
      have entered := scan_entered enters.free enters.name enters.first same found (.inr rfl)
      exact entered.imp (fun ⟨s, there⟩ => ⟨s, .here there⟩) .here
  | @next c slots slot through sub more later ih =>
      subst isNone isSlot
      have cluster := known sub
      have entered := scan_entered enters.free enters.name enters.first same through (.inl rfl)
      rcases entered with ⟨s, there⟩ | through'
      · exact .inl ⟨s, .here there⟩
      rcases ih (fun _ => cluster.next more) (enters.cluster _) rfl with
        ⟨s, there⟩ | reached
      · rcases scan_used through ele with through'' | ⟨s', found⟩
        · exact .inl ⟨s, .next through'' sub more there⟩
        · exact .inl ⟨s', .here found⟩
      · refine .inr (.next through' sub ?_ ?_)
        · rwa [enters.next c cluster]
        · rwa [enters.next c cluster, enters.clusterSlots]

theorem foundIn (known : c ≠ 0 → dirs.DirCluster data c) (found : dirs.FoundIn data none c p) :
    (∃ s, dirs.FoundIn data (some ele) c s) ∨ dirs'.FoundIn data' (some ele) c p := by
  rw [FoundIn, enters.slotsAt]
  exact enters.finds known (enters.slotsAt_same c) found

/-- A search that comes to another slot does so again, unless it is for the name and comes
through a cluster with `p`. -/
theorem finds_keeps (known : c ≠ 0 → dirs.DirCluster data c)
    (same : ∀ slot ∈ slots, slot ≠ p → slot.dirent data' = slot.dirent data) (other : s ≠ p)
    (differs : key = ele → (p ∈ slots → ¬dirs.Finds data (some ele) c slots s) ∧
      ∀ b, dirs.DirCluster data b → p ∈ dirs.clusterSlots b → ¬dirs.Finds data (some ele) b (dirs.clusterSlots b) s)
    (found : dirs.Finds data (some key) c slots s) : dirs'.Finds data' (some key) c slots s := by
  generalize isKey : some key = key' at found
  induction found with
  | @here c slots s found =>
      subst isKey
      refine .here (scan_keeps enters.free enters.name enters.first same found nofun ?_ ?_)
      · exact fun isSlot => other (Scan.found.inj isSlot)
      · rintro member rfl
        exact (differs rfl).1 member (.here found)
  | @next c slots s through sub more later ih =>
      subst isKey
      have cluster := known sub
      have later' := ih (fun _ => cluster.next more) (enters.cluster _) other
        (fun isEle => ⟨(differs isEle).2 _ (cluster.next more), (differs isEle).2⟩)
      refine .next (scan_keeps enters.free enters.name enters.first same through nofun nofun ?_) sub
        ?_ ?_
      · rintro member rfl
        exact (differs rfl).1 member (.next through sub more later)
      · rwa [enters.next c cluster]
      · rwa [enters.next c cluster, enters.clusterSlots]

/-- Two directories that both come to `p` go on alike. -/
theorem finds_alike (cluster : dirs.DirCluster data c) (cluster' : dirs.DirCluster data b) (member : p ∈ dirs.clusterSlots b)
    (found : dirs.Finds data none c (dirs.clusterSlots c) p)
    (there : dirs.Finds data (some key) b (dirs.clusterSlots b) s) :
    ∃ s, dirs.Finds data (some key) c (dirs.clusterSlots c) s := by
  generalize isNone : none = key', isSlot : p = p', isSlots : dirs.clusterSlots c = slots at found
  induction found with
  | here found =>
      subst isNone isSlot isSlots
      obtain rfl := enters.alone _ _ cluster cluster' (scan_found found).1 member
      exact ⟨s, there⟩
  | @next c slots slot through sub more later ih =>
      subst isNone isSlot isSlots
      obtain ⟨s', later'⟩ := ih (cluster.next more) rfl rfl
      rcases scan_used through key with through' | ⟨s'', found⟩
      · exact ⟨s', .next through' sub more later'⟩
      · exact ⟨s'', .here found⟩

variable (knownClus : clus ≠ 0 → dirs.DirCluster data clus) (empty : dirs.FoundIn data none clus p)
  (missing : ∀ s, ¬dirs.FoundIn data (some ele) clus s)
include knownClus empty missing

/-- `p` is in one directory, or in directories that share it. -/
theorem not_finds (cluster : dirs.DirCluster data b) (member : p ∈ dirs.clusterSlots b) :
    ¬dirs.Finds data (some ele) b (dirs.clusterSlots b) s := by
  intro there
  by_cases root : clus = 0
  · subst root
    exact enters.apart (scan_found (foundIn_root.mp empty)).1 b cluster member
  · rw [FoundIn, slotsAt_sub root] at empty
    obtain ⟨s', found⟩ := enters.finds_alike (knownClus root) cluster member empty there
    refine missing s' ?_
    rwa [FoundIn, slotsAt_sub root]

/-- The search of a directory comes to the same slot as before. -/
theorem foundIn_keeps (known : c ≠ 0 → dirs.DirCluster data c) (other : s ≠ p)
    (found : dirs.FoundIn data (some key) c s) : dirs'.FoundIn data' (some key) c s := by
  rw [FoundIn, enters.slotsAt]
  refine enters.finds_keeps known (enters.slotsAt_same c) other (fun isEle => ⟨?_, ?_⟩) found
  · intro member there
    by_cases root : c = 0
    · subst root
      by_cases root' : clus = 0
      · subst root'
        exact missing s there
      · rcases Finds.inCluster knownClus empty with here | ⟨d, cluster, here⟩
        · rw [slotsAt_sub root'] at here
          exact enters.apart member clus (knownClus root') here
        · exact enters.apart member d cluster here
    · rw [slotsAt_sub root] at member there
      exact enters.not_finds knownClus empty missing (known root) member there
  · exact fun b cluster member => enters.not_finds knownClus empty missing cluster member

/-- The slot held another name before. -/
theorem name_ne : (p.dirent data).name ≠ ele := by
  intro same
  have here : dirs.Enters dirs data data p ele :=
    { enters with
      rootSlots := rfl, clusterSlots := rfl, next := fun _ _ => rfl, name := same
      root := fun _ _ _ => rfl, cluster := fun _ _ _ _ => rfl }
  rcases here.foundIn knownClus empty with ⟨s, found⟩ | found
  · exact missing s found
  · exact missing p found

/-- The search for the name comes to the slot. -/
theorem found : dirs'.FoundIn data' (some ele) clus p :=
  (enters.foundIn knownClus empty).resolve_left fun ⟨s, there⟩ => missing s there

theorem eleIn_keeps (known : c ≠ 0 → dirs.DirCluster data c) (other : s ≠ p)
    (found : dirs.EleIn data c e s) : dirs'.EleIn data' c e s := by
  obtain ⟨name, parsed, found⟩ := found
  exact ⟨name, parsed, enters.foundIn_keeps knownClus empty missing known other found⟩

omit knownClus empty missing in
theorem same_of_eleIn (directory : dirs.Directory data c) (other : s ≠ p)
    (found : dirs.EleIn data c e s) : s.dirent data' = s.dirent data := by
  obtain ⟨name, -, found⟩ := found
  rcases found.inCluster directory with member | ⟨d, -, member⟩
  · exact enters.root s member other
  · exact enters.cluster d s member other

/-- What elements resolve to stays, if no elements of this kind resolve to `p`. -/
theorem resolves_keeps {proper : List UInt8 → Prop} (directory : dirs.Directory data c)
    (unused : ∀ e r, proper e → (∀ e' ∈ r, proper e') → ¬dirs.ResolvesFrom data c e r p)
    (isProper : proper e) (areProper : ∀ e' ∈ r, proper e')
    (resolves : dirs.ResolvesFrom data c e r s) :
    dirs'.LeadsTo data' (dirs.DirCluster data) c e r s ∧ s.dirent data' = s.dirent data := by
  induction resolves with
  | @last c e s found =>
      have other : s ≠ p := by
        rintro rfl
        exact unused e [] isProper (fun e' member => nomatch member) (.last found)
      have known := Dirs.DirCluster.first directory
      exact ⟨.last known (enters.eleIn_keeps knownClus empty missing known other found),
        enters.same_of_eleIn directory other found⟩
  | @more c e e' r s s' found isDir behind ih =>
      have other : s ≠ p := by
        rintro rfl
        exact unused e [] isProper (fun e' member => nomatch member) (.last found)
      have isProper' : proper e' := areProper e' List.mem_cons_self
      obtain ⟨behind', same'⟩ := ih (.sub directory found isDir)
        (fun e'' r' first rest leads => unused e (e'' :: r') isProper
          (List.forall_mem_cons.mpr ⟨first, rest⟩) (.more found isDir leads))
        isProper' fun e'' member => areProper e'' (List.mem_cons_of_mem _ member)
      have same := enters.same_of_eleIn directory other found
      have known := Dirs.DirCluster.first directory
      refine ⟨.more known (enters.eleIn_keeps knownClus empty missing known other found) ?_ ?_,
        same'⟩
      · rwa [same]
      · rwa [same]

end Enters

end Dirs

end Pegasos.Fat
