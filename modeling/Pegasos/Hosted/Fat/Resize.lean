import Pegasos.Hosted.Fat.ChainEdits
import Pegasos.Hosted.Fat.Lengths

/-!
# Files get longer or shorter

What `fobj_trunc` makes of a file.  It cuts off one cluster too many, and the functions of
`cluster.c` can store only the entries of the clusters up to 340, so that a file of a
consistent volume is right behind it only where nothing but the whole chain is cut off.
-/

namespace Pegasos.Hosted

open Pegasos.Support
open Fat (Sector direntAt)
open Function (update)

namespace FatVol

/-- A volume with 12-bit entries. -/
structure Fat12 (fv : FatVol) : Prop extends Table fv where
  sectors : ∃ k ≤ 7, fv.secPerClus = 2 ^ k

/-- A regular file. -/
structure IsFile (fv : FatVol) (next : Nat → Nat) (info : FileInfo) (chain : List Nat) :
    Prop where
  isChain : fv.Chain next info.dir.cluster0.toNat chain
  count : chain.length = fv.clusterCount info.dir.size.toNat
  sector : info.sector < 0x100000000
  outside : ¬fv.InTable info.sector
  slot : info.secoffs + direntSize ≤ BLKSIZE

/-- The FAT behind `fobj_trunc`, with the new chain of the file. -/
structure Rechained (fv : FatVol) (next : Nat → Nat) (chain : List Nat) (count : Nat)
    (next' : Nat → Nat) (cluster0 : Nat) (chain' : List Nat) : Prop where
  isChain : fv.Chain next' cluster0 chain'
  length : chain'.length = count
  same : chain'.take (min chain.length count) = chain.take (min chain.length count)
  cut : ∀ c ∈ chain, c ∉ chain' → next' c = 0
  added : ∀ c ∈ chain', c ∉ chain → c ∈ fv.frees next
  others : ∀ c, c ∉ chain → c ∉ chain' → next' c = next c

/-- The file has the new length: in the FAT, in `info` and in its slot. -/
structure Resized (fv : FatVol) (next : Nat → Nat) (info : FileInfo) (chain : List Nat)
    (length : Nat) (info' : FileInfo) (data : Nat → Sector) : Prop where
  table : ∃ next' chain', fv.Shows data next' ∧
    fv.Rechained next chain (fv.clusterCount length) next' info'.dir.cluster0.toNat chain'
  size : info'.dir.size.toNat = length
  slotSize : (direntAt (data info.sector) info.secoffs).size = info'.dir.size
  slotCluster0 : (direntAt (data info.sector) info.secoffs).cluster0 = info'.dir.cluster0

/-- `fobj_trunc` returns, and if it returns 0 then the file has the new length. -/
def Resizes (fv : FatVol) (next : Nat → Nat) (info : FileInfo) (chain : List Nat)
    (length : Nat) (unit : Blocks) : Prop :=
  Program.Gives (fv.fobjTrunc info length) unit fun value after =>
    value.1 = 0 → fv.Resized next info chain length value.2 after.data

/-- The code computes the number of clusters of the length. -/
def SizeFits (fv : FatVol) (length : Nat) : Prop :=
  fv.secPerClus < 64 ∨ fv.secPerClus = 64 ∧ length ≤ 0x8000

/-- Nothing but the whole chain is cut off, and the entries that change are those of clusters
up to 340. -/
def ChainFits (fv : FatVol) (next : Nat → Nat) (chain : List Nat) (count : Nat) : Prop :=
  count = 0 ∧ (∀ c ∈ chain, c ≤ 340) ∨
    chain.length < count ∧ (∀ c ∈ chain.getLast?, c ≤ 340) ∧
      ∀ c ∈ (fv.frees next).take (count - chain.length), c ≤ 340

variable {fv : FatVol} {next : Nat → Nat} {data : Nat → Sector} {unit : Blocks} {info : FileInfo}
  {chain added more front back : List Nat} {length a blkno : Nat} {cl0 : UInt16}

theorem Fat12.sectors_cases (fat12 : fv.Fat12) :
    fv.secPerClus < 64 ∨ fv.secPerClus = 64 ∨ fv.secPerClus = 128 := by
  obtain ⟨k, atMost, sectors⟩ := fat12.sectors
  rw [sectors]
  obtain few | rfl | rfl : k ≤ 5 ∨ k = 6 ∨ k = 7 := by omega
  · exact .inl (Nat.lt_of_le_of_lt (Nat.pow_le_pow_right (by decide) few) (by decide))
  · exact .inr (.inl rfl)
  · exact .inr (.inr rfl)

/-! ## The chain -/

theorem Chain.length_le {cluster0 : Nat} (isChain : fv.Chain next cluster0 chain) :
    chain.length ≤ fv.nClus := by
  have inside : chain ⊆ List.range fv.nClus := fun c member =>
    List.mem_range.mpr (isChain.clusters c member).2
  have shorter := (isChain.nodup.subperm inside).length_le
  rwa [List.length_range] at shorter

theorem Chain.fuel (table : fv.Table) {c cluster0 : Nat} {rest : List Nat}
    (isChain : fv.Chain next cluster0 (c :: rest)) : rest.length + 1 < truncFuel := by
  have few := table.few
  have shorter := isChain.length_le
  rw [List.length_cons] at shorter
  unfold truncFuel
  omega

/-- The first cluster of a file that has one. -/
theorem Chain.cluster0_cons {c : Nat} {rest : List Nat}
    (isChain : fv.Chain next cl0.toNat (c :: rest)) : cl0.toNat = c ∧ cl0 ≠ 0 := by
  refine ⟨isChain.linked.1, ?_⟩
  rintro rfl
  have first := (isChain.clusters c List.mem_cons_self).1
  have same : (0 : UInt16).toNat = c := isChain.linked.1
  change 0 = c at same
  omega

theorem Chain.cluster0_nil (isChain : fv.Chain next cl0.toNat []) : cl0 = 0 :=
  UInt16.toNat_inj.mp isChain.linked

/-- The entries from a cluster of the chain on. -/
theorem Chain.links_from {cluster0 : Nat} (isChain : fv.Chain next cluster0 (front ++ a :: back)) :
    Links next IsMark a back := by
  have linked := isChain.linked
  cases front with
  | nil => exact linked.2
  | cons c front => exact linked.2.suffix

/-! ## What `fobj_trunc` does to it -/

/-- The whole chain is cut off. -/
theorem truncChain_none (table : fv.Table) (isChain : fv.Chain next cl0.toNat chain)
    (shows : fv.Shows unit.data next) (low : ∀ c ∈ chain, c ≤ 340) :
    Returns (fv.truncChain 0 cl0) unit fun left after =>
      left = 0 ∧ fv.Changes (cleared next chain) unit after := by
  cases chain with
  | nil =>
      obtain rfl := isChain.cluster0_nil
      refine Returns.pure ⟨rfl, ?_⟩
      rw [cleared_nil]
      exact .refl shows
  | cons c rest =>
      obtain ⟨same, nonzero⟩ := isChain.cluster0_cons
      have cluster := isChain.clusters c List.mem_cons_self
      have few := table.few
      have fuel := isChain.fuel table
      have positive : c ≠ 0 := by omega
      have goesOn : ¬0xff0 ≤ c := by omega
      rw [truncChain, if_neg nonzero, same]
      change Returns (fv.truncEdit cl0 0 c 0) unit _
      rw [truncEdit, if_neg (not_not.mpr rfl), if_pos positive,
        show truncFuel = (truncFuel - 1) + 1 from rfl]
      simp only [truncShrink, if_true, goesOn, if_false]
      refine Returns.attempt (clusGetNext_table table shows cluster.2)
        (fun _ _ got => got.2.freed) (fun value unit' got => ?_) fun code => rfl
      obtain ⟨rfl, kept⟩ := got
      have enough : rest.length < truncFuel - 1 := by omega
      have cut := truncShrink_table table 0 isChain.linked.2 isChain.nodup kept.shows
        isChain.clusters low enough
      exact Returns.weaken cut fun left after ended => ⟨ended.1, kept.trans ended.2⟩

theorem truncChain_none_fault (table : fv.Table) (isChain : fv.Chain next cl0.toNat chain)
    (shows : fv.Shows unit.data next) (fine : unit.Fine) (high : ∃ c ∈ chain, 340 < c) :
    fv.truncChain 0 cl0 unit = .fault := by
  cases chain with
  | nil =>
      obtain ⟨c, member, -⟩ := high
      exact absurd member List.not_mem_nil
  | cons c rest =>
      obtain ⟨same, nonzero⟩ := isChain.cluster0_cons
      have cluster := isChain.clusters c List.mem_cons_self
      have few := table.few
      have fuel := isChain.fuel table
      have positive : c ≠ 0 := by omega
      have goesOn : ¬0xff0 ≤ c := by omega
      rw [truncChain, if_neg nonzero, same]
      change fv.truncEdit cl0 0 c 0 unit = _
      rw [truncEdit, if_neg (not_not.mpr rfl), if_pos positive,
        show truncFuel = (truncFuel - 1) + 1 from rfl]
      simp only [truncShrink, if_true, goesOn, if_false]
      obtain ⟨value, unit', got, rfl, kept⟩ :=
        run_fine (clusGetNext_table table shows cluster.2) fine
      have enough : rest.length < truncFuel - 1 := by omega
      refine (Program.bind_ok (Program.attempt_ok got)).trans ?_
      exact truncShrink_fault table 0 isChain.linked.2 isChain.nodup kept.shows
        isChain.clusters (kept.freed.fine fine) high enough

/-- The first loop stops within the chain, at the cluster `a`, and the clusters from `a` on
are cut off. -/
theorem truncChain_within (table : fv.Table)
    (isChain : fv.Chain next cl0.toNat (front ++ a :: back)) (shows : fv.Shows unit.data next)
    (low : ∀ c ∈ a :: back, c ≤ 340) :
    Returns (fv.truncChain (front.length + 1) cl0) unit fun left after =>
      left = cl0 ∧ fv.Changes (cleared next (a :: back)) unit after := by
  obtain ⟨c, rest, split⟩ : ∃ c rest, front ++ a :: back = c :: rest :=
    List.exists_cons_of_ne_nil (by simp)
  have inChain : a :: back ⊆ front ++ a :: back := List.subset_append_right _ _
  have used := isChain.used (inChain List.mem_cons_self)
  have links := isChain.links_from
  have nodup := isChain.nodup.of_append_right
  have clusters := fun d member => isChain.clusters d (inChain member)
  rw [split] at isChain
  obtain ⟨same, nonzero⟩ := isChain.cluster0_cons
  have fuel := isChain.fuel table
  have lengths := congrArg List.length split
  simp only [List.length_append, List.length_cons] at lengths
  rw [truncChain, if_neg nonzero, same]
  refine Returns.attempt (truncWalk_table table _ isChain.linked.2 shows
    fun d member => (isChain.clusters d member).2) (fun _ _ walked => walked.2.freed)
    (fun walked unit' ended => ?_) fun code => rfl
  obtain ⟨rfl, kept⟩ := ended
  rw [walkEnd_within isChain.linked.2 split.symm]
  change Returns (fv.truncEdit cl0 a (next a) 0) unit' _
  rw [truncEdit, if_neg (not_not.mpr rfl), if_pos used]
  have cut := truncShrink_table table cl0 links nodup kept.shows clusters low
    (show back.length < truncFuel by omega)
  exact Returns.weaken cut fun left after ended => ⟨ended.1, kept.trans ended.2⟩

theorem truncChain_within_fault (table : fv.Table)
    (isChain : fv.Chain next cl0.toNat (front ++ a :: back)) (shows : fv.Shows unit.data next)
    (fine : unit.Fine) (high : ∃ c ∈ a :: back, 340 < c) :
    fv.truncChain (front.length + 1) cl0 unit = .fault := by
  obtain ⟨c, rest, split⟩ : ∃ c rest, front ++ a :: back = c :: rest :=
    List.exists_cons_of_ne_nil (by simp)
  have inChain : a :: back ⊆ front ++ a :: back := List.subset_append_right _ _
  have used := isChain.used (inChain List.mem_cons_self)
  have links := isChain.links_from
  have nodup := isChain.nodup.of_append_right
  have clusters := fun d member => isChain.clusters d (inChain member)
  rw [split] at isChain
  obtain ⟨same, nonzero⟩ := isChain.cluster0_cons
  have fuel := isChain.fuel table
  have lengths := congrArg List.length split
  simp only [List.length_append, List.length_cons] at lengths
  obtain ⟨walked, unit', ran, rfl, kept⟩ := run_fine (truncWalk_table (p := 0) table
    (front.length + 1) isChain.linked.2 shows fun d member => (isChain.clusters d member).2) fine
  rw [truncChain, if_neg nonzero, same]
  refine (Program.bind_ok (Program.attempt_ok ran)).trans ?_
  rw [walkEnd_within isChain.linked.2 split.symm]
  change fv.truncEdit cl0 a (next a) 0 unit' = _
  rw [truncEdit, if_neg (not_not.mpr rfl), if_pos used]
  exact truncShrink_fault table cl0 links nodup kept.shows clusters (kept.freed.fine fine) high
    (show back.length < truncFuel by omega)

/-- The clusters `added` have been put behind the chain. -/
def Grown (fv : FatVol) (next : Nat → Nat) (chain added : List Nat) (unit : Blocks)
    (cluster0 : UInt16) (after : Blocks) : Prop :=
  ∃ next', fv.Changes next' unit after ∧ fv.Chain next' cluster0.toNat (chain ++ added) ∧
    ∀ c, c ∉ chain → c ∉ added → next' c = next c

/-- Behind its first loop, `fobj_trunc` adds clusters to the chain. -/
theorem truncEdit_grow (table : fv.Table) (c : Nat) (isChain : fv.Chain next cl0.toNat chain)
    (shows : fv.Shows unit.data next) (free : fv.frees next = added ++ more) (some : added ≠ [])
    (low : ∀ c ∈ chain.getLast?, c ≤ 340) (low' : ∀ c ∈ added, c ≤ 340) :
    Returns (fv.truncEdit cl0 (chain.getLastD 0) c added.length) unit
      (fv.Grown next chain added unit) := by
  have missing : added.length ≠ 0 := fun none => some (List.length_eq_zero_iff.mp none)
  rw [truncEdit, if_pos missing]
  refine ⟨Program.Ends.seq (truncGrow_table table added isChain shows free low low').ends ?_⟩
  rintro ⟨rc, left, p⟩ unit' (⟨ok, last, next', changes, isChain', others⟩ | fails)
  · obtain rfl : rc = 0 := ok
    obtain ⟨start, b, rfl⟩ := (List.eq_nil_or_concat' added).resolve_left some
    have final : p = b := by
      rw [← List.append_assoc, List.getLastD_concat] at last
      exact last
    subst final
    have member : p ∈ start ++ [p] := List.mem_append_right start List.mem_cons_self
    have cluster := isChain'.clusters p (List.mem_append_right chain member)
    have marked : fv.Chain (update next' p 0xfff) left.toNat (chain ++ (start ++ [p])) := by
      obtain ⟨d, rest, split⟩ : ∃ d rest, chain ++ (start ++ [p]) = d :: rest :=
        List.exists_cons_of_ne_nil (by simp)
      have final : rest.getLastD d = p := by
        rw [← List.getLastD_cons (a := 0), ← split, ← List.append_assoc, List.getLastD_concat]
      rw [split] at isChain' ⊢
      exact final ▸ isChain'.mark
    simp only [ne_eq, not_true_eq_false, if_false]
    refine Returns.mono ?_ changes.freed
    refine Returns.attempt (clusSetNext_table table changes.shows cluster.2 (low' p member)
      (by decide)) (fun _ _ stored => stored.freed) (fun _ unit'' stored => ?_) fun code => rfl
    refine Returns.pure ⟨_, changes.trans stored, marked, fun c outside outside' => ?_⟩
    have apart : c ≠ p := fun same => outside' (same ▸ member)
    rw [Function.update_of_ne apart]
    exact others c outside outside'
  · have failed : rc ≠ 0 := fails.2.1
    simp only [ne_eq, failed, not_false_eq_true, if_true]
    exact .inr fails

/-- The first loop stops behind the chain, and clusters are added. -/
theorem truncChain_behind (table : fv.Table) (isChain : fv.Chain next cl0.toNat chain)
    (shows : fv.Shows unit.data next) (free : fv.frees next = added ++ more) (some : added ≠ [])
    (low : ∀ c ∈ chain.getLast?, c ≤ 340) (low' : ∀ c ∈ added, c ≤ 340) :
    Returns (fv.truncChain (added.length + chain.length) cl0) unit
      (fv.Grown next chain added unit) := by
  cases chain with
  | nil =>
      obtain rfl := isChain.cluster0_nil
      exact truncEdit_grow table 0 isChain shows free some low low'
  | cons c rest =>
      obtain ⟨same, nonzero⟩ := isChain.cluster0_cons
      rw [truncChain, if_neg nonzero, same]
      refine Returns.attempt (truncWalk_table table _ isChain.linked.2 shows
        fun d member => (isChain.clusters d member).2) (fun _ _ walked => walked.2.freed)
        (fun walked unit' ended => ?_) fun code => rfl
      obtain ⟨rfl, kept⟩ := ended
      rw [walkEnd_behind]
      have grown := truncEdit_grow table (next (rest.getLastD c)) isChain kept.shows free some
        low low'
      rw [List.getLastD_cons] at grown
      refine Returns.weaken grown fun left after ended => ?_
      obtain ⟨next', changes, isChain', others⟩ := ended
      exact ⟨next', kept.trans changes, isChain', others⟩

theorem truncChain_behind_fault (table : fv.Table) (isChain : fv.Chain next cl0.toNat chain)
    (shows : fv.Shows unit.data next) (free : fv.frees next = added ++ more) (some : added ≠ [])
    (fine : unit.Fine) (high : (∃ c ∈ chain.getLast?, 340 < c) ∨ ∃ c ∈ added, 340 < c) :
    fv.truncChain (added.length + chain.length) cl0 unit = .fault := by
  have missing : added.length ≠ 0 := fun none => some (List.length_eq_zero_iff.mp none)
  cases chain with
  | nil =>
      obtain rfl := isChain.cluster0_nil
      have high' := high.resolve_left (by simp)
      change fv.truncEdit 0 0 0 added.length unit = _
      rw [truncEdit, if_pos missing]
      exact Program.bind_fault (truncGrow_fault table added 0 shows free fine some (.inl rfl)
        (.inr high'))
  | cons c rest =>
      obtain ⟨same, nonzero⟩ := isChain.cluster0_cons
      have member : rest.getLastD c ∈ c :: rest := List.getLastD_mem_cons
      have cluster := isChain.clusters _ member
      have high' : 340 < rest.getLastD c ∨ ∃ c ∈ added, 340 < c := by
        refine high.imp_left ?_
        rintro ⟨d, last, tooHigh⟩
        rw [List.getLast?_eq_some_getLast (List.cons_ne_nil c rest),
          List.getLast_eq_getLastD] at last
        cases last
        exact tooHigh
      obtain ⟨walked, unit', ran, rfl, kept⟩ := run_fine (truncWalk_table (p := 0) table
        (added.length + (c :: rest).length) isChain.linked.2 shows
        fun d member => (isChain.clusters d member).2) fine
      rw [truncChain, if_neg nonzero, same]
      refine (Program.bind_ok (Program.attempt_ok ran)).trans ?_
      rw [walkEnd_behind]
      change fv.truncEdit cl0 (rest.getLastD c) (next (rest.getLastD c)) added.length unit' = _
      rw [truncEdit, if_pos missing]
      exact Program.bind_fault (truncGrow_fault table added cl0 kept.shows free
        (kept.freed.fine fine) some (.inr ⟨cluster.2, isChain.used member⟩) high')

/-! ## The FAT and the slot -/

/-- The FAT depends on its own sectors only. -/
theorem Shows.update_apart (shows : fv.Shows data next) (outside : ¬fv.InTable blkno)
    (sector : Sector) : fv.Shows (update data blkno sector) next := fun copy isCopy c inFat =>
  (entryOf_apart outside isCopy inFat sector).trans (shows copy isCopy c inFat)

/-- What `fobj_trunc` does once it has changed the chain. -/
theorem fobjTrunc_returns (nonzero : fv.byPerClus ≠ 0) (few : info.sector < 0x100000000)
    {good : UInt16 → Blocks → Prop}
    (edits : Returns (fv.truncChain (fv.clustersFor length) info.dir.cluster0) unit good)
    (freed : ∀ cluster0 unit', good cluster0 unit' → unit.Freed unit') :
    Returns (fv.fobjTrunc info length) unit fun info' after =>
      ∃ cluster0 unit', good cluster0 unit' ∧ info' = withLength info cluster0 length ∧
        after.data = update unit'.data info.sector
          (storeLength info.secoffs cluster0 length (unit'.data info.sector)) := by
  rw [fobjTrunc, if_neg nonzero]
  refine ⟨Program.Ends.seq edits.ends ?_⟩
  rintro ⟨rc, cluster0⟩ unit' (⟨ok, holds⟩ | fails)
  · obtain rfl : rc = 0 := ok
    simp only [ne_eq, not_true_eq_false, if_false]
    refine Program.Ends.seq (storeSize_ends (withLength info cluster0 length) length few).attempt ?_
    rintro result after (⟨value, rfl, stored⟩ | ⟨code, rfl, fails⟩)
    · exact .inl ⟨rfl, cluster0, unit', holds, rfl, stored⟩
    · exact .inr (fails.after (freed cluster0 unit' holds))
  · have failed : rc ≠ 0 := fails.2.1
    simp only [ne_eq, failed, not_false_eq_true, if_true]
    exact .inr fails

theorem fobjTrunc_fault (nonzero : fv.byPerClus ≠ 0)
    (faults : fv.truncChain (fv.clustersFor length) info.dir.cluster0 unit = .fault) :
    fv.fobjTrunc info length unit = .fault := by
  rw [fobjTrunc, if_neg nonzero]
  exact Program.bind_fault faults

/-- A changed FAT and the stored length make a file of the new length. -/
theorem Resized.of_rechained {next' : Nat → Nat} {cluster0 : UInt16} {chain' : List Nat}
    (small : length < 0x100000000) (outside : ¬fv.InTable info.sector)
    (shows : fv.Shows data next')
    (rechained : fv.Rechained next chain (fv.clusterCount length) next' cluster0.toNat chain') :
    fv.Resized next info chain length (withLength info cluster0 length)
      (update data info.sector
        (storeLength info.secoffs cluster0 length (data info.sector))) := by
  have slot := direntAt_storeLength info.secoffs cluster0 length (data info.sector)
  refine ⟨⟨next', chain', shows.update_apart outside _, rechained⟩, ?_, ?_, ?_⟩
  · exact UInt32.toNat_ofNat_of_lt' small
  · rw [Function.update_self]
    exact slot.2
  · rw [Function.update_self]
    exact slot.1

/-! ## When it is right -/

theorem rechained_none :
    fv.Rechained next chain 0 (cleared next chain) (0 : UInt16).toNat [] where
  isChain := ⟨fun c member => absurd member List.not_mem_nil, List.nodup_nil, rfl⟩
  length := rfl
  same := by rw [Nat.min_zero]; rfl
  cut c member _ := if_pos member
  added c member := absurd member List.not_mem_nil
  others c outside _ := if_neg outside

theorem rechained_behind {next' : Nat → Nat} {cluster0 : Nat}
    (free : fv.frees next = added ++ more)
    (isChain : fv.Chain next' cluster0 (chain ++ added))
    (others : ∀ c, c ∉ chain → c ∉ added → next' c = next c) :
    fv.Rechained next chain (added.length + chain.length) next' cluster0 (chain ++ added) where
  isChain := isChain
  length := by rw [List.length_append, Nat.add_comm]
  same := by
    rw [Nat.min_eq_left (Nat.le_add_left _ _), List.take_left', List.take_length]
    rfl
  cut c member outside := absurd (List.mem_append_left added member) outside
  added c member outside := by
    have member' := (List.mem_append.mp member).resolve_left outside
    rw [free]
    exact List.mem_append_left more member'
  others c outside outside' := others c outside fun member =>
    outside' (List.mem_append_right chain member)

/-- A length for which enough clusters exist. -/
theorem small_of_enough (fat12 : fv.Fat12) {cluster0 : Nat}
    (isChain : fv.Chain next cluster0 chain)
    (enough : fv.clusterCount length ≤ chain.length + (fv.frees next).length) :
    length < 0x20000000 := by
  have few := fat12.few
  have shorter := isChain.length_le
  have shorter' : (fv.frees next).length ≤ fv.nClus := by
    have filtered := List.length_filter_le (fun c => 2 ≤ c ∧ next c = 0) (List.range fv.nClus)
    rwa [List.length_range] at filtered
  obtain ⟨k, atMost, sectors⟩ := fat12.sectors
  have positive : 0 < fv.clusterBytes := by
    rw [clusterBytes, sectors]
    exact Nat.mul_pos (by decide) (Nat.two_pow_pos k)
  have bytes : fv.clusterBytes ≤ 0x10000 := by
    rw [clusterBytes, sectors]
    exact Nat.mul_le_mul_left BLKSIZE (Nat.pow_le_pow_right (by decide) atMost)
  have count : fv.clusterCount length ≤ 0x1fe0 := by omega
  have product : length + (fv.clusterBytes - 1) < (0x1fe0 + 1) * fv.clusterBytes :=
    (Nat.div_lt_iff_lt_mul positive).mp (Nat.lt_succ_of_le count)
  omega

theorem clusterBytes_even (sectors : fv.secPerClus = 64) : fv.clusterBytes = 0x8000 := by
  rw [clusterBytes, sectors]
  decide

/-- The bytes of a cluster are not zero as an `int`, and the target is right. -/
theorem SizeFits.target (fat12 : fv.Fat12) (fits : fv.SizeFits length)
    (small : length < 0x20000000) :
    fv.byPerClus ≠ 0 ∧ fv.clustersFor length = fv.clusterCount length := by
  rcases fits with fits | ⟨sectors, fits⟩
  · have regular : fv.Regular := by
      obtain ⟨k, -, sectors⟩ := fat12.sectors
      exact ⟨sectors ▸ Nat.two_pow_pos k, fits⟩
    refine ⟨?_, clustersFor_eq fat12.blksize regular (by omega)⟩
    have positive := clusterBytes_pos regular
    rw [byPerClus_eq fat12.blksize regular]
    omega
  · refine ⟨?_, ?_⟩
    · rw [byPerClus, fat12.blksize, sectors]
      decide
    · rw [clustersFor_negative fat12.blksize sectors (by omega), clusterCount,
        clusterBytes_even sectors]
      split_ifs <;> omega

/-- `fobj_trunc` makes a file of the new length. -/
theorem resizes_of_fits (fat12 : fv.Fat12) (shows : fv.Shows unit.data next)
    (file : fv.IsFile next info chain)
    (enough : fv.clusterCount length ≤ chain.length + (fv.frees next).length)
    (sizeFits : fv.SizeFits length) (chainFits : fv.ChainFits next chain (fv.clusterCount length)) :
    fv.Resizes next info chain length unit := by
  have small := small_of_enough fat12 file.isChain enough
  have few : length < 0x100000000 := by omega
  obtain ⟨nonzero, target⟩ := sizeFits.target fat12 small
  suffices rechains : Returns (fv.truncChain (fv.clustersFor length) info.dir.cluster0) unit
      fun cluster0 after => unit.Freed after ∧ ∃ next' chain', fv.Shows after.data next' ∧
        fv.Rechained next chain (fv.clusterCount length) next' cluster0.toNat chain' by
    have returns := fobjTrunc_returns nonzero file.sector rechains fun _ _ good => good.1
    refine returns.gives.mono ?_
    rintro ⟨rc, info'⟩ after (⟨-, cluster0, unit', ⟨-, next', chain', shows', rechained⟩, same, data⟩
      | fails) ok
    · change fv.Resized next info chain length info' after.data
      change info' = withLength info cluster0 length at same
      rw [same, data]
      exact .of_rechained few file.outside shows' rechained
    · exact absurd ok fails.2.1
  rw [target]
  rcases chainFits with ⟨none, low⟩ | ⟨longer, lastLow, low⟩
  · rw [none]
    refine Returns.weaken (truncChain_none fat12.toTable file.isChain shows low) ?_
    rintro cluster0 after ⟨rfl, changes⟩
    exact ⟨changes.freed, _, [], changes.shows, rechained_none⟩
  · have missing : fv.clusterCount length - chain.length ≤ (fv.frees next).length := by omega
    have free := (List.take_append_drop (fv.clusterCount length - chain.length)
      (fv.frees next)).symm
    have count : ((fv.frees next).take (fv.clusterCount length - chain.length)).length =
        fv.clusterCount length - chain.length := List.length_take_of_le missing
    have sum : fv.clusterCount length =
        ((fv.frees next).take (fv.clusterCount length - chain.length)).length + chain.length := by
      omega
    generalize (fv.frees next).take (fv.clusterCount length - chain.length) = added at *
    have some : added ≠ [] := by
      rintro rfl
      rw [List.length_nil] at count
      omega
    rw [sum]
    refine Returns.weaken (truncChain_behind fat12.toTable file.isChain shows free some lastLow
      low) ?_
    rintro cluster0 after ⟨next', changes, isChain', others⟩
    exact ⟨changes.freed, next', _, changes.shows, rechained_behind free isChain' others⟩

/-! ## When it is wrong -/

theorem Shows.unique (table : fv.Table) {next' : Nat → Nat} (shows : fv.Shows data next)
    (shows' : fv.Shows data next') (inRange : a < fv.nClus) : next a = next' a :=
  (shows 0 table.some a (table.entries a inRange)).symm.trans
    (shows' 0 table.some a (table.entries a inRange))

/-- Without a first cluster, the length takes none. -/
theorem Rechained.count_zero {next' : Nat → Nat} {count : Nat} {chain' : List Nat}
    (rechained : fv.Rechained next chain count next' (0 : UInt16).toNat chain') : count = 0 := by
  rw [← rechained.length]
  cases chain' with
  | nil => rfl
  | cons c rest => exact absurd rfl rechained.isChain.cluster0_cons.2

/-- The last cluster that is kept stays in use. -/
theorem Rechained.kept_used {next' : Nat → Nat} {cluster0 : Nat} {chain' : List Nat}
    (rechained : fv.Rechained next (front ++ a :: back) (front.length + 1) next' cluster0 chain') :
    next' a ≠ 0 := by
  have same := rechained.same
  have kept : (front ++ a :: back).take (front.length + 1) = front ++ [a] := by
    rw [List.take_length_add_append]
    rfl
  rw [Nat.min_eq_right (by rw [List.length_append, List.length_cons]; omega), kept] at same
  refine rechained.isChain.used (List.mem_of_mem_take (i := front.length + 1) ?_)
  rw [same]
  exact List.mem_append_right front List.mem_cons_self

/-- What `fobj_trunc` stores makes no file of the new length if its chain is wrong. -/
theorem Resizes.good (resizes : fv.Resizes next info chain length unit) (fine : unit.Fine)
    (nonzero : fv.byPerClus ≠ 0) (file : fv.IsFile next info chain) {next' : Nat → Nat}
    {cluster0 : UInt16}
    (edits : Returns (fv.truncChain (fv.clustersFor length) info.dir.cluster0) unit
      fun left after => left = cluster0 ∧ fv.Changes next' unit after) :
    ∃ data next'' chain', fv.Shows data next' ∧ fv.Shows data next'' ∧
      fv.Rechained next chain (fv.clusterCount length) next'' cluster0.toNat chain' := by
  have returns := fobjTrunc_returns nonzero file.sector edits fun _ _ good => good.2.freed
  obtain ⟨info', after, ran, left, unit', ⟨rfl, changes⟩, rfl, data⟩ := returns.run_fine fine
  obtain ⟨value, after', ran', resized⟩ := resizes
  rw [ran] at ran'
  injection ran' with same same'
  subst same same'
  obtain ⟨next'', chain', shows, rechained⟩ := (resized rfl).table
  refine ⟨after.data, next'', chain', ?_, shows, rechained⟩
  rw [data]
  exact changes.shows.update_apart file.outside _

/-- The whole chain is cut off only if the length takes no cluster. -/
theorem low_of_resizes_none (fat12 : fv.Fat12) (shows : fv.Shows unit.data next)
    (file : fv.IsFile next info chain) (fine : unit.Fine) (nonzero : fv.byPerClus ≠ 0)
    (target : fv.clustersFor length = 0) (resizes : fv.Resizes next info chain length unit) :
    fv.clusterCount length = 0 ∧ ∀ c ∈ chain, c ≤ 340 := by
  have low : ∀ c ∈ chain, c ≤ 340 := by
    by_contra high
    push Not at high
    refine Program.not_gives_of_fault (fobjTrunc_fault nonzero ?_) resizes
    rw [target]
    exact truncChain_none_fault fat12.toTable file.isChain shows fine high
  refine ⟨?_, low⟩
  have edits := truncChain_none fat12.toTable file.isChain shows low
  rw [← target] at edits
  obtain ⟨data, next', chain', -, -, rechained⟩ := resizes.good fine nonzero file edits
  exact rechained.count_zero

/-- A part of the chain is not cut off rightly. -/
theorem not_resizes_within (fat12 : fv.Fat12) (shows : fv.Shows unit.data next)
    (file : fv.IsFile next info (front ++ a :: back)) (fine : unit.Fine)
    (nonzero : fv.byPerClus ≠ 0) (target : fv.clustersFor length = front.length + 1)
    (count : fv.clusterCount length = front.length + 1) :
    ¬fv.Resizes next info (front ++ a :: back) length unit := by
  intro resizes
  by_cases high : ∃ c ∈ a :: back, 340 < c
  · refine Program.not_gives_of_fault (fobjTrunc_fault nonzero ?_) resizes
    rw [target]
    exact truncChain_within_fault fat12.toTable file.isChain shows fine high
  · push Not at high
    have edits := truncChain_within fat12.toTable file.isChain shows high
    rw [← target] at edits
    obtain ⟨data, next', chain', cut, shows', rechained⟩ := resizes.good fine nonzero file edits
    rw [count] at rechained
    have member : a ∈ front ++ a :: back := List.mem_append_right front List.mem_cons_self
    have cluster := file.isChain.clusters a member
    refine rechained.kept_used ?_
    rw [← cut.unique fat12.toTable shows' cluster.2]
    exact if_pos List.mem_cons_self

/-- Clusters are added only if their entries can be stored. -/
theorem low_of_resizes_behind (fat12 : fv.Fat12) (shows : fv.Shows unit.data next)
    (file : fv.IsFile next info chain) (fine : unit.Fine) (nonzero : fv.byPerClus ≠ 0)
    (free : fv.frees next = added ++ more) (some : added ≠ [])
    (target : fv.clustersFor length = added.length + chain.length)
    (resizes : fv.Resizes next info chain length unit) :
    (∀ c ∈ chain.getLast?, c ≤ 340) ∧ ∀ c ∈ added, c ≤ 340 := by
  by_contra high
  have high' : (∃ c ∈ chain.getLast?, 340 < c) ∨ ∃ c ∈ added, 340 < c := by
    by_contra none
    push Not at none
    exact high none
  refine Program.not_gives_of_fault (fobjTrunc_fault nonzero ?_) resizes
  rw [target]
  exact truncChain_behind_fault fat12.toTable file.isChain shows free some fine high'

theorem fits_of_resizes (fat12 : fv.Fat12) (shows : fv.Shows unit.data next)
    (file : fv.IsFile next info chain)
    (enough : fv.clusterCount length ≤ chain.length + (fv.frees next).length) (fine : unit.Fine)
    (resizes : fv.Resizes next info chain length unit) :
    fv.SizeFits length ∧ fv.ChainFits next chain (fv.clusterCount length) := by
  have small := small_of_enough fat12 file.isChain enough
  have sizeFits : fv.SizeFits length := by
    by_contra wrong
    unfold SizeFits at wrong
    rcases fat12.sectors_cases with few | even | zero
    · exact wrong (.inl few)
    · have target := clustersFor_negative fat12.blksize even
        (show length < 0x100000000 by omega)
      rw [if_neg (by omega)] at target
      have nonzero : fv.byPerClus ≠ 0 := by
        rw [byPerClus, fat12.blksize, even]
        decide
      have none := (low_of_resizes_none fat12 shows file fine nonzero target resizes).1
      rw [clusterCount, clusterBytes_even even] at none
      omega
    · refine Program.not_gives_of_fault ?_ resizes
      rw [fobjTrunc, if_pos (byPerClus_zero fat12.blksize zero)]
      rfl
  obtain ⟨nonzero, target⟩ := sizeFits.target fat12 small
  refine ⟨sizeFits, ?_⟩
  rcases Nat.eq_zero_or_pos (fv.clusterCount length) with none | some
  · rw [none] at target
    exact .inl ⟨none, (low_of_resizes_none fat12 shows file fine nonzero target resizes).2⟩
  rcases Nat.lt_or_ge chain.length (fv.clusterCount length) with longer | within
  · have missing : fv.clusterCount length - chain.length ≤ (fv.frees next).length := by omega
    have free := (List.take_append_drop (fv.clusterCount length - chain.length)
      (fv.frees next)).symm
    have count : ((fv.frees next).take (fv.clusterCount length - chain.length)).length =
        fv.clusterCount length - chain.length := List.length_take_of_le missing
    have nonempty : (fv.frees next).take (fv.clusterCount length - chain.length) ≠ [] := by
      intro nil
      rw [nil, List.length_nil] at count
      omega
    exact .inr ⟨longer, low_of_resizes_behind fat12 shows file fine nonzero free nonempty
      (by omega) resizes⟩
  · have inside : fv.clusterCount length - 1 < chain.length := by omega
    have split := List.take_append_drop (fv.clusterCount length - 1) chain
    rw [List.drop_eq_getElem_cons inside] at split
    have front : (chain.take (fv.clusterCount length - 1)).length + 1 =
        fv.clusterCount length := by
      rw [List.length_take_of_le (Nat.le_of_lt inside)]
      omega
    rw [← split] at file resizes
    exact absurd resizes
      (not_resizes_within fat12 shows file fine nonzero (target.trans front.symm) front.symm)

theorem floppy_fat12 : floppy.Fat12 where
  toGeometry := floppy_geometry
  some := by decide
  few := by decide
  entries := floppy_entries
  sectors := ⟨1, by decide, by decide⟩

/-- An empty file in the root directory. -/
def emptyFile : FileInfo := { sector := 5, secoffs := 0, dir := direntAt (fun _ => 0) 0 }

theorem emptyFile_isFile (next : Nat → Nat) : floppy.IsFile next emptyFile [] where
  isChain := ⟨fun c member => absurd member List.not_mem_nil, List.nodup_nil, rfl⟩
  count := by decide
  sector := by decide
  outside := by
    rintro ⟨-, below⟩
    exact absurd below (by decide)
  slot := by decide

/-- A floppy disk with a file of one byte in the root directory. -/
def oneFile : Blocks :=
  { data := fun blkno i =>
      if blkno = 1 ∨ blkno = 3 then
        -- the entry of cluster 2
        if i = 3 then 0xff else if i = 4 then 0x0f else 0
      else if blkno = 5 ∧ i = 26 then 2
      else if blkno = 5 ∧ i = 28 then 1
      else 0
    inuse := [], blocks := 720, buffers := 8, transfers := [] }

/-- The file. -/
def oneFileInfo : FileInfo := { sector := 5, secoffs := 0, dir := direntAt (oneFile.data 5) 0 }

theorem oneFile_isFile : floppy.IsFile (floppy.entryOf oneFile.data 0) oneFileInfo [2] where
  isChain := by
    refine ⟨fun c member => ?_, List.nodup_singleton 2, by decide +kernel, ?_⟩
    · rw [List.mem_singleton.mp member]
      decide
    · change 0xff8 ≤ floppy.entryOf oneFile.data 0 2
      decide +kernel
  count := by decide +kernel
  sector := by decide
  outside := by
    rintro ⟨-, below⟩
    exact absurd below (by decide)
  slot := by decide

/-- `fobj_trunc` has returned 0 and left an entry that is zero. -/
def leavesZero : Result Blocks (Int × FileInfo) → Bool
  | .ok value after => value.1 = 0 ∧ floppy.entryOf after.data 0 2 = 0
  | _ => false

end FatVol

end Pegasos.Hosted
