import Pegasos.Hosted.Fat.EntryTable
import Pegasos.Hosted.Fat.FileObj
import Pegasos.Support.Links

/-!
# Changes of a chain of clusters

What the loops of `fobj_trunc` do to the chain of a file: they walk along it, put free
clusters behind it, and cut clusters off.
-/

namespace Pegasos.Hosted

open Pegasos.Support
open Function (update)

/-- An end-of-chain mark. -/
def IsMark (entry : Nat) : Prop := 0xff8 ≤ entry

/-- The first cluster of a file, and those behind it. -/
def Linked (next : Nat → Nat) (cluster0 : Nat) : List Nat → Prop
  | [] => cluster0 = 0
  | c :: rest => cluster0 = c ∧ Links next IsMark c rest

namespace FatVol

/-- The clusters of a file. -/
structure Chain (fv : FatVol) (next : Nat → Nat) (cluster0 : Nat) (chain : List Nat) : Prop where
  clusters : ∀ c ∈ chain, 2 ≤ c ∧ c < fv.nClus
  nodup : chain.Nodup
  linked : Linked next cluster0 chain

/-- The entries once some clusters have been freed. -/
def cleared (next : Nat → Nat) (clusters : List Nat) : Nat → Nat := fun c =>
  if c ∈ clusters then 0 else next c

variable {fv : FatVol} {unit : Blocks} {next : Nat → Nat} {c p a cluster0 : Nat}
  {chain rest added more : List Nat} {α : Type}

/-- The program returns 0 and a result, or the code of an error. -/
structure Returns (program : BlockM (Int × α)) (unit : Blocks) (good : α → Blocks → Prop) :
    Prop where
  ends : Program.Ends program unit
    (fun value after => value.1 = 0 ∧ good value.2 after ∨ Fails unit value.1 after)
    fun _ _ => False

theorem cleared_cons : cleared (update next p 0) rest = cleared next (p :: rest) := by
  funext c
  by_cases same : c = p
  · subst same
    simp [cleared]
  · simp [cleared, same]

theorem cleared_nil : cleared next [] = next := by
  funext c
  simp [cleared]

/-- The cluster `a` is put behind the last one. -/
theorem Chain.append (isChain : fv.Chain next cluster0 (c :: rest)) (exist : 2 ≤ a ∧ a < fv.nClus)
    (fresh : a ∉ c :: rest) :
    fv.Chain (update (update next a 0xfff) (rest.getLastD c) a) cluster0 (c :: rest ++ [a]) where
  clusters d member := by
    rcases List.mem_append.mp member with old | last
    · exact isChain.clusters d old
    · rwa [List.mem_singleton.mp last]
  nodup := by
    refine List.nodup_append'.mpr ⟨isChain.nodup, List.nodup_singleton a, ?_⟩
    simpa using fresh
  linked :=
    ⟨isChain.linked.1, isChain.linked.2.append isChain.nodup fresh (by unfold IsMark; decide)⟩

theorem chain_single (exist : 2 ≤ a ∧ a < fv.nClus) : fv.Chain (update next a 0xfff) a [a] where
  clusters d member := by rwa [List.mem_singleton.mp member]
  nodup := List.nodup_singleton a
  linked := ⟨rfl, by
    change 0xff8 ≤ update next a 0xfff a
    rw [Function.update_self]
    decide⟩

/-- The mark behind the last cluster is stored again. -/
theorem Chain.mark (isChain : fv.Chain next cluster0 (c :: rest)) :
    fv.Chain (update next (rest.getLastD c) 0xfff) cluster0 (c :: rest) where
  clusters := isChain.clusters
  nodup := isChain.nodup
  linked := ⟨isChain.linked.1, isChain.linked.2.setEnd isChain.nodup (by unfold IsMark; decide)⟩

/-- The entry of a cluster of a file is not zero. -/
theorem Chain.used (isChain : fv.Chain next cluster0 chain) (member : a ∈ chain) : next a ≠ 0 := by
  cases chain with
  | nil => exact absurd member List.not_mem_nil
  | cons c rest =>
      rcases isChain.linked.2.next_mem member with later | mark
      · have cluster := (isChain.clusters _ (List.mem_cons_of_mem c later)).1
        omega
      · unfold IsMark at mark
        omega

/-! ## Walking -/

/-- Where the first loop of `fobj_trunc` ends: `p`, `c` and the clusters that are missing. -/
def walkEnd (next : Nat → Nat) : Nat → Nat → Nat → List Nat → Nat × Nat × Nat
  | 0, p, c, _ => (p, c, 0)
  | left + 1, _, c, [] => (c, next c, left)
  | left + 1, _, c, d :: rest => walkEnd next left c d rest

/-- Behind the chain. -/
theorem walkEnd_behind (left : Nat) :
    walkEnd next (left + (c :: rest).length) p c rest =
      (rest.getLastD c, next (rest.getLastD c), left) := by
  induction rest generalizing p c with
  | nil => rfl
  | cons d rest ih =>
      rw [List.getLastD_cons, ← ih (p := c) (c := d)]
      rfl

/-- Within the chain. -/
theorem walkEnd_within {front back : List Nat} (links : Links next IsMark c rest)
    (split : c :: rest = front ++ a :: back) :
    walkEnd next (front.length + 1) p c rest = (a, next a, 0) := by
  induction front generalizing p c rest with
  | nil =>
      obtain ⟨rfl, rfl⟩ := List.cons.inj split
      cases rest with
      | nil => rfl
      | cons d rest => rw [List.length_nil, walkEnd, walkEnd, links.1]
  | cons e front ih =>
      obtain ⟨rfl, rfl⟩ := List.cons.inj split
      cases front with
      | nil => exact ih links.2 rfl
      | cons f front => exact ih links.2 rfl

theorem truncWalk_table (table : fv.Table) (left : Nat) (links : Links next IsMark c rest)
    (shows : fv.Shows unit.data next) (inRange : ∀ d ∈ c :: rest, d < fv.nClus) :
    Program.Ends (fv.truncWalk left p c) unit
      (fun walked after => walked = walkEnd next left p c rest ∧ fv.Changes next unit after)
      (Fails unit) := by
  induction left generalizing p c rest unit with
  | zero => exact ⟨by cases rest <;> rfl, .refl shows⟩
  | succ left ih =>
      have small := inRange c List.mem_cons_self
      have few := table.few
      rw [truncWalk, if_pos (by omega)]
      refine (clusGetNext_table table shows small).seq ?_
      rintro value unit' ⟨rfl, changes⟩
      cases rest with
      | nil =>
          cases left with
          | zero => exact ⟨rfl, changes⟩
          | succ left =>
              have mark : 0xff8 ≤ next c := links
              rw [truncWalk, if_neg (by omega)]
              exact ⟨rfl, changes⟩
      | cons d rest =>
          rw [links.1]
          refine (ih links.2 changes.shows fun e member =>
            inRange e (List.mem_cons_of_mem c member)).mono (fun walked after ended => ?_)
            fun code after fails => fails.after changes.freed
          exact ⟨ended.1, changes.trans ended.2⟩

/-! ## Cutting clusters off -/

namespace Returns

variable {good : α → Blocks → Prop} {β : Type} {post : β → Blocks → Prop} {part : BlockM β}
  {next : Except Int β → BlockM (Int × α)}

theorem pure {value : α} (holds : good value unit) : Returns (Pure.pure (0, value)) unit good :=
  ⟨.inl ⟨rfl, holds⟩⟩

theorem gives {program : BlockM (Int × α)} (returns : Returns program unit good) :
    Program.Gives program unit fun value after =>
      value.1 = 0 ∧ good value.2 after ∨ Fails unit value.1 after := returns.ends.gives

/-- On a unit without failing transfers, the program returns 0. -/
theorem run_fine {program : BlockM (Int × α)} (returns : Returns program unit good)
    (fine : unit.Fine) :
    ∃ value after, program unit = .ok (0, value) after ∧ good value after := by
  obtain ⟨⟨rc, value⟩, after, ran, ⟨ok, holds⟩ | fails⟩ := returns.gives
  · obtain rfl : rc = 0 := ok
    exact ⟨value, after, ran, holds⟩
  · exact absurd fine fails.2.2

/-- The program runs on what another one has left. -/
theorem mono {program : BlockM (Int × α)} {unit' : Blocks} (returns : Returns program unit' good)
    (freed : unit.Freed unit') :
    Program.Ends program unit'
      (fun value after => value.1 = 0 ∧ good value.2 after ∨ Fails unit value.1 after)
      fun _ _ => False :=
  returns.ends.mono (fun _ _ ended => ended.imp_right (Fails.after freed))
    fun _ _ impossible => impossible

theorem weaken {stronger : α → Blocks → Prop} {program : BlockM (Int × α)}
    (returns : Returns program unit stronger)
    (weaken : ∀ value after, stronger value after → good value after) :
    Returns program unit good :=
  ⟨returns.ends.mono (fun value after ended => ended.imp_left (And.imp_right (weaken value.2 after)))
    fun _ _ impossible => impossible⟩

/-- A part whose error code is returned, and then the rest of the program. -/
theorem attempt {other : α} (first : Program.Ends part unit post (Fails unit))
    (freed : ∀ value unit', post value unit' → unit.Freed unit')
    (rest : ∀ value unit', post value unit' → Returns (next (.ok value)) unit' good)
    (error : ∀ code, next (.error code) = Pure.pure (code, other)) :
    Returns (Program.attempt part >>= next) unit good := by
  refine ⟨Program.Ends.seq first.attempt fun result unit' ended => ?_⟩
  rcases ended with ⟨value, rfl, holds⟩ | ⟨code, rfl, fails⟩
  · exact (rest value unit' holds).mono (freed value unit' holds)
  · rw [error]
    exact .inr fails

end Returns

/-- The loop of `fobj_trunc` that cuts clusters off, from a cluster on to the end. -/
theorem truncShrink_table (table : fv.Table) (cl0 : UInt16) {fuel : Nat}
    (links : Links next IsMark p rest) (nodup : (p :: rest).Nodup)
    (shows : fv.Shows unit.data next) (clusters : ∀ c ∈ p :: rest, 2 ≤ c ∧ c < fv.nClus)
    (low : ∀ c ∈ p :: rest, c ≤ 340) (enough : rest.length < fuel) :
    Returns (fv.truncShrink fuel p (next p) cl0) unit fun left after =>
      left = cl0 ∧ fv.Changes (cleared next (p :: rest)) unit after := by
  induction rest generalizing p fuel unit next with
  | nil =>
      obtain ⟨fuel, rfl⟩ : ∃ more, fuel = more + 1 := ⟨fuel - 1, by omega⟩
      have cluster := clusters p List.mem_cons_self
      have positive : p ≠ 0 := by omega
      have mark : 0xff8 ≤ next p := links
      have isEnd : 0xff0 ≤ next p := by omega
      simp only [truncShrink, positive, if_false, isEnd, if_true]
      refine Returns.attempt (clusSetNext_table table shows cluster.2
        (low p List.mem_cons_self) (by decide)) (fun _ _ changes => changes.freed)
        (fun _ unit' changes => ?_) fun code => rfl
      rw [← cleared_cons, cleared_nil]
      exact Returns.pure ⟨rfl, changes⟩
  | cons d rest ih =>
      obtain ⟨fuel, rfl⟩ : ∃ more, fuel = more + 1 := ⟨fuel - 1, by omega⟩
      have cluster := clusters p List.mem_cons_self
      have cluster' := clusters d (List.mem_cons_of_mem p List.mem_cons_self)
      have few := table.few
      have positive : p ≠ 0 := by omega
      have apart : d ≠ p := by
        rintro rfl
        exact (List.nodup_cons.mp nodup).1 List.mem_cons_self
      have goesOn : ¬0xff0 ≤ d := by omega
      have later : Links (update next p 0) IsMark d rest := by
        refine links.2.congr fun e member => Function.update_of_ne ?_ _ _
        rintro rfl
        exact (List.nodup_cons.mp nodup).1 member
      simp only [truncShrink, positive, if_false, links.1, goesOn]
      refine Returns.attempt (clusSetNext_table table shows cluster.2
        (low p List.mem_cons_self) (by decide)) (fun _ _ changes => changes.freed)
        (fun _ unit' changes => ?_) fun code => rfl
      refine Returns.attempt (clusGetNext_table table changes.shows cluster'.2)
        (fun _ _ got => got.2.freed) (fun value unit'' got => ?_) fun code => rfl
      obtain ⟨rfl, kept⟩ := got
      have enough' : rest.length < fuel := by
        rw [List.length_cons] at enough
        omega
      have rest' := ih later nodup.of_cons kept.shows
        (fun e member => clusters e (List.mem_cons_of_mem p member))
        (fun e member => low e (List.mem_cons_of_mem p member)) enough'
      refine Returns.weaken rest' fun left after ended => ⟨ended.1, ?_⟩
      rw [← cleared_cons]
      exact (changes.trans kept).trans ended.2

/-- It leaves a buffer if the first entry cannot be stored. -/
theorem truncShrink_fault_first (table : fv.Table) (cl0 : UInt16) {fuel : Nat}
    (fine : unit.Fine) (cluster : 2 ≤ p ∧ p < fv.nClus) (high : 340 < p) :
    fv.truncShrink (fuel + 1) p c cl0 unit = .fault := by
  have positive : p ≠ 0 := by omega
  simp only [truncShrink, positive, if_false]
  exact Program.bind_fault
    (Program.attempt_fault (clusSetNext_table_fault table fine cluster.2 high))

/-- It leaves a buffer if one of the entries cannot be stored. -/
theorem truncShrink_fault (table : fv.Table) (cl0 : UInt16) {fuel : Nat}
    (links : Links next IsMark p rest) (nodup : (p :: rest).Nodup)
    (shows : fv.Shows unit.data next) (clusters : ∀ c ∈ p :: rest, 2 ≤ c ∧ c < fv.nClus)
    (fine : unit.Fine) (high : ∃ c ∈ p :: rest, 340 < c) (enough : rest.length < fuel) :
    fv.truncShrink fuel p (next p) cl0 unit = .fault := by
  induction rest generalizing p fuel unit next with
  | nil =>
      obtain ⟨fuel, rfl⟩ : ∃ more, fuel = more + 1 := ⟨fuel - 1, by omega⟩
      obtain ⟨c, member, tooHigh⟩ := high
      obtain rfl : c = p := by simpa using member
      exact truncShrink_fault_first table cl0 fine (clusters c List.mem_cons_self) tooHigh
  | cons d rest ih =>
      obtain ⟨fuel, rfl⟩ : ∃ more, fuel = more + 1 := ⟨fuel - 1, by omega⟩
      have cluster := clusters p List.mem_cons_self
      by_cases here : 340 < p
      · exact truncShrink_fault_first table cl0 fine cluster here
      have cluster' := clusters d (List.mem_cons_of_mem p List.mem_cons_self)
      have few := table.few
      have positive : p ≠ 0 := by omega
      have goesOn : ¬0xff0 ≤ d := by omega
      have later : Links (update next p 0) IsMark d rest := by
        refine links.2.congr fun e member => Function.update_of_ne ?_ _ _
        rintro rfl
        exact (List.nodup_cons.mp nodup).1 member
      obtain ⟨c, member, tooHigh⟩ := high
      have member' : c ∈ d :: rest := by
        refine (List.mem_cons.mp member).resolve_left ?_
        rintro rfl
        exact here tooHigh
      obtain ⟨_, unit', set, changes⟩ := run_fine (clusSetNext_table table shows
        cluster.2 (Nat.le_of_not_lt here) (show 0 < 0x1000 by decide)) fine
      obtain ⟨value, unit'', got, rfl, kept⟩ := run_fine
        (clusGetNext_table table changes.shows cluster'.2) (changes.freed.fine fine)
      have enough' : rest.length < fuel := by
        rw [List.length_cons] at enough
        omega
      simp only [truncShrink, positive, if_false, links.1, goesOn]
      refine (Program.bind_ok (Program.attempt_ok set)).trans ?_
      refine (Program.bind_ok (Program.attempt_ok got)).trans ?_
      exact ih later nodup.of_cons kept.shows
        (fun e member => clusters e (List.mem_cons_of_mem p member))
        (kept.freed.fine (changes.freed.fine fine)) ⟨c, member', tooHigh⟩ enough'

/-! ## Adding clusters -/

/-- Storing a cluster in an entry in use does not change which clusters are free. -/
theorem frees_used (used : next p ≠ 0) (taken : a ≠ 0) :
    fv.frees (update next p a) = fv.frees next := by
  refine List.filter_congr fun c _ => ?_
  by_cases same : c = p
  · subst same
    simp [used, taken]
  · simp [same]

/-- The loop of `fobj_trunc` that adds clusters. -/
theorem truncGrow_table (table : fv.Table) (added : List Nat) {cluster0 : UInt16}
    (isChain : fv.Chain next cluster0.toNat chain) (shows : fv.Shows unit.data next)
    (free : fv.frees next = added ++ more) (low : ∀ c ∈ chain.getLast?, c ≤ 340)
    (low' : ∀ c ∈ added, c ≤ 340) :
    Returns (fv.truncGrow added.length (chain.getLastD 0) cluster0) unit fun left after =>
      left.2 = (chain ++ added).getLastD 0 ∧ ∃ next', fv.Changes next' unit after ∧
        fv.Chain next' left.1.toNat (chain ++ added) ∧
        ∀ c, c ∉ chain → c ∉ added → next' c = next c := by
  induction added generalizing chain cluster0 unit next with
  | nil =>
      rw [List.append_nil]
      exact Returns.pure ⟨rfl, next, .refl shows, isChain, fun _ _ _ => rfl⟩
  | cons a added ih =>
      have first := frees_cons free
      have aLow := low' a List.mem_cons_self
      rw [List.length_cons, truncGrow]
      refine Returns.attempt (clusAlloc_table table shows free aLow)
        (fun _ _ changes => changes.2.freed) (fun taken unit' ended => ?_) fun code => rfl
      obtain ⟨rfl, changes⟩ := ended
      have exist : 2 ≤ taken ∧ taken < fv.nClus := ⟨first.1, first.2.1⟩
      have few := table.few
      have left := frees_update free (show 0xfff ≠ 0 by decide)
      cases chain with
      | nil =>
          have word : (UInt16.ofNat taken).toNat = taken := UInt16.toNat_ofNat_of_lt' (by
            change taken < 0x10000
            omega)
          have single : fv.Chain (update next taken 0xfff) (UInt16.ofNat taken).toNat [taken] :=
            word.symm ▸ chain_single exist
          have grown := ih single changes.shows left (by simpa using aLow)
            fun c member => low' c (List.mem_cons_of_mem taken member)
          change Returns (if (0 : Nat) = 0 then _ else _) unit' _
          rw [if_pos rfl]
          refine Returns.weaken grown fun value after ended => ?_
          obtain ⟨last, next', changes', isChain', others⟩ := ended
          refine ⟨last, next', changes.trans changes', isChain', fun c _ outside => ?_⟩
          rw [List.mem_cons, not_or] at outside
          rw [others c (by simpa using outside.1) outside.2, Function.update_of_ne outside.1]
      | cons c rest =>
          have member : rest.getLastD c ∈ c :: rest := List.getLastD_mem_cons
          have last : (c :: rest).getLastD 0 = rest.getLastD c := List.getLastD_cons
          have cluster := isChain.clusters _ member
          have pLow : rest.getLastD c ≤ 340 := low _ (by
            rw [List.getLast?_eq_some_getLast (List.cons_ne_nil c rest),
              List.getLast_eq_getLastD]
            rfl)
          have fresh : taken ∉ c :: rest := fun inChain => isChain.used inChain first.2.2.1
          have apart : rest.getLastD c ≠ taken := fun same => fresh (same ▸ member)
          have used : update next taken 0xfff (rest.getLastD c) ≠ 0 := by
            rw [Function.update_of_ne apart]
            exact isChain.used member
          have positive : rest.getLastD c ≠ 0 := by omega
          rw [last]
          change Returns (if rest.getLastD c = 0 then _ else _) unit' _
          rw [if_neg positive]
          refine Returns.attempt (clusSetNext_table table changes.shows cluster.2 pLow (by omega))
            (fun _ _ changes => changes.freed) (fun _ unit'' linked => ?_) fun code => rfl
          have grown := ih (isChain.append exist fresh)
            linked.shows ((frees_used used (by omega)).trans left)
            (by
              rw [List.getLast?_concat]
              simpa using aLow)
            fun c member => low' c (List.mem_cons_of_mem taken member)
          rw [List.getLastD_concat] at grown
          refine Returns.weaken grown fun value after ended => ?_
          obtain ⟨last', next', changes', isChain', others⟩ := ended
          rw [List.append_assoc] at last' isChain'
          refine ⟨last', next', (changes.trans linked).trans changes', isChain', ?_⟩
          intro d outside outside'
          rw [List.mem_cons, not_or] at outside'
          have notLast : d ≠ rest.getLastD c := fun same => outside (same ▸ member)
          rw [others d (by simpa [outside'.1] using outside) outside'.2,
            Function.update_of_ne notLast, Function.update_of_ne outside'.1]

/-- It leaves a buffer if one of the entries cannot be stored. -/
theorem truncGrow_fault (table : fv.Table) (added : List Nat) (cluster0 : UInt16)
    (shows : fv.Shows unit.data next) (free : fv.frees next = added ++ more) (fine : unit.Fine)
    (some : added ≠ []) (place : p = 0 ∨ p < fv.nClus ∧ next p ≠ 0)
    (high : 340 < p ∨ ∃ c ∈ added, 340 < c) :
    fv.truncGrow added.length p cluster0 unit = .fault := by
  induction added generalizing p cluster0 unit next with
  | nil => exact absurd rfl some
  | cons a added ih =>
      rw [List.length_cons, truncGrow]
      by_cases aHigh : 340 < a
      · exact Program.bind_fault
          (Program.attempt_fault (clusAlloc_table_fault table shows free fine aHigh))
      obtain ⟨positive, inRange, isFree, -⟩ := frees_cons free
      have few := table.few
      obtain ⟨taken, unit', ran, rfl, changes⟩ :=
        run_fine (clusAlloc_table table shows free (Nat.le_of_not_lt aHigh)) fine
      have fine' := changes.freed.fine fine
      have left := frees_update free (show 0xfff ≠ 0 by decide)
      have place' : taken = 0 ∨ taken < fv.nClus ∧ update next taken 0xfff taken ≠ 0 :=
        .inr ⟨inRange, by rw [Function.update_self]; decide⟩
      -- a high cluster among the others, unless it is `p`
      have later : ¬340 < p → ∃ c ∈ added, 340 < c := by
        intro pLow
        obtain ⟨c, member, tooHigh⟩ := high.resolve_left pLow
        refine ⟨c, (List.mem_cons.mp member).resolve_left ?_, tooHigh⟩
        rintro rfl
        exact aHigh tooHigh
      have nonempty : (∃ c ∈ added, 340 < c) → added ≠ [] := by
        rintro ⟨c, member, -⟩ rfl
        exact List.not_mem_nil member
      refine (Program.bind_ok (Program.attempt_ok ran)).trans ?_
      change (if p = 0 then _ else _ : BlockM (Int × UInt16 × Nat)) unit' = _
      by_cases first : p = 0
      · rw [if_pos first]
        have high' := later (by omega)
        exact ih _ changes.shows left fine' (nonempty high') place' (.inr high')
      · rw [if_neg first]
        obtain ⟨cluster, used⟩ := place.resolve_left first
        have apart : p ≠ taken := fun same => used (same ▸ isFree)
        by_cases pHigh : 340 < p
        · exact Program.bind_fault
            (Program.attempt_fault (clusSetNext_table_fault table fine' cluster pHigh))
        · obtain ⟨_, unit'', ran', linked⟩ := run_fine (clusSetNext_table table
            changes.shows cluster (Nat.le_of_not_lt pHigh) (show taken < 0x1000 by omega)) fine'
          refine (Program.bind_ok (Program.attempt_ok ran')).trans ?_
          have high' := later pHigh
          have used' : update next taken 0xfff p ≠ 0 := by rwa [Function.update_of_ne apart]
          refine ih _ linked.shows ((frees_used used' (by omega)).trans left)
            (linked.freed.fine fine') (nonempty high') (.inr ⟨inRange, ?_⟩) (.inr high')
          rw [Function.update_of_ne apart.symm]
          exact place'.resolve_left (by omega) |>.2

end FatVol

end Pegasos.Hosted
