import Pegasos.Kernel.Cache.BlkCache
import Pegasos.Support.CInt
import Pegasos.Support.Transition

/-!
# The block cache and its holders

Whatever the devices answer, the blocks stay one circular list with at most one block
for every tag, and a block that someone holds keeps its place on the device.  The count
of a block is the number of its holders up to 32767 of them, where it wraps around.
-/

namespace Pegasos.Kernel.Cache

open Pegasos.Support
open Function (update)

universe u

variable {Data : Type u}

/-- The cache with the number of calls of `bc_get` that have returned each block and
that no call of `bc_put` has answered yet. -/
structure HeldCache (Data : Type u) where
  cache : BlkCache Data
  holds : BlkPtr → Nat

/-- The calls, with what the device holds and how the transfer goes, and a change of
the contents by a holder. -/
inductive HolderAction (Data : Type u) where
  | bcGet (tag : Tag) (sector : Data) (access : Access Data)
  | modify (block : BlkPtr) (data : Data)
  | bcPut (block : BlkPtr) (sector : Data) (access : Access Unit)

namespace HeldCache

variable (sys : HeldCache Data)

/-- One call.  Devices have indices from 0 on, and a block is put by a holder. -/
def step : HolderAction Data → Option (HeldCache Data)
  | .bcGet tag sector access =>
      if tag.dev < 0 then none
      else
        (sys.cache.bcGet tag sector access).value?.map fun (rc, b, cache) =>
          ⟨cache, if rc = 0 then update sys.holds b (sys.holds b + 1) else sys.holds⟩
  | .modify block data =>
      if 0 < sys.holds block then
        some ⟨sys.cache.modify block fun b => { b with data := data, dirty := true }, sys.holds⟩
      else none
  | .bcPut block sector access =>
      if 0 < sys.holds block then
        (sys.cache.bcPut block sector access).value?.map fun (_, cache, _) =>
          ⟨cache, update sys.holds block (sys.holds block - 1)⟩
      else none

/-- The cache after `bc_init`, with any contents of the buffers. -/
def start (memory : BlkPtr → Data) : HeldCache Data := ⟨.bcInit memory, fun _ => 0⟩

/-- `bc_get` finds no block that already has 32767 holders. -/
def FewHolders : HolderAction Data → Prop
  | .bcGet tag _ _ => ∀ b, (sys.cache.blocks b).tag = tag → sys.holds b < 0x7FFF
  | _ => True

instance (action : HolderAction Data) : Decidable (sys.FewHolders action) := by
  unfold FewHolders
  split <;> infer_instance

/-- The circular list, the tags and the counts. -/
structure Structured : Prop where
  circular : ∃ order, sys.cache.Circular order
  unique : ∀ b b', 0 ≤ (sys.cache.blocks b).tag.dev →
    (sys.cache.blocks b).tag = (sys.cache.blocks b').tag → b = b'
  counted : ∀ b, (sys.cache.blocks b).inuse = sys.holds b

/-- No call gives a block in use another tag, and only a holder changes what is in it. -/
def Pinned (guard : HolderAction Data → Prop) : Prop :=
  ∀ action sys', guard action → sys.step action = some sys' → ∀ b, (sys.cache.blocks b).inuse > 0 →
    (sys'.cache.blocks b).tag = (sys.cache.blocks b).tag ∧
      ((sys'.cache.blocks b).data = (sys.cache.blocks b).data ∨ ∃ data, action = .modify b data)

/-! ## The invariant -/

variable {sys} {sys' : HeldCache Data} {block : BlkPtr}

/-- The counts stay within an `int`. -/
structure Inv (sys : HeldCache Data) : Prop extends Structured sys where
  few : ∀ b, sys.holds b ≤ 0x7FFF

theorem start_inv (memory : BlkPtr → Data) : (start memory).Inv := by
  have block := BlkCache.bcInit_block memory
  refine ⟨⟨BlkCache.bcInit_circular memory, fun b b' dev _ => ?_, fun b => ?_⟩, fun b => ?_⟩
  · simp [start, (block b).2.1] at dev
  · simp [start, (block b).1]
  · simp [start]

/-- A change of the count of one block, and of members that are neither link nor tag. -/
theorem Inv.edit (inv : sys.Inv) (edit : Block Data → Block Data) (holds : Nat)
    (next : ∀ b, (edit b).next = b.next) (prev : ∀ b, (edit b).prev = b.prev)
    (tag : ∀ b, (edit b).tag = b.tag) (few : holds ≤ 0x7FFF)
    (counted : (edit (sys.cache.blocks block)).inuse = holds) :
    (HeldCache.mk (sys.cache.modify block edit) (update sys.holds block holds)).Inv := by
  obtain ⟨order, circular⟩ := inv.circular
  have same : ∀ b, ((sys.cache.modify block edit).blocks b).next = (sys.cache.blocks b).next ∧
      ((sys.cache.modify block edit).blocks b).prev = (sys.cache.blocks b).prev ∧
      ((sys.cache.modify block edit).blocks b).tag = (sys.cache.blocks b).tag := by
    intro b
    rw [BlkCache.modify_blocks]
    split
    · rename_i isBlock
      rw [isBlock]
      exact ⟨next _, prev _, tag _⟩
    · exact ⟨rfl, rfl, rfl⟩
  refine ⟨⟨⟨order, ?_⟩, fun b b' => ?_, fun b => ?_⟩, fun b => ?_⟩
  · exact circular.congr (fun b => (same b).1) (fun b => (same b).2.1) rfl
  · rw [(same b).2.2, (same b').2.2]
    exact inv.unique b b'
  · dsimp only
    rw [BlkCache.modify_blocks, Function.update_apply]
    by_cases isBlock : b = block
    · rw [if_pos isBlock, if_pos isBlock, counted]
    · rw [if_neg isBlock, if_neg isBlock, inv.counted b]
  · dsimp only
    rw [Function.update_apply]
    split
    · exact few
    · exact inv.few b

/-- A block that nobody holds is read anew. -/
theorem Inv.refill (inv : sys.Inv) {tag : Tag} (missing : ∀ b, (sys.cache.blocks b).tag ≠ tag)
    (data : Data) (holds : Nat) (few : holds ≤ 0x7FFF) :
    (HeldCache.mk (sys.cache.refill block tag data holds) (update sys.holds block holds)).Inv := by
  obtain ⟨order, circular⟩ := inv.circular
  obtain ⟨order', circular'⟩ := circular.refill block tag data holds
  have self : (sys.cache.refill block tag data holds).blocks block =
      { sys.cache.blocks block with tag := tag, data := data, inuse := holds } :=
    Function.update_self _ _ _
  have other : ∀ b, b ≠ block →
      (sys.cache.refill block tag data holds).blocks b = sys.cache.blocks b := fun b ne =>
    Function.update_of_ne ne _ _
  refine ⟨⟨⟨order', circular'⟩, fun b b' dev same => ?_, fun b => ?_⟩, fun b => ?_⟩
  · dsimp only at dev same
    by_cases isBlock : b = block <;> by_cases isBlock' : b' = block
    · rw [isBlock, isBlock']
    · rw [isBlock, self, other b' isBlock'] at same
      exact absurd same.symm (missing b')
    · rw [isBlock', self, other b isBlock] at same
      exact absurd same (missing b)
    · rw [other b isBlock] at dev same
      rw [other b' isBlock'] at same
      exact inv.unique b b' dev same
  · dsimp only
    by_cases isBlock : b = block
    · rw [isBlock, self, Function.update_self]
    · rw [other b isBlock, Function.update_of_ne isBlock, inv.counted b]
  · dsimp only
    rw [Function.update_apply]
    split
    · exact few
    · exact inv.few b

/-- What one call does: it counts a holder in or out, refills a block that nobody
holds, or changes the contents of a block. -/
theorem Inv.step_cases (inv : sys.Inv) {action : HolderAction Data} (few : sys.FewHolders action)
    (taken : sys.step action = some sys') :
    (∃ block edit holds, sys' = ⟨sys.cache.modify block edit, update sys.holds block holds⟩ ∧
      (∀ b, (edit b).next = b.next ∧ (edit b).prev = b.prev ∧ (edit b).tag = b.tag ∧
        ((edit b).data = b.data ∨ ∃ data, action = .modify block data)) ∧
      holds ≤ 0x7FFF ∧ (edit (sys.cache.blocks block)).inuse = holds) ∨
    ∃ block tag data holds, sys' = ⟨sys.cache.refill block tag data (Nat.cast holds),
        update sys.holds block holds⟩ ∧
      (∀ b, (sys.cache.blocks b).tag ≠ tag) ∧ (sys.cache.blocks block).inuse = 0 ∧
      holds ≤ 0x7FFF := by
  obtain ⟨order, circular⟩ := inv.circular
  cases action with
  | bcGet tag sector access =>
      simp only [step, Option.ite_none_left_eq_some, Option.map_eq_some_iff,
        Outcome.value?_eq_some] at taken
      obtain ⟨-, ⟨rc, b, cache'⟩, ran, rfl⟩ := taken
      rcases BlkCache.bcGet_cases circular tag sector access with
        ⟨found, hit, result⟩ | ⟨missing, full | ⟨found, unused, -, result⟩⟩
      · rw [result] at ran
        obtain ⟨rfl, rfl, rfl⟩ : 0 = rc ∧ found = b ∧ _ = cache' := by
          simpa only [Outcome.ok.injEq, Prod.mk.injEq] using ran
        have less := few found hit
        refine .inl ⟨found, fun b => { b with inuse := Cache.int16 (b.inuse + 1) },
          sys.holds found + 1, by simp, fun b => ⟨rfl, rfl, rfl, .inl rfl⟩, less, ?_⟩
        simp only [inv.counted found]
        rw [show Cache.int16 = Support.int16 from rfl, int16_eq (by omega) (by omega)]
        rfl
      · rw [full.2] at ran
        simp at ran
      · rw [result] at ran
        have none : sys.holds found = 0 := Int.natCast_eq_zero.mp ((inv.counted found).symm.trans unused)
        cases access with
        | done =>
            obtain ⟨rfl, rfl, rfl⟩ : 0 = rc ∧ found = b ∧ _ = cache' := by
              simpa only [Outcome.ok.injEq, Prod.mk.injEq] using ran
            exact .inr ⟨found, tag, sector, 1, by simp [none], missing, unused, by decide⟩
        | failed code left =>
            obtain ⟨rfl, rfl, rfl⟩ : -((code : Int) + 1) = rc ∧ found = b ∧ _ = cache' := by
              simpa only [Outcome.ok.injEq, Prod.mk.injEq] using ran
            have failed : -((code : Int) + 1) ≠ 0 := by omega
            refine .inr ⟨found, tag, left, 0, ?_, missing, unused, by decide⟩
            rw [if_neg failed, ← none, Function.update_eq_self]
            simp [none]
  | modify block data =>
      simp only [step, Option.ite_none_right_eq_some, Option.some.injEq] at taken
      obtain ⟨-, rfl⟩ := taken
      exact .inl ⟨block, fun b => { b with data := data, dirty := true }, sys.holds block,
        by rw [Function.update_eq_self], fun b => ⟨rfl, rfl, rfl, .inr ⟨data, rfl⟩⟩,
        inv.few block, inv.counted block⟩
  | bcPut block sector access =>
      simp only [step, Option.ite_none_right_eq_some, Option.map_eq_some_iff,
        Outcome.value?_eq_some] at taken
      obtain ⟨held, ⟨rc, cache', after⟩, ran, rfl⟩ := taken
      have counted := inv.counted block
      have few := inv.few block
      have fewer : Cache.int16 ((sys.cache.blocks block).inuse - 1) = (sys.holds block - 1 : Nat) := by
        rw [show Cache.int16 = Support.int16 from rfl, int16_eq (by omega) (by omega)]
        omega
      rcases BlkCache.bcPut_cases circular block sector access (by omega) with
        ⟨-, result⟩ | ⟨-, -, result, -⟩ <;>
      · rw [result] at ran
        obtain ⟨rfl, rfl, rfl⟩ : _ = rc ∧ _ = cache' ∧ _ = after := by
          simpa only [Outcome.ok.injEq, Prod.mk.injEq] using ran
        exact .inl ⟨block, fun b => { b with inuse := Cache.int16 (b.inuse - 1) },
          sys.holds block - 1, rfl, fun b => ⟨rfl, rfl, rfl, .inl rfl⟩, by omega, fewer⟩

theorem Inv.step (inv : sys.Inv) {action : HolderAction Data} (few : sys.FewHolders action)
    (taken : sys.step action = some sys') : sys'.Inv := by
  rcases inv.step_cases few taken with
    ⟨block, edit, holds, rfl, same, few, counted⟩ | ⟨block, tag, data, holds, rfl, missing, -, few⟩
  · exact inv.edit edit holds (fun b => (same b).1) (fun b => (same b).2.1)
      (fun b => (same b).2.2.1) few counted
  · exact inv.refill missing data holds few

theorem Inv.pinned (inv : sys.Inv) : sys.Pinned sys.FewHolders := by
  intro action sys' few taken b used
  rcases inv.step_cases few taken with
    ⟨block, edit, holds, rfl, same, -⟩ | ⟨block, tag, data, holds, rfl, -, unused, -⟩
  · rw [BlkCache.modify_blocks]
    by_cases isBlock : b = block
    · subst isBlock
      rw [if_pos rfl]
      exact ⟨(same _).2.2.1, (same _).2.2.2⟩
    · rw [if_neg isBlock]
      exact ⟨rfl, .inl rfl⟩
  · have ne : b ≠ block := by
      rintro rfl
      omega
    have kept : (sys.cache.refill block tag data holds).blocks b = sys.cache.blocks b :=
      Function.update_of_ne ne _ _
    dsimp only
    rw [kept]
    exact ⟨rfl, .inl rfl⟩

/-- In every run in which no block gets more than 32767 holders, the structure of the
cache holds and blocks in use stay what they are. -/
theorem block_cache_structured {memory : BlkPtr → Data}
    (reached : Reached (· = start memory) (fun s a s' => s.step a = some s') FewHolders sys) :
    sys.Structured ∧ sys.Pinned sys.FewHolders := by
  have inv : sys.Inv := reached.invariant Inv (by rintro _ rfl; exact start_inv memory)
    (fun inv few taken => inv.step few taken)
  exact ⟨inv.toStructured, inv.pinned⟩

/-- Two holders of one block, of which one puts it, and a read that fails. -/
theorem block_cache_structured_shared :
    ∃ sys, runs step (start fun _ => (0 : Nat))
        [.bcGet ⟨0, 0, 5⟩ 1 .done, .bcGet ⟨0, 0, 5⟩ 1 .done, .modify 0 7, .bcPut 0 1 .done,
          .bcGet ⟨0, 0, 6⟩ 2 (.failed 0 9)] = some sys ∧
      sys.holds 0 = 1 ∧ sys.Structured ∧ sys.Pinned sys.FewHolders := by
  have ran : (runs step (start fun _ => (0 : Nat))
      [.bcGet ⟨0, 0, 5⟩ 1 .done, .bcGet ⟨0, 0, 5⟩ 1 .done, .modify 0 7, .bcPut 0 1 .done,
        .bcGet ⟨0, 0, 6⟩ 2 (.failed 0 9)]).map (·.holds 0) = some 1 := by
    decide +kernel
  have few : Along step FewHolders (start fun _ => (0 : Nat))
      [.bcGet ⟨0, 0, 5⟩ 1 .done, .bcGet ⟨0, 0, 5⟩ 1 .done, .modify 0 7, .bcPut 0 1 .done,
        .bcGet ⟨0, 0, 6⟩ 2 (.failed 0 9)] := by
    decide +kernel
  obtain ⟨sys, ran, holds⟩ := Option.map_eq_some_iff.mp ran
  exact ⟨sys, ran, holds, block_cache_structured (reached_of_runs rfl few ran)⟩

/-! ## Too many holders -/

/-- One block is taken again and again. -/
theorem taken_often (n : Nat) : ∃ (sys : HeldCache Nat) (b : BlkPtr),
    Reachable (· = start fun _ => 0) (fun s a s' => s.step a = some s') sys ∧
      (∃ order, sys.cache.Circular order) ∧
      (∀ b', (sys.cache.blocks b').tag = ⟨0, 0, 5⟩ ↔ b' = b) ∧
      (sys.cache.blocks b).inuse = Cache.int16 (n + 1) ∧ sys.holds b = n + 1 := by
  induction n with
  | zero =>
      obtain ⟨order, circular⟩ := BlkCache.bcInit_circular fun _ => (0 : Nat)
      have block := BlkCache.bcInit_block fun _ => (0 : Nat)
      rcases BlkCache.bcGet_cases circular ⟨0, 0, 5⟩ 1 .done with
        ⟨b, hit, -⟩ | ⟨missing, ⟨full, -⟩ | ⟨b, -, -, result⟩⟩
      · simp [(block b).2.1] at hit
      · exact absurd (block 0).1 (full 0)
      · have taken : (start fun _ => (0 : Nat)).step (.bcGet ⟨0, 0, 5⟩ 1 .done) =
            some ⟨(BlkCache.bcInit fun _ => 0).refill b ⟨0, 0, 5⟩ 1 1,
              update (fun _ => 0) b (0 + 1)⟩ := by
          rw [step, if_neg (by decide), start, result]
          rfl
        refine ⟨_, b, .step (.start rfl) trivial taken, circular.refill b ⟨0, 0, 5⟩ 1 1,
          fun b' => ?_, ?_, by simp⟩
        · by_cases same : b' = b
          · simp [BlkCache.refill, same]
          · simp [BlkCache.refill, same, (block b').2.1]
        · simp [BlkCache.refill, Cache.int16]
  | succ n ih =>
      obtain ⟨sys, b, reached, ⟨order, circular⟩, only, inuse, holds⟩ := ih
      have taken : sys.step (.bcGet ⟨0, 0, 5⟩ 1 .done) =
          some ⟨sys.cache.modify b fun block => { block with inuse := Cache.int16 (block.inuse + 1) },
            update sys.holds b (sys.holds b + 1)⟩ := by
        rcases BlkCache.bcGet_cases circular ⟨0, 0, 5⟩ 1 .done with
          ⟨b', hit, result⟩ | ⟨missing, -⟩
        · obtain rfl := (only b').mp hit
          rw [step, if_neg (by decide), result]
          rfl
        · exact absurd ((only b).mpr rfl) (missing b)
      refine ⟨_, b, .step reached trivial taken, ⟨order, ?_⟩, fun b' => ?_, ?_, ?_⟩
      · refine circular.congr (fun b' => ?_) (fun b' => ?_) rfl <;>
          (rw [BlkCache.modify_blocks]; split <;> simp_all)
      · rw [← only b']
        dsimp only
        rw [BlkCache.modify_blocks]
        split <;> simp_all
      · dsimp only
        rw [BlkCache.modify_blocks, if_pos rfl, inuse]
        simp only [Cache.int16, Int.bmod_add_bmod]
        push_cast
        rfl
      · dsimp only
        rw [Function.update_self, holds]

/-- The count of a block with 32768 holders has wrapped around. -/
theorem bc_get_overflows_count : ∃ sys : HeldCache Nat,
    Reachable (· = start fun _ => 0) (fun s a s' => s.step a = some s') sys ∧ ¬sys.Structured := by
  obtain ⟨sys, b, reached, -, -, inuse, holds⟩ := taken_often 32767
  refine ⟨sys, reached, fun structured => ?_⟩
  have counted := structured.counted b
  rw [inuse, holds] at counted
  exact absurd counted (by decide)

end HeldCache

end Pegasos.Kernel.Cache
