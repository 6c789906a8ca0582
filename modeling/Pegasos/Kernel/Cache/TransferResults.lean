import Pegasos.Kernel.Cache.Coherence

/-!
# The results of transfers

The driver returns the number of bytes that it has moved, or an error.  `bc_get`
compares the result with the size of a block, `bc_put` with 0.
-/

namespace Pegasos.Kernel.Cache

open Pegasos.Support
open Function (update)

universe u

variable {Data : Type u}

namespace BlkCache

variable {cache : BlkCache Data}

/-- The last reference to a dirty block. -/
def LastOfDirty (cache : BlkCache Data) (block : BlkPtr) : Prop :=
  int16 ((cache.blocks block).inuse - 1) = 0 ∧ (cache.blocks block).dirty = true

/-- The result of `bc_get`, by what its search finds. -/
theorem bcGet_rc {tag : Tag} {sector : Data} {access : Access Data} {rc : Int} {b : BlkPtr}
    {cache' : BlkCache Data} (ran : cache.bcGet tag sector access = .ok (rc, b, cache')) :
    (cache.bcSearch tag (MAX_BLOCK + 1) cache.blocklist none = .ok (.inl b) ∧ rc = 0) ∨
      (cache.bcSearch tag (MAX_BLOCK + 1) cache.blocklist none = .ok (.inr (some b)) ∧
        (rc = 0 ↔ access = .done)) := by
  rw [bcGet] at ran
  obtain ⟨found, searched, ran⟩ := Outcome.bind_eq_ok.mp ran
  rcases found with hit | _ | unused
  · obtain ⟨rfl, rfl, rfl⟩ : 0 = rc ∧ hit = b ∧ _ = cache' := by
      simpa only [Outcome.ok.injEq, Prod.mk.injEq] using ran
    exact .inl ⟨searched, rfl⟩
  · cases ran
  · cases access with
    | done =>
        simp only [fddRead, ne_eq, not_true_eq_false, if_false, Outcome.ok.injEq,
          Prod.mk.injEq] at ran
        obtain ⟨rfl, rfl, -⟩ := ran
        exact .inr ⟨searched, iff_of_true rfl rfl⟩
    | failed code left =>
        have failed : (fddRead sector (.failed code left)).1 ≠ BLKSIZE := by
          simp only [fddRead, BLKSIZE]
          omega
        dsimp only at ran
        rw [if_pos failed] at ran
        obtain ⟨rfl, rfl, -⟩ : _ = rc ∧ unused = b ∧ _ = cache' := by
          simpa only [Outcome.ok.injEq, Prod.mk.injEq] using ran
        exact .inr ⟨searched, iff_of_false (by simp only [fddRead]; omega) (by simp)⟩

/-- What `bc_put` returns for the last reference to a dirty block is what the driver
returned, and the block stays dirty. -/
theorem bcPut_last {order : List BlkPtr} (circular : cache.Circular order) {block : BlkPtr}
    (last : cache.LastOfDirty block) (sector : Data) (access : Access Unit) :
    ∃ cache', cache.bcPut block sector access =
        .ok ((fddWrite sector (cache.blocks block).data access).1, cache',
          (fddWrite sector (cache.blocks block).data access).2) ∧
      (cache'.blocks block).dirty = true := by
  have used : (cache.blocks block).inuse ≠ 0 := by
    intro unused
    have zero := last.1
    rw [unused] at zero
    exact absurd zero (by decide)
  rcases bcPut_cases circular block sector access used with ⟨notLast, -⟩ | ⟨-, -, ran, -⟩
  · exact absurd last notLast
  · refine ⟨_, ran, ?_⟩
    rw [modify_blocks, if_pos rfl]
    exact last.2

end BlkCache

namespace CacheSystem

variable {sys sys' : CacheSystem Data}

/-- The runs from a cache as `bc_init` leaves it, in which anything can fail. -/
abbrev AnyRun (sys : CacheSystem Data) : Prop :=
  Reachable (fun s => ∃ memory device, s = start memory device)
    (fun s action s' => s.step action = some s') sys

/-! ## The list stays circular -/

theorem step_circular {action : CacheAction Data} (circular : ∃ order, sys.cache.Circular order)
    (taken : sys.step action = some sys') : ∃ order, sys'.cache.Circular order := by
  obtain ⟨order, circular⟩ := circular
  have edited : ∀ (block : BlkPtr) (edit : Block Data → Block Data),
      (∀ b, (edit b).next = b.next ∧ (edit b).prev = b.prev) →
        (sys.cache.modify block edit).Circular order := by
    intro block edit links
    refine circular.congr (fun b => ?_) (fun b => ?_) rfl <;>
      · rw [BlkCache.modify_blocks]
        split
        · rename_i same
          rw [same]
          simp only [links]
        · rfl
  cases action with
  | bcGet tag access =>
      simp only [step, Option.ite_none_left_eq_some, Option.map_eq_some_iff,
        Outcome.value?_eq_some] at taken
      obtain ⟨-, ⟨rc, b, cache'⟩, ran, rfl⟩ := taken
      rcases BlkCache.bcGet_cases circular tag (sys.device tag) access with
        ⟨hit, -, result⟩ | ⟨-, full | ⟨free, -, -, result⟩⟩
      · rw [result] at ran
        obtain ⟨-, -, rfl⟩ : 0 = rc ∧ hit = b ∧ _ = cache' := by
          simpa only [Outcome.ok.injEq, Prod.mk.injEq] using ran
        exact ⟨order, edited hit (fun b => { b with inuse := int16 (b.inuse + 1) })
          fun _ => ⟨rfl, rfl⟩⟩
      · rw [full.2] at ran
        cases ran
      · rw [result] at ran
        cases access with
        | done =>
            obtain ⟨-, -, rfl⟩ : 0 = rc ∧ free = b ∧ _ = cache' := by
              simpa only [Outcome.ok.injEq, Prod.mk.injEq] using ran
            exact circular.refill free tag _ 1
        | failed code left =>
            obtain ⟨-, -, rfl⟩ : -((code : Int) + 1) = rc ∧ free = b ∧ _ = cache' := by
              simpa only [Outcome.ok.injEq, Prod.mk.injEq] using ran
            exact circular.refill free tag left 0
  | modify block data =>
      simp only [step, Option.ite_none_left_eq_some, Option.some.injEq] at taken
      obtain ⟨-, rfl⟩ := taken
      exact ⟨order, edited block (fun b => { b with data := data, dirty := true })
        fun _ => ⟨rfl, rfl⟩⟩
  | bcPut block access =>
      simp only [step, Option.map_eq_some_iff, Outcome.value?_eq_some] at taken
      obtain ⟨⟨rc, cache', sector⟩, ran, rfl⟩ := taken
      have counted := edited block (fun b => { b with inuse := int16 (b.inuse - 1) })
        fun _ => ⟨rfl, rfl⟩
      by_cases unused : (sys.cache.blocks block).inuse = 0
      · rw [BlkCache.bcPut_unused circular block _ access unused] at ran
        cases ran
      · rcases BlkCache.bcPut_cases circular block (sys.device (sys.cache.blocks block).tag) access
          unused with ⟨-, result⟩ | ⟨-, -, result, -⟩ <;>
          · rw [result] at ran
            obtain ⟨-, rfl, -⟩ : _ = rc ∧ _ = cache' ∧ _ = sector := by
              simpa only [Outcome.ok.injEq, Prod.mk.injEq] using ran
            exact ⟨order, counted⟩

theorem AnyRun.circular (reached : AnyRun sys) : ∃ order, sys.cache.Circular order := by
  refine reached.invariant (fun sys => ∃ order, sys.cache.Circular order) ?_ ?_
  · rintro _ ⟨memory, device, rfl⟩
    exact BlkCache.bcInit_circular memory
  · intro sys sys' action circular _ taken
    exact step_circular circular taken

/-! ## Results -/

/-- The block that `bc_get` returns has been read as a whole: by this call, or by the
last transfer into the buffer if the block is in the cache. -/
def WholeRead (sys : CacheSystem Data) (tag : Tag) (access : Access Data) (b : BlkPtr) : Prop :=
  if sys.cache.bcSearch tag (MAX_BLOCK + 1) sys.cache.blocklist none = .ok (.inl b) then
    sys.filled b = true
  else access = .done

/-- The results of `bc_get` and `bc_put` say whether the transfer has succeeded. -/
def Agrees (sys : CacheSystem Data) : CacheAction Data → Prop
  | .bcGet tag access => ∀ rc b cache',
      sys.cache.bcGet tag (sys.device tag) access = .ok (rc, b, cache') →
        (rc = 0 ↔ sys.WholeRead tag access b)
  | .bcPut block access => sys.cache.LastOfDirty block → ∀ rc cache' sector,
      sys.cache.bcPut block (sys.device (sys.cache.blocks block).tag) access =
        .ok (rc, cache', sector) →
          (rc = 0 ∧ (cache'.blocks block).dirty = false ↔ access = .done) ∧
            (access ≠ .done → rc < 0 ∧ (cache'.blocks block).dirty = true)
  | .modify _ _ => True

/-- `bc_get` does not find a block whose fill failed, and no write of `bc_put` succeeds. -/
def AgreesWhen (sys : CacheSystem Data) : CacheAction Data → Prop
  | .bcGet tag _ => ∀ b,
      sys.cache.bcSearch tag (MAX_BLOCK + 1) sys.cache.blocklist none = .ok (.inl b) →
        sys.filled b = true
  | .bcPut block access => sys.cache.LastOfDirty block → access ≠ .done
  | .modify _ _ => True

theorem bcGet_agrees (tag : Tag) (access : Access Data) :
    sys.Agrees (.bcGet tag access) ↔ sys.AgreesWhen (.bcGet tag access) := by
  constructor
  · intro agrees b hit
    have ran : sys.cache.bcGet tag (sys.device tag) access =
        .ok (0, b, sys.cache.modify b fun b => { b with inuse := int16 (b.inuse + 1) }) := by
      rw [BlkCache.bcGet, hit, Outcome.bind_ok]
    have whole := (agrees 0 b _ ran).mp rfl
    rwa [WholeRead, if_pos hit] at whole
  · intro filled rc b cache' ran
    rcases BlkCache.bcGet_rc ran with ⟨hit, success⟩ | ⟨missed, result⟩
    · rw [WholeRead, if_pos hit]
      exact iff_of_true success (filled b hit)
    · rwa [WholeRead, if_neg (by simp [missed])]

theorem bcPut_agrees (circular : ∃ order, sys.cache.Circular order) (block : BlkPtr)
    (access : Access Unit) :
    sys.Agrees (.bcPut block access) ↔ sys.AgreesWhen (.bcPut block access) := by
  obtain ⟨order, circular⟩ := circular
  refine forall_congr' fun last => ?_
  obtain ⟨after, ran, dirty⟩ := BlkCache.bcPut_last circular last
    (sys.device (sys.cache.blocks block).tag) access
  rw [ran]
  constructor
  · rintro agrees rfl
    have success := (agrees _ _ _ rfl).1.mpr rfl
    rw [dirty] at success
    nomatch success.2
  · intro notDone rc cache' sector returned
    obtain ⟨rfl, rfl, rfl⟩ : _ = rc ∧ after = cache' ∧ _ = sector := by
      simpa only [Outcome.ok.injEq, Prod.mk.injEq] using returned
    cases access with
    | done => exact absurd rfl notDone
    | failed code left =>
        refine ⟨iff_of_false (fun success => ?_) notDone, fun _ => ⟨?_, dirty⟩⟩
        · rw [dirty] at success
          nomatch success.2
        · simp only [fddWrite]
          omega

/-- In every state, the result of a call says whether the transfer has succeeded if and only
if `bc_get` finds no block whose fill failed, and no write of `bc_put` succeeds. -/
theorem transfer_results_agree (reached : AnyRun sys) (action : CacheAction Data) :
    sys.Agrees action ↔ sys.AgreesWhen action := by
  cases action with
  | bcGet tag access => exact bcGet_agrees tag access
  | modify block data => exact Iff.rfl
  | bcPut block access => exact bcPut_agrees reached.circular block access

theorem transfer_results_agree_first :
    (start (fun _ => 0) fun _ => (1 : Nat)).Agrees (.bcGet ⟨0, 0, 5⟩ (.failed 0 7)) := by
  refine (transfer_results_agree (.start ⟨_, _, rfl⟩) _).mpr fun b hit => ?_
  have missed : (start (fun _ => 0) fun _ => (1 : Nat)).cache.bcSearch ⟨0, 0, 5⟩ (MAX_BLOCK + 1)
      (start (fun _ => 0) fun _ => (1 : Nat)).cache.blocklist none = .ok (.inr (some 0)) := by
    decide +kernel
  rw [missed] at hit
  nomatch hit

/-- A block is read and modified, and its write succeeds: `bc_put` returns 512, and the
block stays dirty. -/
theorem bc_put_returns_size :
    ∃ sys : CacheSystem Nat, AnyRun sys ∧ ¬ sys.Agrees (.bcPut 0 .done) ∧
      ∃ cache' sector, sys.cache.bcPut 0 (sys.device (sys.cache.blocks 0).tag) .done =
        .ok (512, cache', sector) := by
  have ran : (runs step (start (fun _ => 0) fun _ => (1 : Nat))
      [.bcGet ⟨0, 0, 5⟩ .done, .modify 0 7]).map (fun sys =>
        ((sys.cache.blocks 0).inuse, (sys.cache.blocks 0).dirty)) = some (1, true) := by
    decide +kernel
  obtain ⟨sys, ran, values⟩ := Option.map_eq_some_iff.mp ran
  obtain ⟨inuse, dirty⟩ := by simpa only [Prod.mk.injEq] using values
  have reached : AnyRun sys := reachable_of_runs ⟨_, _, rfl⟩ ran
  have last : sys.cache.LastOfDirty 0 := ⟨by rw [inuse]; decide, dirty⟩
  obtain ⟨order, circular⟩ := reached.circular
  obtain ⟨after, put, still⟩ := BlkCache.bcPut_last circular last
    (sys.device (sys.cache.blocks 0).tag) .done
  refine ⟨sys, reached, fun agrees => ?_, after, _, put⟩
  have success := (agrees last _ _ _ put).1.mpr rfl
  rw [still] at success
  nomatch success.2

end CacheSystem

end Pegasos.Kernel.Cache
