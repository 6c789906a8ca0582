import Pegasos.Kernel.Memory.NearHeap

/-!
# The stacks of system calls

The dispatcher in `SCDSP.ASM` takes a stack block for every system call and gives it
back at the end.  While a block is free its first two words link it into `freestk` and
hold its top; while it is in use these words are part of the stack, and the last two
hold the stack pointer of the caller.
-/

namespace Pegasos.Kernel.Syscall

open Pegasos.Support
open Function (update)

def KSTACK_SIZE : Nat := 512

/-- The blocks that `sc_init` gets from `near_malloc`: they lie apart from each other. -/
structure Pool where
  blocks : List Nat
  four : blocks.length = 4
  positive : ∀ block ∈ blocks, 0 < block
  fits : ∀ block ∈ blocks, block + KSTACK_SIZE < 0x10000
  apart : blocks.Pairwise fun block other =>
    block + KSTACK_SIZE ≤ other ∨ other + KSTACK_SIZE ≤ block

/-- The stack segment and the stack pointer of a caller. -/
structure Caller where
  ss : UInt16
  sp : UInt16
  deriving DecidableEq, Repr, Inhabited

/-- What a call has taken off its kernel stack at its end: nothing yet, the stack
pointer of the caller in `dx`, or the stack segment in `cx` too. -/
inductive Popped where
  | nothing
  | sp (dx : UInt16)
  | both (dx cx : UInt16)
  deriving DecidableEq, Repr, Inhabited

/-- The kernel stack pointer of a call, outside of `sc_disp`. -/
structure KernelCall where
  sp : Nat
  popped : Popped
  deriving DecidableEq, Repr, Inhabited

/-- The bytes that are left to pop. -/
def Popped.left : Popped → Nat
  | .nothing => 4
  | .sp _ => 2
  | .both _ _ => 0

/-- The lowest address of the stack of a call. -/
def KernelCall.low (call : KernelCall) : Nat := call.sp + call.popped.left - KSTACK_SIZE

/-- The data segment, `freestk` and the system calls in progress.  `taken`, `entered`
and `resumed` record for the last call of every task the block that it has taken, its
caller, and what it has resumed. -/
structure StackSystem (Task : Type) where
  mem : Bytes
  freestk : Nat
  active : List Task
  call : Task → KernelCall
  taken : Task → Nat
  entered : Task → Caller
  resumed : Task → Caller

/-- A task enters the dispatcher; its call, or an interrupt during it, stores a byte
into its stack; the two registers are popped; and the dispatcher gives the block back
and loads the caller's stack. -/
inductive StackAction (Task : Type) where
  | enter (task : Task) (caller : Caller)
  | store (task : Task) (addr : Nat) (byte : UInt8)
  | popSp (task : Task)
  | popSs (task : Task)
  | leave (task : Task)
  deriving DecidableEq, Repr

/-- `(freestk ptr [si]).next`. -/
def stkNext (mem : Bytes) (st : Nat) : Nat := peek mem st

/-- `(freestk ptr [si]).top`. -/
def stkTop (mem : Bytes) (st : Nat) : Nat := peek mem (st + 2)

/-- `st->next = next` and `st->top = top`. -/
def setStk (mem : Bytes) (st next top : Nat) : Bytes := poke (poke mem (st + 2) top) st next

/-- The loop of `sc_init`, which pushes every block. -/
def scInit (mem : Bytes) : Nat → List Nat → Bytes × Nat
  | freestk, [] => (mem, freestk)
  | freestk, st :: rest =>
      scInit (setStk mem st freestk ((st + KSTACK_SIZE) % 0x10000)) st rest

namespace StackSystem

variable {Task : Type} [DecidableEq Task]

/-- One step; without a free stack the dispatcher stops the machine. -/
def step (s : StackSystem Task) : StackAction Task → Option (StackSystem Task)
  | .enter task caller =>
      if task ∈ s.active ∨ s.freestk = 0 then none
      else
        let si := sub16 (stkTop s.mem s.freestk) 4
        some { s with
          mem := poke (poke s.mem si caller.sp.toNat) ((si + 2) % 0x10000) caller.ss.toNat
          freestk := stkNext s.mem s.freestk
          active := task :: s.active
          call := update s.call task ⟨si, .nothing⟩
          taken := update s.taken task s.freestk
          entered := update s.entered task caller }
  | .store task addr byte =>
      if task ∈ s.active ∧ (s.call task).low ≤ addr ∧ addr < (s.call task).sp then
        some { s with mem := pokeByte s.mem addr byte }
      else none
  | .popSp task =>
      match s.call task with
      | ⟨sp, .nothing⟩ =>
          if task ∈ s.active then
            some { s with
              call := update s.call task ⟨(sp + 2) % 0x10000, .sp (peek s.mem sp).toUInt16⟩ }
          else none
      | _ => none
  | .popSs task =>
      match s.call task with
      | ⟨sp, .sp dx⟩ =>
          if task ∈ s.active then
            some { s with
              call := update s.call task ⟨(sp + 2) % 0x10000, .both dx (peek s.mem sp).toUInt16⟩ }
          else none
      | _ => none
  | .leave task =>
      match s.call task with
      | ⟨sp, .both dx cx⟩ =>
          if task ∈ s.active then
            let si := sub16 sp KSTACK_SIZE
            some { s with
              mem := setStk s.mem si s.freestk sp
              freestk := si
              active := s.active.erase task
              resumed := update s.resumed task ⟨cx, dx⟩ }
          else none
      | _ => none

/-- After `sc_init`. -/
def start (pool : Pool) (mem : Bytes) (recorded : Task → Caller) : StackSystem Task where
  mem := (scInit mem 0 pool.blocks).1
  freestk := (scInit mem 0 pool.blocks).2
  active := []
  call := fun _ => default
  taken := fun _ => 0
  entered := recorded
  resumed := recorded

/-- At most four calls are in progress at once. -/
def Guarded (s : StackSystem Task) : StackAction Task → Prop
  | .enter _ _ => s.active.length < 4
  | _ => True

instance (s : StackSystem Task) : (action : StackAction Task) → Decidable (s.Guarded action)
  | .enter _ _ => inferInstanceAs (Decidable (_ < _))
  | .store _ _ _ | .popSp _ | .popSs _ | .leave _ => inferInstanceAs (Decidable True)

end StackSystem

/-! ## Blocks -/

namespace Pool

variable {pool : Pool} {block other : Nat}

theorem nodup (pool : Pool) : pool.blocks.Nodup := by
  refine pool.apart.imp fun apart same => ?_
  simp only [KSTACK_SIZE] at apart
  omega

theorem apart_of_ne (isBlock : block ∈ pool.blocks) (isOther : other ∈ pool.blocks)
    (ne : block ≠ other) : block + 512 ≤ other ∨ other + 512 ≤ block := by
  have : Std.Symm fun block other : Nat =>
      block + KSTACK_SIZE ≤ other ∨ other + KSTACK_SIZE ≤ block := ⟨fun _ _ => Or.symm⟩
  exact pool.apart.forall isBlock isOther ne

/-- The blocks that four calls of `near_malloc` have returned. -/
def ofNear {system : Memory.NearSystem} (correct : system.Correct) (blocks : List Nat)
    (four : blocks.length = 4) (nodup : blocks.Nodup)
    (held : ∀ block ∈ blocks, (block, KSTACK_SIZE) ∈ system.live)
    (heap : 0 < system.heap.heap ∧ system.heap.heap + Memory.NEAR_HEAP_SIZE < 0x10000) : Pool where
  blocks := blocks
  four := four
  positive := fun block member => by
    obtain ⟨headers, -, tiles, inside⟩ := correct.headerList
    obtain ⟨-, header, isHeader, -, place, -⟩ := inside _ (held block member)
    have := tiles.bounds isHeader
    omega
  fits := fun block member => by
    obtain ⟨headers, -, tiles, inside⟩ := correct.headerList
    obtain ⟨-, header, isHeader, -, place, room⟩ := inside _ (held block member)
    have := tiles.bounds isHeader
    dsimp only at place room
    omega
  apart := by
    have : Std.Symm fun entry other : Nat × Nat =>
        entry.1 + entry.2 + Memory.nearhdrSize ≤ other.1 ∨
          other.1 + other.2 + Memory.nearhdrSize ≤ entry.1 := ⟨fun _ _ => Or.symm⟩
    refine nodup.imp_of_mem fun {block other} isBlock isOther ne => ?_
    have apart := correct.disjoint.forall (held block isBlock) (held other isOther)
      fun same => ne (congrArg Prod.fst same)
    dsimp only at apart
    omega

end Pool

/-- Two memories hold the same words in a block. -/
def Agree (mem mem' : Bytes) (block : Nat) : Prop :=
  ∀ addr, block ≤ addr → addr + 2 ≤ block + 512 → peek mem' addr = peek mem addr

namespace Agree

variable {mem mem' mem'' : Bytes} {block other addr word : Nat}

theorem trans (first : Agree mem mem' block) (second : Agree mem' mem'' block) :
    Agree mem mem'' block := fun addr low high =>
  (second addr low high).trans (first addr low high)

/-- A word that is stored in another block. -/
theorem poke (apart : block + 512 ≤ other ∨ other + 512 ≤ block) (low : other ≤ addr)
    (high : addr + 2 ≤ other + 512) : Agree mem (poke mem addr word) block := by
  intro place below above
  exact peek_poke_apart (by omega)

/-- A byte that is stored in another block. -/
theorem pokeByte (apart : block + 512 ≤ other ∨ other + 512 ≤ block) (low : other ≤ addr)
    (high : addr < other + 512) {byte : UInt8} : Agree mem (pokeByte mem addr byte) block := by
  intro place below above
  exact peek_pokeByte_apart (by omega)

theorem setStk (apart : block + 512 ≤ other ∨ other + 512 ≤ block) {next top : Nat} :
    Agree mem (setStk mem other next top) block :=
  (poke apart (by omega) (by omega)).trans (poke apart (by omega) (by omega))

end Agree

/-! ## The free list -/

/-- The blocks on the list that begins at a pointer. -/
def FreeChain (mem : Bytes) : Nat → List Nat → Prop
  | st, [] => st = 0
  | st, block :: rest => st = block ∧ stkTop mem block = block + KSTACK_SIZE ∧
      FreeChain mem (stkNext mem block) rest

theorem FreeChain.congr {mem mem' : Bytes} {st : Nat} {free : List Nat}
    (chain : FreeChain mem st free) (same : ∀ block ∈ free, Agree mem mem' block) :
    FreeChain mem' st free := by
  induction free generalizing st with
  | nil => exact chain
  | cons block rest ih =>
      obtain ⟨rfl, top, chain⟩ := chain
      have agree := same st List.mem_cons_self
      refine ⟨rfl, (agree _ (by omega) (by omega)).trans top, ?_⟩
      rw [stkNext, agree _ (by omega) (by omega)]
      exact ih chain fun block member => same block (List.mem_cons_of_mem _ member)

/-- A block that is pushed on the list. -/
theorem FreeChain.push {mem : Bytes} {st block : Nat} {free : List Nat}
    (chain : FreeChain mem st free) (small : st < 0x10000) (fits : block + 512 < 0x10000)
    (apart : ∀ other ∈ free, other + 512 ≤ block ∨ block + 512 ≤ other) :
    FreeChain (setStk mem block st (block + 512)) block (block :: free) := by
  refine ⟨rfl, ?_, ?_⟩
  · rw [stkTop, setStk, peek_poke_apart (by omega), peek_poke_self, Nat.mod_eq_of_lt fits]
    rfl
  · have next : stkNext (setStk mem block st (block + 512)) block = st := by
      rw [stkNext, setStk, peek_poke_self, Nat.mod_eq_of_lt small]
    rw [next]
    exact chain.congr fun other member => Agree.setStk (apart other member)

theorem FreeChain.lt {mem : Bytes} {st : Nat} {free : List Nat} (chain : FreeChain mem st free)
    (fits : ∀ block ∈ free, block + 512 < 0x10000) : st < 0x10000 := by
  cases free with
  | nil =>
      have none : st = 0 := chain
      omega
  | cons block rest =>
      have first : st = block := chain.1
      have := fits block List.mem_cons_self
      omega

/-- `sc_init` puts all blocks on the list. -/
theorem scInit_spec {free blocks : List Nat} {mem : Bytes} {st : Nat}
    (chain : FreeChain mem st free) (fits : ∀ block ∈ blocks ++ free, block + 512 < 0x10000)
    (apart : (blocks ++ free).Pairwise fun block other =>
      block + 512 ≤ other ∨ other + 512 ≤ block) :
    FreeChain (scInit mem st blocks).1 (scInit mem st blocks).2 (blocks.reverse ++ free) := by
  induction blocks generalizing free mem st with
  | nil => exact chain
  | cons block rest ih =>
      have inside := fits block List.mem_cons_self
      have small := chain.lt fun other member =>
        fits other (List.mem_cons_of_mem _ (List.mem_append_right _ member))
      obtain ⟨first, later⟩ := List.pairwise_cons.mp apart
      have pushed := chain.push small inside fun other member =>
        (first other (List.mem_append_right _ member)).symm
      rw [List.reverse_cons, List.append_assoc]
      have moved : (rest ++ block :: free).Perm (block :: rest ++ free) := List.perm_middle
      have top : (block + KSTACK_SIZE) % 0x10000 = block + 512 := Nat.mod_eq_of_lt inside
      rw [scInit, top]
      exact ih pushed (fun other member => fits other (moved.subset member))
        ((moved.pairwise_iff Or.symm).mpr apart)

namespace StackSystem

/-! ## The invariant -/

variable {Task : Type} {pool : Pool} {s s' : StackSystem Task} {task : Task}

/-- A call uses a block, and what it has not popped yet lies at the block's end. -/
def CallOk (mem : Bytes) (block : Nat) (caller : Caller) (call : KernelCall) : Prop :=
  call.sp + call.popped.left = block + 512 ∧
  match call.popped with
  | .nothing => peek mem (block + 508) = caller.sp.toNat ∧ peek mem (block + 510) = caller.ss.toNat
  | .sp dx => dx = caller.sp ∧ peek mem (block + 510) = caller.ss.toNat
  | .both dx cx => dx = caller.sp ∧ cx = caller.ss

/-- The free blocks and those in use make up the pool. -/
structure Inv (pool : Pool) (s : StackSystem Task) (free : List Nat) : Prop where
  chain : FreeChain s.mem s.freestk free
  owned : (free ++ s.active.map s.taken).Perm pool.blocks
  once : s.active.Nodup
  calls : ∀ task ∈ s.active, CallOk s.mem (s.taken task) (s.entered task) (s.call task)

variable {free : List Nat}

theorem CallOk.congr {mem mem' : Bytes} {block : Nat} {caller : Caller} {call : KernelCall}
    (ok : CallOk mem block caller call) (first : peek mem' (block + 508) = peek mem (block + 508))
    (second : peek mem' (block + 510) = peek mem (block + 510)) :
    CallOk mem' block caller call := by
  obtain ⟨place, saved⟩ := ok
  refine ⟨place, ?_⟩
  cases popped : call.popped with
  | nothing =>
      rw [popped] at saved
      exact ⟨first.trans saved.1, second.trans saved.2⟩
  | sp dx =>
      rw [popped] at saved
      exact ⟨saved.1, second.trans saved.2⟩
  | both dx cx =>
      rw [popped] at saved
      exact saved

theorem CallOk.agree {mem mem' : Bytes} {block : Nat} {caller : Caller} {call : KernelCall}
    (ok : CallOk mem block caller call) (agree : Agree mem mem' block) :
    CallOk mem' block caller call :=
  ok.congr (agree _ (by omega) (by omega)) (agree _ (by omega) (by omega))

theorem start_inv (pool : Pool) (mem : Bytes) (recorded : Task → Caller) :
    (start pool mem recorded).Inv pool pool.blocks.reverse := by
  refine ⟨?_, ?_, List.nodup_nil, by simp [start]⟩
  · have chain : FreeChain mem 0 [] := rfl
    have all : FreeChain _ _ (pool.blocks.reverse ++ []) := scInit_spec chain
      (by simpa [KSTACK_SIZE] using pool.fits) (by simpa [KSTACK_SIZE] using pool.apart)
    rwa [List.append_nil] at all
  · simp [start]

section Inv

variable (inv : s.Inv pool free)

include inv

theorem Inv.nodup : (free ++ s.active.map s.taken).Nodup := inv.owned.nodup_iff.mpr pool.nodup

theorem Inv.free_mem {block : Nat} (isFree : block ∈ free) : block ∈ pool.blocks :=
  inv.owned.subset (List.mem_append_left _ isFree)

theorem Inv.taken_mem (isActive : task ∈ s.active) : s.taken task ∈ pool.blocks :=
  inv.owned.subset (List.mem_append_right _ (List.mem_map_of_mem isActive))

theorem Inv.bounds (isActive : task ∈ s.active) :
    0 < s.taken task ∧ s.taken task + 512 < 0x10000 :=
  ⟨pool.positive _ (inv.taken_mem isActive), pool.fits _ (inv.taken_mem isActive)⟩

/-- The block of a call lies apart from every free block. -/
theorem Inv.free_apart (isActive : task ∈ s.active) {block : Nat} (isFree : block ∈ free) :
    block + 512 ≤ s.taken task ∨ s.taken task + 512 ≤ block := by
  refine Pool.apart_of_ne (inv.free_mem isFree) (inv.taken_mem isActive) ?_
  rintro rfl
  exact List.disjoint_of_nodup_append inv.nodup isFree (List.mem_map_of_mem isActive)

/-- The blocks of two calls lie apart. -/
theorem Inv.taken_apart {other : Task} (isActive : task ∈ s.active) (isOther : other ∈ s.active)
    (ne : other ≠ task) : s.taken other + 512 ≤ s.taken task ∨
      s.taken task + 512 ≤ s.taken other := by
  refine Pool.apart_of_ne (inv.taken_mem isOther) (inv.taken_mem isActive) fun same => ne ?_
  exact List.inj_on_of_nodup_map inv.nodup.of_append_right isOther isActive same

/-- A call changes its registers, and memory in its own block only. -/
theorem Inv.own_step {mem : Bytes} [DecidableEq Task] (isActive : task ∈ s.active)
    (agree : ∀ block, block + 512 ≤ s.taken task ∨ s.taken task + 512 ≤ block →
      Agree s.mem mem block) (call : KernelCall)
    (ok : CallOk mem (s.taken task) (s.entered task) call) :
    { s with mem := mem, call := update s.call task call }.Inv pool free := by
  refine ⟨inv.chain.congr fun block isFree => agree block (inv.free_apart isActive isFree),
    inv.owned, inv.once, fun other isOther => ?_⟩
  by_cases same : other = task
  · subst same
    simpa using ok
  · simp only [Function.update_of_ne same]
    exact (inv.calls other isOther).agree (agree _ (inv.taken_apart isActive isOther same))

/-- With fewer than four calls in progress there is a free block. -/
theorem Inv.free_ne_nil (few : s.active.length < 4) : ∃ block rest, free = block :: rest := by
  cases free with
  | nil =>
      have length := inv.owned.length_eq
      rw [List.nil_append, List.length_map, pool.four] at length
      omega
  | cons block rest => exact ⟨block, rest, rfl⟩

variable [DecidableEq Task]

/-- A task enters the dispatcher and gets the first free block. -/
theorem Inv.enter_step (caller : Caller) (few : s.active.length < 4) (away : task ∉ s.active) :
    ∃ s' free', s.step (.enter task caller) = some s' ∧ s'.Inv pool free' := by
  obtain ⟨block, rest, rfl⟩ := inv.free_ne_nil few
  obtain ⟨first, top, chain⟩ := inv.chain
  have isBlock := inv.free_mem List.mem_cons_self
  have positive := pool.positive block isBlock
  have fits : block + 512 < 0x10000 := pool.fits block isBlock
  have si : sub16 (stkTop s.mem block) 4 = block + 508 := by
    rw [top, KSTACK_SIZE, sub16_of_le (by omega) (by omega)]
    omega
  have ss : (block + 508 + 2) % 0x10000 = block + 510 := Nat.mod_eq_of_lt (by omega)
  have notNull : ¬(task ∈ s.active ∨ s.freestk = 0) := by
    rw [first, not_or]
    exact ⟨away, by omega⟩
  have agree : ∀ other, other + 512 ≤ block ∨ block + 512 ≤ other →
      Agree s.mem (poke (poke s.mem (block + 508) caller.sp.toNat) (block + 510) caller.ss.toNat)
        other := fun other apart =>
    (Agree.poke apart (by omega) (by omega)).trans (Agree.poke apart (by omega) (by omega))
  have nodup := inv.nodup
  rw [List.cons_append, List.nodup_cons] at nodup
  have ne : ∀ {other}, other ∈ s.active → other ≠ task := fun isActive same => away (same ▸ isActive)
  have kept : s.active.map (update s.taken task block) = s.active.map s.taken :=
    List.map_congr_left fun other isActive => Function.update_of_ne (ne isActive) _ _
  refine ⟨_, rest, by rw [step, if_neg notNull], ?_, ?_, List.nodup_cons.mpr ⟨away, inv.once⟩, ?_⟩
  · simp only [first, si, ss]
    refine chain.congr fun other member => agree other ?_
    refine Pool.apart_of_ne (inv.free_mem (List.mem_cons_of_mem _ member)) isBlock ?_
    rintro rfl
    exact nodup.1 (List.mem_append_left _ member)
  · simp only [first, List.map_cons, Function.update_self, kept]
    exact List.perm_middle.trans inv.owned
  · intro other isActive
    rcases List.mem_cons.mp isActive with rfl | isOld
    · simp only [first, si, ss, Function.update_self]
      refine ⟨rfl, ?_, ?_⟩
      · rw [peek_poke_apart (by omega), peek_poke_self]
        exact Nat.mod_eq_of_lt caller.sp.toNat_lt
      · rw [peek_poke_self]
        exact Nat.mod_eq_of_lt caller.ss.toNat_lt
    · simp only [first, si, ss, Function.update_of_ne (ne isOld)]
      refine (inv.calls other isOld).agree (agree _ ?_)
      exact (inv.free_apart isOld List.mem_cons_self).symm

/-- A byte that a call stores into its stack. -/
theorem Inv.store_step {addr : Nat} {byte : UInt8}
    (taken : s.step (.store task addr byte) = some s') : s'.Inv pool free := by
  simp only [step, Option.ite_none_right_eq_some, Option.some.injEq] at taken
  obtain ⟨⟨isActive, low, high⟩, rfl⟩ := taken
  obtain ⟨place, saved⟩ := inv.calls task isActive
  have inside : s.taken task ≤ addr ∧ addr < s.taken task + 512 := by
    simp only [KernelCall.low, KSTACK_SIZE] at low
    omega
  have same : { s with mem := pokeByte s.mem addr byte } =
      { s with
        mem := pokeByte s.mem addr byte, call := update s.call task (s.call task) } := by
    rw [Function.update_eq_self]
  rw [same]
  refine inv.own_step isActive (fun block apart => Agree.pokeByte apart inside.1 inside.2) _ ⟨place, ?_⟩
  cases popped : (s.call task).popped with
  | nothing =>
      rw [popped] at saved
      simp only [popped, Popped.left] at place
      exact ⟨(peek_pokeByte_apart (by omega)).trans saved.1,
        (peek_pokeByte_apart (by omega)).trans saved.2⟩
  | sp dx =>
      rw [popped] at saved
      simp only [popped, Popped.left] at place
      exact ⟨saved.1, (peek_pokeByte_apart (by omega)).trans saved.2⟩
  | both dx cx =>
      rw [popped] at saved
      exact saved

/-- The stack pointer of the caller is popped. -/
theorem Inv.popSp_step (taken : s.step (.popSp task) = some s') : s'.Inv pool free := by
  simp only [step] at taken
  split at taken
  · rename_i sp isCall
    simp only [Option.ite_none_right_eq_some, Option.some.injEq] at taken
    obtain ⟨isActive, rfl⟩ := taken
    have ok := inv.calls task isActive
    rw [isCall] at ok
    obtain ⟨place, savedSp, savedSs⟩ := ok
    have bounds := inv.bounds isActive
    simp only [Popped.left] at place
    have here : sp = s.taken task + 508 := by omega
    refine inv.own_step isActive (fun _ _ _ _ _ => rfl) _ ⟨?_, ?_, savedSs⟩
    · simp only [Popped.left]
      omega
    · rw [here, savedSp]
      exact UInt16.ofNat_toNat
  · simp at taken

/-- The stack segment of the caller is popped. -/
theorem Inv.popSs_step (taken : s.step (.popSs task) = some s') : s'.Inv pool free := by
  simp only [step] at taken
  split at taken
  · rename_i sp dx isCall
    simp only [Option.ite_none_right_eq_some, Option.some.injEq] at taken
    obtain ⟨isActive, rfl⟩ := taken
    have ok := inv.calls task isActive
    rw [isCall] at ok
    obtain ⟨place, savedSp, savedSs⟩ := ok
    have bounds := inv.bounds isActive
    simp only [Popped.left] at place
    have here : sp = s.taken task + 510 := by omega
    refine inv.own_step isActive (fun _ _ _ _ _ => rfl) _ ⟨?_, savedSp, ?_⟩
    · simp only [Popped.left]
      omega
    · rw [here, savedSs]
      exact UInt16.ofNat_toNat
  · simp at taken

/-- A call gives back the block that it has taken, with its top, and resumes its
caller. -/
theorem Inv.leave_step (taken : s.step (.leave task) = some s') :
    s'.Inv pool (s.taken task :: free) ∧ s'.resumed task = s.entered task := by
  simp only [step] at taken
  split at taken
  · rename_i sp dx cx isCall
    simp only [Option.ite_none_right_eq_some, Option.some.injEq] at taken
    obtain ⟨isActive, rfl⟩ := taken
    have ok := inv.calls task isActive
    rw [isCall] at ok
    obtain ⟨place, rfl, rfl⟩ := ok
    obtain ⟨positive, fits⟩ := inv.bounds isActive
    have top : sp = s.taken task + 512 := place
    subst top
    have si : sub16 (s.taken task + 512) KSTACK_SIZE = s.taken task := by
      rw [KSTACK_SIZE, sub16_of_le fits (by omega)]
      omega
    have small := inv.chain.lt fun block isFree => pool.fits block (inv.free_mem isFree)
    refine ⟨⟨?_, ?_, inv.once.erase task, fun other isOther => ?_⟩, Function.update_self _ _ _⟩
    · simp only [si]
      exact inv.chain.push small fits fun block isFree => inv.free_apart isActive isFree
    · have back : (s.taken task :: (s.active.erase task).map s.taken).Perm
          (s.active.map s.taken) := ((List.perm_cons_erase isActive).symm.map s.taken)
      exact (List.perm_middle.symm.trans (back.append_left free)).trans inv.owned
    · obtain ⟨ne, isOld⟩ := (inv.once.mem_erase_iff).mp isOther
      simp only [si]
      exact (inv.calls other isOld).agree (Agree.setStk (inv.taken_apart isActive isOld ne))
  · simp at taken

/-- Every guarded step keeps the invariant. -/
theorem Inv.step {action : StackAction Task} (guarded : s.Guarded action)
    (taken : s.step action = some s') : ∃ free', s'.Inv pool free' := by
  cases action with
  | enter task caller =>
      have away : task ∉ s.active := by
        intro isActive
        simp [StackSystem.step, isActive] at taken
      obtain ⟨_, free', result, inv'⟩ := inv.enter_step caller guarded away
      obtain rfl := Option.some.inj (taken.symm.trans result)
      exact ⟨free', inv'⟩
  | store task addr byte => exact ⟨free, inv.store_step taken⟩
  | popSp task => exact ⟨free, inv.popSp_step taken⟩
  | popSs task => exact ⟨free, inv.popSs_step taken⟩
  | leave task => exact ⟨_, (inv.leave_step taken).1⟩

end Inv

/-! ## Every run -/

/-- In every run with at most four calls at once every block is on the free list once
or in use by one call; a task can enter while fewer are in progress; and what a call
gives back is its own block, with its top, and it resumes its caller. -/
theorem stack_pool_correct [DecidableEq Task] {mem : Bytes} {recorded : Task → Caller}
    (reached : Reached (· = start pool mem recorded) (fun s a s' => s.step a = some s') Guarded s) :
    (∃ free, FreeChain s.mem s.freestk free ∧ ∀ block ∈ pool.blocks,
      free.count block + s.active.countP (fun task => s.taken task = block) = 1) ∧
    (∀ task caller, s.active.length < 4 → task ∉ s.active →
      ∃ s', s.step (.enter task caller) = some s' ∧ s'.entered task = caller) ∧
    ∀ task s', s.step (.leave task) = some s' →
      s'.freestk = s.taken task ∧ stkTop s'.mem (s.taken task) = s.taken task + KSTACK_SIZE ∧
        s'.resumed task = s.entered task := by
  have holds : ∃ free, s.Inv pool free := by
    refine reached.invariant (fun s => ∃ free, s.Inv pool free) ?_ ?_
    · rintro _ rfl
      exact ⟨_, start_inv pool mem recorded⟩
    · rintro s s' action ⟨free, inv⟩ guarded taken
      exact inv.step guarded taken
  obtain ⟨free, inv⟩ := holds
  refine ⟨⟨free, inv.chain, fun block isBlock => ?_⟩, fun task caller few away => ?_,
    fun task s' taken => ?_⟩
  · have inUse : (s.active.map s.taken).count block =
        s.active.countP fun task => s.taken task = block := by
      rw [List.count, List.countP_map]
      exact List.countP_congr fun task _ => by simp
    rw [← inUse, ← List.count_append]
    exact List.count_eq_one_of_mem inv.nodup (inv.owned.symm.subset isBlock)
  · obtain ⟨s', free', taken, -⟩ := inv.enter_step caller few away
    refine ⟨s', taken, ?_⟩
    simp only [StackSystem.step] at taken
    split at taken
    · cases taken
    · cases taken
      exact Function.update_self _ _ _
  · obtain ⟨inv', resumed⟩ := inv.leave_step taken
    exact ⟨inv'.chain.1, inv'.chain.2.1, resumed⟩

/-- Four blocks of 512 bytes, each behind a header. -/
def adjacent : Pool where
  blocks := [0x2000, 0x2204, 0x2408, 0x260C]
  four := rfl
  positive := by decide
  fits := by decide
  apart := by decide

/-- The case of two calls of which the first one ends first, with its stack pointer
popped when the other one writes over the header of its block. -/
theorem stack_pool_correct_two_calls : ∃ s s' : StackSystem Nat,
    runs step (start adjacent (fun _ => 0) fun _ => ⟨0, 0⟩)
      [.enter 7 ⟨0x5000, 0xFFE0⟩, .enter 9 ⟨0x6000, 0x0FF0⟩, .popSp 7, .store 9 0x2408 0xAA,
        .popSs 7] = some s ∧
    s.step (.leave 7) = some s' ∧ s'.freestk = 0x260C ∧ s'.resumed 7 = ⟨0x5000, 0xFFE0⟩ := by
  have ran : (runs step (start adjacent (fun _ => 0) fun _ => ⟨0, 0⟩ : StackSystem Nat)
      [.enter 7 ⟨0x5000, 0xFFE0⟩, .enter 9 ⟨0x6000, 0x0FF0⟩, .popSp 7, .store 9 0x2408 0xAA,
        .popSs 7]).map (fun s => (s.taken 7, s.entered 7, (s.step (.leave 7)).isSome)) =
      some (0x260C, ⟨0x5000, 0xFFE0⟩, true) := by
    decide +kernel
  have along : Along step Guarded (start adjacent (fun _ => 0) fun _ => ⟨0, 0⟩ : StackSystem Nat)
      [.enter 7 ⟨0x5000, 0xFFE0⟩, .enter 9 ⟨0x6000, 0x0FF0⟩, .popSp 7, .store 9 0x2408 0xAA,
        .popSs 7] := by
    decide +kernel
  obtain ⟨s, ran, records⟩ := Option.map_eq_some_iff.mp ran
  simp only [Prod.mk.injEq] at records
  obtain ⟨taken, entered, leaves⟩ := records
  obtain ⟨s', left⟩ := Option.isSome_iff_exists.mp leaves
  obtain ⟨gives, -, resumes⟩ :=
    (stack_pool_correct (reached_of_runs rfl along ran)).2.2 7 s' left
  exact ⟨s, s', ran, left, gives.trans taken, resumes.trans entered⟩

end StackSystem

end Pegasos.Kernel.Syscall
