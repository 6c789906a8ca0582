import Pegasos.Support.WordStack

/-!
# Saved registers

The instructions by which `tasksw.asm` and `INTRA.ASM` put the registers of a task on its
stack, and those by which they take them back.  Whatever way a task is left, `taskreg_t` is
on top of its stack then, since all ways back are the same: the one at `swtosi`.
-/

namespace Pegasos.Kernel.Sched

open Pegasos.Support

abbrev Word := BitVec 16

abbrev Memory := BitVec 20 → BitVec 8

/-- The address of `seg:offs`, on 20 address lines. -/
def linear (seg offs : Word) : BitVec 20 := seg.setWidth 20 <<< 4 + offs.setWidth 20

theorem linear_injective (seg : Word) : Function.Injective (linear seg) := by
  intro offs offs' same
  have := congrArg BitVec.toNat (BitVec.add_right_inj _ |>.mp same)
  have small := offs.isLt
  have small' := offs'.isLt
  simp only [BitVec.toNat_setWidth] at this
  exact BitVec.eq_of_toNat_eq (by omega)

/-- A segment that begins behind another one. -/
theorem linear_apart {seg seg' : Word} (behind : seg.toNat + 0x1000 ≤ seg'.toNat)
    (fits : seg'.toNat ≤ 0xf000) (offs offs' : Word) : linear seg' offs' ≠ linear seg offs := by
  intro same
  have same := congrArg BitVec.toNat same
  have small := offs.isLt
  have small' := offs'.isLt
  simp only [linear, BitVec.toNat_add, BitVec.toNat_shiftLeft, BitVec.toNat_setWidth,
    Nat.shiftLeft_eq] at same
  omega

/-- The registers of a task. -/
structure Regs where
  ax : Word
  cx : Word
  dx : Word
  bx : Word
  sp : Word
  bp : Word
  si : Word
  di : Word
  es : Word
  ds : Word
  ss : Word
  cs : Word
  ip : Word
  fl : Word
  deriving DecidableEq, Repr

structure Cpu extends Regs where
  mem : Memory

/-- `X86_INTR_ENABLE`. -/
def X86_INTR_ENABLE : Word := 0x0200

/-- `X86_TRAP_ENABLE`. -/
def X86_TRAP_ENABLE : Word := 0x0100

namespace Cpu

variable (cpu : Cpu)

/-! ## Instructions -/

def push (word : Word) : Cpu :=
  { cpu with sp := cpu.sp - 2, mem := storeWord (linear cpu.ss) cpu.mem (cpu.sp - 2) word }

/-- The word on top of the stack. -/
def top : Word := loadWord (linear cpu.ss) cpu.mem cpu.sp

/-- `add sp, 2`. -/
def drop : Cpu := { cpu with sp := cpu.sp + 2 }

def pusha : Cpu :=
  (((((((cpu.push cpu.ax).push cpu.cx).push cpu.dx).push cpu.bx).push cpu.sp).push cpu.bp).push
    cpu.si).push cpu.di

/-- `popa`, which leaves the stack pointer of `pusha` alone. -/
def popa : Cpu :=
  let cpu := { cpu.drop with di := cpu.top }
  let cpu := { cpu.drop with si := cpu.top }
  let cpu := { cpu.drop with bp := cpu.top }
  let cpu := cpu.drop
  let cpu := { cpu.drop with bx := cpu.top }
  let cpu := { cpu.drop with dx := cpu.top }
  let cpu := { cpu.drop with cx := cpu.top }
  { cpu.drop with ax := cpu.top }

/-- What an interrupt does before its handler begins. -/
def int : Cpu :=
  { ((cpu.push cpu.fl).push cpu.cs).push cpu.ip with
    fl := cpu.fl &&& ~~~(X86_INTR_ENABLE ||| X86_TRAP_ENABLE) }

def iret : Cpu :=
  let cpu := { cpu.drop with ip := cpu.top }
  let cpu := { cpu.drop with cs := cpu.top }
  { cpu.drop with fl := cpu.top }

/-! ## Ways out of a task -/

/-- `pusha`, `push ds`, `push es`. -/
def saveRegs : Cpu := (cpu.pusha.push cpu.ds).push cpu.es

/-- The beginning of `_timer_handler` and of an `istub`. -/
def interrupted : Cpu := cpu.int.saveRegs

/-- `call far ptr _task_switch`, up to `iswitch`. -/
def taskSwitch : Cpu :=
  let cpu := (((cpu.push cpu.cs).push cpu.ip).push cpu.fl).saveRegs
  let word := loadWord (linear cpu.ss) cpu.mem
  -- the frame of the call becomes that of an interrupt
  let mem := storeWord (linear cpu.ss) cpu.mem (cpu.sp + 22) (word (cpu.sp + 24))
  let mem := storeWord (linear cpu.ss) mem (cpu.sp + 20) (word (cpu.sp + 22))
  { cpu with mem := storeWord (linear cpu.ss) mem (cpu.sp + 24) (word (cpu.sp + 20)) }

/-- `call _task_yield_to`, up to `swtosi`. -/
def taskYieldTo (resume : Word) : Cpu :=
  let cpu := (cpu.push cpu.ip).push cpu.bp
  let cpu := { cpu with bp := cpu.sp }
  (((cpu.push X86_INTR_ENABLE).push cpu.cs).push resume).saveRegs

/-- What is left of `_task_yield_to` behind `resume`. -/
def resumed : Cpu :=
  let cpu := { cpu.drop with bp := cpu.top }
  { cpu.drop with ip := cpu.top }

/-! ## The way back -/

/-- `swtosi` behind `lss`: `pop es`, `pop ds`, `popa`, `iret`. -/
def restore : Cpu :=
  let cpu := { cpu.drop with es := cpu.top }
  let cpu := { cpu.drop with ds := cpu.top }
  cpu.popa.iret

end Cpu

/-! ## Frames -/

/-- `taskreg_t`, with anything for its field `sp`. -/
def Regs.frame (regs : Regs) (sp : Word) : List Word :=
  [regs.es, regs.ds, regs.di, regs.si, regs.bp, sp, regs.bx, regs.dx, regs.cx, regs.ax, regs.ip,
    regs.cs, regs.fl]

/-- The registers of a task that does not run, and the words that have to be on its stack
when it runs again. -/
structure Suspended where
  regs : Regs
  above : List Word
  deriving DecidableEq, Repr

/-- The stack pointer of a suspended task. -/
def Suspended.sp (task : Suspended) : Word := task.regs.sp - 26

/-- The number of bytes on its stack. -/
def Suspended.size (task : Suspended) : Nat := 2 * (13 + task.above.length)

/-- The frame of a suspended task is on its stack. -/
def Suspended.In (task : Suspended) (mem : Memory) : Prop :=
  ∃ sp, loadWords (linear task.regs.ss) mem task.sp (13 + task.above.length) =
    task.regs.frame sp ++ task.above

/-- The frame is left alone. -/
def Suspended.Same (task : Suspended) (mem mem' : Memory) : Prop :=
  SameFrom (linear task.regs.ss) mem mem' task.sp task.size

instance (task : Suspended) (mem mem' : Memory) : Decidable (task.Same mem mem') :=
  inferInstanceAs (Decidable (∀ i < task.size, _ = _))

variable {cpu : Cpu} {task : Suspended} {mem mem' : Memory}

theorem Suspended.In.same (inside : task.In mem) (same : task.Same mem mem') : task.In mem' := by
  obtain ⟨sp, frame⟩ := inside
  exact ⟨sp, same.loadWords.trans frame⟩

namespace Cpu

/-- Push words, the first one first. -/
def pushes (cpu : Cpu) (words : List Word) : Cpu :=
  { cpu with
    sp := (pushWords (linear cpu.ss) cpu.mem cpu.sp words).2
    mem := (pushWords (linear cpu.ss) cpu.mem cpu.sp words).1 }

theorem pushes_push (words : List Word) (word : Word) :
    (cpu.pushes words).push word = cpu.pushes (words ++ [word]) := by
  simp only [pushes, push, pushWords_append, pushWords]

theorem push_eq (cpu : Cpu) (word : Word) : cpu.push word = cpu.pushes [word] := rfl

theorem pusha_eq {words : List Word} {slot : Word} (isSlot : (cpu.pushes words).sp = slot) :
    (cpu.pushes words).pusha = cpu.pushes
      (words ++ [cpu.ax, cpu.cx, cpu.dx, cpu.bx, slot, cpu.bp, cpu.si, cpu.di]) := by
  subst isSlot
  unfold pusha
  rw [pushes_push, pushes_push, pushes_push, pushes_push, pushes_push, pushes_push, pushes_push,
    pushes_push]
  simp only [List.append_assoc, List.cons_append, List.nil_append]
  rfl

theorem saveRegs_eq (cpu : Cpu) (words : List Word) : (cpu.pushes words).saveRegs = cpu.pushes (words ++
    [cpu.ax, cpu.cx, cpu.dx, cpu.bx, (cpu.pushes words).sp, cpu.bp, cpu.si, cpu.di, cpu.ds,
      cpu.es]) := by
  unfold saveRegs
  rw [pusha_eq rfl, pushes_push, pushes_push]
  simp only [List.append_assoc, List.cons_append, List.nil_append]
  rfl

theorem interrupted_eq (cpu : Cpu) : cpu.interrupted =
    { cpu with fl := cpu.fl &&& ~~~(X86_INTR_ENABLE ||| X86_TRAP_ENABLE) }.pushes
      (cpu.toRegs.frame (cpu.sp - 6)).reverse := by
  generalize isFlags : cpu.fl &&& ~~~(X86_INTR_ENABLE ||| X86_TRAP_ENABLE) = flags
  have entered : cpu.int = ({ cpu with fl := flags } : Cpu).pushes [cpu.fl, cpu.cs, cpu.ip] := by
    rw [← isFlags]
    rfl
  have below : (({ cpu with fl := flags } : Cpu).pushes [cpu.fl, cpu.cs, cpu.ip]).sp = cpu.sp - 6 := by
    simp only [pushes, pushWords]
    bv_omega
  rw [interrupted, entered, saveRegs_eq, below]
  rfl

/-! ## Frames are taken back -/

theorem loadWords_pushes (cpu : Cpu) {words : List Word} {count : Nat} (length : words.length = count)
    (room : 2 * count < 0x10000) :
    loadWords (linear cpu.ss) (cpu.pushes words).mem (cpu.sp - BitVec.ofNat 16 (2 * count)) count =
      words.reverse := by
  subst length
  have frame := loadWords_pushWords (linear_injective cpu.ss) cpu.mem cpu.sp words room
  rw [pushWords_sp] at frame
  exact frame

theorem pushes_in (sp : Word) {words above : List Word} {regs : Regs}
    (words' : words.reverse = regs.frame sp ++ above) (few : above.length ≤ 2)
    (ss : regs.ss = cpu.ss) (top : regs.sp = (cpu.pushes words).sp + 26) :
    ({ regs := regs, above := above } : Suspended).In (cpu.pushes words).mem := by
  have length : words.length = 13 + above.length := by
    rw [← List.length_reverse, words', List.length_append]
    rfl
  have frame := loadWords_pushWords (linear_injective cpu.ss) cpu.mem cpu.sp words
    (by omega)
  have pointer : ({ regs := regs, above := above } : Suspended).sp =
      (pushWords (linear cpu.ss) cpu.mem cpu.sp words).2 := by
    simp only [Suspended.sp, top, pushes]
    bv_omega
  refine ⟨sp, ?_⟩
  rw [pointer, ss, ← length]
  exact frame.trans words'

theorem interrupted_pointer (cpu : Cpu) :
    cpu.interrupted.ss = cpu.ss ∧ cpu.interrupted.sp = cpu.sp - 26 := by
  rw [interrupted_eq]
  exact ⟨rfl, pushWords_sp _⟩

/-- The registers of an interrupted task are on its stack. -/
theorem interrupted_in (cpu : Cpu) :
    ({ regs := cpu.toRegs, above := [] } : Suspended).In cpu.interrupted.mem := by
  rw [interrupted_eq]
  refine pushes_in (cpu.sp - 6) (by simp) (by simp) rfl ?_
  simp only [pushes, pushWords_sp, Regs.frame, List.length_reverse, List.length_cons,
    List.length_nil]
  bv_omega

/-- `swtosi` takes the frame of a task off its stack. -/
theorem restore_eq {suspended : Suspended} (inside : suspended.In cpu.mem)
    (ss : cpu.ss = suspended.regs.ss) (sp : cpu.sp = suspended.sp) :
    cpu.restore = ⟨suspended.regs, cpu.mem⟩ := by
  obtain ⟨slot, frame⟩ := inside
  rw [loadWords_add, ← ss, ← sp] at frame
  obtain ⟨words, -⟩ := List.append_inj frame (length_loadWords ..)
  simp only [loadWords, Regs.frame, List.cons.injEq, and_true] at words
  obtain ⟨es, ds, di, si, bp, -, bx, dx, cx, ax, ip, cs, fl⟩ := words
  simp only [restore, popa, iret, drop, top, es, ds, di, si, bp, bx, dx, cx, ax, ip, cs, fl]
  have pointer : cpu.sp + 26 = suspended.regs.sp := by
    rw [sp, Suspended.sp]
    bv_omega
  have popped : cpu.sp + 2 + 2 + 2 + 2 + 2 + 2 + 2 + 2 + 2 + 2 + 2 + 2 + 2 = suspended.regs.sp := by
    rw [← pointer]
    bv_omega
  rw [popped, ss]

/-! ## Voluntary switches -/

/-- What `task_yield_to` leaves of its caller. -/
def yielded (cpu : Cpu) (resume : Word) : Suspended where
  regs :=
    { cpu.toRegs with
      sp := cpu.sp - 4, bp := cpu.sp - 4, ip := resume, fl := X86_INTR_ENABLE }
  above := [cpu.bp, cpu.ip]

theorem taskYieldTo_eq (cpu : Cpu) (resume : Word) : cpu.taskYieldTo resume =
    { cpu with bp := cpu.sp - 4 }.pushes
      ((cpu.yielded resume).regs.frame (cpu.sp - 10) ++ (cpu.yielded resume).above).reverse := by
  generalize isBase : cpu.sp - 4 = base
  have entered : ((({ (cpu.push cpu.ip).push cpu.bp with
      bp := ((cpu.push cpu.ip).push cpu.bp).sp } : Cpu).push X86_INTR_ENABLE).push
        cpu.cs).push resume =
      ({ cpu with bp := base } : Cpu).pushes [cpu.ip, cpu.bp, X86_INTR_ENABLE, cpu.cs, resume] := by
    have same : ((cpu.push cpu.ip).push cpu.bp).sp = base := by
      rw [← isBase]
      simp only [push]
      bv_omega
    rw [same]
    rfl
  have below : (({ cpu with bp := base } : Cpu).pushes
      [cpu.ip, cpu.bp, X86_INTR_ENABLE, cpu.cs, resume]).sp = cpu.sp - 10 := by
    simp only [pushes, pushWords]
    bv_omega
  have isSave : cpu.taskYieldTo resume = (((({ (cpu.push cpu.ip).push cpu.bp with
      bp := ((cpu.push cpu.ip).push cpu.bp).sp } : Cpu).push X86_INTR_ENABLE).push
        cpu.cs).push resume).saveRegs := rfl
  rw [isSave, entered, saveRegs_eq, below, ← isBase]
  rfl

theorem taskYieldTo_pointer (cpu : Cpu) (resume : Word) :
    (cpu.taskYieldTo resume).ss = cpu.ss ∧
      (cpu.taskYieldTo resume).sp = (cpu.yielded resume).sp := by
  rw [taskYieldTo_eq]
  refine ⟨rfl, (pushWords_sp _).trans ?_⟩
  simp only [Regs.frame, List.length_reverse, List.length_append, List.length_cons,
    List.length_nil, yielded, Suspended.sp]
  bv_omega

theorem taskYieldTo_in (cpu : Cpu) (resume : Word) :
    (cpu.yielded resume).In (cpu.taskYieldTo resume).mem := by
  rw [taskYieldTo_eq]
  have two : (cpu.yielded resume).above.length = 2 := rfl
  refine pushes_in (cpu.sp - 10) (List.reverse_reverse _) (Nat.le_of_eq two) rfl ?_
  simp only [pushes, pushWords_sp, Regs.frame, List.length_reverse, List.length_append,
    List.length_cons, List.length_nil, two]
  bv_omega

/-- Behind `resume`, the caller of `task_yield_to` has its registers again. -/
theorem resumed_eq {resume : Word} {mem : Memory} (inside : (cpu.yielded resume).In mem) :
    ({ (cpu.yielded resume).regs with mem := mem } : Cpu).resumed =
      { cpu with fl := X86_INTR_ENABLE, mem := mem } := by
  obtain ⟨slot, frame⟩ := inside
  rw [loadWords_add] at frame
  obtain ⟨-, words⟩ := List.append_inj frame (length_loadWords ..)
  have shift : (cpu.yielded resume).sp + BitVec.ofNat 16 (2 * 13) = cpu.sp - 4 := by
    simp only [yielded, Suspended.sp]
    bv_omega
  rw [shift] at words
  simp only [yielded, List.length_cons, List.length_nil, loadWords, List.cons.injEq, and_true]
    at words
  obtain ⟨bp, ip⟩ := words
  have popped : cpu.sp - 4 + 2 + 2 = cpu.sp := by bv_omega
  simp only [resumed, drop, top, yielded, bp, ip, popped]

/-- The registers of a task that calls `task_switch` are on its stack, as those of an
interrupted task. -/
theorem taskSwitch_in (cpu : Cpu) :
    ({ regs := cpu.toRegs, above := [] } : Suspended).In cpu.taskSwitch.mem := by
  have called : ((cpu.push cpu.cs).push cpu.ip).push cpu.fl =
      cpu.pushes [cpu.cs, cpu.ip, cpu.fl] := by
    rw [push_eq cpu, pushes_push, pushes_push]
    rfl
  have isSaved := saveRegs_eq cpu [cpu.cs, cpu.ip, cpu.fl]
  rw [← called] at isSaved
  unfold taskSwitch
  generalize isSlot : (((cpu.push cpu.cs).push cpu.ip).push cpu.fl).sp = slot at isSaved
  generalize (((cpu.push cpu.cs).push cpu.ip).push cpu.fl).saveRegs = saved at isSaved ⊢
  have frame := loadWords_pushWords (linear_injective cpu.ss) cpu.mem cpu.sp
    ([cpu.cs, cpu.ip, cpu.fl] ++ [cpu.ax, cpu.cx, cpu.dx, cpu.bx, slot, cpu.bp, cpu.si, cpu.di,
      cpu.ds, cpu.es]) (by simp)
  have pointer : saved.sp = cpu.sp - 26 := by
    rw [isSaved]
    exact pushWords_sp _
  have segment : saved.ss = cpu.ss := by rw [isSaved]; rfl
  have words : loadWords (linear cpu.ss) saved.mem saved.sp (10 + 3) =
      [cpu.es, cpu.ds, cpu.di, cpu.si, cpu.bp, slot, cpu.bx, cpu.dx, cpu.cx, cpu.ax] ++
        [cpu.fl, cpu.ip, cpu.cs] := by
    rw [isSaved]
    exact frame
  rw [loadWords_add] at words
  obtain ⟨front, back⟩ := List.append_inj words (length_loadWords ..)
  simp only [loadWords, List.cons.injEq, and_true] at back
  obtain ⟨fl, ip, cs⟩ := back
  have at20 : saved.sp + BitVec.ofNat 16 (2 * 10) = saved.sp + 20 := rfl
  have at22 : saved.sp + 20 + 2 = saved.sp + 22 := by bv_omega
  have at24 : saved.sp + 22 + 2 = saved.sp + 24 := by bv_omega
  rw [at20] at fl ip cs
  rw [at22] at ip cs
  rw [at24] at cs
  have injective := linear_injective cpu.ss
  refine ⟨slot, ?_⟩
  change loadWords (linear cpu.ss) _ (cpu.sp - 26) (10 + 3) = _
  dsimp only
  rw [segment, fl, ip, cs, ← pointer, loadWords_add, at20]
  have above : ∀ {mem : Memory} {offs word : Word}, offs = saved.sp + 20 ∨ offs = saved.sp + 22 ∨
      offs = saved.sp + 24 → SameFrom (linear cpu.ss) mem (storeWord (linear cpu.ss) mem offs word)
        saved.sp (2 * 10) := by
    intro mem offs word place i less
    apply storeWord_apart injective
    · bv_omega
    · bv_omega
  rw [(above (.inr (.inr rfl))).loadWords, (above (.inl rfl)).loadWords,
    (above (.inr (.inl rfl))).loadWords, front]
  simp only [loadWords, at22, at24]
  rw [loadWord_storeWord_apart injective, loadWord_storeWord_self injective,
    loadWord_storeWord_apart injective, loadWord_storeWord_apart injective,
    loadWord_storeWord_self injective, loadWord_storeWord_self injective]
  · rfl
  all_goals bv_omega

end Cpu

/-! ## Frames of tasks that have not run yet -/

/-- The stack of a new task and the registers with which it begins.  `task_start` passes DS
of the kernel, `task_from_proc` a value for AX. -/
structure NewTask where
  ss : Word
  sp : Word
  es : Word
  ds : Word
  cs : Word
  ip : Word
  ax : Word
  deriving DecidableEq, Repr

namespace NewTask

variable (new : NewTask)

def regs : Regs where
  ax := new.ax
  cx := 0
  dx := 0
  bx := 0
  sp := new.sp
  bp := 0
  si := 0
  di := 0
  es := new.es
  ds := new.ds
  ss := new.ss
  cs := new.cs
  ip := new.ip
  fl := X86_INTR_ENABLE

/-- The frame that `task_start` and `task_from_proc` store. -/
def store (mem : Memory) : Memory :=
  (pushWords (linear new.ss) mem new.sp (new.regs.frame 0).reverse).1

theorem store_in (mem : Memory) :
    ({ regs := new.regs, above := [] } : Suspended).In (new.store mem) := by
  refine ⟨0, ?_⟩
  have frame := loadWords_pushWords (linear_injective new.ss) mem new.sp
    (new.regs.frame 0).reverse (by simp [Regs.frame])
  rw [pushWords_sp] at frame
  exact frame.trans (by simp)

end NewTask

/-- The kernel stack of a task that `task_sch_async` prepares, DS of the kernel, the address
of `task_async_stub`, and the callback with its arguments. -/
structure Callback where
  ss : Word
  sp : Word
  ds : Word
  cs : Word
  ip : Word
  fn : Word
  args : List Word
  deriving DecidableEq, Repr

namespace Callback

variable (callback : Callback) (mem : Memory)

/-- The pointer `reg`. -/
def reg : Word := callback.sp - BitVec.ofNat 16 (2 * (callback.args ++ [callback.fn]).length) - 26

/-- The arguments, the callback and the frame, of which only the size of a far pointer is
cleared. -/
def store : Memory :=
  let place := linear callback.ss
  let reg := callback.reg
  let mem := (pushWords place mem callback.sp (callback.args ++ [callback.fn])).1
  let mem := storeWord place (storeWord place mem reg 0) (reg + 2) 0
  let mem := storeWord place mem (reg + 24) X86_INTR_ENABLE
  let mem := storeWord place mem (reg + 22) callback.cs
  let mem := storeWord place mem (reg + 20) callback.ip
  let mem := storeWord place mem (reg + 2) callback.ds
  storeWord place mem reg callback.ds

/-- What the stack has at a field of `reg`. -/
def field (offs : Word) : Word :=
  loadWord (linear callback.ss) (callback.store mem) (callback.reg + offs)

/-- The registers with which the stub begins; the general ones are what the stack had. -/
def suspended : Suspended where
  regs :=
    { ax := callback.field mem 18, cx := callback.field mem 16, dx := callback.field mem 14
      bx := callback.field mem 12, sp := callback.reg + 26, bp := callback.field mem 8
      si := callback.field mem 6, di := callback.field mem 4, es := callback.ds
      ds := callback.ds, ss := callback.ss, cs := callback.cs, ip := callback.ip
      fl := X86_INTR_ENABLE }
  above := callback.fn :: callback.args.reverse

theorem store_in (few : callback.args.length < 0x7000) :
    (callback.suspended mem).In (callback.store mem) := by
  have injective := linear_injective callback.ss
  have length : (callback.suspended mem).above.length = (callback.args ++ [callback.fn]).length := by
    simp [suspended]
  have pointer : (callback.suspended mem).sp = callback.reg := by
    simp only [Suspended.sp, suspended]
    bv_omega
  have segment : (callback.suspended mem).regs.ss = callback.ss := rfl
  have here : callback.reg + 0 = callback.reg := by simp
  refine ⟨callback.field mem 10, ?_⟩
  rw [pointer, segment, length, loadWords_add]
  congr 1
  · have es : callback.field mem 0 = callback.ds := by
      rw [field, here]
      exact loadWord_storeWord_self injective
    have ds : callback.field mem 2 = callback.ds := by
      rw [field, store, loadWord_storeWord_apart injective]
      · exact loadWord_storeWord_self injective
      all_goals bv_omega
    have ip : callback.field mem 20 = callback.ip := by
      rw [field, store, loadWord_storeWord_apart injective, loadWord_storeWord_apart injective]
      · exact loadWord_storeWord_self injective
      all_goals bv_omega
    have cs : callback.field mem 22 = callback.cs := by
      rw [field, store, loadWord_storeWord_apart injective, loadWord_storeWord_apart injective,
        loadWord_storeWord_apart injective]
      · exact loadWord_storeWord_self injective
      all_goals bv_omega
    have fl : callback.field mem 24 = X86_INTR_ENABLE := by
      rw [field, store, loadWord_storeWord_apart injective, loadWord_storeWord_apart injective,
        loadWord_storeWord_apart injective, loadWord_storeWord_apart injective]
      · exact loadWord_storeWord_self injective
      all_goals bv_omega
    rw [field] at es ds ip cs fl
    rw [here] at es
    simp only [loadWords, BitVec.add_assoc, BitVec.reduceAdd]
    simp only [suspended, Regs.frame, List.cons.injEq, and_true]
    exact ⟨es, ds, rfl, rfl, rfl, rfl, rfl, rfl, rfl, rfl, ip, cs, fl⟩
  · have pushed := loadWords_pushWords injective mem callback.sp
      (callback.args ++ [callback.fn]) (by simp; omega)
    have behind : callback.reg + BitVec.ofNat 16 (2 * 13) =
        (pushWords (linear callback.ss) mem callback.sp (callback.args ++ [callback.fn])).2 := by
      rw [pushWords_sp, reg]
      bv_omega
    have above : ∀ {mem : Memory} {offs word : Word}, offs = callback.reg ∨
        offs = callback.reg + 2 ∨ offs = callback.reg + 20 ∨ offs = callback.reg + 22 ∨
          offs = callback.reg + 24 → loadWords (linear callback.ss)
            (storeWord (linear callback.ss) mem offs word) (callback.reg + BitVec.ofNat 16 (2 * 13))
              (callback.args ++ [callback.fn]).length =
          loadWords (linear callback.ss) mem (callback.reg + BitVec.ofNat 16 (2 * 13))
            (callback.args ++ [callback.fn]).length := by
      intro mem offs word place
      refine SameFrom.loadWords fun i less => ?_
      rw [List.length_append, List.length_singleton] at less
      apply storeWord_apart injective
      · bv_omega
      · bv_omega
    simp only [store]
    rw [above (.inl rfl), above (.inr (.inl rfl)), above (.inr (.inr (.inl rfl))),
      above (.inr (.inr (.inr (.inl rfl)))), above (.inr (.inr (.inr (.inr rfl)))),
      above (.inr (.inl rfl)), above (.inl rfl), behind, pushed]
    simp [suspended]

end Callback

end Pegasos.Kernel.Sched
