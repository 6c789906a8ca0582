import Pegasos.Kernel.Files.IoResults
import Pegasos.Kernel.Sched.Frames
import Pegasos.Kernel.Syscall.KernelStacks

/-!
# From the C library to the kernel and back

A function of the C library takes its arguments from its stack into registers and executes
`int SYSC`.  The dispatcher in `SCDSP.ASM` saves the registers, goes on to a kernel stack,
and `sc_disp` passes the arguments to a function of the kernel.  On the way back the result
comes in AX and DX, and `_errcheck` makes `_errno` of it.
-/

namespace Pegasos.Kernel.Syscall

open Pegasos.Support
open Pegasos.Kernel.Sched (Word Memory Regs Cpu X86_INTR_ENABLE linear linear_injective)
open Pegasos.Kernel.Files (Syscall ProcFiles Dispatch syscalls scDisp errcheck MAXERR)

/-- The data segment of the kernel, and where `_freestk` is in it. -/
structure KernelData where
  dgroup : Word
  freestk : Word
  deriving DecidableEq, Repr

/-- What a system call stores, apart from what the dispatcher does. -/
abbrev Stores := Syscall → List UInt16 → ProcFiles → Memory → Memory

def SC_EXIT : Word := 0

/-! ## The dispatcher -/

namespace Disp

variable (data : KernelData) (cpu : Cpu)

/-- `int`, `push es`, `push ds`, `pusha`. -/
def saved : Cpu := ((cpu.int.push cpu.es).push cpu.ds).pusha

/-- A word in the data segment. -/
def word (mem : Memory) (offs : Word) : Word := loadWord (linear data.dgroup) mem offs

def setWord (mem : Memory) (offs word : Word) : Memory :=
  storeWord (linear data.dgroup) mem offs word

/-- On to a free kernel stack.  Without one the machine stops. -/
def enter : Option Cpu :=
  let si := word data cpu.mem data.freestk
  if si = 0 then none
  else
    let mem := setWord data cpu.mem data.freestk (word data cpu.mem si)
    let si := word data mem (si + 2) - 4
    let mem := setWord data (setWord data mem si cpu.sp) (si + 2) cpu.ss
    some { cpu with
      ax := data.dgroup, ds := data.dgroup, es := data.dgroup, ss := data.dgroup, sp := si
      fl := cpu.fl ||| X86_INTR_ENABLE, mem := mem }

/-- `sc_disp`, with a pointer to the saved registers: what it returns, and the memory and
the files afterwards. -/
def dispatch (call : Dispatch) (stores : Stores) (seg offs : Word) (mem : Memory)
    (sys : ProcFiles) : Word × Memory × ProcFiles :=
  let field (at' : Word) : UInt16 := .ofBitVec (loadWord (linear seg) mem (offs + at'))
  let set (mem : Memory) (at' word : Word) := storeWord (linear seg) mem (offs + at') word
  let nsys := field 14
  match syscalls[nsys.toNat]? with
  | none => (nsys.toBitVec, set mem 14 (UInt16.ofInt (-Files.EINVAL)).toBitVec, sys)
  | some (fn, argw) =>
      let run (words : List UInt16) : Word × Memory × ProcFiles :=
        let (ret, sys') := call fn words sys
        let mem := set (stores fn words sys mem) 14 (UInt16.ofInt ret).toBitVec
        (nsys.toBitVec, set mem 10 (UInt16.ofInt (ret / 0x10000)).toBitVec, sys')
      match argw with
      | 1 => run [field 12]
      | 2 => run [field 12, field 10]
      | 3 => run [field 12, field 10, field 8]
      | 4 => run [field 12, field 10, field 8, field 2]
      | _ => ((UInt16.ofInt (-Files.EINVAL)).toBitVec, set (set mem 14 0) 10 0, sys)

/-- The kernel stack is given back, and the caller goes on, unless it exits. -/
def leave (nsys : Word) : Option Cpu :=
  let dx := cpu.top
  let cpu := cpu.drop
  let cx := cpu.top
  let cpu := cpu.drop
  let si := cpu.sp - .ofNat 16 KSTACK_SIZE
  let bx := word data cpu.mem data.freestk
  let mem := setWord data (setWord data cpu.mem (si + 2) cpu.sp) si bx
  let mem := setWord data mem data.freestk si
  if nsys = SC_EXIT then none
  else
    let cpu := ({ cpu with ss := cx, sp := dx, mem := mem } : Cpu).popa
    let cpu := { cpu.drop with ds := cpu.top }
    let cpu := { cpu.drop with es := cpu.top }
    some cpu.iret

/-- `disp`, from the interrupt to the return from it. -/
def disp (call : Dispatch) (stores : Stores) (sys : ProcFiles) : Option (Cpu × ProcFiles) :=
  (enter data (saved cpu)).bind fun cpu =>
    let offs := cpu.top
    let seg := cpu.drop.top
    let (nsys, mem, sys) := dispatch call stores seg offs cpu.mem sys
    (leave data { cpu with mem := mem } nsys).map fun cpu => (cpu, sys)

/-! ## What a program sees of the dispatcher -/

/-- `dispfrm`, with anything for its field `r_sp`. -/
def frame (regs : Regs) (slot : Word) : List Word :=
  [regs.di, regs.si, regs.bp, slot, regs.bx, regs.dx, regs.cx, regs.ax, regs.ds, regs.es, regs.ip,
    regs.cs, regs.fl]

/-- The registers that arguments are in. -/
def ustack (regs : Regs) : Files.Ustack where
  ax := .ofBitVec regs.ax
  bx := .ofBitVec regs.bx
  cx := .ofBitVec regs.cx
  dx := .ofBitVec regs.dx
  si := .ofBitVec regs.si

/-- The registers after a system call. -/
def returned (regs : Regs) (ustack : Files.Ustack) : Regs :=
  { regs with ax := ustack.ax.toBitVec, dx := ustack.dx.toBitVec }

/-- The block of the free kernel stack. -/
def block (mem : Memory) : Word := word data mem data.freestk

/-- There is a free kernel stack.  The data of the kernel is somewhere else than the stack of
the caller; and the system call does not store to the saved registers, nor to so many bytes
of the caller above them, nor to the pointer to them. -/
structure Undisturbed (stores : Stores) (sys : ProcFiles) (above : Nat) : Prop where
  free : block data cpu.mem ≠ 0
  fits : (block data cpu.mem).toNat + KSTACK_SIZE < 0x10000
  apart : data.freestk.toNat + 2 ≤ (block data cpu.mem).toNat ∨
    (block data cpu.mem).toNat + KSTACK_SIZE ≤ data.freestk.toNat
  top : word data cpu.mem (block data cpu.mem + 2) = block data cpu.mem + .ofNat 16 KSTACK_SIZE
  outside : ∀ i < 26 + above, ∀ offs,
    linear cpu.ss (cpu.sp - 26 + .ofNat 16 i) ≠ linear data.dgroup offs
  stores : ∀ kernel ∈ enter data (saved cpu), ∀ fn argw, syscalls[cpu.ax.toNat]? = some (fn, argw) →
    let words := [cpu.cx, cpu.dx, cpu.bx, cpu.si].take argw |>.map UInt16.ofBitVec
    SameFrom (linear cpu.ss) kernel.mem (stores fn words sys kernel.mem) (cpu.sp - 26) (26 + above) ∧
      SameFrom (linear data.dgroup) kernel.mem (stores fn words sys kernel.mem) kernel.sp 4

variable {data cpu} {stores : Stores} {call : Dispatch} {sys : ProcFiles} {above : Nat}
variable {mem mem' : Memory} {seg offs slot : Word} {regs : Regs}

theorem saved_eq (cpu : Cpu) : ∃ words, words.reverse = frame cpu.toRegs (cpu.sp - 10) ∧
    words.length = 13 ∧ saved cpu =
      { cpu with fl := cpu.fl &&& ~~~(X86_INTR_ENABLE ||| Sched.X86_TRAP_ENABLE) }.pushes words := by
  generalize isFlags : cpu.fl &&& ~~~(X86_INTR_ENABLE ||| Sched.X86_TRAP_ENABLE) = flags
  have entered : (cpu.int.push cpu.es).push cpu.ds =
      ({ cpu with fl := flags } : Cpu).pushes [cpu.fl, cpu.cs, cpu.ip, cpu.es, cpu.ds] := by
    rw [← isFlags]
    rfl
  have below : (({ cpu with fl := flags } : Cpu).pushes
      [cpu.fl, cpu.cs, cpu.ip, cpu.es, cpu.ds]).sp = cpu.sp - 10 := by
    simp only [Cpu.pushes, pushWords]
    bv_omega
  exact ⟨_, rfl, rfl, (congrArg Cpu.pusha entered).trans (Cpu.pusha_eq below)⟩

/-- The frame is on the stack. -/
def OnStack (seg offs : Word) (mem : Memory) (regs : Regs) : Prop :=
  ∃ slot, loadWords (linear seg) mem offs 13 = frame regs slot

theorem saved_frame (cpu : Cpu) : OnStack cpu.ss (cpu.sp - 26) (saved cpu).mem cpu.toRegs := by
  obtain ⟨words, reverse, length, isSaved⟩ := saved_eq cpu
  generalize cpu.fl &&& ~~~(X86_INTR_ENABLE ||| Sched.X86_TRAP_ENABLE) = flags at isSaved
  have loaded := Cpu.loadWords_pushes { cpu with fl := flags } length (by decide)
  rw [reverse, ← isSaved] at loaded
  exact ⟨cpu.sp - 10, loaded⟩

/-- The frame after a word of it has been stored. -/
theorem OnStack.set (onStack : OnStack seg offs mem regs) (i : Nat) (word : Word) {regs' : Regs}
    (less : i < 13) (same : ∀ slot, (frame regs slot).set i word = frame regs' slot) :
    OnStack seg offs (storeWord (linear seg) mem (offs + .ofNat 16 (2 * i)) word) regs' := by
  obtain ⟨slot, words⟩ := onStack
  refine ⟨slot, ?_⟩
  rw [loadWords_storeWord (linear_injective seg) less (by omega), words, same]

theorem OnStack.same (onStack : OnStack seg offs mem regs)
    (same : SameFrom (linear seg) mem mem' offs 26) : OnStack seg offs mem' regs := by
  obtain ⟨slot, words⟩ := onStack
  exact ⟨slot, same.loadWords.trans words⟩

/-- Saving registers stores below the stack pointer. -/
theorem saved_above (cpu : Cpu) {i : Nat} (room : 26 + i < 0x10000) :
    (saved cpu).mem (linear cpu.ss (cpu.sp + .ofNat 16 i)) =
      cpu.mem (linear cpu.ss (cpu.sp + .ofNat 16 i)) := by
  obtain ⟨words, -, length, isSaved⟩ := saved_eq cpu
  rw [isSaved]
  exact pushWords_above (linear_injective cpu.ss) words (by omega)

theorem saved_pointer (cpu : Cpu) : (saved cpu).sp = cpu.sp - 26 ∧ (saved cpu).ss = cpu.ss := by
  obtain ⟨words, -, length, isSaved⟩ := saved_eq cpu
  rw [isSaved]
  exact ⟨(pushWords_sp words).trans (by rw [length]; rfl), rfl⟩

/-- Saving registers does not touch the data of the kernel. -/
theorem saved_word (outside : ∀ i < 26, ∀ offs,
    linear cpu.ss (cpu.sp - 26 + .ofNat 16 i) ≠ linear data.dgroup offs) (offs : Word) :
    word data (saved cpu).mem offs = word data cpu.mem offs := by
  obtain ⟨words, -, length, isSaved⟩ := saved_eq cpu
  have kept : ∀ offs, (saved cpu).mem (linear data.dgroup offs) =
      cpu.mem (linear data.dgroup offs) := by
    intro offs
    rw [isSaved]
    refine pushWords_apart words fun i less same => ?_
    refine outside (25 - i) (by omega) offs (Eq.trans ?_ same.symm)
    congr 1
    dsimp only
    bv_omega
  rw [word, word, loadWord, loadWord, kept, kept]

/-- Storing into the data of the kernel does not touch the stack of the caller. -/
theorem setWord_same {ss sp : Word} {size : Nat} (outside : ∀ i < size, ∀ offs,
    linear ss (sp + .ofNat 16 i) ≠ linear data.dgroup offs) (offs word : Word) :
    SameFrom (linear ss) mem (setWord data mem offs word) sp size :=
  sameFrom_storeWord fun i less => ⟨outside i less _, outside i less _⟩

/-- The kernel stack has a pointer to the saved registers, which are as they were. -/
theorem enter_eq (calm : Undisturbed data cpu stores sys above) :
    ∃ kernel, enter data (saved cpu) = some kernel ∧ kernel.ss = data.dgroup ∧
      word data kernel.mem kernel.sp = cpu.sp - 26 ∧
      word data kernel.mem (kernel.sp + 2) = cpu.ss ∧
      SameFrom (linear cpu.ss) (saved cpu).mem kernel.mem (cpu.sp - 26) (26 + above) := by
  obtain ⟨sp, ss⟩ := saved_pointer cpu
  have words := saved_word fun i less offs => calm.outside i (by omega) offs
  obtain ⟨free, fits, apart, top, outside, -⟩ := calm
  simp only [KSTACK_SIZE] at fits apart top
  have injective := linear_injective data.dgroup
  have head : word data (saved cpu).mem data.freestk = block data cpu.mem := words _
  generalize isBlock : block data cpu.mem = si at *
  have isTop : word data (setWord data (saved cpu).mem data.freestk (word data (saved cpu).mem si))
      (si + 2) = si + 512 := by
    have kept := words (si + 2)
    rw [top] at kept
    rw [word, setWord, loadWord_storeWord_apart injective]
    · exact kept
    all_goals bv_omega
  unfold enter
  rw [head]
  dsimp only
  rw [if_neg free, isTop, sp, ss]
  refine ⟨_, rfl, rfl, ?_, ?_, ?_⟩
  · dsimp only
    rw [setWord, word, loadWord_storeWord_apart injective]
    · exact loadWord_storeWord_self injective
    all_goals bv_omega
  · dsimp only
    exact loadWord_storeWord_self injective
  · dsimp only
    exact ((setWord_same outside _ _).trans (setWord_same outside _ _)).trans
      (setWord_same outside _ _)

/-- What the fields of the frame are. -/
theorem OnStack.fields (onStack : OnStack seg offs mem regs) :
    loadWord (linear seg) mem (offs + 2) = regs.si ∧ loadWord (linear seg) mem (offs + 8) = regs.bx ∧
      loadWord (linear seg) mem (offs + 10) = regs.dx ∧
      loadWord (linear seg) mem (offs + 12) = regs.cx ∧
      loadWord (linear seg) mem (offs + 14) = regs.ax := by
  obtain ⟨slot, words⟩ := onStack
  exact ⟨loadWord_of_loadWords (i := 1) words rfl, loadWord_of_loadWords (i := 4) words rfl,
    loadWord_of_loadWords (i := 5) words rfl, loadWord_of_loadWords (i := 6) words rfl,
    loadWord_of_loadWords (i := 7) words rfl⟩

/-- Storing a result into the frame leaves the bytes above it alone. -/
theorem result_above {i : Nat} (less : i < 13) (room : 26 + above < 0x10000) (word : Word) :
    SameFrom (linear seg) mem (storeWord (linear seg) mem (offs + .ofNat 16 (2 * i)) word)
      (offs + 26) above := by
  refine sameFrom_storeWord fun j less' => ⟨fun same => ?_, fun same => ?_⟩
  · have := linear_injective seg same
    bv_omega
  · have := linear_injective seg same
    bv_omega

/-- Storing a result into the frame does not touch the data of the kernel. -/
theorem result_data {i size : Nat} {sp : Word} (less : i < 13) (outside : ∀ i < 26, ∀ other,
    linear seg (offs + .ofNat 16 i) ≠ linear data.dgroup other) (word : Word) :
    SameFrom (linear data.dgroup) mem
      (storeWord (linear seg) mem (offs + .ofNat 16 (2 * i)) word) sp size := by
  refine sameFrom_storeWord fun j less' => ⟨fun same => ?_, fun same => ?_⟩
  · exact outside (2 * i) (by omega) _ same.symm
  · refine outside (2 * i + 1) (by omega) _ (Eq.trans ?_ same.symm)
    rw [BitVec.ofNat_add, ← BitVec.add_assoc]
    rfl

theorem argw_range : ∀ entry ∈ syscalls,
    entry.2 = 1 ∨ entry.2 = 2 ∨ entry.2 = 3 ∨ entry.2 = 4 := by
  decide

/-- A call gets the arguments in the order of CX, DX, BX and SI. -/
theorem scDisp_eq (call : Dispatch) (sys : ProcFiles) {fn : Syscall} {argw : Nat}
    (entry : syscalls[regs.ax.toNat]? = some (fn, argw)) :
    let words := [regs.cx, regs.dx, regs.bx, regs.si].take argw |>.map UInt16.ofBitVec
    scDisp call (ustack regs) sys =
      ({ ustack regs with
          ax := UInt16.ofInt (call fn words sys).1
          dx := UInt16.ofInt ((call fn words sys).1 / 0x10000) }, (call fn words sys).2) := by
  unfold scDisp
  rw [show syscalls[(ustack regs).ax.toNat]? = some (fn, argw) from entry]
  obtain rfl | rfl | rfl | rfl := argw_range _ (List.mem_of_getElem? entry)
  all_goals rfl

/-- What a call does is done to the saved registers, and nothing else happens to the stack. -/
theorem dispatch_eq (call : Dispatch) {sp : Word} (onStack : OnStack seg offs mem regs) (room : 26 + above < 0x10000)
    (outside : ∀ i < 26, ∀ other, linear seg (offs + .ofNat 16 i) ≠ linear data.dgroup other)
    (quiet : ∀ fn argw, syscalls[regs.ax.toNat]? = some (fn, argw) →
      let words := [regs.cx, regs.dx, regs.bx, regs.si].take argw |>.map UInt16.ofBitVec
      SameFrom (linear seg) mem (stores fn words sys mem) offs (26 + above) ∧
        SameFrom (linear data.dgroup) mem (stores fn words sys mem) sp 4) :
    ∃ mem', dispatch call stores seg offs mem sys =
        (regs.ax, mem', (scDisp call (ustack regs) sys).2) ∧
      OnStack seg offs mem' (returned regs (scDisp call (ustack regs) sys).1) ∧
      SameFrom (linear seg) mem mem' (offs + 26) above ∧
      SameFrom (linear data.dgroup) mem mem' sp 4 := by
  obtain ⟨si, bx, dx, cx, ax⟩ := onStack.fields
  cases entry : syscalls[regs.ax.toNat]? with
  | none =>
      have result : scDisp call (ustack regs) sys =
          ({ ustack regs with ax := UInt16.ofInt (-Files.EINVAL) }, sys) := by
        unfold scDisp
        rw [show syscalls[(ustack regs).ax.toNat]? = none from entry]
      rw [result]
      refine ⟨storeWord (linear seg) mem (offs + .ofNat 16 (2 * 7)) (UInt16.ofInt (-Files.EINVAL)).toBitVec, ?_,
        onStack.set 7 _ (by decide) fun slot => rfl, result_above (by decide) room _,
        result_data (by decide) outside _⟩
      unfold dispatch
      dsimp only
      rw [ax]
      rw [show syscalls[(UInt16.ofBitVec regs.ax).toNat]? = none from entry]
      rfl
  | some entry' =>
      obtain ⟨fn, argw⟩ := entry'
      obtain ⟨stack, kernel⟩ := quiet fn argw entry
      have result := scDisp_eq call sys entry
      generalize isWords : ([regs.cx, regs.dx, regs.bx, regs.si].take argw).map UInt16.ofBitVec = words
        at stack kernel result
      rw [result]
      refine ⟨storeWord (linear seg) (storeWord (linear seg) (stores fn words sys mem)
          (offs + .ofNat 16 (2 * 7)) (UInt16.ofInt (call fn words sys).1).toBitVec) (offs + .ofNat 16 (2 * 5))
          (UInt16.ofInt ((call fn words sys).1 / 0x10000)).toBitVec, ?_, ?_, ?_, ?_⟩
      · unfold dispatch
        dsimp only
        rw [ax, cx, dx, bx, si]
        rw [show syscalls[(UInt16.ofBitVec regs.ax).toNat]? = some (fn, argw) from entry]
        obtain rfl | rfl | rfl | rfl := argw_range _ (List.mem_of_getElem? entry)
        all_goals
          subst isWords
          rfl
      · have kept := onStack.same fun i less => stack i (by omega)
        have stored : OnStack seg offs _
            { regs with ax := (UInt16.ofInt (call fn words sys).1).toBitVec } :=
          kept.set 7 (UInt16.ofInt (call fn words sys).1).toBitVec (by decide) fun slot => rfl
        exact stored.set 5 _ (by decide) fun slot => rfl
      · exact (stack.drop.trans (result_above (by decide) room _)).trans
          (result_above (by decide) room _)
      · exact (kernel.trans (result_data (by decide) outside _)).trans
          (result_data (by decide) outside _)

/-- `popa`, `pop ds`, `pop es` and `iret` take the frame off the stack. -/
theorem restore_eq (cpu : Cpu) (onStack : OnStack cpu.ss cpu.sp cpu.mem regs) :
    let popped := cpu.popa
    let popped := { popped.drop with ds := popped.top }
    let popped := { popped.drop with es := popped.top }
    popped.iret = ⟨{ regs with sp := cpu.sp + 26, ss := cpu.ss }, cpu.mem⟩ := by
  obtain ⟨slot, words⟩ := onStack
  simp only [loadWords, frame, List.cons.injEq, and_true] at words
  obtain ⟨di, si, bp, -, bx, dx, cx, ax, ds, es, ip, cs, fl⟩ := words
  simp only [Cpu.popa, Cpu.iret, Cpu.drop, Cpu.top, di, si, bp, bx, dx, cx, ax, ds, es, ip, cs, fl]
  have popped : cpu.sp + 2 + 2 + 2 + 2 + 2 + 2 + 2 + 2 + 2 + 2 + 2 + 2 + 2 = cpu.sp + 26 := by
    bv_omega
  rw [popped]

/-- The caller goes on with the registers of its frame. -/
theorem leave_eq (cpu : Cpu) {nsys ss sp : Word} (goesOn : nsys ≠ SC_EXIT) (segment : cpu.ss = data.dgroup)
    (isSp : word data cpu.mem cpu.sp = sp) (isSs : word data cpu.mem (cpu.sp + 2) = ss)
    (onStack : OnStack ss sp cpu.mem regs) (room : 26 + above < 0x10000)
    (outside : ∀ i < 26 + above, ∀ offs, linear ss (sp + .ofNat 16 i) ≠ linear data.dgroup offs) :
    ∃ mem', leave data cpu nsys = some ⟨{ regs with sp := sp + 26, ss := ss }, mem'⟩ ∧
      SameFrom (linear ss) cpu.mem mem' sp (26 + above) := by
  have top : cpu.top = sp := by
    rw [Cpu.top, segment]
    exact isSp
  have top' : cpu.drop.top = ss := by
    change loadWord (linear cpu.ss) cpu.mem (cpu.sp + 2) = ss
    rw [segment]
    exact isSs
  unfold leave
  dsimp only
  rw [top, top', if_neg goesOn]
  generalize isMem : setWord data (setWord data (setWord data _ _ _) _ _) _ _ = mem'
  have same : SameFrom (linear ss) cpu.mem mem' sp (26 + above) := by
    rw [← isMem]
    exact ((setWord_same outside _ _).trans (setWord_same outside _ _)).trans
      (setWord_same outside _ _)
  have onStack' := onStack.same fun i less => same i (by omega)
  refine ⟨mem', congrArg some ?_, same⟩
  exact restore_eq ⟨{ cpu.drop.drop.toRegs with ss := ss, sp := sp }, mem'⟩ onStack'

/-- The dispatcher does what `sc_disp` does with the arguments in the registers of its
caller.  Apart from the result in AX and DX the caller has all its registers again, and its
stack. -/
theorem disp_refines (call : Dispatch) (calm : Undisturbed data cpu stores sys above) (room : 26 + above < 0x10000)
    (goesOn : cpu.ax ≠ SC_EXIT) :
    ∃ mem', disp data cpu call stores sys = some
        (⟨returned cpu.toRegs (scDisp call (ustack cpu.toRegs) sys).1, mem'⟩,
          (scDisp call (ustack cpu.toRegs) sys).2) ∧
      SameFrom (linear cpu.ss) cpu.mem mem' cpu.sp above := by
  obtain ⟨kernel, entered, segment, isSp, isSs, same⟩ := enter_eq calm
  obtain ⟨-, -, -, -, outside, quiet⟩ := calm
  have onStack := (saved_frame cpu).same fun i less => same i (by omega)
  have quiet' := quiet kernel entered
  obtain ⟨mem', dispatched, onStack', above', data'⟩ := dispatch_eq call onStack room
    (fun i less => outside i (by omega)) quiet'
  have pointers : loadWords (linear data.dgroup) mem' kernel.sp 2 = _ := SameFrom.loadWords data'
  simp only [loadWords, List.cons.injEq, and_true] at pointers
  have top : kernel.top = cpu.sp - 26 := by
    rw [Cpu.top, segment]
    exact isSp
  have top' : kernel.drop.top = cpu.ss := by
    change loadWord (linear kernel.ss) kernel.mem (kernel.sp + 2) = cpu.ss
    rw [segment]
    exact isSs
  obtain ⟨last, left, same'⟩ := leave_eq { kernel with mem := mem' } goesOn segment
    (pointers.1.trans isSp) (pointers.2.trans isSs) onStack' room outside
  have pointer : cpu.sp - 26 + 26 = cpu.sp := by bv_omega
  have saved' : SameFrom (linear cpu.ss) cpu.mem (saved cpu).mem cpu.sp above := fun i less =>
    saved_above cpu (by omega)
  have entered' := same.drop
  have left' := same'.drop
  rw [show cpu.sp - 26 + BitVec.ofNat 16 26 = cpu.sp from pointer] at entered' left'
  rw [pointer] at above' left
  unfold disp
  rw [entered, Option.bind_some, top, top']
  dsimp only
  rw [dispatched]
  dsimp only
  rw [left]
  exact ⟨last, rfl, ((saved'.trans entered').trans above').trans left'⟩

end Disp

/-! ## The C library -/

/-- A function in `fileio.asm`: the number of its system call, the number of its words, and
whether it saves SI. -/
structure LibCall where
  nsys : Word
  argw : Nat
  savesSi : Bool
  deriving DecidableEq, Repr

namespace LibCall

variable (lib : LibCall) (cpu : Cpu)

/-- `_open`. -/
def open' : LibCall := ⟨1, 3, false⟩

/-- `_close`. -/
def close : LibCall := ⟨2, 1, false⟩

/-- `_read`. -/
def read : LibCall := ⟨3, 4, true⟩

/-- `_write`. -/
def write : LibCall := ⟨4, 4, true⟩

/-- `_exec`. -/
def exec : LibCall := ⟨5, 2, true⟩

/-- `_wait`. -/
def wait : LibCall := ⟨6, 2, true⟩

/-- `_dup`. -/
def dup : LibCall := ⟨7, 1, true⟩

/-- `_sleep`. -/
def sleep : LibCall := ⟨8, 2, true⟩

def all : List LibCall := [open', close, read, write, exec, wait, dup, sleep]

/-- The registers that are saved first. -/
def saves : List Word := if lib.savesSi then [cpu.bp, cpu.si] else [cpu.bp]

/-- Up to `int SYSC`. -/
def load : Cpu :=
  let cpu := cpu.push cpu.bp
  let cpu := { cpu with bp := cpu.sp }
  let cpu := if lib.savesSi then cpu.push cpu.si else cpu
  let arg (i : Nat) := loadWord (linear cpu.ss) cpu.mem (cpu.bp + 4 + .ofNat 16 (2 * i))
  { cpu with
    cx := arg 0
    dx := if 1 < lib.argw then arg 1 else cpu.dx
    bx := if 2 < lib.argw then arg 2 else cpu.bx
    si := if 3 < lib.argw then arg 3 else cpu.si
    ax := lib.nsys }

/-- `call _errcheck`, with `_errno` at an offset in the data segment. -/
def check (errno : Word) : Cpu :=
  let cpu := cpu.push cpu.ip
  let mem := storeWord (linear cpu.ds) cpu.mem errno 0
  let cpu := if cpu.ax < MAXERR.toBitVec then { cpu with mem := mem }
    else { cpu with ax := -1, mem := storeWord (linear cpu.ds) mem errno (-cpu.ax) }
  { cpu.drop with ip := cpu.top }

/-- `pop si`, `pop bp`, `ret`. -/
def ret : Cpu :=
  let cpu := if lib.savesSi then { cpu.drop with si := cpu.top } else cpu
  let cpu := { cpu.drop with bp := cpu.top }
  { cpu.drop with ip := cpu.top }

/-- A call of the function, after which its caller goes on. -/
def run (data : KernelData) (errno : Word) (call : Dispatch) (stores : Stores) (sys : ProcFiles) :
    Option (Cpu × ProcFiles) :=
  (Disp.disp data (lib.load cpu) call stores sys).map fun (cpu, sys) =>
    (lib.ret (check cpu errno), sys)

/-- The words that a caller has passed. -/
def args : List Word := loadWords (linear cpu.ss) cpu.mem (cpu.sp + 2) lib.argw

/-- `_errno` is somewhere else than the words that the function has on the stack. -/
def ErrnoApart (errno : Word) : Prop :=
  ∀ i < 8, linear cpu.ss (cpu.sp - 6 + .ofNat 16 i) ≠ linear cpu.ds errno ∧
    linear cpu.ss (cpu.sp - 6 + .ofNat 16 i) ≠ linear cpu.ds (errno + 1)

variable {lib cpu} {data : KernelData} {errno : Word} {call : Dispatch} {stores : Stores}
variable {sys : ProcFiles} {above : Nat} {fn : Syscall}

theorem load_eq (lib : LibCall) (cpu : Cpu) : lib.load cpu =
    let pushed := cpu.pushes (lib.saves cpu)
    let arg (i : Nat) := loadWord (linear cpu.ss) pushed.mem (cpu.sp - 2 + 4 + .ofNat 16 (2 * i))
    { pushed with
      bp := cpu.sp - 2
      cx := arg 0
      dx := if 1 < lib.argw then arg 1 else cpu.dx
      bx := if 2 < lib.argw then arg 2 else cpu.bx
      si := if 3 < lib.argw then arg 3 else cpu.si
      ax := lib.nsys } := by
  unfold load saves
  cases lib.savesSi with
  | false => rfl
  | true => rfl

theorem saves_length (lib : LibCall) (cpu : Cpu) : (lib.saves cpu).length ≤ 2 := by
  unfold saves
  cases lib.savesSi with
  | false => exact Nat.le_succ 1
  | true => exact Nat.le_refl 2

/-- What the function saves, and the address it returns to, are on the stack. -/
theorem load_stack (lib : LibCall) (cpu : Cpu) :
    loadWords (linear cpu.ss) (lib.load cpu).mem (lib.load cpu).sp ((lib.saves cpu).length + 1) =
      (lib.saves cpu).reverse ++ [cpu.top] := by
  have few := lib.saves_length cpu
  rw [load_eq]
  generalize lib.saves cpu = words at few
  exact loadWords_pushWords_add (linear_injective cpu.ss) cpu.mem cpu.sp words 1 (by omega)

theorem load_sp (lib : LibCall) (cpu : Cpu) :
    (lib.load cpu).sp = cpu.sp - .ofNat 16 (2 * (lib.saves cpu).length) := by
  rw [load_eq]
  exact pushWords_sp _

/-- The words that the caller has passed are in CX, DX, BX and SI. -/
theorem load_args (lib : LibCall) (cpu : Cpu) 
    (few : lib.argw = 1 ∨ lib.argw = 2 ∨ lib.argw = 3 ∨ lib.argw = 4) :
    [(lib.load cpu).cx, (lib.load cpu).dx, (lib.load cpu).bx, (lib.load cpu).si].take lib.argw =
      lib.args cpu := by
  have saves := lib.saves_length cpu
  have arg : ∀ i < 4, loadWord (linear cpu.ss) (cpu.pushes (lib.saves cpu)).mem
      (cpu.sp - 2 + 4 + .ofNat 16 (2 * i)) =
        loadWord (linear cpu.ss) cpu.mem (cpu.sp + 2 + .ofNat 16 (2 * i)) := by
    intro i less
    generalize lib.saves cpu = words at saves
    have kept : ∀ j < 16, (cpu.pushes words).mem (linear cpu.ss (cpu.sp + .ofNat 16 j)) =
        cpu.mem (linear cpu.ss (cpu.sp + .ofNat 16 j)) := fun j less =>
      pushWords_above (linear_injective cpu.ss) words (by omega)
    have low : cpu.sp - 2 + 4 + .ofNat 16 (2 * i) = cpu.sp + .ofNat 16 (2 * i + 2) := by bv_omega
    have high : cpu.sp + .ofNat 16 (2 * i + 2) + 1 = cpu.sp + .ofNat 16 (2 * i + 3) := by bv_omega
    have same : cpu.sp + 2 + .ofNat 16 (2 * i) = cpu.sp + .ofNat 16 (2 * i + 2) := by bv_omega
    rw [low, same, loadWord, loadWord, high, kept _ (by omega), kept _ (by omega)]
  rw [load_eq]
  dsimp only
  rw [arg 0 (by decide), arg 1 (by decide), arg 2 (by decide), arg 3 (by decide), args]
  rcases few with isArgw | isArgw | isArgw | isArgw
  all_goals
    rw [isArgw]
    simp [loadWords, BitVec.add_assoc]

/-- `_errcheck` makes a result of AX, and sets `_errno`. -/
theorem check_eq (cpu : Cpu) (errno : Word) (above : Nat) (room : 2 + above < 0x10000)
    (apart : ∀ i < 2 + above,
      linear cpu.ss (cpu.sp - 2 + .ofNat 16 i) ≠ linear cpu.ds errno ∧
        linear cpu.ss (cpu.sp - 2 + .ofNat 16 i) ≠ linear cpu.ds (errno + 1)) :
    ∃ mem', check cpu errno =
        ⟨{ cpu.toRegs with ax := (errcheck (.ofBitVec cpu.ax)).1.toBitVec }, mem'⟩ ∧
      loadWord (linear cpu.ds) mem' errno = (errcheck (.ofBitVec cpu.ax)).2.toBitVec ∧
      SameFrom (linear cpu.ss) cpu.mem mem' cpu.sp above := by
  have injective := linear_injective cpu.ss
  have kept (mem : Memory) (word : Word) : SameFrom (linear cpu.ss) mem
      (storeWord (linear cpu.ds) mem errno word) (cpu.sp - 2) (2 + above) :=
    sameFrom_storeWord apart
  have pushed : SameFrom (linear cpu.ss) cpu.mem (cpu.push cpu.ip).mem cpu.sp above :=
    sameFrom_storeWord fun i less => ⟨fun same => by have := injective same; bv_omega,
      fun same => by have := injective same; bv_omega⟩
  -- whatever is stored to `_errno`, the return address is on the stack
  have returns : ∀ mem, SameFrom (linear cpu.ss) (cpu.push cpu.ip).mem mem (cpu.sp - 2) (2 + above) →
      loadWord (linear cpu.ss) mem (cpu.sp - 2) = cpu.ip ∧
        SameFrom (linear cpu.ss) cpu.mem mem cpu.sp above := by
    intro mem same
    have word : loadWords (linear cpu.ss) mem (cpu.sp - 2) 1 = _ :=
      SameFrom.loadWords fun i less => same i (by omega)
    simp only [loadWords, List.cons.injEq, and_true] at word
    have above' := same.drop
    have pointer : cpu.sp - 2 + .ofNat 16 2 = cpu.sp := by bv_omega
    rw [pointer] at above'
    exact ⟨word.trans (loadWord_storeWord_self injective), pushed.trans above'⟩
  have pointer : cpu.sp - 2 + 2 = cpu.sp := by bv_omega
  by_cases counts : cpu.ax < MAXERR.toBitVec
  · obtain ⟨ip, same⟩ := returns _ (kept _ 0)
    have result : errcheck (.ofBitVec cpu.ax) = (.ofBitVec cpu.ax, 0) := if_pos counts
    have counts' : (cpu.push cpu.ip).ax < MAXERR.toBitVec := counts
    rw [result]
    refine ⟨_, ?_, loadWord_storeWord_self (linear_injective cpu.ds), same⟩
    unfold check
    dsimp only
    rw [if_pos counts']
    simp only [Cpu.drop, Cpu.top]
    rw [show (cpu.push cpu.ip).sp = cpu.sp - 2 from rfl, pointer]
    exact congrArg (fun ip => (⟨{ cpu.toRegs with ip := ip }, _⟩ : Cpu)) ip
  · obtain ⟨ip, same⟩ := returns _ ((kept _ 0).trans (kept _ (-cpu.ax)))
    have result : errcheck (.ofBitVec cpu.ax) = (-1, -.ofBitVec cpu.ax) := if_neg counts
    have counts' : ¬(cpu.push cpu.ip).ax < MAXERR.toBitVec := counts
    rw [result]
    refine ⟨_, ?_, loadWord_storeWord_self (linear_injective cpu.ds), same⟩
    unfold check
    dsimp only
    rw [if_neg counts']
    simp only [Cpu.drop, Cpu.top]
    rw [show (cpu.push cpu.ip).sp = cpu.sp - 2 from rfl, pointer]
    exact congrArg (fun ip => (⟨{ cpu.toRegs with ax := -1, ip := ip }, _⟩ : Cpu)) ip

/-- The function restores what it has saved. -/
theorem ret_eq (lib : LibCall) (cpu cpu' : Cpu)
    (stack : loadWords (linear cpu'.ss) cpu'.mem cpu'.sp ((lib.saves cpu).length + 1) =
      (lib.saves cpu).reverse ++ [cpu.top])
    (sp : cpu'.sp = cpu.sp - .ofNat 16 (2 * (lib.saves cpu).length)) :
    lib.ret cpu' = { cpu' with
      si := if lib.savesSi then cpu.si else cpu'.si, bp := cpu.bp, ip := cpu.top, sp := cpu.sp + 2 } := by
  unfold ret
  unfold saves at stack sp
  cases isSi : lib.savesSi with
  | false =>
      simp only [isSi, Bool.false_eq_true, if_false, List.length_cons, List.length_nil, loadWords,
        List.reverse_cons, List.reverse_nil, List.nil_append, List.cons_append, List.cons.injEq,
        and_true] at stack sp ⊢
      obtain ⟨bp, ip⟩ := stack
      have pointer : cpu'.sp + 2 + 2 = cpu.sp + 2 := by
        rw [sp]
        bv_omega
      simp only [Cpu.drop, Cpu.top, bp, ip, pointer]
  | true =>
      simp only [isSi, if_true, List.length_cons, List.length_nil, loadWords,
        List.reverse_cons, List.reverse_nil, List.nil_append, List.cons_append, List.cons.injEq,
        and_true] at stack sp ⊢
      obtain ⟨si, bp, ip⟩ := stack
      have pointer : cpu'.sp + 2 + 2 + 2 = cpu.sp + 2 := by
        rw [sp]
        bv_omega
      simp only [Cpu.drop, Cpu.top, si, bp, ip, pointer]

theorem all_entries : ∀ lib ∈ all, lib.nsys ≠ SC_EXIT ∧ (lib.savesSi = false → lib.argw < 4) ∧
    syscalls[lib.nsys.toNat]?.map Prod.snd = some lib.argw := by
  decide

/-- A program that calls a function of the C library calls the function of the kernel with the
words that it has passed, in their order.  It gets the result in DX and AX, or -1 and an
error in `_errno`, and has its stack and its other registers again, but for BX and CX. -/
theorem run_refines (call : Dispatch) (isLib : lib ∈ all) (apart : ErrnoApart cpu errno)
    (calm : Disp.Undisturbed data (lib.load cpu) stores sys (2 * ((lib.saves cpu).length + 1))) :
    ∃ fn, syscalls[lib.nsys.toNat]? = some (fn, lib.argw) ∧
      let (ret, sys') := call fn ((lib.args cpu).map UInt16.ofBitVec) sys
      let (result, error) := errcheck (.ofInt ret)
      ∃ cpu', lib.run cpu data errno call stores sys = some (cpu', sys') ∧
        loadWord (linear cpu.ds) cpu'.mem errno = error.toBitVec ∧
        ∃ bx cx fl, cpu'.toRegs = { cpu.toRegs with
          ax := result.toBitVec, dx := (UInt16.ofInt (ret / 0x10000)).toBitVec, bx := bx, cx := cx
          ip := cpu.top, sp := cpu.sp + 2, fl := fl } := by
  obtain ⟨goesOn, keepsSi, words⟩ := all_entries lib isLib
  obtain ⟨⟨fn, -⟩, entry, rfl⟩ := Option.map_eq_some_iff.mp words
  refine ⟨fn, entry, ?_⟩
  have few := lib.saves_length cpu
  have argw := Disp.argw_range _ (List.mem_of_getElem? entry)
  have stack := lib.load_stack cpu
  have sp := lib.load_sp cpu
  have regs : (lib.load cpu).ss = cpu.ss ∧ (lib.load cpu).ds = cpu.ds ∧
      (lib.load cpu).ax = lib.nsys := by
    rw [load_eq]
    exact ⟨rfl, rfl, rfl⟩
  obtain ⟨ss, ds, ax⟩ := regs
  obtain ⟨mem', dispatched, same⟩ := Disp.disp_refines call calm (by omega)
    (by rw [ax]; exact goesOn)
  rw [Disp.scDisp_eq call sys (by rw [ax]; exact entry)] at dispatched
  dsimp only at dispatched
  rw [load_args lib cpu argw] at dispatched
  generalize call fn ((lib.args cpu).map UInt16.ofBitVec) sys = returns at dispatched
  obtain ⟨ret, sys'⟩ := returns
  dsimp only at dispatched ⊢
  generalize isCpu : (⟨Disp.returned _ _, mem'⟩ : Cpu) = back at dispatched
  have backRegs : back.ss = cpu.ss ∧ back.ds = cpu.ds ∧ back.sp = (lib.load cpu).sp ∧
      back.ax = (UInt16.ofInt ret).toBitVec ∧ back.mem = mem' := by
    rw [← isCpu]
    exact ⟨ss, ds, rfl, rfl, rfl⟩
  obtain ⟨ss', ds', sp', ax', backMem⟩ := backRegs
  obtain ⟨mem'', checked, error, same'⟩ := check_eq back errno
    (2 * ((lib.saves cpu).length + 1)) (by omega) (by
      intro i less
      rw [ss', ds', sp', sp]
      have place : cpu.sp - .ofNat 16 (2 * (lib.saves cpu).length) - 2 + .ofNat 16 i =
          cpu.sp - 6 + .ofNat 16 (4 - 2 * (lib.saves cpu).length + i) := by
        bv_omega
      rw [place]
      exact apart _ (by omega))
  rw [ax', UInt16.ofBitVec_toBitVec] at checked error
  generalize errcheck (.ofInt ret) = outcome at checked error ⊢
  obtain ⟨result, number⟩ := outcome
  have kept : loadWords (linear cpu.ss) mem'' (lib.load cpu).sp ((lib.saves cpu).length + 1) =
      (lib.saves cpu).reverse ++ [cpu.top] := by
    rw [ss', sp', backMem] at same'
    rw [ss] at same
    exact (same.trans same').loadWords.trans stack
  have returned := lib.ret_eq cpu ⟨{ back.toRegs with ax := result.toBitVec }, mem''⟩
    (by dsimp only; rw [ss', sp']; exact kept) (sp'.trans sp)
  have si : (if lib.savesSi then cpu.si else back.si) = cpu.si := by
    split
    · rfl
    · rename_i keeps
      have below := keepsSi (by simpa using keeps)
      rw [← isCpu, load_eq]
      exact if_neg (by omega)
  refine ⟨lib.ret (check back errno), ?_, ?_, (lib.load cpu).bx, (lib.load cpu).cx, (lib.load cpu).fl, ?_⟩
  · unfold run
    rw [dispatched]
    rfl
  · rw [checked, returned]
    rw [ds'] at error
    exact error
  · rw [checked, returned]
    dsimp only
    rw [si, ← isCpu, load_eq]
    rfl

/-- A kernel with one free stack, and a program that reads 4 bytes from descriptor 0. -/
def oneStack : KernelData := ⟨0x1000, 0x10⟩

def reader : Cpu :=
  let mem := storeWord (linear 0x1000) (fun _ => 0) 0x10 0x200
  let mem := storeWord (linear 0x1000) mem 0x202 0x400
  let cpu : Cpu :=
    { ax := 1, cx := 2, dx := 3, bx := 4, sp := 0x100, bp := 5, si := 6, di := 7, es := 0x3000
      ds := 0x3000, ss := 0x3000, cs := 0x2000, ip := 0x300, fl := 0x0202, mem := mem }
  cpu.pushes [4, 0x3000, 0x80, 0, 0x1234]

/-- The kernel stores a byte into the buffer. -/
def readsOne : Stores := fun _ _ _ mem => Function.update mem (linear 0x3000 0x80) 0x41

theorem updated_same {place : Word → BitVec 20} {addr : BitVec 20} {byte : BitVec 8} {size : Nat}
    {mem : Memory} {offs : Word} (apart : ∀ i < size, place (offs + .ofNat 16 i) ≠ addr) :
    SameFrom place mem (Function.update mem addr byte) offs size :=
  fun i less => Function.update_of_ne (apart i less) _ _

theorem reader_undisturbed : Disp.Undisturbed oneStack (read.load reader) readsOne Files.oneProc
    (2 * ((read.saves reader).length + 1)) := by
  have size : 2 * ((read.saves reader).length + 1) = 6 := rfl
  have ss : (read.load reader).ss = 0x3000 := by decide +kernel
  have sp : (read.load reader).sp = 0xf2 := by decide +kernel
  rw [size]
  refine ⟨by decide +kernel, by decide +kernel, by decide +kernel, by decide +kernel, ?_, ?_⟩
  · intro i less offs
    rw [ss]
    exact Sched.linear_apart (by decide) (by decide) _ _
  · intro kernel entered fn argw entry
    refine ⟨updated_same ?_, updated_same fun i less => ?_⟩
    · rw [ss, sp]
      decide +kernel
    · exact (Sched.linear_apart (by decide) (by decide) _ _).symm

/-- A call that counts its words. -/
def counts : Dispatch := fun _ words sys => (words.length, sys)

theorem run_refines_reader :
    ∃ cpu', read.run reader oneStack 0x40 counts readsOne Files.oneProc =
        some (cpu', Files.oneProc) ∧
      loadWord (linear reader.ds) cpu'.mem 0x40 = 0 ∧
      (cpu'.ax, cpu'.dx, cpu'.sp, cpu'.ip, cpu'.si) = (4, 0, 0xf8, 0x1234, 6) := by
  have apart : ErrnoApart reader 0x40 := by
    unfold ErrnoApart
    decide +kernel
  obtain ⟨fn, -, cpu', ran, error, bx, cx, fl, regs⟩ :=
    run_refines counts (by decide) apart reader_undisturbed
  refine ⟨cpu', ran, error, ?_⟩
  have regs' := And.intro (congrArg Regs.ax regs) (And.intro (congrArg Regs.dx regs)
    (And.intro (congrArg Regs.sp regs) (And.intro (congrArg Regs.ip regs) (congrArg Regs.si regs))))
  obtain ⟨ax, dx, sp, ip, si⟩ := regs'
  rw [ax, dx, sp, ip, si]
  dsimp only
  decide +kernel

end LibCall

end Pegasos.Kernel.Syscall
