import Pegasos.Support.Transition
import Mathlib.Data.UInt
import Mathlib.Data.List.Basic

/-!
# Breakpoints

`db_intr_c` of `dbview.c` and the commands that change breakpoints or leave the debugger.  Memory
is what a linear address holds; the debugger's own variables are the fields of `Debugger`, and the
registers that the interrupt saved for the current task are apart from it.

The debugger hooks the keyboard interrupt while the debuggee does not run freely, so the four
bytes of its vector are the ones that are not transparent.
-/

namespace Pegasos.Kernel.Debug

open Pegasos.Support

/-- A far pointer. -/
structure FarAddr where
  seg : UInt16
  offs : UInt16
  deriving DecidableEq

/-- `KLINEAR` -/
def KLINEAR (fp : FarAddr) : UInt32 := fp.seg.toUInt32 <<< 4 + fp.offs.toUInt32

/-- What every linear address holds. -/
abbrev Memory := UInt32 → UInt8

/-- `*addr = byte` -/
def store (mem : Memory) (addr : UInt32) (byte : UInt8) : Memory :=
  fun other => if other = addr then byte else mem other

/-- The bytes of an `inthandler_t`. -/
abbrev Handler := Fin 4 → UInt8

def KBD_VEC : Nat := 9
def KBD_IRQ : Nat := 1
def INT3_OPCODE : UInt8 := 0xcc
def MAX_BKPTS : Nat := 32
def X86_TRAP_ENABLE : UInt16 := 0x0100
def X86_INTR_ENABLE : UInt16 := 0x0200

/-- `*INTVEC(n)` -/
def intvec (mem : Memory) (n : Nat) : Handler := fun i => mem (UInt32.ofNat (4 * n + i))

/-- `*INTVEC(n) = handler` -/
def setIntvec (mem : Memory) (n : Nat) (handler : Handler) : Memory := fun addr =>
  if inside : 4 * n ≤ addr.toNat ∧ addr.toNat < 4 * n + 4 then
    handler ⟨addr.toNat - 4 * n, by omega⟩
  else mem addr

inductive DbState where
  | running
  | stopped
  | stepping
  deriving DecidableEq

/-- `breakpoint_t` -/
structure Breakpoint where
  addr : FarAddr
  linear : UInt32
  valid : Bool
  enabled : Bool
  origOp : UInt8

/-- The fields of `taskreg_t` that the debugger reads or writes. -/
structure TaskReg where
  ip : UInt16
  cs : UInt16
  fl : UInt16

/-- The state of the debugger, of the memory and of the interrupt controller's mask. -/
structure Debugger where
  dbState : DbState
  bkpts : List Breakpoint
  mem : Memory
  regs : TaskReg
  oldKbdintr : Handler
  oldFlags : UInt16
  savedImask : UInt16
  imask : UInt16

/-- `db_enable_breakpoints` -/
def enableBreakpoints : List Breakpoint → Memory → Memory
  | [], mem => mem
  | bkpt :: bkpts, mem =>
      if ¬ (bkpt.valid ∧ bkpt.enabled) then enableBreakpoints bkpts mem
      else enableBreakpoints bkpts (store mem (KLINEAR bkpt.addr) INT3_OPCODE)

/-- The loop of `db_disable_breakpoints`. -/
def disableLoop (linhit : UInt32) : List Breakpoint → Memory → TaskReg → Memory × TaskReg
  | [], mem, regs => (mem, regs)
  | bkpt :: bkpts, mem, regs =>
      if ¬ (bkpt.valid ∧ bkpt.enabled) then disableLoop linhit bkpts mem regs
      else
        let regs := if bkpt.linear = linhit then { regs with ip := regs.ip - 1 } else regs
        disableLoop linhit bkpts (store mem (KLINEAR bkpt.addr) bkpt.origOp) regs

/-- `db_disable_breakpoints` -/
def disableBreakpoints (d : Debugger) : Debugger :=
  let csip : FarAddr := ⟨d.regs.cs, d.regs.ip⟩
  let linhit := KLINEAR csip - 1
  let (mem, regs) := disableLoop linhit d.bkpts d.mem d.regs
  { d with mem, regs }

/-- The loop of `set_breakpoint`: the first slot that is not valid, unless there is a breakpoint
at the address already. -/
def slotLoop (linear : UInt32) : List Breakpoint → Nat → Option Nat → Option (Option Nat)
  | [], _, slot => some slot
  | bkpt :: bkpts, i, slot =>
      let slot := if ¬ bkpt.valid ∧ slot = none then some i else slot
      if bkpt.valid ∧ bkpt.linear = linear then none else slotLoop linear bkpts (i + 1) slot

/-- `set_breakpoint`, with the pointer that `parse_address` returns for its argument. -/
def setBreakpoint (d : Debugger) (loc : Option FarAddr) : Debugger :=
  match loc with
  | none => d
  | some loc =>
      let linear := KLINEAR loc
      match slotLoop linear d.bkpts 0 none with
      | none => d
      | some none => d
      | some (some slot) =>
          { d with bkpts := d.bkpts.set slot ⟨loc, linear, true, true, d.mem linear⟩ }

section

variable (kbdintr : Handler)

/-- What `db_intr_c` does before the command loop. -/
def enter (d : Debugger) : Debugger :=
  let d :=
    if d.dbState = .running then
      disableBreakpoints
        { d with
          oldKbdintr := intvec d.mem KBD_VEC
          mem := setIntvec d.mem KBD_VEC kbdintr
          savedImask := d.imask
          imask := (0xffff : UInt16) &&& ~~~((1 : UInt16) <<< UInt16.ofNat KBD_IRQ)
          oldFlags := d.regs.fl }
    else d
  { d with dbState := .stopped }

/-- What `db_intr_c` does behind the command loop, which left `next` in `next_state`. -/
def leave (next : DbState) (d : Debugger) : Debugger :=
  let d := { d with dbState := next }
  match next with
  | .running =>
      { d with
        regs := { d.regs with fl := d.oldFlags }
        mem := enableBreakpoints d.bkpts (setIntvec d.mem KBD_VEC d.oldKbdintr)
        imask := d.savedImask }
  | .stepping =>
      { d with
        regs := { d.regs with fl := d.regs.fl &&& ~~~X86_INTR_ENABLE ||| X86_TRAP_ENABLE } }
  -- a panic, but the command loop does not end with `db_stopped`
  | .stopped => d

/-- A debugger, and the memory as the debuggee has written it. -/
structure Debuggee where
  db : Debugger
  orig : Memory

/-- What can happen: an `int 3` or a single step with the registers that it saves, a command, or a
byte that the debuggee writes. -/
inductive Event where
  | interrupt (regs : TaskReg)
  | setBreakpoint (loc : Option FarAddr)
  | go
  | step
  | write (addr : UInt32) (byte : UInt8)

namespace Debuggee

def step (s : Debuggee) : Event → Option Debuggee
  | .interrupt regs =>
      -- `db_intr` returns at once if the debugger is stopped
      if s.db.dbState = .stopped then some s
      else some { s with db := enter kbdintr { s.db with regs } }
  | .setBreakpoint loc =>
      if s.db.dbState = .stopped then some { s with db := Debug.setBreakpoint s.db loc } else none
  | .go => if s.db.dbState = .stopped then some { s with db := leave .running s.db } else none
  | .step => if s.db.dbState = .stopped then some { s with db := leave .stepping s.db } else none
  | .write addr byte =>
      if s.db.dbState = .stopped then none
      else
        some { s with
          db := { s.db with mem := store s.db.mem addr byte }
          orig := store s.orig addr byte }

/-- Behind `db_init` there are no breakpoints. -/
def Start (s : Debuggee) : Prop :=
  s.db.dbState = .running ∧ (∀ bkpt ∈ s.db.bkpts, bkpt.valid = false) ∧
    s.db.bkpts.length = MAX_BKPTS ∧ s.orig = s.db.mem

/-- A byte of the keyboard vector. -/
def Kbd (addr : UInt32) : Prop := 4 * KBD_VEC ≤ addr.toNat ∧ addr.toNat < 4 * KBD_VEC + 4

instance (addr : UInt32) : Decidable (Kbd addr) := inferInstanceAs (Decidable (_ ∧ _))

/-- There is a valid breakpoint at an address. -/
def BkptAt (s : Debuggee) (addr : UInt32) : Prop :=
  ∃ bkpt ∈ s.db.bkpts, bkpt.valid = true ∧ bkpt.linear = addr

/-- There is one that is enabled. -/
def EnabledAt (s : Debuggee) (addr : UInt32) : Prop :=
  ∃ bkpt ∈ s.db.bkpts, (bkpt.valid = true ∧ bkpt.enabled = true) ∧ bkpt.linear = addr

/-- The debuggee does not write to bytes with breakpoints. -/
def Spares (s : Debuggee) : Event → Prop
  | .write addr _ => ¬ s.BkptAt addr
  | _ => True

/-- Neither does it write to the keyboard vector while it is stepped. -/
def SparesKbd (s : Debuggee) : Event → Prop
  | .write addr _ => ¬ s.BkptAt addr ∧ (s.db.dbState = .stepping → ¬ Kbd addr)
  | _ => True

/-- What breakpoints promise.  The memory is as the debuggee has written it while it does not run
freely, but for the bytes that are `hooked`, and has an `int 3` at every enabled breakpoint while it
does; the interrupt of a breakpoint leaves `CS:IP` at the breakpoint. -/
structure Transparent (hooked : UInt32 → Prop) (s : Debuggee) : Prop where
  unique : s.db.bkpts.Pairwise fun bkpt other =>
    bkpt.valid = true → other.valid = true → bkpt.linear ≠ other.linear
  stopped : s.db.dbState ≠ .running → ∀ addr, ¬ hooked addr → s.db.mem addr = s.orig addr
  running : s.db.dbState = .running → ∀ addr,
    (s.EnabledAt addr → s.db.mem addr = INT3_OPCODE) ∧
      (¬ s.EnabledAt addr → s.db.mem addr = s.orig addr)
  backsUp : s.db.dbState = .running → ∀ (cs ip fl : UInt16), ip.toNat < 0xffff →
    s.EnabledAt (KLINEAR ⟨cs, ip⟩) → ∀ s', s.step kbdintr (.interrupt ⟨ip + 1, cs, fl⟩) = some s' →
      s'.db.regs.cs = cs ∧ s'.db.regs.ip = ip

end Debuggee

end

/-! ### The loops over the breakpoints -/

section

variable {bkpts : List Breakpoint} {bkpt : Breakpoint} {mem : Memory} {addr linhit : UInt32}
variable {regs : TaskReg} {n : Nat} {handler : Handler}

theorem store_apart {other : UInt32} (apart : other ≠ addr) (byte : UInt8) :
    store mem addr byte other = mem other := if_neg apart

theorem store_self (byte : UInt8) : store mem addr byte addr = byte := if_pos rfl

theorem enableBreakpoints_keeps (patched : mem addr = INT3_OPCODE) :
    enableBreakpoints bkpts mem addr = INT3_OPCODE := by
  induction bkpts generalizing mem with
  | nil => exact patched
  | cons bkpt bkpts ih =>
      rw [enableBreakpoints]
      split_ifs
      · apply ih
        by_cases same : addr = KLINEAR bkpt.addr
        · rw [← same]
          exact store_self _
        · exact (store_apart same _).trans patched
      · exact ih patched

theorem enableBreakpoints_at (member : bkpt ∈ bkpts)
    (on : bkpt.valid = true ∧ bkpt.enabled = true) :
    enableBreakpoints bkpts mem (KLINEAR bkpt.addr) = INT3_OPCODE := by
  induction bkpts generalizing mem with
  | nil => cases member
  | cons first bkpts ih =>
      rw [enableBreakpoints]
      rcases List.mem_cons.mp member with rfl | later
      · rw [if_neg (not_not.mpr on)]
        exact enableBreakpoints_keeps (store_self _)
      · split_ifs <;> exact ih later

theorem enableBreakpoints_apart (apart : ∀ bkpt ∈ bkpts,
    (bkpt.valid = true ∧ bkpt.enabled = true) → KLINEAR bkpt.addr ≠ addr) :
    enableBreakpoints bkpts mem addr = mem addr := by
  induction bkpts generalizing mem with
  | nil => rfl
  | cons first bkpts ih =>
      have rest := fun mem => @ih mem fun bkpt inside =>
        apart bkpt (List.mem_cons_of_mem _ inside)
      rw [enableBreakpoints]
      split_ifs with on
      · exact (rest _).trans (store_apart (Ne.symm (apart first List.mem_cons_self on)) _)
      · exact rest mem

/-- Every enabled breakpoint is replaced by its opcode. -/
theorem disableLoop_mem {byte : UInt8}
    (ops : ∀ bkpt ∈ bkpts, (bkpt.valid = true ∧ bkpt.enabled = true) → KLINEAR bkpt.addr = addr →
      bkpt.origOp = byte)
    (before : mem addr = byte ∨
      ∃ bkpt ∈ bkpts, (bkpt.valid = true ∧ bkpt.enabled = true) ∧ KLINEAR bkpt.addr = addr) :
    (disableLoop linhit bkpts mem regs).1 addr = byte := by
  induction bkpts generalizing mem regs with
  | nil =>
      rcases before with same | ⟨bkpt, member, -⟩
      · exact same
      · cases member
  | cons first bkpts ih =>
      have later := fun bkpt inside => ops bkpt (List.mem_cons_of_mem first inside)
      rw [disableLoop]
      by_cases on : first.valid = true ∧ first.enabled = true
      · rw [if_neg (not_not.mpr on)]
        apply ih later
        by_cases here : KLINEAR first.addr = addr
        · left
          rw [here, store_self]
          exact ops first List.mem_cons_self on here
        · rw [store_apart (Ne.symm here)]
          refine before.imp_right fun ⟨bkpt, member, found⟩ => ?_
          rcases List.mem_cons.mp member with rfl | inside
          · exact absurd found.2 here
          · exact ⟨bkpt, inside, found⟩
      · rw [if_pos on]
        apply ih later
        refine before.imp_right fun ⟨bkpt, member, found⟩ => ?_
        rcases List.mem_cons.mp member with rfl | inside
        · exact absurd found.1 on
        · exact ⟨bkpt, inside, found⟩

theorem disableLoop_apart (apart : ∀ bkpt ∈ bkpts,
    (bkpt.valid = true ∧ bkpt.enabled = true) → bkpt.linear ≠ linhit) :
    (disableLoop linhit bkpts mem regs).2 = regs := by
  induction bkpts generalizing mem regs with
  | nil => rfl
  | cons first bkpts ih =>
      have later := fun bkpt inside => apart bkpt (List.mem_cons_of_mem first inside)
      rw [disableLoop]
      by_cases on : first.valid = true ∧ first.enabled = true
      · rw [if_neg (not_not.mpr on), if_neg (apart first List.mem_cons_self on)]
        exact ih later
      · rw [if_pos on]
        exact ih later

/-- `CS:IP` is backed up once, as there is one breakpoint at an address. -/
theorem disableLoop_hit (unique : bkpts.Pairwise fun bkpt other =>
      bkpt.valid = true → other.valid = true → bkpt.linear ≠ other.linear)
    (member : bkpt ∈ bkpts) (on : bkpt.valid = true ∧ bkpt.enabled = true)
    (hit : bkpt.linear = linhit) :
    (disableLoop linhit bkpts mem regs).2 = { regs with ip := regs.ip - 1 } := by
  induction bkpts generalizing mem regs with
  | nil => cases member
  | cons first bkpts ih =>
      obtain ⟨apart, unique⟩ := List.pairwise_cons.mp unique
      rw [disableLoop]
      rcases List.mem_cons.mp member with rfl | inside
      · rw [if_neg (not_not.mpr on), if_pos hit]
        apply disableLoop_apart
        rintro other inside otherOn rfl
        exact apart other inside on.1 otherOn.1 hit
      · by_cases firstOn : first.valid = true ∧ first.enabled = true
        · have other : first.linear ≠ linhit := hit ▸ apart bkpt inside firstOn.1 on.1
          rw [if_neg (not_not.mpr firstOn), if_neg other]
          exact ih unique inside
        · rw [if_pos firstOn]
          exact ih unique inside

/-- What `set_breakpoint` knows of the slot that it finds. -/
theorem slotLoop_found {linear : UInt32} {i slot : Nat} {seen : Option Nat}
    (found : slotLoop linear bkpts i seen = some (some slot)) :
    (∀ bkpt ∈ bkpts, bkpt.valid = true → bkpt.linear ≠ linear) ∧
      (seen = some slot ∨ (seen = none ∧ ∃ front old rest, bkpts = front ++ old :: rest ∧
        slot = i + front.length ∧ old.valid = false)) := by
  induction bkpts generalizing i seen with
  | nil =>
      cases found
      exact ⟨fun bkpt inside => (nomatch inside), .inl rfl⟩
  | cons first bkpts ih =>
      rw [slotLoop] at found
      by_cases taken : first.valid = true ∧ first.linear = linear
      · rw [if_pos taken] at found
        cases found
      · rw [if_neg taken] at found
        obtain ⟨apart, place⟩ := ih found
        refine ⟨fun bkpt inside valid => ?_, ?_⟩
        · rcases List.mem_cons.mp inside with rfl | later
          · exact fun same => taken ⟨valid, same⟩
          · exact apart bkpt later valid
        · by_cases free : ¬ first.valid = true ∧ seen = none
          · rw [if_pos free] at place
            rcases place with here | ⟨none, -⟩
            · cases here
              exact .inr ⟨free.2, [], first, bkpts, rfl, rfl, eq_false_of_ne_true free.1⟩
            · cases none
          · rw [if_neg free] at place
            refine place.imp_right fun ⟨unseen, front, old, rest, split, later, clear⟩ => ?_
            refine ⟨unseen, first :: front, old, rest, by rw [split, List.cons_append], ?_, clear⟩
            rw [later, List.length_cons]
            omega

/-- `set_breakpoint` does nothing, or puts a breakpoint for a new address in the place of one that
is not valid. -/
theorem setBreakpoint_cases (d : Debugger) (loc : Option FarAddr) :
    setBreakpoint d loc = d ∨ ∃ addr front old rest, d.bkpts = front ++ old :: rest ∧
      old.valid = false ∧ (∀ bkpt ∈ d.bkpts, bkpt.valid = true → bkpt.linear ≠ KLINEAR addr) ∧
      setBreakpoint d loc = { d with
        bkpts := front ++ ⟨addr, KLINEAR addr, true, true, d.mem (KLINEAR addr)⟩ :: rest } := by
  cases loc with
  | none => exact .inl rfl
  | some addr =>
      rw [setBreakpoint]
      cases found : slotLoop (KLINEAR addr) d.bkpts 0 none with
      | none => exact .inl rfl
      | some slot =>
          cases slot with
          | none => exact .inl rfl
          | some slot =>
              obtain ⟨apart, seen | ⟨-, front, old, rest, split, place, clear⟩⟩ :=
                slotLoop_found found
              · cases seen
              · refine .inr ⟨addr, front, old, rest, split, clear, apart, ?_⟩
                dsimp only
                rw [split, place, Nat.zero_add, List.set_append_right _ _ (le_refl _),
                  Nat.sub_self, List.set_cons_zero]

end

/-! ### The keyboard vector -/

section

variable {mem : Memory} {addr : UInt32} {handler : Handler}

open Debuggee (Kbd)

theorem setIntvec_apart (apart : ¬ Kbd addr) : setIntvec mem KBD_VEC handler addr = mem addr :=
  dif_neg apart

/-- A byte of the vector, by its index. -/
theorem kbd_index (inside : Kbd addr) : ∃ i : Fin 4, addr = UInt32.ofNat (4 * KBD_VEC + i) ∧
    ∀ (mem : Memory) (handler : Handler), setIntvec mem KBD_VEC handler addr = handler i := by
  refine ⟨⟨addr.toNat - 4 * KBD_VEC, by have := inside.1; have := inside.2; omega⟩, ?_,
    fun mem handler => dif_pos inside⟩
  rw [Nat.add_sub_cancel' inside.1, UInt32.ofNat_toNat]

end

/-! ### Runs -/

namespace Debuggee

section

variable {kbdintr : Handler} {s s' : Debuggee} {event : Event}

/-- What holds between the steps: the opcodes that are saved are the debuggee's, and so is the
saved keyboard vector, but where there is a breakpoint in it. -/
structure Inv (s : Debuggee) : Prop where
  unique : s.db.bkpts.Pairwise fun bkpt other =>
    bkpt.valid = true → other.valid = true → bkpt.linear ≠ other.linear
  linear : ∀ bkpt ∈ s.db.bkpts, bkpt.valid = true → bkpt.linear = KLINEAR bkpt.addr
  ops : ∀ bkpt ∈ s.db.bkpts, (bkpt.valid = true ∧ bkpt.enabled = true) → ¬ Kbd bkpt.linear →
    bkpt.origOp = s.orig bkpt.linear
  stopped : s.db.dbState ≠ .running → ∀ addr, ¬ Kbd addr → s.db.mem addr = s.orig addr
  hooked : s.db.dbState ≠ .running → ∀ i : Fin 4,
    s.EnabledAt (UInt32.ofNat (4 * KBD_VEC + i)) ∨
      s.db.oldKbdintr i = s.orig (UInt32.ofNat (4 * KBD_VEC + i))
  running : s.db.dbState = .running → ∀ addr,
    (s.EnabledAt addr → s.db.mem addr = INT3_OPCODE) ∧
      (¬ s.EnabledAt addr → s.db.mem addr = s.orig addr)

theorem inv_start (start : s.Start) : s.Inv := by
  obtain ⟨running, invalid, -, same⟩ := start
  have never : ∀ addr, ¬ s.EnabledAt addr := by
    rintro addr ⟨bkpt, member, on, -⟩
    rw [invalid bkpt member] at on
    cases on.1
  refine ⟨?_, ?_, ?_, fun other => absurd running other, fun other => absurd running other,
    fun _ addr => ⟨fun enabled => absurd enabled (never addr), fun _ => by rw [same]⟩⟩
  · refine List.pairwise_of_forall_mem_list fun bkpt member other _ valid => ?_
    rw [invalid bkpt member] at valid
    cases valid
  · intro bkpt member valid
    rw [invalid bkpt member] at valid
    cases valid
  · intro bkpt member on
    rw [invalid bkpt member] at on
    cases on.1

/-- The interrupt of a single step only stops the debugger. -/
theorem Inv.single (inv : s.Inv) (stepping : s.db.dbState ≠ .running) (regs : TaskReg)
    (next : DbState) (notRunning : next ≠ .running) :
    Inv { s with db := { s.db with regs, dbState := next } } :=
  ⟨inv.unique, inv.linear, inv.ops, fun _ => inv.stopped stepping,
    fun _ => inv.hooked stepping, fun running => absurd running notRunning⟩

variable (kbdintr) in
theorem enter_running {d : Debugger} (running : d.dbState = .running) :
    (enter kbdintr d).bkpts = d.bkpts ∧ (enter kbdintr d).dbState = .stopped ∧
      (enter kbdintr d).oldKbdintr = intvec d.mem KBD_VEC ∧
      (enter kbdintr d).mem = (disableLoop (KLINEAR ⟨d.regs.cs, d.regs.ip⟩ - 1) d.bkpts
        (setIntvec d.mem KBD_VEC kbdintr) d.regs).1 ∧
      (enter kbdintr d).regs = (disableLoop (KLINEAR ⟨d.regs.cs, d.regs.ip⟩ - 1) d.bkpts
        (setIntvec d.mem KBD_VEC kbdintr) d.regs).2 := by
  rw [enter, if_pos running]
  exact ⟨rfl, rfl, rfl, rfl, rfl⟩

/-- The first interrupt takes the breakpoints out of the memory. -/
theorem Inv.entered (inv : s.Inv) (running : s.db.dbState = .running) (regs : TaskReg) :
    Inv { s with db := enter kbdintr { s.db with regs } } := by
  obtain ⟨bkpts, stopped, old, mem, -⟩ :=
    enter_running kbdintr (d := { s.db with regs }) running
  generalize enter kbdintr { s.db with regs } = d at *
  have enabled : ∀ addr, EnabledAt ⟨d, s.orig⟩ addr ↔ s.EnabledAt addr := by
    intro addr
    rw [EnabledAt, EnabledAt, bkpts]
  refine ⟨bkpts ▸ inv.unique, bkpts ▸ inv.linear, bkpts ▸ inv.ops, fun _ addr outside => ?_,
    fun _ i => ?_, fun running => ?_⟩
  · dsimp only
    rw [mem]
    refine disableLoop_mem (fun bkpt member on place => ?_) ?_
    · have same : bkpt.linear = addr := (inv.linear bkpt member on.1).trans place
      rw [inv.ops bkpt member on (same ▸ outside), same]
    · by_cases here : s.EnabledAt addr
      · obtain ⟨bkpt, member, on, place⟩ := here
        exact .inr ⟨bkpt, member, on, (inv.linear bkpt member on.1).symm.trans place⟩
      · exact .inl ((setIntvec_apart outside).trans ((inv.running running addr).2 here))
  · by_cases here : s.EnabledAt (UInt32.ofNat (4 * KBD_VEC + i))
    · exact .inl ((enabled _).mpr here)
    · right
      dsimp only
      rw [old]
      exact (inv.running running _).2 here
  · dsimp only at running
    rw [stopped] at running
    cases running

/-- `set_breakpoint` saves an opcode of the debuggee, since the breakpoints are out of the memory
while the debugger is stopped. -/
theorem Inv.setBreakpoint (inv : s.Inv) (stopped : s.db.dbState = .stopped)
    (loc : Option FarAddr) : Inv { s with db := Debug.setBreakpoint s.db loc } := by
  have notRunning : s.db.dbState ≠ .running := by
    rw [stopped]
    decide
  rcases setBreakpoint_cases s.db loc with
    same | ⟨addr, front, old, rest, split, invalid, apart, set⟩
  · rw [same]
    exact inv
  · have kept {bkpt : Breakpoint} (member : bkpt ∈ s.db.bkpts) (valid : bkpt.valid = true) :
        bkpt ∈ front ∨ bkpt ∈ rest := by
      rw [split, List.mem_append, List.mem_cons] at member
      rcases member with before | rfl | behind
      · exact .inl before
      · rw [invalid] at valid
        cases valid
      · exact .inr behind
    have member_of {bkpt : Breakpoint} (inside : bkpt ∈ front ∨ bkpt ∈ rest) :
        bkpt ∈ s.db.bkpts := by
      rw [split, List.mem_append, List.mem_cons]
      exact inside.imp_right .inr
    have cases_new {bkpt new : Breakpoint} (inside : bkpt ∈ front ++ new :: rest) :
        bkpt = new ∨ bkpt ∈ s.db.bkpts := by
      rcases List.mem_append.mp inside with before | behind
      · exact .inr (member_of (.inl before))
      · exact (List.mem_cons.mp behind).imp_right fun behind => member_of (.inr behind)
    rw [set]
    refine ⟨?_, ?_, ?_, fun _ => inv.stopped notRunning, fun _ i => ?_,
      fun running => absurd running notRunning⟩
    · have unique := inv.unique
      rw [split, List.pairwise_append, List.pairwise_cons] at unique
      obtain ⟨frontUnique, ⟨-, restUnique⟩, cross⟩ := unique
      refine List.pairwise_append.mpr ⟨frontUnique, List.pairwise_cons.mpr
        ⟨fun bkpt inside _ valid same => ?_, restUnique⟩, fun bkpt inside other otherIn => ?_⟩
      · exact apart bkpt (member_of (.inr inside)) valid same.symm
      · rcases List.mem_cons.mp otherIn with rfl | behind
        · exact fun valid _ same => apart bkpt (member_of (.inl inside)) valid same
        · exact cross bkpt inside other (List.mem_cons_of_mem _ behind)
    · intro bkpt inside valid
      rcases cases_new inside with rfl | member
      · rfl
      · exact inv.linear bkpt member valid
    · intro bkpt inside on outside
      rcases cases_new inside with rfl | member
      · exact inv.stopped notRunning _ outside
      · exact inv.ops bkpt member on outside
    · refine (inv.hooked notRunning i).imp_left fun ⟨bkpt, member, on, place⟩ => ?_
      refine ⟨bkpt, ?_, on, place⟩
      exact List.mem_append.mpr ((kept member on.1).imp_right fun behind => .tail _ behind)

/-- `go` puts the breakpoints and the keyboard vector back. -/
theorem Inv.left (inv : s.Inv) (stopped : s.db.dbState = .stopped) :
    Inv { s with db := leave .running s.db } := by
  have notRunning : s.db.dbState ≠ .running := by
    rw [stopped]
    decide
  refine ⟨inv.unique, inv.linear, inv.ops, fun other => absurd rfl other,
    fun other => absurd rfl other, fun _ addr => ⟨fun here => ?_, fun none => ?_⟩⟩
  · obtain ⟨bkpt, member, on, rfl⟩ := here
    rw [inv.linear bkpt member on.1]
    exact enableBreakpoints_at member on
  · have apart : ∀ bkpt ∈ s.db.bkpts, (bkpt.valid = true ∧ bkpt.enabled = true) →
        KLINEAR bkpt.addr ≠ addr := fun bkpt member on place =>
      none ⟨bkpt, member, on, (inv.linear bkpt member on.1).trans place⟩
    refine (enableBreakpoints_apart apart).trans ?_
    by_cases inside : Kbd addr
    · obtain ⟨i, rfl, byte⟩ := kbd_index inside
      rw [byte]
      exact (inv.hooked notRunning i).resolve_left none
    · exact (setIntvec_apart inside).trans (inv.stopped notRunning addr inside)

theorem kbd_ofNat (i : Fin 4) : Kbd (UInt32.ofNat (4 * KBD_VEC + i)) := by
  revert i
  decide

/-- A byte of the debuggee changes its memory and ours. -/
theorem Inv.written (inv : s.Inv) {addr : UInt32} (byte : UInt8) (spared : ¬ s.BkptAt addr)
    (unhooked : s.db.dbState ≠ .running → ¬ Kbd addr) :
    Inv { s with
      db := { s.db with mem := store s.db.mem addr byte }
      orig := store s.orig addr byte } := by
  have both {other : UInt32} (same : s.db.mem other = s.orig other) :
      store s.db.mem addr byte other = store s.orig addr byte other := by
    by_cases here : other = addr
    · rw [here, store_self, store_self]
    · rw [store_apart here, store_apart here, same]
  refine ⟨inv.unique, inv.linear, fun bkpt member on outside => ?_,
    fun notRunning other outside => both (inv.stopped notRunning other outside),
    fun notRunning i => ?_, fun running other => ⟨fun here => ?_, fun none => ?_⟩⟩
  · have apart : bkpt.linear ≠ addr := fun here => spared ⟨bkpt, member, on.1, here⟩
    exact (inv.ops bkpt member on outside).trans (store_apart apart byte).symm
  · have apart : UInt32.ofNat (4 * KBD_VEC + i) ≠ addr := fun same =>
      unhooked notRunning (same ▸ kbd_ofNat i)
    exact (inv.hooked notRunning i).imp_right fun same =>
      same.trans (store_apart apart byte).symm
  · have apart : other ≠ addr := by
      rintro rfl
      obtain ⟨bkpt, member, on, place⟩ := here
      exact spared ⟨bkpt, member, on.1, place⟩
    exact (store_apart apart byte).trans ((inv.running running other).1 here)
  · exact both ((inv.running running other).2 none)

theorem inv_step (inv : s.Inv) (spares : s.SparesKbd event)
    (taken : s.step kbdintr event = some s') : s'.Inv := by
  cases event with
  | interrupt regs =>
      rw [step] at taken
      split_ifs at taken with stopped
      · cases taken
        exact inv
      · cases taken
        by_cases running : s.db.dbState = .running
        · exact inv.entered running regs
        · rw [enter, if_neg running]
          exact inv.single running regs .stopped (by decide)
  | setBreakpoint loc =>
      rw [step] at taken
      split_ifs at taken with stopped
      cases taken
      exact inv.setBreakpoint stopped loc
  | go =>
      rw [step] at taken
      split_ifs at taken with stopped
      cases taken
      exact inv.left stopped
  | step =>
      rw [step] at taken
      split_ifs at taken with stopped
      cases taken
      have notRunning : s.db.dbState ≠ .running := by
        rw [stopped]
        decide
      exact inv.single notRunning _ .stepping (by decide)
  | write addr byte =>
      rw [step] at taken
      split_ifs at taken with stopped
      cases taken
      refine inv.written byte spares.1 fun notRunning => spares.2 ?_
      cases state : s.db.dbState with
      | running => exact absurd state notRunning
      | stopped => exact absurd state stopped
      | stepping => rfl

theorem inv_of_reached
    (reached : Reached Start (fun s event s' => s.step kbdintr event = some s') SparesKbd s) :
    s.Inv :=
  reached.invariant Inv inv_start inv_step

/-- The address in front of `CS:IP` is the one of the opcode, unless the offset has wrapped. -/
theorem KLINEAR_next (cs : UInt16) {ip : UInt16} (below : ip.toNat < 0xffff) :
    KLINEAR ⟨cs, ip + 1⟩ - 1 = KLINEAR ⟨cs, ip⟩ := by
  have next : (ip + 1).toUInt32 = ip.toUInt32 + 1 := by
    apply UInt32.toNat_inj.mp
    rw [UInt16.toNat_toUInt32, UInt16.toNat_add, UInt32.toNat_add, UInt16.toNat_toUInt32]
    show (ip.toNat + 1) % 2 ^ 16 = (ip.toNat + 1) % 2 ^ 32
    omega
  rw [KLINEAR, KLINEAR, next, ← UInt32.add_assoc, UInt32.add_sub_cancel]

theorem Inv.backsUp (inv : s.Inv) (running : s.db.dbState = .running) {cs ip fl : UInt16}
    (below : ip.toNat < 0xffff) (here : s.EnabledAt (KLINEAR ⟨cs, ip⟩))
    (taken : s.step kbdintr (.interrupt ⟨ip + 1, cs, fl⟩) = some s') :
    s'.db.regs.cs = cs ∧ s'.db.regs.ip = ip := by
  obtain ⟨bkpt, member, on, hit⟩ := here
  obtain ⟨-, -, -, -, regs⟩ := enter_running kbdintr
    (d := { s.db with regs := ⟨ip + 1, cs, fl⟩ }) running
  rw [KLINEAR_next cs below, disableLoop_hit inv.unique member on hit] at regs
  rw [step, running, if_neg (by decide)] at taken
  cases taken
  rw [regs]
  exact ⟨rfl, UInt16.add_sub_cancel ip 1⟩

/-- Breakpoints are transparent in every run, but for the keyboard vector: the debugger hooks it
while it is stopped or stepping, and puts back then what a stepped debuggee may have changed. -/
theorem breakpoints_transparent
    (reached : Reached Start (fun s event s' => s.step kbdintr event = some s') SparesKbd s) :
    s.Transparent kbdintr Kbd := by
  have inv := inv_of_reached reached
  exact ⟨inv.unique, inv.stopped, inv.running,
    fun running _ _ _ below here _ taken => inv.backsUp running below here taken⟩

/-- A machine whose memory is zero. -/
def zeroMachine : Debuggee :=
  ⟨⟨.running, List.replicate MAX_BKPTS ⟨⟨0, 0⟩, 0, false, false, 0⟩, fun _ => 0, ⟨0, 0, 0⟩,
    fun _ => 0, 0, 0, 0⟩, fun _ => 0⟩

theorem zeroMachine_start : zeroMachine.Start := by
  refine ⟨rfl, fun bkpt member => ?_, List.length_replicate, rfl⟩
  rw [List.eq_of_mem_replicate member]

/-- A breakpoint is set, and the debuggee goes on. -/
theorem breakpoints_transparent_go :
    ∃ s, runs (step fun _ => 1) zeroMachine
        [.interrupt ⟨0, 0, 0⟩, .setBreakpoint (some ⟨0x10, 0x5⟩), .go] = some s ∧
      s.Transparent (fun _ => 1) Kbd := by
  have ran : (runs (step fun _ => 1) zeroMachine
      [.interrupt ⟨0, 0, 0⟩, .setBreakpoint (some ⟨0x10, 0x5⟩), .go]).isSome = true := by
    decide +kernel
  obtain ⟨s, ran⟩ := Option.isSome_iff_exists.mp ran
  have along : Along (step fun _ => 1) SparesKbd zeroMachine
      [.interrupt ⟨0, 0, 0⟩, .setBreakpoint (some ⟨0x10, 0x5⟩), .go] :=
    ⟨trivial, fun _ _ => ⟨trivial, fun _ _ => ⟨trivial, fun _ _ => trivial⟩⟩⟩
  exact ⟨s, ran, breakpoints_transparent (reached_of_runs zeroMachine_start along ran)⟩

/-- While the debugger is stopped, the keyboard vector leads to its own handler. -/
theorem keyboard_vector_hooked :
    ¬ ∀ (kbdintr : Handler) (s : Debuggee),
      Reached Start (fun s event s' => s.step kbdintr event = some s') Spares s →
        s.Transparent kbdintr fun _ => False := by
  intro claim
  have ran : ((runs (step fun _ => 1) zeroMachine [.interrupt ⟨0, 0, 0⟩]).map fun s =>
      (s.db.dbState, s.db.mem 0x24, s.orig 0x24)) = some (.stopped, 1, 0) := by
    decide +kernel
  obtain ⟨s, ran, bytes⟩ := Option.map_eq_some_iff.mp ran
  simp only [Prod.mk.injEq] at bytes
  obtain ⟨stopped, hooked, orig⟩ := bytes
  have along : Along (step fun _ => 1) Spares zeroMachine [.interrupt ⟨0, 0, 0⟩] :=
    ⟨trivial, fun _ _ => trivial⟩
  have same := (claim _ s (reached_of_runs zeroMachine_start along ran)).stopped
    (by rw [stopped]; decide) 0x24 id
  rw [hooked, orig] at same
  exact absurd same (by decide)

end

end Debuggee

end Pegasos.Kernel.Debug
