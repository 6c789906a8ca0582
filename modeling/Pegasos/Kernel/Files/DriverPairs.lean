import Pegasos.Kernel.Files.FileIo
import Pegasos.Support.Counting
import Pegasos.Support.Transition

/-!
# Opening and closing drivers

Files are opened, duplicated and closed in any order.  The history counts the
references of every slot and the calls of the drivers' `open` and `close`, and keeps
the unit for which `kopen` has called the driver's `open` on a slot.
-/

namespace Pegasos.Kernel.Files

open Pegasos.Support
open Function (update)

/-- The open files with the history of the calls. -/
structure DriverSystem where
  files : OpenFiles
  refs : Nat → Nat
  opener : Nat → Option (Chardev × UInt8)
  opens : Chardev × UInt8 → Nat
  closes : Chardev × UInt8 → Nat

/-- A call, and what other parts of the kernel return to it. -/
inductive FileCall where
  | kopen (found : PathResult)
  | kdup (fd : Int)
  | kclose (fd : Int) (closeRc : Int)

/-- The unit whose driver was opened by the calls. -/
def opened : List DriverCall → Option (Chardev × UInt8)
  | .open dev unit :: _ => some (dev, unit)
  | _ => none

namespace DriverSystem

variable (sys : DriverSystem)

/-- The calls of `close` are counted. -/
def record (files : OpenFiles) (calls : List DriverCall) : DriverSystem :=
  { sys with
    files := files
    closes := fun unit => sys.closes unit + calls.count (.close unit.1 unit.2) }

/-- One call. -/
def step : FileCall → DriverSystem
  | .kopen found =>
      let (rc, files, calls) := sys.files.kopen found
      if rc < 0 then sys.record files calls
      else { sys.record files calls with
        refs := update sys.refs rc.toNat 1
        opener := update sys.opener rc.toNat (opened calls)
        opens := fun unit => sys.opens unit + calls.count (.open unit.1 unit.2) }
  | .kdup fd =>
      let (rc, files) := sys.files.kdup fd
      if rc < 0 then sys.record files []
      else { sys.record files [] with
        refs := update sys.refs fd.toNat (sys.refs fd.toNat + 1) }
  | .kclose fd closeRc =>
      let (_, files, calls) := sys.files.kclose fd closeRc
      if sys.files.Valid fd then { sys.record files calls with
        refs := update sys.refs fd.toNat (sys.refs fd.toNat - 1) }
      else sys.record files calls

/-- Before any file is opened. -/
def start (memory : Nat → Openfile) : DriverSystem where
  files := .initial memory
  refs := fun _ => 0
  opener := fun _ => none
  opens := fun _ => 0
  closes := fun _ => 0

/-- The condition under which the drivers are closed as they were opened: the count of
a slot stays an `int`, and when the last reference to a character device is closed,
the slot whose number is the minor number names the same unit. -/
def Guarded : FileCall → Prop
  | .kopen _ => True
  | .kdup fd => sys.files.Valid fd → (sys.files.oft fd.toNat).refcnt < 0x7FFF
  | .kclose fd _ => sys.files.Valid fd → (sys.files.oft fd.toNat).refcnt = 1 →
      (sys.files.oft fd.toNat).ops = some .cdevio →
        (sys.files.oft fd.toNat).min.toNat < MAX_OPEN_FILE ∧
          sys.files.devUnit (sys.files.oft fd.toNat).min.toNat = sys.files.devUnit fd.toNat

/-- The slots that are open for a unit. -/
def slotsOf (unit : Chardev × UInt8) : Nat :=
  (List.range MAX_OPEN_FILE).countP fun k => sys.refs k ≠ 0 ∧ sys.opener k = some unit

/-- What holds in every guarded run. -/
structure Inv (sys : DriverSystem) : Prop where
  refcnt : ∀ k, k < MAX_OPEN_FILE → (sys.files.oft k).refcnt = sys.refs k
  small : ∀ k, sys.refs k ≤ 0x7FFF
  opener : ∀ k, k < MAX_OPEN_FILE → sys.refs k ≠ 0 → sys.opener k = sys.files.openUnit k
  count : ∀ unit, sys.opens unit = sys.closes unit + sys.slotsOf unit

variable {sys} {sys' : DriverSystem}

theorem start_inv (memory : Nat → Openfile) : (start memory).Inv := by
  constructor
  · intro k inTable
    simp [start, OpenFiles.initial, inTable, unused]
  · simp [start]
  · simp [start]
  · simp [start, slotsOf]

/-- The slots of a unit after a change of one slot. -/
theorem slotsOf_change (sys sys' : DriverSystem) {slot : Nat} (inTable : slot < MAX_OPEN_FILE)
    (same : ∀ k, k ≠ slot → sys'.refs k = sys.refs k ∧ sys'.opener k = sys.opener k)
    (unit : Chardev × UInt8) :
    sys'.slotsOf unit + (decide (sys.refs slot ≠ 0 ∧ sys.opener slot = some unit)).toNat =
      sys.slotsOf unit + (decide (sys'.refs slot ≠ 0 ∧ sys'.opener slot = some unit)).toNat := by
  apply countP_change _ _ List.nodup_range (List.mem_range.mpr inTable)
  intro k _ ne
  rw [(same k ne).1, (same k ne).2]

theorem count_map_open (unit : Chardev × UInt8) (found : Option (Chardev × UInt8)) :
    (found.toList.map fun unit => DriverCall.open unit.1 unit.2).count (.open unit.1 unit.2) =
      (decide (found = some unit)).toNat := by
  rcases found with _ | ⟨dev, minor⟩
  · rfl
  · obtain ⟨dev', minor'⟩ := unit
    by_cases same : dev = dev' ∧ minor = minor'
    · obtain ⟨rfl, rfl⟩ := same
      simp
    · have ne : ¬DriverCall.open dev minor = .open dev' minor' := by simpa using same
      simp [ne, same]

theorem count_map_close (unit : Chardev × UInt8) (found : Option (Chardev × UInt8)) :
    (found.toList.map fun unit => DriverCall.close unit.1 unit.2).count (.close unit.1 unit.2) =
      (decide (found = some unit)).toNat := by
  rcases found with _ | ⟨dev, minor⟩
  · rfl
  · obtain ⟨dev', minor'⟩ := unit
    by_cases same : dev = dev' ∧ minor = minor'
    · obtain ⟨rfl, rfl⟩ := same
      simp
    · have ne : ¬DriverCall.close dev minor = .close dev' minor' := by simpa using same
      simp [ne, same]

theorem opened_map (found : Option (Chardev × UInt8)) :
    opened (found.toList.map fun unit => .open unit.1 unit.2) = found := by
  cases found <;> rfl

/-- A slot that holds the same file is open for the same unit. -/
theorem openUnit_congr {files files' : OpenFiles} {k : Nat} (same : files'.oft k = files.oft k) :
    files'.openUnit k = files.openUnit k := by
  rw [OpenFiles.openUnit, OpenFiles.devUnit, same]
  rfl

theorem Inv.used_iff (inv : sys.Inv) {k : Nat} (inTable : k < MAX_OPEN_FILE) :
    (sys.files.oft k).refcnt ≠ 0 ↔ sys.refs k ≠ 0 := by
  rw [inv.refcnt k inTable]
  simp

/-- A `kopen` that fails is not part of the history. -/
theorem Inv.failed_step (inv : sys.Inv) {result : Int × OpenFiles × List DriverCall}
    (failed : sys.files.Failed result) : (sys.record result.2.1 result.2.2).Inv := by
  have closes : ∀ unit, (sys.record result.2.1 result.2.2).closes unit = sys.closes unit := by
    intro unit
    simp only [record, List.count_eq_zero.mpr (failed.calls unit.1 unit.2), Nat.add_zero]
  constructor
  · intro k inTable
    exact (failed.refcnt k).trans (inv.refcnt k inTable)
  · exact inv.small
  · intro k inTable used
    have same := failed.used k ((inv.used_iff inTable).mpr used)
    exact (inv.opener k inTable used).trans (openUnit_congr same).symm
  · intro unit
    rw [closes]
    exact inv.count unit

/-- A `kopen` that succeeds makes a slot the only one of its opening. -/
theorem Inv.opened_step (inv : sys.Inv) {result : Int × OpenFiles × List DriverCall} {slot : Nat}
    (isOpen : sys.files.Opened result slot) :
    { sys.record result.2.1 result.2.2 with
      refs := update sys.refs slot 1
      opener := update sys.opener slot (opened result.2.2)
      opens := fun unit =>
        sys.opens unit + result.2.2.count (DriverCall.open unit.1 unit.2) }.Inv := by
  have free : sys.refs slot = 0 := by
    have unused := isOpen.unused
    rw [inv.refcnt slot isOpen.inTable] at unused
    exact_mod_cast unused
  have unit := opened_map (result.2.1.openUnit slot)
  rw [← isOpen.calls] at unit
  constructor
  · intro k inTable
    by_cases same : k = slot
    · subst same
      dsimp only [record]
      rw [isOpen.refcnt, Function.update_self]
      rfl
    · dsimp only [record]
      rw [isOpen.others k same, Function.update_of_ne same]
      exact inv.refcnt k inTable
  · intro k
    by_cases same : k = slot
    · subst same
      simp
    · dsimp only
      rw [Function.update_of_ne same]
      exact inv.small k
  · intro k inTable used
    by_cases same : k = slot
    · subst same
      dsimp only [record]
      rw [Function.update_self, unit]
    · dsimp only at used ⊢
      rw [Function.update_of_ne same] at used ⊢
      exact (inv.opener k inTable used).trans (openUnit_congr (isOpen.others k same)).symm
  · intro other
    have slots := slotsOf_change sys { sys.record result.2.1 result.2.2 with
      refs := update sys.refs slot 1
      opener := update sys.opener slot (opened result.2.2)
      opens := fun unit => sys.opens unit + result.2.2.count (DriverCall.open unit.1 unit.2) }
      isOpen.inTable (fun k ne => ⟨Function.update_of_ne ne _ _, Function.update_of_ne ne _ _⟩) other
    have opens := count_map_open other (result.2.1.openUnit slot)
    have closes : result.2.2.count (.close other.1 other.2) = 0 := by
      rw [isOpen.calls, List.count_eq_zero]
      simp
    have count := inv.count other
    rw [← isOpen.calls, ← unit] at opens
    simp only [free, ne_eq, not_true_eq_false, false_and, decide_false, Bool.toNat_false,
      Function.update_self, one_ne_zero, not_false_eq_true, true_and] at slots
    dsimp only [record] at slots ⊢
    omega

theorem Inv.kopen_step (inv : sys.Inv) (found : PathResult) : (sys.step (.kopen found)).Inv := by
  rcases sys.files.kopen_spec found with failed | ⟨slot, isOpen⟩
  · have taken : sys.step (.kopen found) =
        sys.record (sys.files.kopen found).2.1 (sys.files.kopen found).2.2 := if_pos failed.rc
    rw [taken]
    exact inv.failed_step failed
  · have positive : ¬(sys.files.kopen found).1 < 0 := by
      rw [isOpen.rc]
      omega
    have isSlot : (sys.files.kopen found).1.toNat = slot := by
      rw [isOpen.rc]
      rfl
    have taken : sys.step (.kopen found) =
        { sys.record (sys.files.kopen found).2.1 (sys.files.kopen found).2.2 with
          refs := update sys.refs slot 1
          opener := update sys.opener slot (opened (sys.files.kopen found).2.2)
          opens := fun unit => sys.opens unit +
            (sys.files.kopen found).2.2.count (DriverCall.open unit.1 unit.2) } := by
      rw [← isSlot]
      exact if_neg positive
    rw [taken]
    exact inv.opened_step isOpen

/-- The references of a slot that is in use change. -/
theorem Inv.refs_step (inv : sys.Inv) {slot refs : Nat} {more : Int}
    {closes : Chardev × UInt8 → Nat} (inTable : slot < MAX_OPEN_FILE) (used : sys.refs slot ≠ 0)
    (refcnt : int16 ((sys.files.oft slot).refcnt + more) = refs) (small : refs ≤ 0x7FFF)
    (closed : ∀ unit, closes unit =
      sys.closes unit + (decide (refs = 0 ∧ sys.opener slot = some unit)).toNat) :
    { sys with
      files := sys.files.addRefs slot more
      refs := update sys.refs slot refs
      closes := closes }.Inv := by
  constructor
  · intro k inTable
    dsimp only
    rw [OpenFiles.addRefs_refcnt]
    by_cases same : k = slot
    · subst same
      rw [if_pos rfl, Function.update_self, refcnt]
    · rw [if_neg same, Function.update_of_ne same]
      exact inv.refcnt k inTable
  · intro k
    by_cases same : k = slot
    · subst same
      simpa using small
    · dsimp only
      rw [Function.update_of_ne same]
      exact inv.small k
  · intro k inTable usedAfter
    dsimp only
    rw [(OpenFiles.addRefs_unit slot more).2]
    apply inv.opener k inTable
    by_cases same : k = slot
    · subst same
      exact used
    · dsimp only at usedAfter
      rwa [Function.update_of_ne same] at usedAfter
  · intro unit
    have slots := slotsOf_change sys { sys with
      files := sys.files.addRefs slot more
      refs := update sys.refs slot refs
      closes := closes } inTable (fun k ne => ⟨Function.update_of_ne ne _ _, rfl⟩) unit
    have count := inv.count unit
    have closed := closed unit
    simp only [used, ne_eq, not_false_eq_true, true_and, Function.update_self] at slots
    dsimp only
    by_cases last : refs = 0
    · subst last
      simp only [not_true_eq_false, false_and, decide_false, Bool.toNat_false,
        true_and] at slots closed
      omega
    · simp only [last, not_false_eq_true, true_and, false_and, decide_false,
        Bool.toNat_false] at slots closed
      omega

theorem Inv.kdup_step (inv : sys.Inv) {fd : Int} (guarded : sys.Guarded (.kdup fd)) :
    (sys.step (.kdup fd)).Inv := by
  by_cases valid : sys.files.Valid fd
  · obtain ⟨low, inTable, used⟩ := valid.bounds
    have below : (sys.files.oft fd.toNat).refcnt < 0x7FFF := guarded valid
    have refcnt := inv.refcnt _ inTable
    have taken : sys.step (.kdup fd) = { sys with
        files := sys.files.addRefs fd.toNat 1
        refs := update sys.refs fd.toNat (sys.refs fd.toNat + 1) } := by
      simp only [step, OpenFiles.kdup, if_pos valid, if_neg (not_lt.mpr low)]
      rfl
    rw [taken]
    refine inv.refs_step inTable ((inv.used_iff inTable).mp used) ?_ (by omega) (by simp)
    rw [int16_eq (by omega) (by omega), refcnt]
    rfl
  · have taken : sys.step (.kdup fd) = sys := by
      simp only [step, OpenFiles.kdup, if_neg valid]
      exact (if_pos (show -EINVAL < 0 by decide)).trans rfl
    rwa [taken]

/-- The calls that a guarded `kclose` makes. -/
theorem Inv.kclose_calls (inv : sys.Inv) {fd : Int} (closeRc : Int)
    (guarded : sys.Guarded (.kclose fd closeRc)) : (sys.files.kclose fd closeRc).2.2 =
      if 0 ≤ fd ∧ fd < MAX_OPEN_FILE ∧ sys.refs fd.toNat = 1 then
        (sys.opener fd.toNat).toList.map fun unit => .close unit.1 unit.2
      else [] := by
  by_cases valid : sys.files.Valid fd
  · obtain ⟨low, inTable, used⟩ := valid.bounds
    have used := (inv.used_iff inTable).mp used
    have small := inv.small fd.toNat
    have refcnt := inv.refcnt _ inTable
    rw [(OpenFiles.kclose_spec closeRc valid).2, inv.opener _ inTable used, OpenFiles.openUnit]
    by_cases last : sys.refs fd.toNat = 1
    · rw [if_pos (show 0 ≤ fd ∧ fd < MAX_OPEN_FILE ∧ _ from ⟨low, by omega, last⟩)]
      have one : (sys.files.oft fd.toNat).refcnt = 1 := by rw [refcnt, last]; rfl
      have zero : int16 ((sys.files.oft fd.toNat).refcnt - 1) = 0 := by rw [one]; rfl
      by_cases device : (sys.files.oft fd.toNat).ops = some .cdevio
      · rw [if_pos ⟨zero, device⟩, if_pos device, (guarded valid one device).2]
      · rw [if_neg (fun both => device both.2), if_neg device]
        rfl
    · rw [if_neg (show ¬(0 ≤ fd ∧ fd < MAX_OPEN_FILE ∧ _) from fun all => last all.2.2), if_neg]
      rintro ⟨zero, -⟩
      rw [int16_eq (by omega) (by omega)] at zero
      omega
  · rw [OpenFiles.kclose_invalid closeRc valid, if_neg]
    rintro ⟨low, high, one⟩
    have inTable : fd.toNat < MAX_OPEN_FILE := by omega
    have refcnt := inv.refcnt _ inTable
    apply valid
    simp only [OpenFiles.Valid]
    omega

theorem Inv.kclose_step (inv : sys.Inv) {fd closeRc : Int}
    (guarded : sys.Guarded (.kclose fd closeRc)) : (sys.step (.kclose fd closeRc)).Inv := by
  have calls := inv.kclose_calls closeRc guarded
  by_cases valid : sys.files.Valid fd
  · obtain ⟨low, inTable, used⟩ := valid.bounds
    have isUsed := (inv.used_iff inTable).mp used
    have small := inv.small fd.toNat
    have refcnt := inv.refcnt _ inTable
    have taken : sys.step (.kclose fd closeRc) = { sys with
        files := sys.files.addRefs fd.toNat (-1)
        refs := update sys.refs fd.toNat (sys.refs fd.toNat - 1)
        closes := fun unit => sys.closes unit +
          (sys.files.kclose fd closeRc).2.2.count (.close unit.1 unit.2) } := by
      rw [← (OpenFiles.kclose_spec closeRc valid).1]
      exact if_pos valid
    rw [taken]
    refine inv.refs_step inTable isUsed ?_ (by omega) fun unit => ?_
    · rw [int16_eq (by omega) (by omega)]
      omega
    · rw [calls]
      by_cases last : sys.refs fd.toNat = 1
      · rw [if_pos ⟨low, by omega, last⟩, count_map_close]
        simp [last]
      · rw [if_neg (fun all => last all.2.2)]
        have more : ¬sys.refs fd.toNat - 1 = 0 := by omega
        simp [more]
  · have taken : sys.step (.kclose fd closeRc) = sys := by
      simp only [step, OpenFiles.kclose_invalid closeRc valid, if_neg valid]
      rfl
    rwa [taken]

/-! ## Every run -/

theorem Inv.step (inv : sys.Inv) {call : FileCall} (guarded : sys.Guarded call) :
    (sys.step call).Inv := by
  cases call with
  | kopen found => exact inv.kopen_step found
  | kdup fd => exact inv.kdup_step guarded
  | kclose fd closeRc => exact inv.kclose_step guarded

theorem reached_inv {memory : Nat → Openfile}
    (reached : Reached (· = start memory) (fun s a s' => s.step a = s') Guarded sys) :
    sys.Inv := by
  refine reached.invariant Inv ?_ ?_
  · rintro _ rfl
    exact start_inv memory
  · rintro sys sys' call inv guarded rfl
    exact inv.step guarded

/-- In every guarded run the count of a slot is the number of its references, the
`kclose` of the last one calls the driver's `close` once and for the unit that `kopen`
opened, every other `kclose` calls no driver, and a unit is open in its driver while
some slot for it is in use. -/
theorem kclose_pairs_driver {memory : Nat → Openfile}
    (reached : Reached (· = start memory) (fun s a s' => s.step a = s') Guarded sys) :
    (∀ k, k < MAX_OPEN_FILE → (sys.files.oft k).refcnt = sys.refs k) ∧
      (∀ fd closeRc, sys.Guarded (.kclose fd closeRc) → (sys.files.kclose fd closeRc).2.2 =
        if 0 ≤ fd ∧ fd < MAX_OPEN_FILE ∧ sys.refs fd.toNat = 1 then
          (sys.opener fd.toNat).toList.map fun unit => .close unit.1 unit.2
        else []) ∧
      ∀ unit, (sys.closes unit < sys.opens unit ↔
        ∃ k, k < MAX_OPEN_FILE ∧ 0 < (sys.files.oft k).refcnt ∧ sys.opener k = some unit) := by
  have inv := reached_inv reached
  refine ⟨inv.refcnt, fun fd closeRc guarded => inv.kclose_calls closeRc guarded, fun unit => ?_⟩
  rw [inv.count unit, Nat.lt_add_right_iff_pos, slotsOf, List.countP_pos_iff]
  constructor
  · rintro ⟨k, member, holds⟩
    have inTable := List.mem_range.mp member
    obtain ⟨used, isUnit⟩ := of_decide_eq_true holds
    refine ⟨k, inTable, ?_, isUnit⟩
    rw [inv.refcnt k inTable]
    omega
  · rintro ⟨k, inTable, positive, isUnit⟩
    rw [inv.refcnt k inTable] at positive
    exact ⟨k, List.mem_range.mpr inTable, decide_eq_true ⟨by omega, isUnit⟩⟩

/-- A path to a character device that is found and whose driver opens it. -/
def device (rdev : UInt16) : PathResult where
  ino := 0
  statErr := 0
  stat := { stSize := 0, stBlksize := 0, stMode := S_IFCHR, stRdev := rdev }
  openRc := 0
  statErr_le := noError_le

/-- The case of a terminal that is open in the slot of its own minor number. -/
theorem kclose_pairs_driver_first :
    (((start fun _ => unused).step (.kopen (device 0x0100))).files.kclose 0 0).2.2 =
      [.close .ttydev 0] := by
  have opens : (start fun _ => unused).Guarded (.kopen (device 0x0100)) := trivial
  have correct := kclose_pairs_driver (.step (.start rfl) opens rfl)
  exact (correct.2.1 0 0 fun _ _ _ => by decide).trans (by decide)

/-- The console is opened, and then a terminal, whose minor number is the slot of the
console.  The last `kclose` of the terminal closes the console. -/
theorem kclose_closes_console :
    ∃ sys, Reachable (· = start fun _ => unused) (fun s a s' => s.step a = s') sys ∧
      sys.refs 1 = 1 ∧ sys.opener 1 = some (.ttydev, 0) ∧
      (sys.files.kclose 1 0).2.2 = [.close .condev 0] := by
  refine ⟨((start fun _ => unused).step (.kopen (device 0x0000))).step (.kopen (device 0x0100)),
    .step (.step (.start rfl) trivial rfl) trivial rfl, ?_⟩
  decide

end DriverSystem

end Pegasos.Kernel.Files
