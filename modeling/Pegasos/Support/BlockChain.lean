import Pegasos.Support.Tiling

/-!
# Block lists stored as chains of headers

An allocator sees its heap only through the headers in memory.  `Headers` is
that view: the next link, payload size and in-use flag found at an address.
`Linked` states that following next links from an address visits exactly the
blocks of a list.  The two walks below are the loops with which allocators
search such a chain; their results are read off the block list.
-/

namespace Pegasos.Support

/-- The header fields found at each address. -/
structure Headers where
  next : Nat → Nat
  size : Nat → Nat
  used : Nat → Bool

/-- Following next links from the first address visits exactly `blocks` and
arrives at the last address. -/
def Linked (headers : Headers) : Nat → List Block → Nat → Prop
  | start, [], last => start = last
  | start, block :: rest, last =>
      block.addr = start ∧ headers.size start = block.size ∧
        headers.used start = block.used ∧ Linked headers (headers.next start) rest last

/-- Two header views agree at an address. -/
def Headers.AgreeAt (left right : Headers) (addr : Nat) : Prop :=
  left.next addr = right.next addr ∧ left.size addr = right.size addr ∧
    left.used addr = right.used addr

section Linked

variable {headers headers' : Headers} {start last : Nat}
variable {front rest blocks : List Block} {block : Block}

theorem linked_append :
    Linked headers start (front ++ rest) last ↔
      ∃ middle, Linked headers start front middle ∧ Linked headers middle rest last := by
  induction front generalizing start with
  | nil => simp [Linked]
  | cons first front ih =>
      simp only [List.cons_append, Linked, ih]
      constructor
      · rintro ⟨address, size, used, middle, before, after⟩
        exact ⟨middle, ⟨address, size, used, before⟩, after⟩
      · rintro ⟨middle, ⟨address, size, used, before⟩, after⟩
        exact ⟨address, size, used, middle, before, after⟩

/-- A chain around one block, seen from that block. -/
theorem linked_around :
    Linked headers start (front ++ block :: rest) last ↔
      Linked headers start front block.addr ∧ headers.size block.addr = block.size ∧
        headers.used block.addr = block.used ∧
        Linked headers (headers.next block.addr) rest last := by
  rw [linked_append]
  constructor
  · rintro ⟨middle, before, rfl, size, used, after⟩
    exact ⟨before, size, used, after⟩
  · rintro ⟨before, size, used, after⟩
    exact ⟨block.addr, before, rfl, size, used, after⟩

/-- A chain depends only on the headers of its blocks. -/
theorem Linked.congr (linked : Linked headers start blocks last)
    (agree : ∀ block ∈ blocks, headers'.AgreeAt headers block.addr) :
    Linked headers' start blocks last := by
  induction blocks generalizing start with
  | nil => exact linked
  | cons first rest ih =>
      obtain ⟨address, size, used, after⟩ := linked
      obtain ⟨sameNext, sameSize, sameUsed⟩ := agree first (by simp)
      rw [address] at sameNext sameSize sameUsed
      refine ⟨address, sameSize.trans size, sameUsed.trans used, ?_⟩
      rw [sameNext]
      exact ih after fun block member => agree block (List.mem_cons_of_mem _ member)

/-- A chain is determined by where it starts, its length and the headers. -/
theorem Linked.head_eq (linked : Linked headers start (block :: rest) last) :
    block = ⟨start, headers.size start, headers.used start⟩ := by
  obtain ⟨address, size, used, -⟩ := linked
  rw [← address] at size used ⊢
  rw [size, used]

end Linked

/-! ## Editing a chain -/

section Edit

variable {headers headers' : Headers} {start last : Nat}
variable {front rest : List Block} {block left right : Block}

/-- Rewrite one header without moving any link. -/
theorem Linked.update (size : Nat) (used : Bool) (linked : Linked headers start (front ++ block :: rest) last)
    (nextKept : headers'.next block.addr = headers.next block.addr)
    (newSize : headers'.size block.addr = size) (newUsed : headers'.used block.addr = used)
    (agree : ∀ other ∈ front ++ rest, headers'.AgreeAt headers other.addr) :
    Linked headers' start (front ++ ⟨block.addr, size, used⟩ :: rest) last := by
  obtain ⟨before, -, -, after⟩ := linked_around.mp linked
  refine linked_around.mpr ⟨?_, newSize, newUsed, ?_⟩
  · exact before.congr fun other member => agree other (List.mem_append_left _ member)
  · simp only [nextKept]
    exact after.congr fun other member => agree other (List.mem_append_right _ member)

/-- Carve a new header out of a block and link it in behind that block. -/
theorem Linked.split (size : Nat) (used : Bool) (linked : Linked headers start (front ++ block :: rest) last)
    (newNext : headers'.next block.addr = right.addr)
    (newSize : headers'.size block.addr = size) (newUsed : headers'.used block.addr = used)
    (rightNext : headers'.next right.addr = headers.next block.addr)
    (rightSize : headers'.size right.addr = right.size)
    (rightUsed : headers'.used right.addr = right.used)
    (agree : ∀ other ∈ front ++ rest, headers'.AgreeAt headers other.addr) :
    Linked headers' start (front ++ ⟨block.addr, size, used⟩ :: right :: rest) last := by
  obtain ⟨before, -, -, after⟩ := linked_around.mp linked
  refine linked_around.mpr ⟨?_, newSize, newUsed, ?_⟩
  · exact before.congr fun other member => agree other (List.mem_append_left _ member)
  · refine ⟨newNext.symm, ?_, ?_, ?_⟩
    · simpa only [newNext] using rightSize
    · simpa only [newNext] using rightUsed
    · simp only [newNext, rightNext]
      exact after.congr fun other member => agree other (List.mem_append_right _ member)

/-- Merge a block with its successor by skipping the successor's header. -/
theorem Linked.merge (size : Nat) (used : Bool) (linked : Linked headers start (front ++ left :: right :: rest) last)
    (newNext : headers'.next left.addr = headers.next right.addr)
    (newSize : headers'.size left.addr = size) (newUsed : headers'.used left.addr = used)
    (agree : ∀ other ∈ front ++ rest, headers'.AgreeAt headers other.addr) :
    Linked headers' start (front ++ ⟨left.addr, size, used⟩ :: rest) last := by
  obtain ⟨before, -, -, address, -, -, after⟩ := linked_around.mp linked
  rw [← address] at after
  refine linked_around.mpr ⟨?_, newSize, newUsed, ?_⟩
  · exact before.congr fun other member => agree other (List.mem_append_left _ member)
  · simp only [newNext]
    exact after.congr fun other member => agree other (List.mem_append_right _ member)

end Edit

/-! ## Walking a chain -/

/-- The loop `for (cur = first; cur != last; cur = next(cur))` with a `break`
at the first address that is `found`.  It keeps the previous address, and
returns the pair of both or `none` at the end of the chain; the outer `none`
means that the fuel did not suffice. -/
def walk (next : Nat → Nat) (last : Nat) (found : Nat → Bool) :
    Nat → Nat → Nat → Option (Option (Nat × Nat))
  | 0, _, _ => none
  | fuel + 1, previous, cur =>
      if cur = last then some none
      else if found cur then some (some (previous, cur))
      else walk next last found fuel cur (next cur)

/-- The address of the last block of a list, or `previous` when it is empty. -/
def lastAddr (previous : Nat) (front : List Block) : Nat :=
  (front.getLast?.map Block.addr).getD previous

@[simp] theorem lastAddr_nil {previous : Nat} : lastAddr previous [] = previous := rfl

@[simp] theorem lastAddr_concat {previous : Nat} {front : List Block} {block : Block} :
    lastAddr previous (front ++ [block]) = block.addr := by
  simp [lastAddr]

theorem lastAddr_cons {previous : Nat} {front : List Block} {block : Block} :
    lastAddr previous (block :: front) = lastAddr block.addr front := by
  cases front with
  | nil => rfl
  | cons second front =>
      simp only [lastAddr, List.getLast?_cons_cons]
      rw [List.getLast?_eq_some_getLast (List.cons_ne_nil second front)]
      rfl

/-- The last address is that of some block, or it is `previous`. -/
theorem lastAddr_cases (previous : Nat) (front : List Block) :
    lastAddr previous front = previous ∨ ∃ block ∈ front, lastAddr previous front = block.addr := by
  rcases List.eq_nil_or_concat front with rfl | ⟨before, last, rfl⟩
  · exact .inl rfl
  · refine .inr ⟨last, by simp, ?_⟩
    rw [List.concat_eq_append, lastAddr_concat]

section Walk

variable {headers : Headers} {start last : Nat}
variable {front rest blocks : List Block} {block : Block}

/-- A walk stops at the first block that is found. -/
theorem walk_found (found : Nat → Bool) (fuel previous : Nat)
    (linked : Linked headers start (front ++ block :: rest) last)
    (enough : (front ++ block :: rest).length < fuel)
    (proper : ∀ other ∈ front ++ block :: rest, other.addr ≠ last)
    (skipped : ∀ other ∈ front, found other.addr = false)
    (hit : found block.addr = true) :
    walk headers.next last found fuel previous start =
      some (some (lastAddr previous front, block.addr)) := by
  induction front generalizing fuel previous start with
  | nil =>
      obtain ⟨fuel, rfl⟩ := Nat.exists_eq_succ_of_ne_zero (Nat.ne_zero_of_lt enough)
      obtain ⟨rfl, -⟩ := linked
      have ne := proper block (by simp)
      simp [walk, ne, hit]
  | cons first front ih =>
      obtain ⟨fuel, rfl⟩ := Nat.exists_eq_succ_of_ne_zero (Nat.ne_zero_of_lt enough)
      obtain ⟨rfl, -, -, after⟩ := linked
      have ne := proper first (by simp)
      have skip := skipped first (by simp)
      simp only [walk, ne, if_false, skip, Bool.false_eq_true]
      rw [lastAddr_cons]
      refine ih _ _ after (by simpa using enough) ?_ ?_
      · exact fun other member => proper other (List.mem_cons_of_mem _ member)
      · exact fun other member => skipped other (List.mem_cons_of_mem _ member)

/-- A walk over a chain without a found block arrives at its end. -/
theorem walk_none (found : Nat → Bool) (fuel previous : Nat)
    (linked : Linked headers start blocks last)
    (enough : blocks.length < fuel) (proper : ∀ block ∈ blocks, block.addr ≠ last)
    (skipped : ∀ block ∈ blocks, found block.addr = false) :
    walk headers.next last found fuel previous start = some none := by
  induction blocks generalizing fuel previous start with
  | nil =>
      obtain ⟨fuel, rfl⟩ := Nat.exists_eq_succ_of_ne_zero (Nat.ne_zero_of_lt enough)
      have ends : start = last := linked
      simp [walk, ends]
  | cons first rest ih =>
      obtain ⟨fuel, rfl⟩ := Nat.exists_eq_succ_of_ne_zero (Nat.ne_zero_of_lt enough)
      obtain ⟨rfl, -, -, after⟩ := linked
      have ne := proper first (by simp)
      have skip := skipped first (by simp)
      simp only [walk, ne, if_false, skip, Bool.false_eq_true]
      refine ih _ _ after (by simpa using enough) ?_ ?_
      · exact fun other member => proper other (List.mem_cons_of_mem _ member)
      · exact fun other member => skipped other (List.mem_cons_of_mem _ member)

/-- What a walk stops at is found, and not the end of the chain. -/
theorem walk_stops {next : Nat → Nat} {found : Nat → Bool} {fuel previous cur : Nat}
    {pair : Nat × Nat} (stopped : walk next last found fuel previous cur = some (some pair)) :
    pair.2 ≠ last ∧ found pair.2 = true := by
  induction fuel generalizing previous cur with
  | zero => cases stopped
  | succ fuel ih =>
      rw [walk] at stopped
      split_ifs at stopped with isLast hit
      · cases stopped
      · obtain rfl := Option.some.inj (Option.some.inj stopped)
        exact ⟨isLast, hit⟩
      · exact ih stopped

/-- A walk along addresses that have other names. -/
theorem walk_map {next next' : Nat → Nat} {last last' : Nat} {found found' : Nat → Bool}
    (name : Nat → Nat) (lasts : ∀ cur, name cur = last' ↔ cur = last)
    (nexts : ∀ cur, cur ≠ last → next' (name cur) = name (next cur))
    (founds : ∀ cur, cur ≠ last → found' (name cur) = found cur) (fuel previous cur : Nat) :
    walk next' last' found' fuel (name previous) (name cur) =
      (walk next last found fuel previous cur).map (Option.map (Prod.map name name)) := by
  induction fuel generalizing previous cur with
  | zero => rfl
  | succ fuel ih =>
      rw [walk, walk]
      by_cases isLast : cur = last
      · rw [if_pos isLast, if_pos ((lasts cur).mpr isLast)]
        rfl
      · rw [if_neg isLast, if_neg (mt (lasts cur).mp isLast), founds cur isLast]
        by_cases hit : found cur = true
        · rw [if_pos hit, if_pos hit]
          rfl
        · rw [if_neg hit, if_neg hit, nexts cur isLast]
          exact ih _ _

/-- The loop `do { ... } while ((cur = next(cur)) != first)` around a circular
chain, with a `break` at the first address that is `found`. -/
def walkAround (next : Nat → Nat) (first : Nat) (found : Nat → Bool) :
    Nat → Nat → Option (Option Nat)
  | 0, _ => none
  | fuel + 1, cur =>
      if found cur then some (some cur)
      else if next cur = first then some none
      else walkAround next first found fuel (next cur)

theorem walkAround_found (found : Nat → Bool) (fuel : Nat)
    (linked : Linked headers start (front ++ block :: rest) last)
    (enough : (front ++ block :: rest).length < fuel)
    (proper : ∀ other ∈ (front ++ block :: rest).tail, other.addr ≠ last)
    (skipped : ∀ other ∈ front, found other.addr = false)
    (hit : found block.addr = true) :
    walkAround headers.next last found fuel start = some (some block.addr) := by
  induction front generalizing fuel start with
  | nil =>
      obtain ⟨fuel, rfl⟩ := Nat.exists_eq_succ_of_ne_zero (Nat.ne_zero_of_lt enough)
      obtain ⟨rfl, -⟩ := linked
      simp [walkAround, hit]
  | cons first front ih =>
      obtain ⟨fuel, rfl⟩ := Nat.exists_eq_succ_of_ne_zero (Nat.ne_zero_of_lt enough)
      obtain ⟨rfl, -, -, after⟩ := linked
      have skip := skipped first (by simp)
      have ne : headers.next first.addr ≠ last := by
        cases front with
        | nil => exact after.1 ▸ proper block (by simp)
        | cons second front => exact after.1 ▸ proper second (by simp)
      simp only [walkAround, skip, Bool.false_eq_true, if_false, ne]
      refine ih _ after (by simpa using enough) ?_ ?_
      · exact fun other member => proper other (List.mem_of_mem_tail member)
      · exact fun other member => skipped other (List.mem_cons_of_mem _ member)

theorem walkAround_none (found : Nat → Bool) (fuel : Nat)
    (linked : Linked headers start blocks last) (nonempty : blocks ≠ [])
    (enough : blocks.length < fuel) (proper : ∀ other ∈ blocks.tail, other.addr ≠ last)
    (skipped : ∀ other ∈ blocks, found other.addr = false) :
    walkAround headers.next last found fuel start = some none := by
  obtain ⟨block, rest, rfl⟩ := List.exists_cons_of_ne_nil nonempty
  clear nonempty
  induction rest generalizing fuel start block with
  | nil =>
      obtain ⟨fuel, rfl⟩ := Nat.exists_eq_succ_of_ne_zero (Nat.ne_zero_of_lt enough)
      obtain ⟨rfl, -, -, after⟩ := linked
      have skip := skipped block (by simp)
      have ends : headers.next block.addr = last := after
      simp [walkAround, skip, ends]
  | cons second rest ih =>
      obtain ⟨fuel, rfl⟩ := Nat.exists_eq_succ_of_ne_zero (Nat.ne_zero_of_lt enough)
      obtain ⟨rfl, -, -, after⟩ := linked
      have skip := skipped block (by simp)
      have ne : headers.next block.addr ≠ last := after.1 ▸ proper second (by simp)
      simp only [walkAround, skip, Bool.false_eq_true, if_false, ne]
      refine ih _ _ after (by simpa using enough) ?_ ?_
      · exact fun other member => proper other (List.mem_cons_of_mem _ member)
      · exact fun other member => skipped other (List.mem_cons_of_mem _ member)

/-- Splitting a list at its first element that satisfies a test. -/
theorem exists_first_or_none (blocks : List Block) (test : Block → Bool) :
    (∃ front block rest, blocks = front ++ block :: rest ∧ test block = true ∧
        ∀ other ∈ front, test other = false) ∨
      ∀ block ∈ blocks, test block = false := by
  induction blocks with
  | nil => exact .inr (by simp)
  | cons first rest ih =>
      cases outcome : test first with
      | true => exact .inl ⟨[], first, rest, rfl, outcome, by simp⟩
      | false =>
          rcases ih with ⟨front, block, rest, rfl, hit, skipped⟩ | none
          · exact .inl ⟨first :: front, block, rest, rfl, hit, by simpa [outcome] using skipped⟩
          · exact .inr (by simpa [outcome] using none)

end Walk

end Pegasos.Support
