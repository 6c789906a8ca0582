import Mathlib.Data.List.Nodup
import Mathlib.Logic.Function.Basic

/-!
# Links

A list is linked by a function if the function leads from each of its elements to the next
one, and from the last one to a mark for the end.
-/

namespace Pegasos.Support

open Function (update)

variable {α : Type} (next : α → α) (isEnd : α → Prop)

/-- What comes behind an element, up to the end. -/
def Links : α → List α → Prop
  | c, [] => isEnd (next c)
  | c, d :: rest => next c = d ∧ Links d rest

variable {next isEnd} {other : α → α} {c d : α} {rest more : List α}

namespace Links

/-- The links depend on the elements only. -/
theorem congr (links : Links next isEnd c rest) (same : ∀ d ∈ c :: rest, other d = next d) :
    Links other isEnd c rest := by
  induction rest generalizing c with
  | nil =>
      change isEnd (other c)
      rw [same c List.mem_cons_self]
      exact links
  | cons d rest ih =>
      refine ⟨(same c List.mem_cons_self).trans links.1, ih links.2 fun e member => ?_⟩
      exact same e (List.mem_cons_of_mem c member)

/-- The last element leads to the mark. -/
theorem last (links : Links next isEnd c rest) : isEnd (next (rest.getLastD c)) := by
  induction rest generalizing c with
  | nil => exact links
  | cons d rest ih =>
      rw [List.getLastD_cons]
      exact ih links.2

/-- Each element leads to another one or to the mark. -/
theorem next_mem (links : Links next isEnd c rest) (member : d ∈ c :: rest) :
    next d ∈ rest ∨ isEnd (next d) := by
  induction rest generalizing c with
  | nil =>
      obtain rfl : d = c := by simpa using member
      exact .inr links
  | cons e rest ih =>
      rcases List.mem_cons.mp member with rfl | later
      · exact .inl (links.1 ▸ List.mem_cons_self)
      · exact (ih links.2 later).imp_left (List.mem_cons_of_mem e)

/-- The part from an element on. -/
theorem suffix {front : List α} (links : Links next isEnd c (front ++ d :: rest)) :
    Links next isEnd d rest := by
  induction front generalizing c with
  | nil => exact links.2
  | cons e front ih => exact ih links.2

/-- What comes behind an element is one list only. -/
theorem unique (links : Links next isEnd c rest) (links' : Links next isEnd c more)
    (inside : ∀ d ∈ rest, ¬isEnd d) (inside' : ∀ d ∈ more, ¬isEnd d) : rest = more := by
  induction rest generalizing c more with
  | nil =>
      cases more with
      | nil => rfl
      | cons d more => exact absurd (links'.1 ▸ links) (inside' d List.mem_cons_self)
  | cons d rest ih =>
      cases more with
      | nil => exact absurd (links.1 ▸ links') (inside d List.mem_cons_self)
      | cons e more =>
          obtain rfl : d = e := links.1.symm.trans links'.1
          rw [ih links.2 links'.2 (fun b member => inside b (List.mem_cons_of_mem d member))
            fun b member => inside' b (List.mem_cons_of_mem d member)]

/-- No element comes twice, if none of them is a mark. -/
theorem nodup (links : Links next isEnd c rest) (inside : ∀ d ∈ c :: rest, ¬isEnd d) :
    (c :: rest).Nodup := by
  induction rest generalizing c with
  | nil => exact List.nodup_singleton c
  | cons d rest ih =>
      refine List.nodup_cons.mpr
        ⟨fun again => ?_, ih links.2 fun e member => inside e (List.mem_cons_of_mem c member)⟩
      obtain ⟨front, back, split⟩ := List.append_of_mem again
      have links' : Links next isEnd c (front ++ c :: back) := split ▸ links
      have behind : ∀ e ∈ d :: rest, ¬isEnd e := fun e member =>
        inside e (List.mem_cons_of_mem c member)
      have same := links.unique links'.suffix behind fun e member =>
        behind e (split ▸ List.mem_append_right front (List.mem_cons_of_mem c member))
      have lengths := congrArg List.length (split.symm.trans same)
      simp only [List.length_append, List.length_cons] at lengths
      omega

variable [DecidableEq α]

/-- The last element is changed only. -/
theorem update_last (links : Links next isEnd c rest) (nodup : (c :: rest).Nodup) {value : α} :
    (isEnd value → Links (update next (rest.getLastD c) value) isEnd c rest) ∧
      (isEnd (next value) → value ∉ c :: rest →
        Links (update next (rest.getLastD c) value) isEnd c (rest ++ [value])) := by
  induction rest generalizing c with
  | nil =>
      refine ⟨fun isMark => ?_, fun behind fresh => ⟨Function.update_self .., ?_⟩⟩
      · change isEnd (update next c value c)
        rwa [Function.update_self]
      · change isEnd (update next c value value)
        rwa [Function.update_of_ne (by simpa using fresh)]
  | cons d rest ih =>
      have notLast : c ≠ rest.getLastD d := fun same =>
        (List.nodup_cons.mp nodup).1 (same ▸ List.getLastD_mem_cons)
      have first : update next (rest.getLastD d) value c = d := by
        rw [Function.update_of_ne notLast]
        exact links.1
      rw [List.getLastD_cons]
      obtain ⟨mark, longer⟩ := ih links.2 nodup.of_cons
      exact ⟨fun isMark => ⟨first, mark isMark⟩, fun behind fresh =>
        ⟨first, longer behind fun member => fresh (List.mem_cons_of_mem c member)⟩⟩

/-- Another mark behind the last element. -/
theorem setEnd {mark : α} (links : Links next isEnd c rest) (nodup : (c :: rest).Nodup)
    (isMark : isEnd mark) : Links (update next (rest.getLastD c) mark) isEnd c rest :=
  (links.update_last nodup).1 isMark

/-- Another element behind the last one. -/
theorem append {a mark : α} (links : Links next isEnd c rest) (nodup : (c :: rest).Nodup)
    (fresh : a ∉ c :: rest) (isMark : isEnd mark) :
    Links (update (update next a mark) (rest.getLastD c) a) isEnd c (rest ++ [a]) := by
  have marked : Links (update next a mark) isEnd c rest := by
    refine links.congr fun d member => Function.update_of_ne ?_ _ _
    rintro rfl
    exact fresh member
  refine (marked.update_last nodup).2 ?_ fresh
  rwa [Function.update_self]

end Links

end Pegasos.Support
