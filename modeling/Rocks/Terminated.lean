import Mathlib.Data.List.Infix
import Mathlib.Tactic.Common

/-! A list cut into lines, each of which ends in the same two elements. -/
namespace Terminated

variable {α : Type}

/-- The lines with their terminators, one behind the other. -/
def unlines (x y : α) (lines : List (List α)) : List α := lines.flatMap (· ++ [x, y])

/-- No terminator anywhere. -/
def Free (x y : α) (l : List α) : Prop := ¬[x, y] <:+: l

instance [DecidableEq α] (x y : α) (l : List α) : Decidable (Free x y l) :=
  inferInstanceAs (Decidable (¬_))

section free

variable {x y : α}

@[simp] theorem free_nil : Free x y [] := by simp [Free]

@[simp] theorem free_singleton (a : α) : Free x y [a] := fun h => by
  have := h.length_le
  simp at this

theorem free_cons_cons {a b : α} {l : List α} :
    Free x y (a :: b :: l) ↔ ¬(a = x ∧ b = y) ∧ Free x y (b :: l) := by
  rw [Free, List.infix_cons_iff, not_or]
  refine and_congr (not_congr ?_) Iff.rfl
  constructor
  · rintro ⟨t, ht⟩
    simp only [List.cons_append, List.cons.injEq] at ht
    exact ⟨ht.1.symm, ht.2.1.symm⟩
  · rintro ⟨rfl, rfl⟩
    exact ⟨l, rfl⟩

theorem free_cons {a : α} {l : List α} :
    Free x y (a :: l) ↔ ¬(a = x ∧ l.head? = some y) ∧ Free x y l := by
  cases l with
  | nil => simp
  | cons b l => simp [free_cons_cons]

theorem Free.mono {l l' : List α} (h : Free x y l') (hi : l <:+: l') : Free x y l :=
  fun ht => h (ht.trans hi)

/-- A terminator of two joined lists lies in one of them or across the joint. -/
theorem free_append {l l' : List α} : Free x y (l ++ l') ↔
    Free x y l ∧ Free x y l' ∧ ¬(l.getLast? = some x ∧ l'.head? = some y) := by
  induction l with
  | nil => simp
  | cons a l ih =>
    cases l with
    | nil =>
      rw [List.singleton_append, free_cons]
      simp [and_comm, eq_comm]
    | cons b l =>
      have hl : (a :: b :: l).getLast? = (b :: l).getLast? := rfl
      rw [List.cons_append, List.cons_append, free_cons_cons, ← List.cons_append, ih, free_cons_cons, hl]
      tauto

end free

section unlines

variable {x y : α}

@[simp] theorem unlines_nil : unlines x y [] = [] := rfl

theorem unlines_cons (l : List α) (ls : List (List α)) :
    unlines x y (l :: ls) = l ++ x :: y :: unlines x y ls := by
  simp [unlines]

@[simp] theorem unlines_append (ls ls' : List (List α)) :
    unlines x y (ls ++ ls') = unlines x y ls ++ unlines x y ls' := by
  simp [unlines]

theorem ends_of_unlines {ls : List (List α)} (h : ls ≠ []) : [x, y] <:+ unlines x y ls := by
  obtain ⟨ls, l, rfl⟩ := List.eq_nil_or_concat ls |>.resolve_left h
  exact ⟨unlines x y ls ++ l, by simp [unlines]⟩

end unlines

def push (a : α) : List (List α) × List α → List (List α) × List α
  | ([], tail) => ([], a :: tail)
  | (l :: ls, tail) => ((a :: l) :: ls, tail)

theorem push_cons (a : α) (l : List α) (ls : List (List α)) (tail : List α) :
    push a (l :: ls, tail) = ((a :: l) :: ls, tail) := rfl

variable [DecidableEq α] (x y : α)

/-- The lines from left to right, and the tail that has no terminator. -/
def scan : List α → List (List α) × List α
  | [] => ([], [])
  | [a] => ([], [a])
  | a :: b :: rest =>
    if a = x ∧ b = y then ([] :: (scan rest).1, (scan rest).2) else push a (scan (b :: rest))

variable {x y}

theorem scan_cons {a : α} {l : List α} (h : ¬(a = x ∧ l.head? = some y)) :
    scan x y (a :: l) = push a (scan x y l) := by
  cases l with
  | nil => rfl
  | cons b l =>
    rw [scan, if_neg]
    rintro ⟨ha, hb⟩
    exact h ⟨ha, by rw [hb]; rfl⟩

theorem scan_of_free {l : List α} (h : Free x y l) : scan x y l = ([], l) := by
  induction l with
  | nil => rfl
  | cons a l ih =>
    obtain ⟨hn, hf⟩ := free_cons.mp h
    rw [scan_cons hn, ih hf]
    rfl

/-- The first terminator ends the first line. -/
theorem scan_line (hxy : x ≠ y) {l : List α} (h : Free x y l) (rest : List α) :
    scan x y (l ++ x :: y :: rest) = (l :: (scan x y rest).1, (scan x y rest).2) := by
  induction l with
  | nil => simp [scan]
  | cons a l ih =>
    obtain ⟨hn, hf⟩ := free_cons.mp h
    have hn' : ¬(a = x ∧ (l ++ x :: y :: rest).head? = some y) := by
      cases l with
      | nil => simp [hxy]
      | cons b l => simpa using hn
    rw [List.cons_append, scan_cons hn', ih hf, push_cons]

theorem scan_unlines (hxy : x ≠ y) {ls : List (List α)} (h : ∀ l ∈ ls, Free x y l) (rest : List α) :
    scan x y (unlines x y ls ++ rest) = (ls ++ (scan x y rest).1, (scan x y rest).2) := by
  induction ls with
  | nil => rfl
  | cons l ls ih =>
    obtain ⟨hl, hls⟩ := List.forall_mem_cons.mp h
    rw [unlines_cons, List.append_assoc, List.cons_append, List.cons_append, scan_line hxy hl, ih hls]
    rfl

/-- A list is its lines and its tail, and none of these holds a terminator. -/
theorem scan_spec (s : List α) : unlines x y (scan x y s).1 ++ (scan x y s).2 = s ∧
    (∀ l ∈ (scan x y s).1, Free x y l) ∧ Free x y (scan x y s).2 := by
  -- the cases are those of `scan`: too short, a terminator, and one element more
  fun_induction scan x y s with
  | case1 => simp
  | case2 a => simp
  | case3 a b rest hab ih =>
    obtain ⟨rfl, rfl⟩ := hab
    obtain ⟨hs, hl, ht⟩ := ih
    refine ⟨?_, ?_, ht⟩
    · rw [unlines_cons, List.nil_append, List.cons_append, List.cons_append, hs]
    · exact List.forall_mem_cons.mpr ⟨free_nil, hl⟩
  | case4 a b rest hab ih =>
    obtain ⟨hs, hl, ht⟩ := ih
    rcases hscan : scan x y (b :: rest) with ⟨ls, tail⟩
    rw [hscan] at hs hl ht
    have hn : ¬(a = x ∧ (b :: rest).head? = some y) := by simpa using hab
    cases ls with
    | nil =>
      obtain rfl : tail = b :: rest := hs
      exact ⟨rfl, by simp [push], free_cons.mpr ⟨hn, ht⟩⟩
    | cons l ls =>
      obtain ⟨hl, hls⟩ := List.forall_mem_cons.mp hl
      rw [unlines_cons, List.append_assoc] at hs
      refine ⟨?_, List.forall_mem_cons.mpr ⟨free_cons.mpr ⟨?_, hl⟩, hls⟩, ht⟩
      · rw [push_cons, unlines_cons, ← hs]
        simp
      -- a terminator at the head of the longer line would be one in the list
      · rintro ⟨ha, hy⟩
        refine hn ⟨ha, ?_⟩
        rw [← hs, List.head?_append, hy]
        rfl

/-- The cut is determined by its lines being free. -/
theorem scan_eq (hxy : x ≠ y) {ls : List (List α)} {tail : List α} (h : ∀ l ∈ ls, Free x y l)
    (ht : Free x y tail) : scan x y (unlines x y ls ++ tail) = (ls, tail) := by
  rw [scan_unlines hxy h, scan_of_free ht, List.append_nil]

theorem free_or_line (s : List α) :
    Free x y s ∨ ∃ l rest, s = l ++ x :: y :: rest ∧ Free x y l := by
  obtain ⟨hs, hl, ht⟩ := scan_spec (x := x) (y := y) s
  rcases hlines : (scan x y s).1 with _ | ⟨l, ls⟩
  · left
    rw [hlines, unlines_nil, List.nil_append] at hs
    rwa [hs] at ht
  · right
    rw [hlines] at hs hl
    refine ⟨l, unlines x y ls ++ (scan x y s).2, ?_, (List.forall_mem_cons.mp hl).1⟩
    rw [unlines_cons, List.append_assoc] at hs
    exact hs.symm

theorem unlines_lines {s : List α} (h : (scan x y s).2 = []) : unlines x y (scan x y s).1 = s := by
  have hs := (scan_spec (x := x) (y := y) s).1
  rwa [h, List.append_nil] at hs

/-- Behind a terminator the cut begins anew. -/
theorem scan_append (hxy : x ≠ y) {s : List α} (h : (scan x y s).2 = []) (s' : List α) :
    scan x y (s ++ s') = ((scan x y s).1 ++ (scan x y s').1, (scan x y s').2) := by
  have hs := scan_unlines hxy (scan_spec s).2.1 s'
  rwa [unlines_lines h] at hs

/-- No tail is left exactly behind a terminator, or where nothing has been read. -/
theorem tail_eq_nil_iff (hxy : x ≠ y) {s : List α} :
    (scan x y s).2 = [] ↔ s = [] ∨ [x, y] <:+ s := by
  constructor
  · intro h
    by_cases hls : (scan x y s).1 = []
    · left
      rw [← unlines_lines h, hls, unlines_nil]
    · right
      rw [← unlines_lines h]
      exact ends_of_unlines hls
  · rintro (rfl | ⟨l, rfl⟩)
    · rfl
    · obtain ⟨hs, hl, ht⟩ := scan_spec (x := x) (y := y) l
      have hlast : scan x y ((scan x y l).2 ++ [x, y]) = ([(scan x y l).2], []) := scan_line hxy ht []
      rw [← hs, List.append_assoc, scan_unlines hxy hl, hlast]

/-- An element that begins no terminator begins no line of its own. -/
theorem length_lines_cons {a : α} (h : a ≠ x) (s : List α) :
    (scan x y (a :: s)).1.length = (scan x y s).1.length := by
  rw [scan_cons (fun hn => h hn.1)]
  rcases scan x y s with ⟨_ | ⟨l, ls⟩, tail⟩ <;> rfl

/-- What is fed up to a line's end, short of an empty line, is some of the lines before it. -/
theorem lines_before_empty (hxy : x ≠ y) {s t body : List α} {ls : List (List α)}
    (hls : ∀ l ∈ ls, Free x y l) (h : s ++ t = unlines x y ls ++ x :: y :: body)
    (hs : (scan x y s).2 = []) (hlen : s.length < (unlines x y ls).length+2) :
    ∃ ls', ls = (scan x y s).1 ++ ls' ∧ t = unlines x y ls' ++ x :: y :: body := by
  have hjoin := unlines_lines hs
  have hscan : (scan x y s).1 ++ (scan x y t).1 = ls ++ [] :: (scan x y body).1 := by
    have hl := congrArg (fun s => (scan x y s).1) h
    have hempty : scan x y (x :: y :: body) = ([] :: (scan x y body).1, (scan x y body).2) :=
      scan_line hxy free_nil body
    simpa [scan_append hxy hs, scan_unlines hxy hls, hempty] using hl
  -- it is enough to split the lines: the bytes follow by cancelling
  have hfinish : ∀ ls', ls = (scan x y s).1 ++ ls' → t = unlines x y ls' ++ x :: y :: body := by
    intro ls' hls'
    rw [hls', unlines_append, hjoin, List.append_assoc] at h
    exact List.append_cancel_left h
  rcases List.append_eq_append_iff.mp hscan with ⟨ls', hls', -⟩ | ⟨ls', hls', hrest⟩
  · exact ⟨ls', hls', hfinish ls' hls'⟩
  · cases ls' with
    | nil =>
      rw [List.append_nil] at hls'
      exact ⟨[], by rw [hls', List.append_nil], hfinish [] (by rw [hls', List.append_nil])⟩
    | cons l ls' =>
      -- the empty line would be among the lines of `s`, which is too short for it
      rw [hls', unlines_append, unlines_cons] at hjoin
      have := congrArg List.length hjoin
      simp at this
      omega

end Terminated
