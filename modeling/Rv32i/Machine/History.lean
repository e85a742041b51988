import Rv32i.Isa.Word

/-!
# The history of a machine

The most recent attempts to execute an instruction, for diagnostics. A history of depth `d` keeps
the last `d` entries that were pushed, oldest first; at depth zero it keeps none.

The entries are a queue of two lists, one to drop the oldest entry from and one to add the newest
to, so a push takes constant time on average. A history carries the proof that it keeps no more
entries than its depth, and `push` makes room before it adds an entry to a full one.
-/

namespace Rv32i

/-- One attempt: the slot it was fetched from, and the record's line and source. -/
structure HistoryEntry where
  pc : Word
  line : Nat
  source : String
deriving DecidableEq

/-- A history of bounded depth. -/
structure History where
  depth : Nat
  /-- The older entries, oldest first. -/
  older : List HistoryEntry
  /-- The entries behind them, newest first. -/
  newer : List HistoryEntry
  /-- The number of entries, so that none has to be counted for a push. -/
  size : Nat
  counted : size = older.length + newer.length
  bounded : size ≤ depth
deriving DecidableEq

namespace History

/-! ## 1. Reading -/

/-- The empty history of a depth. -/
def empty (depth : Nat) : History :=
  ⟨depth, [], [], 0, rfl, Nat.zero_le depth⟩

/-- The entries, oldest first. -/
def entries (history : History) : List HistoryEntry :=
  history.older ++ history.newer.reverse

/-- The newest entry. -/
def last? (history : History) : Option HistoryEntry :=
  history.entries.getLast?

/-- The number of entries. -/
def length (history : History) : Nat :=
  history.entries.length

/-- The history without its entries. -/
def clear (history : History) : History :=
  empty history.depth

@[simp] theorem entries_empty (depth : Nat) : (empty depth).entries = [] :=
  rfl

/-- The number that is kept is the number of entries. -/
theorem length_eq_size (history : History) : history.length = history.size := by
  rw [length, entries, List.length_append, List.length_reverse, history.counted]

/-- A history never has more entries than its depth. -/
theorem length_le_depth (history : History) : history.length ≤ history.depth :=
  history.length_eq_size ▸ history.bounded

/-! ## 2. Pushing -/

section

variable (history : History) (entry : HistoryEntry)

/-- The history without its oldest entry. When the older entries are used up, all that are left
    become older ones. -/
def dropOldest : History :=
  match empties : history.older with
  | _ :: older =>
    { history with
      older
      size := history.size - 1
      counted := by rw [history.counted, empties, List.length_cons]; omega
      bounded := Nat.le_trans (Nat.sub_le ..) history.bounded }
  | [] =>
    { history with
      older := history.newer.reverse.tail
      newer := []
      size := history.size - 1
      counted := by simp [history.counted, empties]
      bounded := Nat.le_trans (Nat.sub_le ..) history.bounded }

/-- The history with an entry behind the others, for which there is room. -/
def add (room : history.size < history.depth) : History :=
  { history with
    newer := entry :: history.newer
    size := history.size + 1
    counted := by rw [history.counted, List.length_cons, Nat.add_assoc]
    bounded := room }

@[simp] theorem depth_dropOldest : history.dropOldest.depth = history.depth := by
  unfold dropOldest
  split <;> rfl

@[simp] theorem size_dropOldest : history.dropOldest.size = history.size - 1 := by
  unfold dropOldest
  split <;> rfl

theorem entries_dropOldest : history.dropOldest.entries = history.entries.tail := by
  unfold dropOldest entries
  split
  · rename_i older first
    show older ++ history.newer.reverse = (history.older ++ history.newer.reverse).tail
    rw [first, List.cons_append, List.tail_cons]
  · rename_i first
    show history.newer.reverse.tail ++ [] = (history.older ++ history.newer.reverse).tail
    rw [first, List.nil_append, List.append_nil]

theorem entries_add (room : history.size < history.depth) :
    (history.add entry room).entries = history.entries ++ [entry] := by
  simp only [add, entries, List.reverse_cons, List.append_assoc]

/-- The history with a new entry. At depth zero nothing is kept, and a full history loses its oldest
    entry. -/
def push : History :=
  if shallow : history.depth = 0 then history
  else if full : history.size = history.depth then
    history.dropOldest.add entry <| by rw [size_dropOldest, depth_dropOldest]; omega
  else history.add entry (Nat.lt_of_le_of_ne history.bounded full)

@[simp] theorem depth_push : (history.push entry).depth = history.depth := by
  unfold push
  split
  · rfl
  · split
    · exact history.depth_dropOldest
    · rfl

/-- **A push adds one entry at the end**, and the oldest goes if the depth demands it. -/
theorem entries_push :
    (history.push entry).entries =
      (history.entries ++ [entry]).drop (history.length + 1 - history.depth) := by
  have kept := history.bounded
  rw [length_eq_size]
  unfold push
  split
  · rename_i shallow
    have nothing : history.entries = [] := by
      rw [← List.length_eq_zero_iff, ← length, length_eq_size]
      omega
    have one : history.size + 1 - history.depth = 1 := by omega
    rw [nothing, one, List.nil_append, List.drop_one, List.tail_cons]
  · split
    · rename_i positive full
      have occupied : history.entries ≠ [] := by
        rw [← List.length_pos_iff, ← length, length_eq_size]
        omega
      rw [entries_add, entries_dropOldest, full, Nat.add_sub_cancel_left, List.drop_one,
        List.tail_append_of_ne_nil occupied]
    · rename_i room
      have fits : history.size + 1 - history.depth = 0 := by omega
      rw [entries_add, fits, List.drop_zero]

end

end History

end Rv32i
