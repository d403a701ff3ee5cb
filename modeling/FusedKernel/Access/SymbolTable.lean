import FusedKernel.Access.Symbol

/-!
# Symbol tables

Before an expression can be written, the sides of its nodes are given symbols.  A
`SymbolTable` holds at most one symbol for each side of a node; inserting another one
replaces it.

Principal results: `get?_insert` (a table after an insertion), `size_insert` (it grows by one
unless a symbol was replaced), `lookup_eq_error_iff`.
-/

set_option autoImplicit false

namespace FusedKernel

/-- One side of one node. -/
abbrev SymbolKey := NodeId × Side

/-- Symbols by node and side. -/
structure SymbolTable where
  entries : List (SymbolKey × Symbol)
  keys_nodup : (entries.map (·.1)).Nodup
  deriving DecidableEq, Repr

namespace SymbolTable

def empty : SymbolTable := ⟨[], List.nodup_nil⟩

/-- Number of sides that have a symbol. -/
def size (table : SymbolTable) : Nat := table.entries.length

def isEmpty (table : SymbolTable) : Bool := table.entries.isEmpty

def get? (table : SymbolTable) (node : NodeId) (side : Side) : Option Symbol :=
  table.entries.lookup (node, side)

/-- The symbol of one side of a node, or the report that there is none. -/
def lookup (table : SymbolTable) (node : NodeId) (side : Side) :
    Except GenerationError Symbol :=
  match table.get? node side with
  | some symbol => .ok symbol
  | none => .error (.unmapped node side)

/-- Removes the entry of a key from a list of entries. -/
def eraseKey (key : SymbolKey) (entries : List (SymbolKey × Symbol)) :
    List (SymbolKey × Symbol) :=
  entries.filter fun entry => entry.1 != key

theorem mem_keys_eraseKey {key key' : SymbolKey} {entries : List (SymbolKey × Symbol)} :
    key' ∈ (eraseKey key entries).map (·.1) ↔ key' ∈ entries.map (·.1) ∧ key' ≠ key := by
  simp only [eraseKey, List.mem_map, List.mem_filter, bne_iff_ne]
  constructor
  · rintro ⟨entry, ⟨hmem, hne⟩, rfl⟩
    exact ⟨⟨entry, hmem, rfl⟩, hne⟩
  · rintro ⟨⟨entry, hmem, rfl⟩, hne⟩
    exact ⟨entry, ⟨hmem, hne⟩, rfl⟩

theorem nodup_keys_eraseKey (key : SymbolKey) {entries : List (SymbolKey × Symbol)}
    (h : (entries.map (·.1)).Nodup) : ((eraseKey key entries).map (·.1)).Nodup :=
  h.sublist (List.filter_sublist.map _)

/-- Gives a side of a node a symbol, in place of the one it had. -/
def insert (table : SymbolTable) (node : NodeId) (side : Side) (symbol : Symbol) :
    SymbolTable where
  entries := ((node, side), symbol) :: eraseKey (node, side) table.entries
  keys_nodup := by
    rw [List.map_cons, List.nodup_cons]
    exact ⟨fun h => (mem_keys_eraseKey.1 h).2 rfl, nodup_keys_eraseKey _ table.keys_nodup⟩

/-- Inserts the listed symbols in turn. -/
def ofList (entries : List (SymbolKey × Symbol)) : SymbolTable :=
  entries.foldl (fun table entry => table.insert entry.1.1 entry.1.2 entry.2) empty

theorem lookup_cons (key key' : SymbolKey) (symbol : Symbol)
    (entries : List (SymbolKey × Symbol)) :
    ((key, symbol) :: entries).lookup key' =
      if key' = key then some symbol else entries.lookup key' := by
  rw [List.lookup_cons]
  by_cases h : key' = key
  · rw [if_pos h, beq_iff_eq.2 h]
  · rw [if_neg h, beq_false_of_ne h]

theorem lookup_eraseKey (key key' : SymbolKey) (entries : List (SymbolKey × Symbol)) :
    (eraseKey key entries).lookup key' = if key' = key then none else entries.lookup key' := by
  induction entries with
  | nil => simp [eraseKey]
  | cons entry entries ih =>
    obtain ⟨k, symbol⟩ := entry
    rw [lookup_cons]
    by_cases hk : k = key
    · subst hk
      have hdrop : eraseKey k ((k, symbol) :: entries) = eraseKey k entries := by
        simp [eraseKey]
      rw [hdrop, ih]
      split <;> rfl
    · have hkeep : eraseKey key ((k, symbol) :: entries) =
          (k, symbol) :: eraseKey key entries := by
        simp [eraseKey, hk]
      rw [hkeep, lookup_cons, ih]
      by_cases hk' : key' = k
      · subst hk'
        simp [hk]
      · simp [hk']

theorem get?_insert (table : SymbolTable) (node node' : NodeId) (side side' : Side)
    (symbol : Symbol) :
    (table.insert node side symbol).get? node' side' =
      if (node', side') = (node, side) then some symbol else table.get? node' side' := by
  simp only [get?, insert, lookup_cons, lookup_eraseKey]
  split <;> simp_all

theorem eraseKey_eq_self {key : SymbolKey} {entries : List (SymbolKey × Symbol)}
    (h : key ∉ entries.map (·.1)) : eraseKey key entries = entries := by
  rw [eraseKey, List.filter_eq_self]
  intro entry hmem
  exact bne_iff_ne.2 fun heq => h (heq ▸ List.mem_map_of_mem hmem)

theorem length_eraseKey (key : SymbolKey) {entries : List (SymbolKey × Symbol)}
    (h : (entries.map (·.1)).Nodup) :
    (eraseKey key entries).length + (if (entries.lookup key).isSome then 1 else 0) =
      entries.length := by
  induction entries with
  | nil => rfl
  | cons entry entries ih =>
    obtain ⟨k, symbol⟩ := entry
    rw [List.map_cons, List.nodup_cons] at h
    rw [lookup_cons]
    by_cases hk : key = k
    · subst hk
      have hdrop : eraseKey key ((key, symbol) :: entries) = entries := by
        have : eraseKey key ((key, symbol) :: entries) = eraseKey key entries := by
          simp [eraseKey]
        rw [this, eraseKey_eq_self h.1]
      simp [hdrop]
    · have hkeep : eraseKey key ((k, symbol) :: entries) =
          (k, symbol) :: eraseKey key entries := by
        simp [eraseKey, Ne.symm hk]
      have := ih h.2
      rw [hkeep, if_neg hk, List.length_cons, List.length_cons]
      omega

theorem size_insert (table : SymbolTable) (node : NodeId) (side : Side) (symbol : Symbol) :
    (table.insert node side symbol).size =
      if (table.get? node side).isSome then table.size else table.size + 1 := by
  have := length_eraseKey (node, side) table.keys_nodup
  simp only [size, insert, get?, List.length_cons] at *
  split at this <;> simp_all

theorem lookup_eq_ok_iff {table : SymbolTable} {node : NodeId} {side : Side}
    {symbol : Symbol} :
    table.lookup node side = .ok symbol ↔ table.get? node side = some symbol := by
  unfold lookup
  cases table.get? node side <;> simp

theorem lookup_eq_error_iff {table : SymbolTable} {node : NodeId} {side : Side}
    {e : GenerationError} :
    table.lookup node side = .error e ↔
      table.get? node side = none ∧ e = .unmapped node side := by
  unfold lookup
  cases table.get? node side <;> simp [eq_comm]

end SymbolTable

end FusedKernel
