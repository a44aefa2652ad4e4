/-!
# Finite maps keyed by token numbers

The entries are kept in ascending order of their keys, each key once. So the order in which
entries were put in leaves no trace: equal contents are equal maps, and the entries come out in
token order, which is the order of declaration.
-/

namespace Unmangle

theorem mem_of_lookup_eq_some {α β : Type} [BEq α] [LawfulBEq α] {entries : List (α × β)} {key : α}
    {value : β} (h : entries.lookup key = some value) : (key, value) ∈ entries := by
  obtain ⟨before, after, rfl, -⟩ := List.lookup_eq_some_iff.1 h
  exact List.mem_append_right before List.mem_cons_self

/-- A finite map from 32-bit numbers, ascending. -/
structure TokenMap (α : Type) where
  entries : List (UInt32 × α)
  ascending : entries.Pairwise (·.1 < ·.1)

namespace TokenMap

variable {α : Type}

def empty : TokenMap α := ⟨[], .nil⟩

instance : EmptyCollection (TokenMap α) := ⟨empty⟩
instance : Inhabited (TokenMap α) := ⟨empty⟩

def size (m : TokenMap α) : Nat := m.entries.length

/-- The value at `key`. -/
def get? (m : TokenMap α) (key : UInt32) : Option α :=
  m.entries.lookup key

theorem mem_of_get? {map : TokenMap α} {key : UInt32} {value : α}
    (h : map.get? key = some value) : (key, value) ∈ map.entries :=
  mem_of_lookup_eq_some h

theorem mem_entries_iff {map : TokenMap α} {key : UInt32} {value : α} :
    (key, value) ∈ map.entries ↔ map.get? key = some value := by
  refine ⟨?_, mem_of_get?⟩
  rw [get?]
  have hkeys := map.ascending
  generalize map.entries = entries at hkeys ⊢
  intro h
  induction entries with
  | nil => cases h
  | cons entry rest ih =>
    obtain ⟨hlt, hrest⟩ := List.pairwise_cons.1 hkeys
    rcases List.mem_cons.1 h with rfl | h
    · exact List.lookup_cons_self
    · -- The keys behind the first one are larger.
      have hne : key ≠ entry.1 := (UInt32.ne_of_lt (hlt (key, value) h)).symm
      rw [List.lookup_cons, beq_false_of_ne hne]
      exact ih hrest h

/-- Puts an entry in its place, over any other of the same key. -/
def insertEntry (key : UInt32) (value : α) : List (UInt32 × α) → List (UInt32 × α)
  | [] => [(key, value)]
  | (k, v) :: rest =>
    if key < k then (key, value) :: (k, v) :: rest
    else if k < key then (k, v) :: insertEntry key value rest
    else (key, value) :: rest

theorem fst_eq_or_mem_of_mem_insertEntry {key : UInt32} {value : α} {entry : UInt32 × α} :
    ∀ {entries : List (UInt32 × α)}, entry ∈ insertEntry key value entries →
      entry = (key, value) ∨ entry ∈ entries
  | [], h => by simpa [insertEntry] using h
  | (k, v) :: rest, h => by
    rw [insertEntry] at h
    split at h
    · simpa using h
    · split at h
      · rcases List.mem_cons.1 h with h | h
        · exact .inr (h ▸ List.mem_cons_self)
        · exact (fst_eq_or_mem_of_mem_insertEntry h).imp id (List.mem_cons_of_mem _)
      · rcases List.mem_cons.1 h with h | h
        · exact .inl h
        · exact .inr (List.mem_cons_of_mem _ h)

theorem pairwise_insertEntry (key : UInt32) (value : α) :
    ∀ {entries : List (UInt32 × α)}, entries.Pairwise (·.1 < ·.1) →
      (insertEntry key value entries).Pairwise (·.1 < ·.1)
  | [], _ => by simp [insertEntry]
  | (k, v) :: rest, h => by
    obtain ⟨hk, hrest⟩ := List.pairwise_cons.1 h
    rw [insertEntry]
    split
    next hlt =>
      refine List.pairwise_cons.2 ⟨fun entry hentry => ?_, h⟩
      rcases List.mem_cons.1 hentry with rfl | hentry
      · exact hlt
      · exact UInt32.lt_trans hlt (hk entry hentry)
    next hle =>
      split
      next hlt =>
        refine List.pairwise_cons.2 ⟨fun entry hentry => ?_, pairwise_insertEntry key value hrest⟩
        rcases fst_eq_or_mem_of_mem_insertEntry hentry with rfl | hentry
        · exact hlt
        · exact hk entry hentry
      next hge =>
        have heq : key = k :=
          UInt32.le_antisymm (UInt32.not_lt.1 hge) (UInt32.not_lt.1 hle)
        exact List.pairwise_cons.2 ⟨fun entry hentry => heq ▸ hk entry hentry, hrest⟩

/-- The map with `value` at `key`, whatever was there before. -/
def insert (m : TokenMap α) (key : UInt32) (value : α) : TokenMap α :=
  ⟨insertEntry key value m.entries, pairwise_insertEntry key value m.ascending⟩

/-- The map of the entries of a list, where a later entry wins over an earlier one of its key. -/
def ofList (entries : List (UInt32 × α)) : TokenMap α :=
  entries.foldl (fun m entry => m.insert entry.1 entry.2) ∅

@[ext]
theorem ext {m n : TokenMap α} (h : m.entries = n.entries) : m = n := by
  cases m; cases n; cases h; rfl

theorem insertEntry_of_forall_lt {key : UInt32} {value : α} {entries : List (UInt32 × α)}
    (h : ∀ entry ∈ entries, entry.1 < key) :
    insertEntry key value entries = entries ++ [(key, value)] := by
  induction entries with
  | nil => rfl
  | cons entry entries ih =>
    obtain ⟨hlt, hrest⟩ := List.forall_mem_cons.1 h
    rw [insertEntry, if_neg (UInt32.not_lt.2 (UInt32.le_of_lt hlt)), if_pos hlt, ih hrest]
    rfl

/-- Entries that go up one by one are put behind those that are there. -/
theorem entries_foldl_insert {map : TokenMap α} {entries : List (UInt32 × α)}
    (h : (map.entries ++ entries).Pairwise (·.1 < ·.1)) :
    (entries.foldl (fun map entry => map.insert entry.1 entry.2) map).entries =
      map.entries ++ entries := by
  induction entries generalizing map with
  | nil => rw [List.append_nil]; rfl
  | cons entry entries ih =>
    have hlt : ∀ earlier ∈ map.entries, earlier.1 < entry.1 := fun earlier hearlier =>
      (List.pairwise_append.1 h).2.2 earlier hearlier entry List.mem_cons_self
    have hinsert : (map.insert entry.1 entry.2).entries = map.entries ++ [entry] :=
      insertEntry_of_forall_lt hlt
    have hsplit : map.entries ++ entry :: entries =
        (map.insert entry.1 entry.2).entries ++ entries := by
      rw [hinsert, List.append_assoc, List.singleton_append]
    rw [hsplit] at h ⊢
    exact ih h

/-- A map is the map of its entries. -/
theorem ofList_entries (map : TokenMap α) : ofList map.entries = map := by
  ext1
  have hempty : (∅ : TokenMap α).entries = [] := rfl
  rw [ofList, entries_foldl_insert (by rw [hempty]; exact map.ascending), hempty, List.nil_append]

end TokenMap

end Unmangle
