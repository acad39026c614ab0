/-!
# Sorted maps

A map from words to values, kept as its entries in strictly increasing order
of the key.  `ofList` takes entries in any order; where a key occurs more than
once, the last entry counts.  A sorted list of entries is its own sorted map:
`ofList_items`.
-/

namespace OncWire

/-- Entries in strictly increasing order of the key. -/
structure SortedMap (α : Type) where
  /-- The entries. -/
  items : List (UInt32 × α)
  /-- Each key is below all the keys after it. -/
  sorted : items.Pairwise (·.1 < ·.1)
  deriving DecidableEq

namespace SortedMap

variable {α : Type}

/-- Puts an entry in its place, over the one with the same key if there is one. -/
def insertEntry (e : UInt32 × α) : List (UInt32 × α) → List (UInt32 × α)
  | [] => [e]
  | f :: fs =>
    if e.1 < f.1 then e :: f :: fs
    else if e.1 = f.1 then e :: fs
    else f :: insertEntry e fs

/-- The keys after an insertion are the new one and the ones before. -/
theorem mem_insertEntry {e f : UInt32 × α} {fs : List (UInt32 × α)} (h : f ∈ insertEntry e fs) :
    f = e ∨ f ∈ fs := by
  induction fs with
  | nil => simpa [insertEntry] using h
  | cons g gs ih =>
    unfold insertEntry at h
    split at h
    · simpa using h
    · split at h
      · rcases List.mem_cons.mp h with h | h
        · exact .inl h
        · exact .inr (List.mem_cons_of_mem _ h)
      · rcases List.mem_cons.mp h with h | h
        · exact .inr (h ▸ List.mem_cons_self)
        · exact (ih h).imp_right (List.mem_cons_of_mem _)

/-- Insertion keeps the entries in order. -/
theorem sorted_insertEntry (e : UInt32 × α) {fs : List (UInt32 × α)}
    (h : fs.Pairwise (·.1 < ·.1)) : (insertEntry e fs).Pairwise (·.1 < ·.1) := by
  induction fs with
  | nil => simp [insertEntry]
  | cons f fs ih =>
    obtain ⟨hf, hfs⟩ := List.pairwise_cons.mp h
    unfold insertEntry
    split
    case isTrue hlt =>
      refine List.pairwise_cons.mpr ⟨fun g hg => ?_, h⟩
      rcases List.mem_cons.mp hg with rfl | hg
      · exact hlt
      · exact UInt32.lt_trans hlt (hf g hg)
    case isFalse hlt =>
      split
      case isTrue heq =>
        exact List.pairwise_cons.mpr ⟨fun g hg => heq ▸ hf g hg, hfs⟩
      case isFalse hne =>
        refine List.pairwise_cons.mpr ⟨fun g hg => ?_, ih hfs⟩
        rcases mem_insertEntry hg with rfl | hg
        · exact UInt32.lt_of_le_of_ne (UInt32.not_lt.mp hlt) (Ne.symm hne)
        · exact hf g hg

/-- The map without entries. -/
def empty : SortedMap α := ⟨[], .nil⟩

/-- The map with one more entry, over the one with the same key if there is one. -/
def insert (m : SortedMap α) (e : UInt32 × α) : SortedMap α :=
  ⟨insertEntry e m.items, sorted_insertEntry e m.sorted⟩

/-- The map of a list of entries, where the last entry for a key counts. -/
def ofList (es : List (UInt32 × α)) : SortedMap α := es.foldl insert empty

/-- An entry above all the others goes to the end. -/
theorem insertEntry_of_lt {e : UInt32 × α} {fs : List (UInt32 × α)} (h : ∀ f ∈ fs, f.1 < e.1) :
    insertEntry e fs = fs ++ [e] := by
  induction fs with
  | nil => rfl
  | cons f fs ih =>
    have hf := h f List.mem_cons_self
    have hlt : ¬ e.1 < f.1 := fun hlt => UInt32.lt_irrefl _ (UInt32.lt_trans hf hlt)
    have hne : ¬ e.1 = f.1 := fun heq => UInt32.lt_irrefl _ (heq ▸ hf)
    rw [insertEntry, if_neg hlt, if_neg hne, ih fun g hg => h g (List.mem_cons_of_mem _ hg)]
    rfl

/-- Sorted entries that follow a map are added at its end. -/
theorem items_foldl_insert {m : SortedMap α} {es : List (UInt32 × α)}
    (h : (m.items ++ es).Pairwise (·.1 < ·.1)) : (es.foldl insert m).items = m.items ++ es := by
  induction es generalizing m with
  | nil => simp
  | cons e es ih =>
    have hm : (m.insert e).items = m.items ++ [e] :=
      insertEntry_of_lt fun f hf =>
        (List.pairwise_append.mp h).2.2 f hf e List.mem_cons_self
    rw [List.foldl_cons, ih (by simpa [hm] using h), hm, List.append_assoc]
    rfl

/-- Sorted entries are the entries of the map made from them. -/
theorem items_ofList {es : List (UInt32 × α)} (h : es.Pairwise (·.1 < ·.1)) :
    (ofList es).items = es :=
  items_foldl_insert (m := empty) (by simpa [empty] using h)

/-- A map is made from its own entries. -/
@[simp] theorem ofList_items (m : SortedMap α) : ofList m.items = m := by
  obtain ⟨items, sorted⟩ := m
  have h := items_ofList sorted
  cases hm : ofList items
  rw [hm] at h
  simp only at h
  subst h
  rfl

end SortedMap

end OncWire
