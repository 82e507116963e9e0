/-!
# Dictionaries with text keys

A `Dict` lists its entries in increasing order of their keys. Two dictionaries with the same entries are therefore
equal, and walking one visits the keys in the order in which they are printed.
-/

namespace MarkdownTemplates

universe u v

/-- A finite map from texts, kept in increasing order of the keys. -/
structure Dict (α : Type u) where
  entries : List (String × α)
  ordered : entries.Pairwise (fun a b => a.1 < b.1)
  deriving DecidableEq

/-- A finite set of texts. -/
abbrev NameSet := Dict Unit

namespace Dict

variable {α : Type u} {β : Type v}

def empty : Dict α := ⟨[], List.Pairwise.nil⟩

instance : EmptyCollection (Dict α) := ⟨empty⟩

instance : Inhabited (Dict α) := ⟨empty⟩

def keys (d : Dict α) : List String := d.entries.map Prod.fst

def values (d : Dict α) : List α := d.entries.map Prod.snd

def size (d : Dict α) : Nat := d.entries.length

def isEmpty (d : Dict α) : Bool := d.entries.isEmpty

def get? (d : Dict α) (key : String) : Option α := d.entries.lookup key

def contains (d : Dict α) (key : String) : Bool := (d.get? key).isSome

/-- Put a value under a key of a list in increasing order, replacing the value that was there. -/
def insertEntry (key : String) (value : α) : List (String × α) → List (String × α)
  | [] => [(key, value)]
  | (k, v) :: rest =>
    if key < k then (key, value) :: (k, v) :: rest
    else if key = k then (key, value) :: rest
    else (k, v) :: insertEntry key value rest

theorem mem_insertEntry {key : String} {value : α} {l : List (String × α)} {e : String × α}
    (h : e ∈ insertEntry key value l) : e = (key, value) ∨ e ∈ l := by
  induction l with
  | nil => simpa [insertEntry] using h
  | cons a l ih =>
    obtain ⟨k, v⟩ := a
    simp only [insertEntry] at h
    split at h
    · simpa using h
    · split at h <;> simp only [List.mem_cons] at h ⊢
      · exact h.imp_right .inr
      · rcases h with h | h
        · exact .inr (.inl h)
        · exact (ih h).imp_right .inr

theorem pairwise_insertEntry {key : String} {value : α} {l : List (String × α)}
    (h : l.Pairwise (fun a b => a.1 < b.1)) : (insertEntry key value l).Pairwise (fun a b => a.1 < b.1) := by
  induction l with
  | nil => simp [insertEntry]
  | cons a l ih =>
    obtain ⟨k, v⟩ := a
    rw [List.pairwise_cons] at h
    simp only [insertEntry]
    split
    · rename_i hlt
      refine List.pairwise_cons.2 ⟨fun e he => ?_, List.pairwise_cons.2 h⟩
      rcases List.mem_cons.1 he with rfl | he
      · exact hlt
      · exact String.lt_trans hlt (h.1 e he)
    · split
      · rename_i heq
        exact List.pairwise_cons.2 ⟨fun e he => heq ▸ h.1 e he, h.2⟩
      · refine List.pairwise_cons.2 ⟨fun e he => ?_, ih h.2⟩
        rcases mem_insertEntry he with rfl | he
        · grind
        · exact h.1 e he

def insert (d : Dict α) (key : String) (value : α) : Dict α :=
  ⟨insertEntry key value d.entries, pairwise_insertEntry d.ordered⟩

def erase (d : Dict α) (key : String) : Dict α :=
  ⟨d.entries.filter (fun e => e.1 ≠ key), d.ordered.filter _⟩

/-- Keep the entries that satisfy `p`. -/
def filter (p : String → α → Bool) (d : Dict α) : Dict α :=
  ⟨d.entries.filter (fun e => p e.1 e.2), d.ordered.filter _⟩

/-- Change every value, which may depend on its key, and no key. -/
def mapValues (f : String → α → β) (d : Dict α) : Dict β :=
  ⟨d.entries.map (fun e => (e.1, f e.1 e.2)), List.pairwise_map.2 d.ordered⟩

/-- Insert the pairs one after the other: the last value of a key wins. -/
def ofList (l : List (String × α)) : Dict α :=
  l.foldl (fun d e => d.insert e.1 e.2) ∅

/-- Put a pair in front of the groups of a sorted list. -/
def addToGroups (e : String × α) : List (String × List α) → List (String × List α)
  | [] => [(e.1, [e.2])]
  | (k, vs) :: rest => if e.1 = k then (k, e.2 :: vs) :: rest else (e.1, [e.2]) :: (k, vs) :: rest

theorem mem_foldr_addToGroups {l : List (String × α)} {g : String × List α}
    (h : g ∈ l.foldr addToGroups []) : ∃ e ∈ l, e.1 = g.1 := by
  induction l generalizing g with
  | nil => simp at h
  | cons a l ih =>
    simp only [List.foldr_cons] at h
    revert h
    cases hl : l.foldr addToGroups [] with
    | nil => intro h; simp only [addToGroups, List.mem_singleton] at h; exact ⟨a, by simp, by simp [h]⟩
    | cons b rest =>
      intro h
      simp only [addToGroups] at h
      split at h
      · rcases List.mem_cons.1 h with rfl | h
        · exact ⟨a, by simp, by assumption⟩
        · obtain ⟨e, he, hg⟩ := ih (g := g) (by rw [hl]; exact List.mem_cons_of_mem _ h)
          exact ⟨e, List.mem_cons_of_mem _ he, hg⟩
      · rcases List.mem_cons.1 h with rfl | h
        · exact ⟨a, by simp, rfl⟩
        · obtain ⟨e, he, hg⟩ := ih (g := g) (by rw [hl]; exact h)
          exact ⟨e, List.mem_cons_of_mem _ he, hg⟩

theorem pairwise_foldr_addToGroups {l : List (String × α)} (h : l.Pairwise (fun a b => a.1 ≤ b.1)) :
    (l.foldr addToGroups []).Pairwise (fun a b => a.1 < b.1) := by
  induction l with
  | nil => simp
  | cons a l ih =>
    rw [List.pairwise_cons] at h
    have hs := ih h.2
    have hm : ∀ g ∈ l.foldr addToGroups [], a.1 ≤ g.1 := fun g hg => by
      obtain ⟨e, he, hg⟩ := mem_foldr_addToGroups hg
      exact hg ▸ h.1 e he
    simp only [List.foldr_cons]
    revert hs hm
    cases l.foldr addToGroups [] with
    | nil => intros; simp [addToGroups]
    | cons b rest =>
      intro hs hm
      obtain ⟨k, vs⟩ := b
      simp only [addToGroups]
      split
      · exact List.pairwise_cons.2 (List.pairwise_cons.1 hs)
      · rename_i hne
        refine List.pairwise_cons.2 ⟨fun g hg => ?_, hs⟩
        have hk : a.1 < k := by have := hm (k, vs) (by simp); grind
        rcases List.mem_cons.1 hg with rfl | hg
        · exact hk
        · exact String.lt_trans hk ((List.pairwise_cons.1 hs).1 g hg)

/-- All values of each key, in the order of the list. -/
def group (l : List (String × α)) : Dict (List α) :=
  ⟨(l.mergeSort (fun a b => decide (a.1 ≤ b.1))).foldr addToGroups [],
    pairwise_foldr_addToGroups (by
      have h : (l.mergeSort (fun a b => decide (a.1 ≤ b.1))).Pairwise (fun a b => decide (a.1 ≤ b.1) = true) :=
        List.pairwise_mergeSort (by intro a b c; simp only [decide_eq_true_eq]; grind)
          (by intro a b; simp only [Bool.or_eq_true, decide_eq_true_eq]; grind) l
      simpa using h)⟩

end Dict

namespace NameSet

def insert (s : NameSet) (name : String) : NameSet := Dict.insert s name ()

def toList (s : NameSet) : List String := s.keys

def ofList (l : List String) : NameSet :=
  (Dict.group (l.map (fun name => (name, ())))).mapValues (fun _ _ => ())

def insertMany (s : NameSet) (l : List String) : NameSet := ofList (s.toList ++ l)

end NameSet

end MarkdownTemplates
