import Mathlib
import MarkdownTemplates.Graph

/-!
# Depth first search

The search finds simple cycles, each closed by an edge of its own. Its invariant orders the vertices that it has left: every
edge that closes no cycle leads to a vertex that was left earlier.
-/

namespace MarkdownTemplates

/-- A walk of at least one edge that ends where it starts. -/
def IsClosedWalk (edge : String → String → Prop) (walk : List String) : Prop :=
  (∃ v vs, walk = v :: (vs ++ [v])) ∧ walk.IsChain edge

/-- A closed walk that comes to no vertex twice before its end. -/
def IsSimpleCycle (edge : String → String → Prop) (walk : List String) : Prop :=
  IsClosedWalk edge walk ∧ walk.dropLast.Nodup

/-- The last edge of a walk. -/
def closingEdge? (walk : List String) : Option (String × String) :=
  match walk.reverse with
  | b :: a :: _ => some (a, b)
  | _ => none

theorem IsClosedWalk.exists_closingEdge? {edge : String → String → Prop} {walk : List String} (h : IsClosedWalk edge walk) :
    ∃ e, closingEdge? walk = some e := by
  obtain ⟨⟨v, vs, rfl⟩, -⟩ := h
  have hr : (v :: (vs ++ [v])).reverse = v :: (v :: vs).reverse := by simp
  cases hc : (v :: vs).reverse with
  | nil => simp at hc
  | cons a l => exact ⟨(a, v), by simp [closingEdge?, hr, hc]⟩

theorem IsClosedWalk.transGen {edge : String → String → Prop} {walk : List String} (h : IsClosedWalk edge walk) :
    ∃ v, Relation.TransGen edge v v := by
  obtain ⟨⟨v, vs, rfl⟩, hc⟩ := h
  refine ⟨v, ?_⟩
  have hs : (v :: vs ++ [v]).IsChain (Relation.TransGen edge) := hc.imp fun _ _ => Relation.TransGen.single
  exact (List.isChain_iff_pairwise.mp hs).rel_of_mem_append (by simp) (by simp)

/-- A graph whose edges all go up in some measure has no cycle. -/
theorem not_transGen_of_rank {edge : String → String → Prop} {rank : String → Nat}
    (h : ∀ x y, edge x y → rank x < rank y) (v : String) : ¬ Relation.TransGen edge v v := by
  have hlt : ∀ w, Relation.TransGen edge v w → rank v < rank w := by
    intro w hw
    induction hw with
    | single he => exact h _ _ he
    | tail _ he ih => exact ih.trans (h _ _ he)
  exact fun hv => lt_irrefl _ (hlt v hv)

namespace Adjacency

/-- Is there an edge from `x` to `y`? -/
def Leads (a : Adjacency) (x y : String) : Prop := y ∈ a.targets x

end Adjacency

namespace Search

/-- The vertices of the current path, innermost first. -/
def path (s : Search) : List String := s.frames.map Frame.vertex

/-- The edges that close the cycles found so far. -/
def closing (s : Search) : List (String × String) := s.cycles.filterMap closingEdge?

/-- Of each vertex on a path, the targets at which the search has looked are closing edges, vertices that it has left, or
the next vertex `inner` of the path; the other targets close no cycle yet. -/
def Looked (a : Adjacency) (closing : List (String × String)) (left : List String) : Option String → List Frame → Prop
  | _, [] => True
  | inner, f :: rest =>
    (∃ done, a.targets f.vertex = done ++ f.targets ∧
      (∀ t ∈ done, (f.vertex, t) ∈ closing ∨ t ∈ left ∨ inner = some t) ∧ ∀ t, inner = some t → t ∈ done) ∧
    (∀ t ∈ f.targets, (f.vertex, t) ∉ closing) ∧ Looked a closing left (some f.vertex) rest

/-- Each edge from a vertex of the list closes a cycle or leads to a later one of the list. -/
def Settled (a : Adjacency) (closing : List (String × String)) : List String → Prop
  | [] => True
  | x :: rest => (∀ t, a.Leads x t → (x, t) ∈ closing ∨ t ∈ rest) ∧ Settled a closing rest

/-- What holds at every step of the search. The vertices that it has left come last one first. -/
structure Invariant (a : Adjacency) (vertices left : List String) (s : Search) : Prop where
  nodup : (s.path ++ left).Nodup
  visited : ∀ x ∈ s.path ++ left, x ∉ s.unvisited
  known : ∀ x ∈ vertices, x ∈ s.unvisited ∨ x ∈ s.path ++ left
  looked : Looked a s.closing left none s.frames
  settled : Settled a s.closing left
  sources : ∀ e ∈ s.closing, e.1 ∈ s.path ++ left
  cycles : ∀ c ∈ s.cycles, IsSimpleCycle a.Leads c
  distinct : s.closing.Nodup

variable {a : Adjacency} {vertices left : List String}

theorem Looked.mono {closing closing' : List (String × String)} {left' : List String} {inner : Option String}
    {frames : List Frame} (h : Looked a closing left inner frames) (hl : ∀ x ∈ left, x ∈ left')
    (hc : ∀ e ∈ closing, e ∈ closing')
    (hn : ∀ f ∈ frames, ∀ t ∈ f.targets, (f.vertex, t) ∈ closing' → (f.vertex, t) ∈ closing) :
    Looked a closing' left' inner frames := by
  induction frames generalizing inner with
  | nil => trivial
  | cons f rest ih =>
    obtain ⟨⟨done, hd, ht, hi⟩, hf, hr⟩ := h
    refine ⟨⟨done, hd, fun t hm => ?_, hi⟩, fun t hm he => hf t hm (hn f (by simp) t hm he), ?_⟩
    · exact (ht t hm).imp (hc _) (Or.imp_left (hl t))
    · exact ih hr fun g hg => hn g (List.mem_cons_of_mem _ hg)

/-- Leaving the next vertex of the path settles the edge to it. -/
theorem Looked.leave {closing : List (String × String)} {v : String} {frames : List Frame}
    (h : Looked a closing left (some v) frames) : Looked a closing (v :: left) none frames := by
  cases frames with
  | nil => trivial
  | cons f rest =>
    obtain ⟨⟨done, hd, ht, -⟩, hf, hr⟩ := h
    refine ⟨⟨done, hd, fun t hm => ?_, by simp⟩, hf, hr.mono (by simp +contextual) (by simp) (by simp)⟩
    rcases ht t hm with h | h | h
    · exact .inl h
    · exact .inr (.inl (List.mem_cons_of_mem _ h))
    · exact .inr (.inl (by simp [Option.some.inj h]))

theorem Looked.isChain {closing : List (String × String)} {inner : Option String} {frames : List Frame}
    (h : Looked a closing left inner frames) :
    (frames.map Frame.vertex).IsChain (fun v u => a.Leads u v) ∧
      ∀ f ∈ frames.head?, ∀ t, inner = some t → a.Leads f.vertex t := by
  induction frames generalizing inner with
  | nil => simp
  | cons f rest ih =>
    obtain ⟨⟨done, hd, -, hi⟩, -, hr⟩ := h
    obtain ⟨hc, hh⟩ := ih hr
    constructor
    · rw [List.map_cons, List.isChain_cons]
      refine ⟨fun u hu => ?_, hc⟩
      obtain ⟨g, hg, rfl⟩ := Option.map_eq_some_iff.mp (List.head?_map ▸ hu)
      exact hh g hg _ rfl
    · rintro g hg t rfl
      obtain rfl : f = g := by simpa using hg
      rw [Adjacency.Leads, hd]
      exact List.mem_append_left _ (hi t rfl)

theorem Settled.mono {closing closing' : List (String × String)} (h : Settled a closing left)
    (hc : ∀ e ∈ closing, e ∈ closing') : Settled a closing' left := by
  induction left with
  | nil => trivial
  | cons x rest ih => exact ⟨fun t ht => (h.1 t ht).imp_left (hc _), ih h.2⟩

theorem Settled.mem {closing : List (String × String)} (h : Settled a closing left) {x y : String} (hx : x ∈ left)
    (he : a.Leads x y) (hc : (x, y) ∉ closing) : y ∈ left := by
  induction left with
  | nil => simp at hx
  | cons z rest ih =>
    rcases List.mem_cons.mp hx with rfl | hx
    · exact List.mem_cons_of_mem _ ((h.1 y he).resolve_left hc)
    · exact List.mem_cons_of_mem _ (ih h.2 hx)

/-- Edges that close no cycle go down the list. -/
theorem Settled.idxOf_lt {closing : List (String × String)} (h : Settled a closing left) (hn : left.Nodup) {x y : String}
    (hx : x ∈ left) (he : a.Leads x y) (hc : (x, y) ∉ closing) : left.idxOf x < left.idxOf y := by
  induction left with
  | nil => simp at hx
  | cons z rest ih =>
    rw [List.nodup_cons] at hn
    by_cases hxz : x = z
    · subst hxz
      have hy : y ∈ rest := (h.1 y he).resolve_left hc
      have hne : x ≠ y := fun hxy => hn.1 (hxy ▸ hy)
      rw [List.idxOf_cons_self, List.idxOf_cons_ne _ hne]
      exact Nat.succ_pos _
    · have hxr : x ∈ rest := (List.mem_cons.mp hx).resolve_left hxz
      have hyz : y ≠ z := fun hyz => hn.1 (hyz ▸ h.2.mem hxr he hc)
      rw [List.idxOf_cons_ne _ (Ne.symm hxz), List.idxOf_cons_ne _ hyz.symm]
      exact Nat.succ_lt_succ (ih h.2 hn.2 hxr)

/-! ## The cycle that an edge back to the path closes -/

theorem takeWhile_append_cons {t : String} {l : List String} (h : t ∈ l) :
    ∃ rest, l = l.takeWhile (· != t) ++ t :: rest := by
  induction l with
  | nil => simp at h
  | cons x l ih =>
    by_cases hx : x = t
    · subst hx
      exact ⟨l, by simp⟩
    · obtain ⟨rest, hr⟩ := ih ((List.mem_cons.mp h).resolve_left (Ne.symm hx))
      refine ⟨rest, ?_⟩
      rw [List.takeWhile_cons_of_pos (by simpa using hx), List.cons_append, ← hr]

theorem closingEdge?_cycleTo (t : String) (f : Frame) (rest : List Frame) :
    closingEdge? (cycleTo t (f :: rest)) = some (f.vertex, t) := by
  have hr : (cycleTo t (f :: rest)).reverse = t :: (((f :: rest).map Frame.vertex).takeWhile (· != t) ++ [t]) := by
    simp [cycleTo]
  by_cases h : f.vertex = t
  · simp [closingEdge?, hr, h]
  · simp [closingEdge?, hr, h]

/-- An edge from the innermost vertex to a vertex of the path closes a simple cycle. -/
theorem isSimpleCycle_cycleTo {t : String} {f : Frame} {rest : List Frame}
    (hc : ((f :: rest).map Frame.vertex).IsChain (fun v u => a.Leads u v)) (hn : ((f :: rest).map Frame.vertex).Nodup)
    (ht : t ∈ (f :: rest).map Frame.vertex) (he : a.Leads f.vertex t) :
    IsSimpleCycle a.Leads (cycleTo t (f :: rest)) := by
  obtain ⟨outer, ho⟩ := takeWhile_append_cons ht
  set inner := ((f :: rest).map Frame.vertex).takeWhile (· != t) with hi
  have hcycle : cycleTo t (f :: rest) = t :: (inner.reverse ++ [t]) := by simp [cycleTo, hi]
  have hpre : inner ++ [t] <+: (f :: rest).map Frame.vertex := ⟨outer, by rw [ho]; simp⟩
  rw [hcycle]
  refine ⟨⟨⟨t, inner.reverse, rfl⟩, ?_⟩, ?_⟩
  · -- Read backwards, the cycle is the path from its innermost vertex out to `t`, behind `t` itself.
    rw [← List.isChain_reverse (R := fun v u => a.Leads u v)]
    have hrev : (t :: (inner.reverse ++ [t])).reverse = t :: (inner ++ [t]) := by simp
    rw [hrev, List.isChain_cons]
    refine ⟨fun u hu => ?_, hc.prefix hpre⟩
    have hhead : (inner ++ [t]).head? = some f.vertex := by
      obtain ⟨l, hl⟩ := hpre
      have := congrArg List.head? hl
      cases hm : inner ++ [t] with
      | nil => simp at hm
      | cons x xs => simpa [hm] using this
    rw [hhead] at hu
    obtain rfl : f.vertex = u := by simpa using hu
    exact he
  · have hnd : (inner ++ [t]).Nodup := hn.sublist hpre.sublist
    rw [← List.cons_append, List.dropLast_concat]
    rw [List.nodup_append] at hnd
    refine List.nodup_cons.mpr ⟨fun hm => ?_, List.nodup_reverse.mpr hnd.1⟩
    exact hnd.2.2 t (List.mem_reverse.mp hm) t (by simp) rfl

/-! ## Steps -/

namespace Invariant

variable {v t : String} {ts : List String} {rest : List Frame} {unvisited : Std.TreeSet String}
  {cycles : List (List String)}

/-- A vertex without further targets is left. -/
theorem leave (h : Invariant a vertices left ⟨unvisited, ⟨v, []⟩ :: rest, cycles⟩) :
    Invariant a vertices (v :: left) ⟨unvisited, rest, cycles⟩ := by
  have hp : (rest.map Frame.vertex ++ v :: left).Perm (v :: rest.map Frame.vertex ++ left) := List.perm_middle
  obtain ⟨⟨done, hd, ht, -⟩, -, hr⟩ := h.looked
  refine ⟨hp.nodup_iff.mpr h.nodup, fun x hx => h.visited x (hp.mem_iff.mp hx),
    fun x hx => (h.known x hx).imp_right hp.mem_iff.mpr, hr.leave, ⟨fun t hl => ?_, h.settled⟩,
    fun e he => hp.mem_iff.mpr (h.sources e he), h.cycles, h.distinct⟩
  have hm : t ∈ done := by simpa [Adjacency.Leads, hd] using hl
  exact (ht t hm).imp_right fun h => h.resolve_right (by simp)

/-- What the search knows of the path once it has looked at one more target of the innermost vertex. -/
theorem looked_next (h : Invariant a vertices left ⟨unvisited, ⟨v, t :: ts⟩ :: rest, cycles⟩)
    (hn : (a.targets v).Nodup) {closing : List (String × String)} {inner : Option String}
    (hc : ∀ e ∈ cycles.filterMap closingEdge?, e ∈ closing)
    (ho : ∀ e ∈ closing, e ∈ cycles.filterMap closingEdge? ∨ e = (v, t))
    (ht : (v, t) ∈ closing ∨ t ∈ left ∨ inner = some t) (hi : ∀ x, inner = some x → x = t) :
    Looked a closing left inner (⟨v, ts⟩ :: rest) := by
  obtain ⟨⟨done, hd, hl, -⟩, hf, hr⟩ := h.looked
  have hnd : (done ++ t :: ts).Nodup := hd ▸ hn
  have hpath : (v :: rest.map Frame.vertex).Nodup := (List.nodup_append.mp h.nodup).1
  refine ⟨⟨done ++ [t], by simpa using hd, fun x hx => ?_, fun x hx => by simp [hi x hx]⟩, fun x hx he => ?_, ?_⟩
  · rcases List.mem_append.mp hx with hx | hx
    · rcases hl x hx with h | h | h
      · exact .inl (hc _ h)
      · exact .inr (.inl h)
      · simp at h
    · obtain rfl : x = t := by simpa using hx
      exact ht
  · rcases ho _ he with he | he
    · exact hf x (List.mem_cons_of_mem _ hx) he
    · obtain rfl : x = t := (Prod.mk.inj he).2
      exact (List.nodup_cons.mp (List.nodup_append.mp hnd).2.1).1 hx
  · refine hr.mono (fun _ => id) hc fun f hm x _ he => (ho _ he).resolve_right fun hv => ?_
    have hfv : f.vertex = v := (Prod.mk.inj hv).1
    exact (List.nodup_cons.mp hpath).1 (hfv ▸ List.mem_map_of_mem hm)

/-- An unvisited target becomes the innermost vertex. -/
theorem descend (h : Invariant a vertices left ⟨unvisited, ⟨v, t :: ts⟩ :: rest, cycles⟩)
    (hn : (a.targets v).Nodup) (ht : t ∈ unvisited) :
    Invariant a vertices left ⟨unvisited.erase t, ⟨t, a.targets t⟩ :: ⟨v, ts⟩ :: rest, cycles⟩ := by
  have hnew : t ∉ v :: rest.map Frame.vertex ++ left := fun hm => h.visited t hm ht
  refine ⟨List.nodup_cons.mpr ⟨hnew, h.nodup⟩, fun x hx => ?_, fun x hx => ?_, ⟨⟨[], rfl, by simp, by simp⟩, fun x _ he => ?_,
    h.looked_next hn (fun _ => id) (fun _ => .inl) (.inr (.inr rfl)) fun x hx => (Option.some.inj hx).symm⟩, h.settled,
    fun e he => List.mem_cons_of_mem _ (h.sources e he), h.cycles, h.distinct⟩
  · rcases List.mem_cons.mp hx with rfl | hx
    · simp
    · exact fun hm => h.visited x hx (Std.TreeSet.mem_of_mem_erase hm)
  · by_cases hxt : x = t
    · exact .inr (by simp [path, hxt])
    · refine (h.known x hx).imp (fun hm => ?_) (List.mem_cons_of_mem _)
      exact Std.TreeSet.mem_erase.mpr ⟨by simpa using Ne.symm hxt, hm⟩
  · exact hnew (h.sources _ he)

/-- A target on the path closes a cycle. -/
theorem close (h : Invariant a vertices left ⟨unvisited, ⟨v, t :: ts⟩ :: rest, cycles⟩)
    (hn : (a.targets v).Nodup) (ht : t ∈ v :: rest.map Frame.vertex) :
    Invariant a vertices left ⟨unvisited, ⟨v, ts⟩ :: rest, cycleTo t (⟨v, ts⟩ :: rest) :: cycles⟩ := by
  have hnew : closingEdge? (cycleTo t (⟨v, ts⟩ :: rest)) = some (v, t) := closingEdge?_cycleTo t ⟨v, ts⟩ rest
  have hclosing : (cycleTo t (⟨v, ts⟩ :: rest) :: cycles).filterMap closingEdge? =
      (v, t) :: cycles.filterMap closingEdge? := List.filterMap_cons_some hnew
  have hfresh : (v, t) ∉ cycles.filterMap closingEdge? := h.looked.2.1 t (by simp)
  have hlead : a.Leads v t := by
    obtain ⟨⟨done, hd, -⟩, -⟩ := h.looked
    simp [Adjacency.Leads, hd]
  refine ⟨h.nodup, h.visited, h.known, ?_, ?_, fun e he => ?_, fun c hc => ?_, ?_⟩
  · rw [closing, hclosing]
    exact h.looked_next hn (fun _ => List.mem_cons_of_mem _) (fun e he => (List.mem_cons.mp he).symm)
      (.inl (by simp)) (by simp)
  · rw [closing, hclosing]
    exact h.settled.mono fun _ => List.mem_cons_of_mem _
  · rw [closing, hclosing] at he
    rcases List.mem_cons.mp he with rfl | he
    · simp [path]
    · exact h.sources e he
  · rcases List.mem_cons.mp hc with rfl | hc
    · exact isSimpleCycle_cycleTo h.looked.isChain.1 (List.nodup_append.mp h.nodup).1 ht hlead
    · exact h.cycles c hc
  · rw [closing, hclosing]
    exact List.nodup_cons.mpr ⟨hfresh, h.distinct⟩

/-- Any other target has been left before. -/
theorem skip (h : Invariant a vertices left ⟨unvisited, ⟨v, t :: ts⟩ :: rest, cycles⟩)
    (hn : (a.targets v).Nodup) (ht : t ∈ left) :
    Invariant a vertices left ⟨unvisited, ⟨v, ts⟩ :: rest, cycles⟩ :=
  ⟨h.nodup, h.visited, h.known, h.looked_next hn (fun _ => id) (fun _ => .inl) (.inr (.inl ht)) (by simp), h.settled,
    h.sources, h.cycles, h.distinct⟩

theorem step {s : Search} (h : Invariant a vertices left s) (hn : ∀ x, (a.targets x).Nodup)
    (hv : ∀ x y, a.Leads x y → y ∈ vertices) : ∃ left', Invariant a vertices left' (s.step a) := by
  obtain ⟨unvisited, frames, cycles⟩ := s
  match frames with
  | [] => exact ⟨left, h⟩
  | ⟨v, []⟩ :: rest => exact ⟨v :: left, h.leave⟩
  | ⟨v, t :: ts⟩ :: rest =>
    refine ⟨left, ?_⟩
    simp only [Search.step]
    split
    · rename_i ht
      exact h.descend (hn v) ht
    · rename_i hu
      split
      · rename_i ht
        exact h.close (hn v) ht
      · rename_i hp
        have hlead : a.Leads v t := by
          obtain ⟨⟨done, hd, -⟩, -⟩ := h.looked
          simp [Adjacency.Leads, hd]
        have hm := (h.known t (hv v t hlead)).resolve_left hu
        exact h.skip (hn v) ((List.mem_append.mp hm).resolve_left hp)

end Invariant

theorem mem_unvisited_of_step {s : Search} {x : String} (h : x ∈ (s.step a).unvisited) : x ∈ s.unvisited := by
  obtain ⟨unvisited, frames, cycles⟩ := s
  match frames with
  | [] => exact h
  | ⟨v, []⟩ :: rest => exact h
  | ⟨v, t :: ts⟩ :: rest =>
    simp only [step] at h
    split at h
    · exact Std.TreeSet.mem_of_mem_erase h
    · split at h <;> exact h

theorem frames_run (s : Search) : (s.run a).frames = [] := by
  fun_induction run a s with
  | case1 s hs => exact hs
  | case2 s _ ih => exact ih

theorem mem_unvisited_of_run {s : Search} {x : String} (h : x ∈ (s.run a).unvisited) : x ∈ s.unvisited := by
  fun_induction run a s with
  | case1 => exact h
  | case2 s _ ih => exact mem_unvisited_of_step (ih h)

theorem Invariant.run {s : Search} (h : Invariant a vertices left s) (hn : ∀ x, (a.targets x).Nodup)
    (hv : ∀ x y, a.Leads x y → y ∈ vertices) : ∃ left', Invariant a vertices left' (s.run a) := by
  fun_induction Search.run a s generalizing left with
  | case1 => exact ⟨left, h⟩
  | case2 s _ ih =>
    obtain ⟨left', h'⟩ := h.step hn hv
    exact ih h'

/-- Between two starts the path is empty. A start visits its vertex and keeps the invariant. -/
theorem Invariant.start {s : Search} (h : Invariant a vertices left s) (hf : s.frames = [])
    (hn : ∀ x, (a.targets x).Nodup) (hv : ∀ x y, a.Leads x y → y ∈ vertices) (v : String) :
    ∃ left', Invariant a vertices left' (s.start a v) ∧ (s.start a v).frames = [] ∧ v ∉ (s.start a v).unvisited ∧
      ∀ x ∈ (s.start a v).unvisited, x ∈ s.unvisited := by
  by_cases hm : v ∈ s.unvisited
  · set s' : Search := { s with unvisited := s.unvisited.erase v, frames := [⟨v, a.targets v⟩] } with hs'
    have hs : s.start a v = s'.run a := by simp [Search.start, hm, hs']
    have hnew : v ∉ left := fun hl => h.visited v (List.mem_append_right _ hl) hm
    have hpath : s.path = [] := by simp [path, hf]
    have h' : Invariant a vertices left s' := by
      refine ⟨List.nodup_cons.mpr ⟨hnew, ?_⟩, fun x hx => ?_, fun x hx => ?_,
        ⟨⟨[], rfl, by simp, by simp⟩, fun x _ he => ?_, trivial⟩, h.settled, fun e he => ?_, h.cycles, h.distinct⟩
      · simpa [hpath] using h.nodup
      · rcases List.mem_cons.mp hx with rfl | hx
        · simp [hs']
        · exact fun hu => h.visited x (List.mem_append_right _ hx) (Std.TreeSet.mem_of_mem_erase hu)
      · by_cases hxv : x = v
        · exact .inr (by simp [path, hs', hxv])
        · refine (h.known x hx).imp (fun hu => ?_) fun hx => ?_
          · exact Std.TreeSet.mem_erase.mpr ⟨by simpa using Ne.symm hxv, hu⟩
          · exact List.mem_cons_of_mem _ (by simpa [hpath] using hx)
      · exact hnew (by simpa [hpath] using h.sources _ he)
      · exact List.mem_cons_of_mem _ (by simpa [hpath] using h.sources e he)
    obtain ⟨left', hl⟩ := h'.run hn hv
    rw [hs]
    refine ⟨left', hl, frames_run s', fun hu => ?_, fun x hx => ?_⟩
    · simpa [hs'] using mem_unvisited_of_run hu
    · exact Std.TreeSet.mem_of_mem_erase (mem_unvisited_of_run hx)
  · have hs : s.start a v = s := by simp [Search.start, hm]
    rw [hs]
    exact ⟨left, h, hf, hm, fun _ => id⟩

theorem Invariant.starts {s : Search} (h : Invariant a vertices left s) (hf : s.frames = [])
    (hn : ∀ x, (a.targets x).Nodup) (hv : ∀ x y, a.Leads x y → y ∈ vertices) (vs : List String) :
    ∃ left', Invariant a vertices left' (vs.foldl (Search.start a) s) ∧ (vs.foldl (Search.start a) s).frames = [] ∧
      ∀ x ∈ (vs.foldl (Search.start a) s).unvisited, x ∈ s.unvisited ∧ x ∉ vs := by
  induction vs generalizing s left with
  | nil => exact ⟨left, h, hf, fun x hx => ⟨hx, by simp⟩⟩
  | cons v vs ih =>
    obtain ⟨left₁, h₁, hf₁, hv₁, hu₁⟩ := h.start hf hn hv v
    obtain ⟨left₂, h₂, hf₂, hu₂⟩ := ih h₁ hf₁
    refine ⟨left₂, h₂, hf₂, fun x hx => ⟨hu₁ x (hu₂ x hx).1, fun hm => ?_⟩⟩
    rcases List.mem_cons.mp hm with rfl | hm
    · exact hv₁ (hu₂ x hx).1
    · exact (hu₂ x hx).2 hm

end Search

end MarkdownTemplates
