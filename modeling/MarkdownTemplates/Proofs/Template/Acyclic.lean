import MarkdownTemplates.Proofs.Template.FailingWalk

/-!
# Templates that do not lead back to themselves

Where no id leads back to itself, a chain of references comes to no id twice. With every id defined it is then shorter than the
number of definitions, and a limit of that number never ends an expansion. An expansion reports a circular reference only where
some id does lead back to itself.
-/

namespace MarkdownTemplates

open Relation (ReflTransGen TransGen)

namespace Definitions

variable {ds : Definitions} {limit : Nat} {x y : String}

/-- Is everything to which `x` leads defined? -/
def IsClosedFrom (ds : Definitions) (x : String) : Prop := ∀ y, ReflTransGen ds.Uses x y → ds.contains y = true

/-- Does nothing to which `x` leads lead back to itself? -/
def IsAcyclicFrom (ds : Definitions) (x : String) : Prop := ∀ y, ReflTransGen ds.Uses x y → ¬ TransGen ds.Uses y y

theorem Fits.isClosedFrom {depth : Nat} (h : ds.Fits limit depth x) : ds.IsClosedFrom x := h.1

theorem Fits.isAcyclicFrom {depth : Nat} (h : ds.Fits limit depth x) : ds.IsAcyclicFrom x :=
  fun _ hy => h.not_transGen_of_reflTransGen hy

theorem length_lt_size (hc : ds.IsClosedFrom x) (ha : ds.IsAcyclicFrom x) {path : List String}
    (hp : (x :: path).IsChain ds.Uses) : path.length < ds.size := by
  have hpairs : (x :: path).Pairwise (TransGen ds.Uses) :=
    List.isChain_iff_pairwise.mp (hp.imp fun _ _ => TransGen.single)
  have hreach : ∀ z ∈ x :: path, ReflTransGen ds.Uses x z := by
    intro z hz
    rcases List.mem_cons.mp hz with rfl | hz
    · exact .refl
    · exact ((List.pairwise_cons.mp hpairs).1 z hz).to_reflTransGen
  have hnodup : (x :: path).Nodup := by
    refine hpairs.imp_of_mem fun hz _ h => ?_
    rintro rfl
    exact ha _ (hreach _ hz) h
  have hkeys : x :: path ⊆ ds.keys := fun z hz => Dict.mem_keys.mpr (hc z (hreach z hz))
  have hle : (x :: path).length ≤ ds.keys.length := hnodup.length_le_of_subset hkeys
  rwa [Dict.length_keys] at hle

/-- When the limit is at least the number of definitions, it ends no expansion. -/
theorem exists_expand_of_size_le (hl : ds.size ≤ limit) :
    (∃ e, ds.expand limit x = .ok e) ↔ ds.IsClosedFrom x ∧ ds.IsAcyclicFrom x := by
  rw [exists_expand_iff]
  refine ⟨fun hf => ⟨hf.isClosedFrom, hf.isAcyclicFrom⟩, fun ⟨hc, ha⟩ => ⟨hc, fun path hp => ?_⟩⟩
  have hlt := length_lt_size hc ha hp
  omega

variable {p : Problem}

/-- The walk to a circular reference comes back to one of its ids. -/
theorem exists_transGen_of_expand (h : ds.expand limit x = .error p) (hp : p.kind = .circularReference) :
    ∃ y, TransGen ds.Uses y y := by
  obtain ⟨path, last, fault, hw, hf, rfl⟩ := exists_firstWalk_of_expand h
  have hkind := (fault.reports_problem limit path last x).kind_eq.symm.trans hp
  obtain rfl : fault = .circular := ExpansionFault.kind_injective hkind
  exact ⟨last, hw.transGen last hf⟩

end Definitions

end MarkdownTemplates
