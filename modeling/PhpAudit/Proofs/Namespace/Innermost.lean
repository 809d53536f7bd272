import Mathlib.Data.List.Basic
import PhpAudit.Proofs.Tree.Complete

/-!
# The innermost region

The regions of a file are its whole text and what its namespace declarations open. Where the latter do not
overlap, the innermost region at an offset is the declared one around it, and the whole text if there is none
(`innermostIdx?_cons_of_contains`, `innermostIdx?_cons_of_outside`). A position in the list of regions tells a
region from all others, also from those of the same name, and imports are entered by position
(`imports_of_getElem?`).
-/

namespace PhpAudit

/-! ## Spans -/

namespace Namespace

variable {whole s : Span} {spans : List Span} {o k : Nat}

theorem filter_zipIdx_eq_nil (h : ∀ s ∈ spans, s.contains o = false) (k : Nat) :
    (spans.zipIdx k).filter (fun p => p.1.contains o) = [] := by
  rw [List.filter_eq_nil_iff]
  intro p hp
  rw [h p.1 (List.fst_mem_of_mem_zipIdx hp)]
  exact Bool.false_ne_true

theorem innermostIdx?_of_outside (h : ∀ s ∈ spans, s.contains o = false) :
    innermostIdx? spans o = none := by
  simp [innermostIdx?, filter_zipIdx_eq_nil h]

theorem innermostIdx?_cons_of_outside (hwhole : whole.contains o = true)
    (h : ∀ s ∈ spans, s.contains o = false) : innermostIdx? (whole :: spans) o = some 0 := by
  simp [innermostIdx?, hwhole, filter_zipIdx_eq_nil h]

theorem contains_iff : s.contains o = true ↔ s.start ≤ o ∧ o < s.stop := by
  simp [Span.contains]

/-- Among spans that do not overlap, the one around an offset is the only candidate besides the whole. -/
theorem innermostIdx?_cons_of_contains (hdisjoint : spans.Pairwise fun s t => s.stop ≤ t.start)
    (hwhole : whole.contains o = true) (hk : spans[k]? = some s) (hs : s.contains o = true)
    (hlt : s.length < whole.length) : innermostIdx? (whole :: spans) o = some (k + 1) := by
  obtain ⟨hkl, rfl⟩ := List.getElem?_eq_some_iff.1 hk
  obtain ⟨hle, hgt⟩ := contains_iff.1 hs
  have hbefore : ∀ t ∈ spans.take k, t.contains o = false := by
    intro t ht
    obtain ⟨i, hi, rfl⟩ := List.mem_take_iff_getElem.1 ht
    have := List.pairwise_iff_getElem.1 hdisjoint i k (by omega) hkl (by omega)
    simp only [Span.contains, Bool.and_eq_false_iff, decide_eq_false_iff_not]
    omega
  have hbehind : ∀ t ∈ spans.drop (k + 1), t.contains o = false := by
    intro t ht
    obtain ⟨i, hi, rfl⟩ := List.mem_drop_iff_getElem.1 ht
    have := List.pairwise_iff_getElem.1 hdisjoint k (k + 1 + i) hkl (by omega) (by omega)
    simp only [Span.contains, Bool.and_eq_false_iff, decide_eq_false_iff_not]
    omega
  have hfilter : (spans.zipIdx 1).filter (fun p => p.1.contains o) = [(spans[k], k + 1)] := by
    have hsplit : spans.zipIdx 1 = (spans.take k).zipIdx 1 ++
        (spans[k], k + 1) :: (spans.drop (k + 1)).zipIdx (k + 2) := by
      conv_lhs => rw [← List.take_append_drop k spans, List.drop_eq_getElem_cons hkl]
      rw [List.zipIdx_append, List.zipIdx_cons, List.length_take_of_le (Nat.le_of_lt hkl),
        Nat.add_comm 1 k]
    rw [hsplit, List.filter_append, List.filter_cons, if_pos hs, filter_zipIdx_eq_nil hbefore,
      filter_zipIdx_eq_nil hbehind, List.nil_append]
  simp [innermostIdx?, hwhole, hfilter, hlt]

end Namespace

/-! ## Regions by position -/

namespace SourceFile

variable {f : SourceFile}

theorem kind_of_mem_nodesOf {kind : Kind} {n : Node} (h : n ∈ f.nodesOf kind) : n.kind = kind := by
  simpa using (List.mem_filter.1 h).2

theorem Linked.has_of_mem_nodesOf (hf : f.Linked) {kind : Kind} {n : Node}
    (h : n ∈ f.nodesOf kind) : f.Has n :=
  hf.mem_nodes.1 (List.mem_filter.1 h).1

theorem map_span_attach (regions : List Namespace) (imports : List (Nat × Import)) :
    (attach regions imports).map (·.span) = regions.map (·.span) := by
  unfold attach
  rw [List.map_map]
  have hfst : regions.map (·.span) = (regions.zipIdx.map Prod.fst).map (·.span) := by
    rw [List.zipIdx_map_fst]
  rw [hfst, List.map_map]
  rfl

theorem getElem?_attach (regions : List Namespace) (imports : List (Nat × Import)) (i : Nat) :
    (attach regions imports)[i]? = regions[i]?.map fun region =>
      { region with
        imports := (imports.filter fun p =>
          Namespace.innermostIdx? (regions.map (·.span)) p.1 == some i).map (·.2) } := by
  unfold attach
  rw [List.getElem?_map, List.getElem?_zipIdx, Option.map_map]
  simp only [Nat.zero_add, Function.comp_def]

/-- The position of the innermost region at an offset. -/
def regionAt? (f : SourceFile) (offset : Nat) : Option Nat :=
  Namespace.innermostIdx? (f.regions.map (·.span)) offset

namespace Complete

variable (hf : f.Complete)
include hf

theorem namespaceAt?_eq (offset : Nat) :
    f.namespaceAt? offset = (f.regionAt? offset).bind (f.namespaces[·]?) := by
  unfold namespaceAt? Namespace.innermost? regionAt?
  rw [hf.namespaces_eq, map_span_attach]

theorem getElem?_namespaces (i : Nat) :
    f.namespaces[i]? = f.regions[i]?.map fun region =>
      { region with
        imports := (f.imports.filter fun p => f.regionAt? p.1 == some i).map (·.2) } := by
  rw [hf.namespaces_eq, getElem?_attach]
  rfl

/-- A region has the imports whose declarations stand in it. -/
theorem imports_of_getElem? {i : Nat} {ns : Namespace} (h : f.namespaces[i]? = some ns) :
    ns.imports = (f.imports.filter fun p => f.regionAt? p.1 == some i).map (·.2) := by
  rw [hf.getElem?_namespaces] at h
  obtain ⟨region, -, rfl⟩ := Option.map_eq_some_iff.1 h
  rfl

end Complete

end SourceFile

end PhpAudit
