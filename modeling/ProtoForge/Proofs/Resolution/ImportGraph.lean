import ProtoForge.Resolution.Request
import Mathlib.Tactic

/-!
# What the graph of imports shows

The graph of a list of files shows every name that is mentioned, files first,
and every import, whether or not the names of the files differ and whether or
not the imports are in the list. This determines the graph.
-/
namespace ProtoForge.Resolution

namespace DependencyGraph

variable {g g' : DependencyGraph} {files : List FileDescriptor}

/-- A node for each name of a file or an import, files first and then the remaining imports, in the
order in which they first occur; and for each import of each file, in order, an edge from its node
to the node of the file. -/
structure IsGraphOf (g : DependencyGraph) (files : List FileDescriptor) : Prop where
  distinct : g.nodes.Nodup
  mem_nodes : ∀ n, n ∈ g.nodes ↔
    n ∈ files.map (·.name) ∨ n ∈ files.flatMap (·.dependencies)
  order : g.nodes = (files.map (·.name)).eraseDups ++
    ((files.flatMap (·.dependencies)).removeAll (files.map (·.name))).eraseDups
  edges : g.edges = files.flatMap fun f => f.dependencies.map fun d =>
    (g.nodes.idxOf d, g.nodes.idxOf f.name)

/-- No name has two positions, so no two nodes have one name. -/
theorem Draft.nodup_nodes (b : Draft) : b.nodes.Nodup := by
  rw [List.nodup_iff_getElem?_ne_getElem?]
  intro i j hij hj hsame
  have hname : b.nodes[j]? = some b.nodes[j] := List.getElem?_eq_getElem hj
  have hsecond := (b.indexed _ _).mpr hname
  have hfirst := (b.indexed _ _).mpr (hsame.trans hname)
  rw [hsecond] at hfirst
  exact absurd (Option.some.inj hfirst) (by omega)

theorem isGraphOf_ofFiles (files : List FileDescriptor) : (ofFiles files).IsGraphOf files where
  distinct := by
    obtain ⟨b, hb, -⟩ := exists_draft files
    rw [hb]
    exact b.nodup_nodes
  mem_nodes n := by rw [nodes_ofFiles, List.mem_eraseDups, List.mem_append]
  order := by rw [nodes_ofFiles, List.eraseDups_append]
  edges := by
    rw [edges_ofFiles, imports, List.map_flatMap]
    simp only [List.map_map, Function.comp_def]

theorem IsGraphOf.unique (h : g.IsGraphOf files) (h' : g'.IsGraphOf files) : g = g' := by
  have hnodes : g.nodes = g'.nodes := h.order.trans h'.order.symm
  have hedges : g.edges = g'.edges := by rw [h.edges, h'.edges, hnodes]
  cases g
  cases g'
  cases hnodes
  cases hedges
  rfl

end DependencyGraph

/-- The graph of a request is built without missing a node, and it is the one graph that shows just
the names and imports of the request's files. -/
theorem CompilationRequest.dependencyGraph_faithful (r : CompilationRequest) :
    DependencyGraph.build? r.files = some r.dependencyGraph ∧
      ∀ g : DependencyGraph, g.IsGraphOf r.files ↔ g = r.dependencyGraph := by
  refine ⟨(Option.some_get _).symm, fun g => ⟨fun hg => ?_, ?_⟩⟩
  · exact hg.unique (DependencyGraph.isGraphOf_ofFiles r.files)
  · rintro rfl
    exact DependencyGraph.isGraphOf_ofFiles r.files

end ProtoForge.Resolution
