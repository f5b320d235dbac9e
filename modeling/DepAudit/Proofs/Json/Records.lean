import DepAudit.Graph.Basic
import DepAudit.Proofs.Binary64
import DepAudit.Proofs.Json.Alike
import DepAudit.Proofs.Scalar

/-! Graphs and facts are told apart by their records: whichever fields are absent or empty, records that are equal
as data come from equal fields. Doubles are equal as numbers, so the two zeros are one weight. -/
namespace DepAudit
open Json

theorem SourceKind.word_injective : Function.Injective word := by
  have read : ofWord? ∘ word = some := funext fun k => by cases k <;> rfl
  exact .of_comp (read ▸ Option.some_injective _)

theorem NodeKind.word_injective : Function.Injective word := by
  have read : ofWord? ∘ word = some := funext fun k => by cases k <;> rfl
  exact .of_comp (read ▸ Option.some_injective _)

theorem EdgeType.word_injective : Function.Injective word := by
  have read : ofWord? ∘ word = some := funext fun k => by cases k <;> rfl
  exact .of_comp (read ▸ Option.some_injective _)

/-! Records with equal fields, the order of metadata apart. -/

@[mk_iff]
structure Fact.Alike (f k : Fact) : Prop where
  name : f.name = k.name
  version : f.version = k.version
  location : f.location = k.location
  kind : f.kind = k.kind
  metadata : f.metadata.Alike k.metadata
  importCount : f.importCount = k.importCount

@[mk_iff]
structure Node.Alike (n m : Node) : Prop where
  id : n.id = m.id
  name : n.name = m.name
  version : n.version = m.version
  path : n.path = m.path
  kind : n.kind = m.kind
  metadata : n.metadata.Alike m.metadata

@[mk_iff]
structure Edge.Alike (e d : Edge) : Prop where
  source : e.source = d.source
  target : e.target = d.target
  type : e.type = d.type
  weight : e.weight == d.weight
  metadata : e.metadata.Alike d.metadata

@[mk_iff]
structure Graph.Alike (g h : Graph) : Prop where
  nodes : List.Forall₂ Node.Alike g.nodes h.nodes
  edges : List.Forall₂ Edge.Alike g.edges h.edges
  metadata : g.metadata.Alike h.metadata

namespace Fact

variable {f k : Fact}

theorem alike_toJson : f.toJson.Alike k.toJson ↔ f.Alike k := by
  rw [toJson,toJson,alike_record]
  case same => rfl
  case distinct => simp [Table.keys]
  simp [alike_str,rel_strings,rel_ints,Table.rel_toJson?,SourceKind.word_injective.eq_iff,alike_iff]

theorem toJson_inj : f.toJson = k.toJson ↔ f = k := by
  rw [toJson,toJson,record_inj]
  case same => rfl
  case distinct => simp [Table.keys]
  obtain ⟨⟩ := f
  obtain ⟨⟩ := k
  simp [strings_inj,ints_inj,Table.toJson?_inj,SourceKind.word_injective.eq_iff]

end Fact

namespace Node

variable {n m : Node}

theorem alike_toJson : n.toJson.Alike m.toJson ↔ n.Alike m := by
  rw [toJson,toJson,alike_record]
  case same => rfl
  case distinct => simp [Table.keys]
  simp [alike_str,rel_strings,Table.rel_toJson?,NodeKind.word_injective.eq_iff,alike_iff]

theorem toJson_inj : n.toJson = m.toJson ↔ n = m := by
  rw [toJson,toJson,record_inj]
  case same => rfl
  case distinct => simp [Table.keys]
  obtain ⟨⟩ := n
  obtain ⟨⟩ := m
  simp [strings_inj,Table.toJson?_inj,NodeKind.word_injective.eq_iff]

end Node

namespace Edge

variable {e d : Edge}

theorem alike_toJson : e.toJson.Alike d.toJson ↔ e.Alike d := by
  rw [toJson,toJson,alike_record]
  case same => rfl
  case distinct => simp [Table.keys]
  simp [alike_str,alike_float,Table.rel_toJson?,EdgeType.word_injective.eq_iff,alike_iff]

theorem toJson_inj : e.toJson = d.toJson ↔ e = d := by
  rw [toJson,toJson,record_inj]
  case same => rfl
  case distinct => simp [Table.keys]
  obtain ⟨⟩ := e
  obtain ⟨⟩ := d
  simp [Table.toJson?_inj,EdgeType.word_injective.eq_iff]

end Edge

namespace Graph

variable {g h : Graph}

/-- A graph is a record without optional members. -/
theorem toJson_eq_record (g : Graph) : g.toJson = record [("nodes",some (.arr (g.nodes.map Node.toJson))),
    ("edges",some (.arr (g.edges.map Edge.toJson))),("metadata",some g.metadata.toJson)] := rfl

theorem alike_toJson : g.toJson.Alike h.toJson ↔ g.Alike h := by
  rw [toJson_eq_record,toJson_eq_record,alike_record]
  case same => rfl
  case distinct => simp [Table.keys]
  simp [alike_arr,Node.alike_toJson,Edge.alike_toJson,Table.alike_toJson,alike_iff]

theorem toJson_inj : g.toJson = h.toJson ↔ g = h := by
  rw [toJson_eq_record,toJson_eq_record,record_inj]
  case same => rfl
  case distinct => simp [Table.keys]
  have nodes : Function.Injective Node.toJson := fun _ _ => Node.toJson_inj.mp
  have edges : Function.Injective Edge.toJson := fun _ _ => Edge.toJson_inj.mp
  obtain ⟨⟩ := g
  obtain ⟨⟩ := h
  simp [nodes.list_map.eq_iff,edges.list_map.eq_iff,Table.toJson_inj]

theorem alike_self (finite : ∀ e ∈ g.edges, Binary64.isFinite e.weight = true) : g.Alike g where
  nodes := List.forall₂_same.mpr fun _ _ => ⟨rfl,rfl,rfl,rfl,rfl,fun _ => rfl⟩
  edges := List.forall₂_same.mpr fun e member =>
    ⟨rfl,rfl,rfl,Binary64.beq_self_of_isFinite (finite e member),fun _ => rfl⟩
  metadata := fun _ => rfl

end Graph

/-- Graphs have records that are equal as data just if their nodes, edges and metadata are equal in all fields,
the order of metadata apart, and facts likewise; and the same record, order included, comes from one graph
or fact only. With finite weights the record of a graph is equal to itself. -/
theorem told_apart_by_records :
    (∀ g h : Graph, (g.toJson.Alike h.toJson ↔ g.Alike h) ∧ (g.toJson = h.toJson ↔ g = h)) ∧
    (∀ f k : Fact, (f.toJson.Alike k.toJson ↔ f.Alike k) ∧ (f.toJson = k.toJson ↔ f = k)) ∧
    ∀ g : Graph, (∀ e ∈ g.edges, Binary64.isFinite e.weight = true) → g.toJson.Alike g.toJson :=
  ⟨fun _ _ => ⟨Graph.alike_toJson,Graph.toJson_inj⟩,fun _ _ => ⟨Fact.alike_toJson,Fact.toJson_inj⟩,
    fun _ finite => Graph.alike_toJson.mpr (Graph.alike_self finite)⟩

def sparse (metadata : Table String String) : Graph :=
  .build [⟨"app","App",some "",none,.package,[]⟩,⟨"lib","Lib",none,none,.library,metadata⟩]
    [⟨"app","lib",.direct,Scalar.one,[]⟩] []

theorem sparse_told_apart :
    (sparse [("a","1"),("b","2")]).toJson.Alike (sparse [("a","1"),("b","2")]).toJson ∧
    (sparse [("a","1"),("b","2")]).toJson.Alike (sparse [("b","2"),("a","1")]).toJson ∧
    (sparse [("a","1"),("b","2")]).toJson ≠ (sparse [("b","2"),("a","1")]).toJson ∧
    ¬(⟨"lib","",some "",.registry,[],some 0⟩ : Fact).toJson.Alike
      (⟨"lib","",none,.registry,[],none⟩ : Fact).toJson := by
  obtain ⟨graphs,facts,finite⟩ := told_apart_by_records
  have one : Binary64.isFinite Scalar.one = true := by decide +kernel
  have turned : Table.Alike [("a","1"),("b","2")] [("b","2"),("a","1")] := by
    intro key
    by_cases first : "a" = key
    · subst first
      rfl
    · simp [Table.get?,first]
  refine ⟨finite _ ?_,(graphs _ _).1.mpr ⟨?_,?_,fun _ => rfl⟩,?_,?_⟩
  · intro e member
    rw [List.mem_singleton.mp member]
    exact one
  · exact .cons ⟨rfl,rfl,rfl,rfl,rfl,fun _ => rfl⟩ (.cons ⟨rfl,rfl,rfl,rfl,rfl,turned⟩ .nil)
  · exact .cons ⟨rfl,rfl,rfl,Binary64.beq_self_of_isFinite one,fun _ => rfl⟩ .nil
  · intro same
    have nodes := congrArg Graph.nodes ((graphs _ _).2.mp same)
    exact absurd nodes (by decide)
  · intro same
    exact absurd ((facts _ _).1.mp same).location (by decide)

end DepAudit
