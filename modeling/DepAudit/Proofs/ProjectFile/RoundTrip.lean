import DepAudit.Proofs.ProjectFile.Sections

/-! Reading a written project file gives back the targets that were written. -/
namespace DepAudit.ProjectFile.Layout
open Text

/-- A written target as it is read: each id of a dependency section stands for the target that the
section refers to, any other id for itself. -/
def NativeTarget.target (dependencies : List TargetDependency) (t : NativeTarget) : Target where
  id := t.id.text
  name := t.name.text
  type := .classify (some t.productType.text) (some t.name.text)
  productName := some t.name.text
  productType := some t.productType.text
  dependencies := t.dependencies.map fun id =>
    match dependencies.find? fun d => d.id.text = id.text with
    | some d => d.target.text
    | none => id.text
  buildPhases := [buildPhase.text]

/-! Fields of a section. -/

theorem NativeTarget.value?_name (t : NativeTarget) :
    value? (String.ofList t.written.body) "name" = some t.name.text :=
  t.written.value?_body (e := ⟨⟨"name",by decide,by decide⟩,.word (t.name.widen isPlain_of_name)⟩) rfl rfl

theorem NativeTarget.value?_productName (t : NativeTarget) :
    value? (String.ofList t.written.body) "productName" = some t.name.text :=
  t.written.value?_body
    (e := ⟨⟨"productName",by decide,by decide⟩,.word (t.name.widen isPlain_of_name)⟩) rfl rfl

theorem NativeTarget.value?_productType (t : NativeTarget) :
    value? (String.ofList t.written.body) "productType" = some t.productType.text :=
  t.written.value?_body
    (e := ⟨⟨"productType",by decide,by decide⟩,.quoted (t.productType.widen isPlain_of_type)⟩) rfl rfl

theorem NativeTarget.ids_dependencies (t : NativeTarget) :
    ids (String.ofList t.written.body) "dependencies" = t.dependencies.map Phrase.text :=
  t.written.ids_body
    (e := ⟨⟨"dependencies",by decide,by decide⟩,.list dependencyComment t.dependencies⟩) rfl rfl

theorem NativeTarget.ids_buildPhases (t : NativeTarget) :
    ids (String.ofList t.written.body) "buildPhases" = [buildPhase.text] :=
  t.written.ids_body (e := ⟨⟨"buildPhases",by decide,by decide⟩,
    .list ⟨"Sources",by decide,by decide⟩ [buildPhase]⟩) rfl rfl

theorem TargetDependency.value?_target (d : TargetDependency) :
    value? (String.ofList d.written.body) "target" = some d.target.text :=
  d.written.value?_body (e := ⟨⟨"target",by decide,by decide⟩,.noted (d.target.widen isPlain_of_id)
    ((d.name.widen isPlain_of_name).widen isSpoken_of_plain)⟩) rfl rfl

/-! The members of a file. -/

def targets (members : List Member) : List NativeTarget := members.filterMap Member.target?

def dependencies (members : List Member) : List TargetDependency :=
  members.filterMap Member.dependency?

theorem filter_targets (members : List Member) :
    ((members.map Member.written).filter fun s => s.kind.text = targetKind) =
      (targets members).map NativeTarget.written := by
  induction members with
  | nil => rfl
  | cons member members ih =>
    cases member with
    | target t => exact congrArg (t.written :: ·) ih
    | dependency d => exact ih

theorem filter_dependencies (members : List Member) :
    ((members.map Member.written).filter fun s => s.kind.text = dependencyKind) =
      (dependencies members).map TargetDependency.written := by
  induction members with
  | nil => rfl
  | cons member members ih =>
    cases member with
    | target t => exact ih
    | dependency d => exact congrArg (d.written :: ·) ih

/-- The sections of a kind in a document are those of the members of that kind. -/
theorem sections_document {α : Type} (wanted : Phrase isIdentifier) {front back : List Member}
    {items : List α} {written : α → Section}
    (kept : (((front ++ back).map Member.written).filter fun s => s.kind.text = wanted.text) =
      items.map written)
    (distinct : (items.map fun item => (written item).id.text).Nodup) :
    sections (document front back) wanted.text = items.map fun item => (written item).pair := by
  rw [List.map_append] at kept
  have distinct' : (((front.map Member.written ++ back.map Member.written).filter fun s =>
      s.kind.text = wanted.text).map (·.id.text)).Nodup := by
    rw [kept,List.map_map]
    exact distinct
  rw [document,sections_project wanted _ _ distinct',kept,List.map_map]
  rfl

theorem references_document {front back : List Member}
    (distinct : ((dependencies (front ++ back)).map (·.id.text)).Nodup) :
    references (document front back) =
      (dependencies (front ++ back)).map fun d => (d.id.text,d.target.text) := by
  have found : sections (document front back) dependencyKind =
      (dependencies (front ++ back)).map fun d => d.written.pair :=
    sections_document ⟨dependencyKind,by decide,by decide⟩ (filter_dependencies _) distinct
  rw [references,found,List.filterMap_map,← List.filterMap_eq_map]
  refine List.filterMap_congr fun d _ => ?_
  rw [Function.comp_apply,Section.pair,d.value?_target]
  rfl

theorem get?_references (dependencies : List TargetDependency) (id : String) :
    (Table.get? (dependencies.map fun d => (d.id.text,d.target.text)) id).getD id =
      match dependencies.find? fun d => d.id.text = id with
      | some d => d.target.text
      | none => id := by
  rw [Table.get?_map (fun d : TargetDependency => d.id.text) (fun d => d.target.text)]
  cases dependencies.find? fun d => d.id.text = id <;> rfl

theorem NativeTarget.target?_written (dependencies : List TargetDependency) (t : NativeTarget) :
    target? (dependencies.map fun d => (d.id.text,d.target.text)) t.id.text
      (String.ofList t.written.body) = some (t.target dependencies) := by
  have resolved : ((t.dependencies.map Phrase.text).map fun id =>
      (Table.get? (dependencies.map fun d => (d.id.text,d.target.text)) id).getD id) =
        (t.target dependencies).dependencies := by
    rw [List.map_map]
    exact List.map_congr_left fun id _ => get?_references dependencies id.text
  rw [target?,t.value?_name,t.value?_productName,t.value?_productType,t.ids_dependencies,
    t.ids_buildPhases]
  dsimp only [Option.bind_eq_bind,Option.bind_some]
  rw [resolved]
  rfl

/-- A project file written in the usual layout, its sections in any order and in either group, is read
as exactly the targets that were written: in their order, with their ids, names, product types and
build phases, every dependency resolved through its section where there is one, and nothing skipped. -/
theorem read_document (front back : List Member)
    (targetIds : ((targets (front ++ back)).map (·.id.text)).Nodup)
    (dependencyIds : ((dependencies (front ++ back)).map (·.id.text)).Nodup) :
    read (document front back) targetKind = {
      targets := (targets (front ++ back)).map (·.target (dependencies (front ++ back)))
      sectionsFound := (targets (front ++ back)).length
      skipped := 0 } := by
  have found : sections (document front back) targetKind =
      (targets (front ++ back)).map fun t => t.written.pair :=
    sections_document ⟨targetKind,by decide,by decide⟩ (filter_targets _) targetIds
  have each : ∀ t : NativeTarget, target? (references (document front back)) t.written.pair.1
      t.written.pair.2 = some (t.target (dependencies (front ++ back))) := fun t => by
    rw [references_document dependencyIds]
    exact t.target?_written _
  have read_ : (targets (front ++ back)).filterMap ((fun s => target? (references (document front back))
      s.1 s.2) ∘ fun t => t.written.pair) =
        (targets (front ++ back)).map (·.target (dependencies (front ++ back))) := by
    rw [← List.filterMap_eq_map]
    exact List.filterMap_congr fun t _ => each t
  have named : (targets (front ++ back)).countP ((fun s => (target? (references (document front back))
      s.1 s.2).isNone) ∘ fun t => t.written.pair) = 0 := by
    refine List.countP_eq_zero.mpr fun t _ => ?_
    rw [Function.comp_apply,each t]
    exact Bool.false_ne_true
  rw [read,ofSections,found,List.filterMap_map,List.length_map,List.countP_map,read_,named]

/-- A dependency section in front of the targets, and a product name among the names. -/
theorem mixed_groups_read_back :
    read (document
      [.dependency ⟨⟨"D1",by decide,by decide⟩,⟨"B2",by decide,by decide⟩,⟨"Core",by decide,by decide⟩⟩,
        .target ⟨⟨"A1",by decide,by decide⟩,⟨"productName",by decide,by decide⟩,
          ⟨"com.application",by decide,by decide⟩,
          [⟨"D1",by decide,by decide⟩,⟨"D2",by decide,by decide⟩]⟩]
      [.target ⟨⟨"B2",by decide,by decide⟩,⟨"Core.a",by decide,by decide⟩,⟨"tool",by decide,by decide⟩,
        []⟩]) targetKind = {
      targets := [
        { id := "A1", name := "productName", type := .application
          productName := some "productName", productType := some "com.application"
          dependencies := ["B2","D2"], buildPhases := ["BBBBBBBBBBBBBBBBBBBBBBBB"] },
        { id := "B2", name := "Core.a", type := .library
          productName := some "Core.a", productType := some "tool"
          dependencies := [], buildPhases := ["BBBBBBBBBBBBBBBBBBBBBBBB"] }]
      sectionsFound := 2
      skipped := 0 } :=
  (read_document [_,_] [_] (by decide) (by decide)).trans (by decide +kernel)

end DepAudit.ProjectFile.Layout
