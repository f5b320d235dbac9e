import DepAudit.ProjectFile.Targets
import DepAudit.Proofs.Text.Phrase

/-! The usual layout of a project file, as a writer gives it: an entry a line, ids with a comment
behind them, and the sections of native targets and of target dependencies in two groups, in which they
may be mixed. What is written is well formed by its type: a phrase cannot hold a character that would
end it. -/
namespace DepAudit.ProjectFile.Layout
open Text

/-! Classes of characters. -/

def isNameChar (c : Char) : Bool := isIdentifier c || c == '.'

def isTypeChar (c : Char) : Bool := c.isAlphanum || c == '.' || c == '-'

def isSpoken (c : Char) : Bool := isPlain c || c == ' '

theorem isIdentifier_of_id (c : Char) (id : isIdChar c = true) : isIdentifier c = true := by
  simp only [isIdChar,Bool.or_eq_true,Bool.and_eq_true,decide_eq_true_eq] at id
  rcases id with digit | ⟨low,high⟩
  · simp [isIdentifier,Char.isAlphanum,digit]
  · have upper : c.isUpper = true := by
      simp only [Char.isUpper,decide_eq_true_eq]
      exact ⟨low,Char.le_trans high (by decide)⟩
    simp [isIdentifier,Char.isAlphanum,Char.isAlpha,upper]

theorem isPlain_of_id (c : Char) (id : isIdChar c = true) : isPlain c = true :=
  isPlain_of_identifier c (isIdentifier_of_id c id)

theorem isPlain_of_name (c : Char) (name : isNameChar c = true) : isPlain c = true := by
  rw [isPlain,← isNameChar,name]
  rfl

theorem isPlain_of_type (c : Char) (type : isTypeChar c = true) : isPlain c = true := by
  simp only [isTypeChar,isPlain,isIdentifier,Bool.or_eq_true] at type ⊢
  rcases type with (alphanum | dot) | dash
  · exact .inl (.inl (.inl alphanum))
  · exact .inl (.inr dot)
  · exact .inr dash

theorem isSpoken_of_plain (c : Char) (plain : isPlain c = true) : isSpoken c = true := by
  rw [isSpoken,plain]
  rfl

/-! Entries and sections. -/

inductive Value where
  | word (word : Phrase isPlain)
  | noted (word : Phrase isPlain) (comment : Phrase isSpoken)
  | quoted (word : Phrase isPlain)
  | list (comment : Phrase isSpoken) (ids : List (Phrase isIdChar))

structure Entry where
  key : Phrase isIdentifier
  value : Value

def isaKey : Phrase isIdentifier := ⟨"isa",by decide,by decide⟩

structure Section where
  id : Phrase isIdChar
  comment : Phrase isSpoken
  kind : Phrase isIdentifier
  /-- The entries behind the kind. -/
  entries : List Entry
  kindless : ∀ e ∈ entries, e.key.text ≠ isaKey.text

def remark (comment : Phrase isSpoken) : List Char :=
  "/* ".toList ++ (comment.chars ++ " */".toList)

def note (comment : Phrase isSpoken) : List Char := ' ' :: remark comment

def item (comment : Phrase isSpoken) (id : Phrase isIdChar) : List Char :=
  "\t\t\t\t".toList ++ (id.chars ++ (note comment ++ ",\n".toList))

def Value.chars : Value → List Char
  | word w => w.chars
  | noted w comment => w.chars ++ note comment
  | quoted w => '"' :: (w.chars ++ ['"'])
  | list comment ids => "(\n".toList ++ (ids.flatMap (item comment) ++ "\t\t\t)".toList)

def Entry.chars (indent : List Char) (e : Entry) : List Char :=
  indent ++ (e.key.chars ++ (" = ".toList ++ (e.value.chars ++ ";\n".toList)))

namespace Section

def lines (s : Section) : List Entry :=
  ⟨isaKey,.word (s.kind.widen isPlain_of_identifier)⟩ :: s.entries

def body (s : Section) : List Char :=
  "\n".toList ++ (s.lines.flatMap (Entry.chars ['\t','\t','\t']) ++ "\t\t".toList)

def chars (s : Section) : List Char :=
  "\t\t".toList ++ (s.id.chars ++ (note s.comment ++ (" = \x7b".toList ++ (s.body ++ "\x7d;\n".toList))))

end Section

/-! The whole file. -/

def prologue : List Char :=
  "// !$*UTF8*$!\n\x7b\n".toList ++
  (Entry.chars ['\t'] ⟨⟨"archiveVersion",by decide,by decide⟩,.word ⟨"1",by decide,by decide⟩⟩ ++
  (Entry.chars ['\t'] ⟨⟨"objectVersion",by decide,by decide⟩,.word ⟨"56",by decide,by decide⟩⟩ ++
  ("\tobjects = \x7b\n\n".toList ++
  (remark ⟨"Begin PBXNativeTarget section",by decide,by decide⟩ ++ "\n".toList))))

def middle : List Char :=
  "\n".toList ++
  (remark ⟨"End PBXNativeTarget section",by decide,by decide⟩ ++
  ("\n\n".toList ++
  (remark ⟨"Begin PBXTargetDependency section",by decide,by decide⟩ ++ "\n".toList)))

def epilogue : List Char :=
  "\n".toList ++
  (remark ⟨"End PBXTargetDependency section",by decide,by decide⟩ ++
  ("\n\t\x7d;\n".toList ++
  (Entry.chars ['\t'] ⟨⟨"rootObject",by decide,by decide⟩,
    .noted ⟨"0000000000000000000000FF",by decide,by decide⟩ ⟨"Project object",by decide,by decide⟩⟩ ++
  "\x7d\n".toList)))

def project (front back : List Section) : List Char :=
  prologue ++ (front.flatMap Section.chars ++ (middle ++ (back.flatMap Section.chars ++ epilogue)))

/-! Native targets and target dependencies. -/

structure NativeTarget where
  id : Phrase isIdChar
  name : Phrase isNameChar
  productType : Phrase isTypeChar
  dependencies : List (Phrase isIdChar)

/-- A section that stands for a dependency: its own id, the id of the target it refers to, and the
name in the comment behind that. -/
structure TargetDependency where
  id : Phrase isIdChar
  target : Phrase isIdChar
  name : Phrase isNameChar

def buildPhase : Phrase isIdChar := ⟨"BBBBBBBBBBBBBBBBBBBBBBBB",by decide,by decide⟩

def dependencyComment : Phrase isSpoken := ⟨"PBXTargetDependency",by decide,by decide⟩

def NativeTarget.written (t : NativeTarget) : Section where
  id := t.id
  comment := (t.name.widen isPlain_of_name).widen isSpoken_of_plain
  kind := ⟨"PBXNativeTarget",by decide,by decide⟩
  entries := [
    ⟨⟨"buildConfigurationList",by decide,by decide⟩,
      .noted ⟨"AAAAAAAAAAAAAAAAAAAAAAAA",by decide,by decide⟩
        ⟨"Build configuration list",by decide,by decide⟩⟩,
    ⟨⟨"buildPhases",by decide,by decide⟩,.list ⟨"Sources",by decide,by decide⟩ [buildPhase]⟩,
    ⟨⟨"dependencies",by decide,by decide⟩,.list dependencyComment t.dependencies⟩,
    ⟨⟨"name",by decide,by decide⟩,.word (t.name.widen isPlain_of_name)⟩,
    ⟨⟨"productName",by decide,by decide⟩,.word (t.name.widen isPlain_of_name)⟩,
    ⟨⟨"productType",by decide,by decide⟩,.quoted (t.productType.widen isPlain_of_type)⟩]
  kindless := by simp [isaKey]

def TargetDependency.written (d : TargetDependency) : Section where
  id := d.id
  comment := dependencyComment
  kind := ⟨"PBXTargetDependency",by decide,by decide⟩
  entries := [
    ⟨⟨"target",by decide,by decide⟩,.noted (d.target.widen isPlain_of_id)
      ((d.name.widen isPlain_of_name).widen isSpoken_of_plain)⟩,
    ⟨⟨"targetProxy",by decide,by decide⟩,
      .noted ⟨"CCCCCCCCCCCCCCCCCCCCCCCC",by decide,by decide⟩
        ⟨"PBXContainerItemProxy",by decide,by decide⟩⟩]
  kindless := by simp [isaKey]

inductive Member where
  | target (target : NativeTarget)
  | dependency (dependency : TargetDependency)

namespace Member

def written : Member → Section
  | target t => t.written
  | dependency d => d.written

def target? : Member → Option NativeTarget
  | target t => some t
  | dependency _ => none

def dependency? : Member → Option TargetDependency
  | target _ => none
  | dependency d => some d

end Member

def document (front back : List Member) : String :=
  String.ofList (project (front.map Member.written) (back.map Member.written))

example : project
    [NativeTarget.written ⟨⟨"A1",by decide,by decide⟩,⟨"App.Kit",by decide,by decide⟩,
      ⟨"com.framework",by decide,by decide⟩,[⟨"D1",by decide,by decide⟩]⟩]
    [TargetDependency.written ⟨⟨"D1",by decide,by decide⟩,⟨"B2",by decide,by decide⟩,
      ⟨"Core",by decide,by decide⟩⟩] = List.flatMap String.toList [
  "// !$*UTF8*$!\n",
  "\x7b\n",
  "\tarchiveVersion = 1;\n",
  "\tobjectVersion = 56;\n",
  "\tobjects = \x7b\n",
  "\n",
  "/* Begin PBXNativeTarget section */\n",
  "\t\tA1 /* App.Kit */ = \x7b\n",
  "\t\t\tisa = PBXNativeTarget;\n",
  "\t\t\tbuildConfigurationList = AAAAAAAAAAAAAAAAAAAAAAAA /* Build configuration list */;\n",
  "\t\t\tbuildPhases = (\n",
  "\t\t\t\tBBBBBBBBBBBBBBBBBBBBBBBB /* Sources */,\n",
  "\t\t\t);\n",
  "\t\t\tdependencies = (\n",
  "\t\t\t\tD1 /* PBXTargetDependency */,\n",
  "\t\t\t);\n",
  "\t\t\tname = App.Kit;\n",
  "\t\t\tproductName = App.Kit;\n",
  "\t\t\tproductType = \"com.framework\";\n",
  "\t\t\x7d;\n",
  "\n",
  "/* End PBXNativeTarget section */\n",
  "\n",
  "/* Begin PBXTargetDependency section */\n",
  "\t\tD1 /* PBXTargetDependency */ = \x7b\n",
  "\t\t\tisa = PBXTargetDependency;\n",
  "\t\t\ttarget = B2 /* Core */;\n",
  "\t\t\ttargetProxy = CCCCCCCCCCCCCCCCCCCCCCCC /* PBXContainerItemProxy */;\n",
  "\t\t\x7d;\n",
  "\n",
  "/* End PBXTargetDependency section */\n",
  "\t\x7d;\n",
  "\trootObject = 0000000000000000000000FF /* Project object */;\n",
  "\x7d\n"] := by decide +kernel

end DepAudit.ProjectFile.Layout
