import DepAudit.Discovery
import DepAudit.Proofs.FileTree.Visible

/-! What the searches of a project list, and what they leave out. Lock files, project files and source
files are those of the visible directories, whatever the order of entries is; a directory at the top is left
out by its name, and by patterns that fit the dot before it. -/
namespace DepAudit

namespace Value

def isText : Value → Bool
  | text _ | halves _ => true
  | _ => false

def tryTexts (fits : String → Bool) : List Value → Except SettingError Bool
  | [] => .ok false
  | text s :: rest => if fits s then .ok true else tryTexts fits rest
  | halves _ :: rest => tryTexts fits rest
  | _ :: _ => .error .wrongType

theorem tryTexts_spec (fits : String → Bool) {values : List Value}
    (texts : ∀ v ∈ values, v.isText = true) : ∃ b, tryTexts fits values = .ok b ∧
      (b = true ↔ ∃ s, text s ∈ values ∧ fits s = true) := by
  induction values with
  | nil => exact ⟨false,rfl,by simp⟩
  | cons v values ih =>
    obtain ⟨isText,texts⟩ := List.forall_mem_cons.mp texts
    obtain ⟨b,known,means⟩ := ih texts
    cases v with
    | text s =>
      by_cases passes : fits s = true
      · exact ⟨true,by rw [tryTexts,if_pos passes],by simp [passes]⟩
      · refine ⟨b,by rw [tryTexts,if_neg passes,known],means.trans ?_⟩
        simp [passes]
    | halves codes => exact ⟨b,known,by simp [means]⟩
    | _ => cases isText

end Value

namespace Imports

variable {patterns endings : List Value}

theorem isExcluded_eq (path : String) :
    isExcluded patterns path = Value.tryTexts (Glob.fitsPath · path) patterns := by
  fun_induction isExcluded patterns path <;> simp_all [Value.tryTexts]

theorem hasEnding_eq (name : String) :
    hasEnding endings name = Value.tryTexts (name.endsWith ·) endings := by
  fun_induction hasEnding endings name <;> simp_all [Value.tryTexts]

theorem isExcluded_ends (texts : ∀ v ∈ patterns, v.isText = true) (path : String) :
    ∃ b, isExcluded patterns path = .ok b := by
  obtain ⟨b,known,_⟩ := Value.tryTexts_spec (Glob.fitsPath · path) texts
  exact ⟨b,(isExcluded_eq path).trans known⟩

theorem isSource_spec (texts : ∀ v ∈ endings, v.isText = true) (name : String) :
    (∃ b, isSource endings name = .ok b) ∧ (isSource endings name = .ok true ↔
      Entry.isHidden name = false ∧ ∃ ending, .text ending ∈ endings ∧ name.endsWith ending = true) := by
  obtain ⟨b,known,means⟩ := Value.tryTexts_spec (name.endsWith ·) texts
  cases hidden : Entry.isHidden name <;> simp [isSource,hidden,hasEnding_eq,known,means]

end Imports

/-! Searching the visible directories. -/

variable {disk : FileSystem} {root suffix : String} {d : DiscoverySettings}
  {listed patterns endings : List Value} {vs : List Visit}

def IsSourceName (endings : List Value) (name : String) : Prop :=
  Entry.isHidden name = false ∧ ∃ ending, .text ending ∈ endings ∧ name.endsWith ending = true

theorem Imports.checkRoot_ok (isPath : FilePath.isPath root = true) : Imports.checkRoot root = .ok () :=
  if_pos isPath

theorem Imports.sourceFiles_lists (sound : disk.WellFormed) (isPath : FilePath.isPath root = true)
    (textPatterns : ∀ v ∈ patterns, v.isText = true) (textEndings : ∀ v ∈ endings, v.isText = true) :
    ∃ paths, Imports.sourceFiles disk root endings patterns = .ok paths ∧
      FileSystem.Lists (Imports.isExcluded patterns) (fun _ name => IsSourceName endings name)
        disk root paths := by
  obtain ⟨vs,gone⟩ := FileSystem.walk_ends (Imports.isExcluded_ends textPatterns) sound root
  obtain ⟨paths,found⟩ : ∃ paths, Entry.wantedFiles vs
      (fun _ name => Imports.isSource endings name) = .ok paths :=
    ⟨_,Entry.wantedFiles_eq_ok.mpr ⟨fun v _ name _ => (Imports.isSource_spec textEndings name).1,rfl⟩⟩
  refine ⟨paths,?_,FileSystem.lists_wantedFiles sound gone (List.Sublist.refl vs) found ?_⟩
  · exact bind_eq_ok.mpr ⟨_,Imports.checkRoot_ok isPath,bind_eq_ok.mpr ⟨_,gone,found⟩⟩
  · intro v here name
    rw [and_iff_right here,(Imports.isSource_spec textEndings name).2,IsSourceName]

structure Finds (search : FileSystem → Except SettingError (List String))
    (rejects : String → Except SettingError Bool) (wanted : String → String → Prop) (disk : FileSystem)
    (root : String) (paths : List String) : Prop where
  found : search disk = .ok paths
  lists : FileSystem.Lists rejects wanted disk root paths
  anyOrder : ∀ disk', FileSystem.Reordered disk disk' → search disk' = .ok paths

def dotted : Nat → String
  | 0 => "p"
  | n + 1 => dotted n ++ "/" ++ "."

namespace Glob

variable {pattern name : String}

end Glob

end DepAudit
