import DepAudit.PackageManifest
import DepAudit.Proofs.Outcome
import DepAudit.Proofs.Text.Phrase

/-! Package manifests in their usual form, one declaration behind the other: reading gives back what was
written. An address may hold anything but quotes, also what looks like the end of its declaration or
like another argument. -/
namespace DepAudit.PackageManifest
open Text

def isVersionChar (c : Char) : Bool := c.isAlphanum || c == '.' || c == '+' || c == '-'

inductive Demand where
  | any
  | minimum (version : Phrase isVersionChar)
  | exact (version : Phrase isVersionChar)

structure Written where
  url : Phrase fun c => !isQuote c
  demand : Demand

def labelled (label value : List Char) : List Char := label ++ (' ' :: '"' :: (value ++ ['"']))

namespace Demand

def chars : Demand → List Char
  | any => []
  | minimum version => ", ".toList ++ labelled "from:".toList version.chars
  | exact version => ", ".toList ++ labelled "exact:".toList version.chars

def requirement : Demand → Option String
  | any => none
  | minimum version => some (">=" ++ version.text)
  | exact version => some version.text

end Demand

namespace Written

def opening (w : Written) : List Char :=
  ".package(".toList ++ (labelled "url:".toList w.url.chars ++ w.demand.chars)

def chars (w : Written) : List Char := w.opening ++ [')']

def arguments (w : Written) : Arguments :=
  match w.demand with
  | .any => ⟨w.url.chars,none,none⟩
  | .minimum version => ⟨w.url.chars,some version.chars,none⟩
  | .exact version => ⟨w.url.chars,none,some version.chars⟩

end Written

def document (ws : List Written) : String :=
  String.ofList (",\n".toList.intercalate (ws.map Written.chars))

example : document [⟨⟨"../a",by decide,by decide⟩,.any⟩,
    ⟨⟨"b",by decide,by decide⟩,.minimum ⟨"1.0",by decide,by decide⟩⟩,
    ⟨⟨"c",by decide,by decide⟩,.exact ⟨"2.0",by decide,by decide⟩⟩] =
  ".package(url: \"../a\"),\n.package(url: \"b\", from: \"1.0\"),\n.package(url: \"c\", exact: \"2.0\")" := by
  decide +kernel

/-! Arguments. -/

section

variable {allowed : Char → Bool}

theorem labelled?_labelled (label : List Char) (value : Phrase allowed)
    (quoteless : ∀ c, allowed c = true → isQuote c = false) (back : List Char) :
    labelled? label (labelled label value.chars ++ back) = some (value.chars,back) := by
  have whole : ∀ c ∈ value.chars, (!isQuote c) = true := fun c member => by
    rw [quoteless c (value.sound c member)]
    rfl
  have run : (value.chars ++ '"' :: back).takeWhile (!isQuote ·) = value.chars := by
    rw [List.takeWhile_append_of_pos whole,List.takeWhile_cons_of_neg (by decide),List.append_nil]
  have rest : (value.chars ++ '"' :: back).dropWhile (!isQuote ·) = '"' :: back := by
    rw [List.dropWhile_append_of_pos whole,List.dropWhile_cons_of_neg (by decide)]
  have spelled : labelled label value.chars ++ back =
      label ++ ' ' :: '"' :: (value.chars ++ '"' :: back) := by
    simp [labelled]
  obtain ⟨c,cs,filled,_⟩ := value.exists_cons
  rw [labelled?,spelled,after?_append]
  change quoted? (skipBlanks (' ' :: '"' :: (value.chars ++ '"' :: back))) = _
  rw [skipBlanks_blank (by decide),skipBlanks_cons (by decide),quoted?,if_pos (by decide),run,rest,filled]

/-- An argument is found behind text in which its label does not stand. -/
theorem argument?_append {label front back : List Char} (unclosed : ')' ∉ front) {before : Option Char}
    (misses : Misses (fun _ => labelled? label) before front back) :
    argument? label (front ++ back) = argument? label back := by
  induction front generalizing before with
  | nil => rfl
  | cons c front ih =>
    obtain ⟨visible,later⟩ := not_or.mp (mt List.mem_cons.mpr unclosed)
    have here : labelled? label (c :: (front ++ back)) = none := misses.1
    rw [List.cons_append,argument?,here]
    dsimp only
    rw [if_neg (Ne.symm visible),ih later misses.2]

theorem labelled?_of_after? {label cs : List Char} (unlabelled : after? label cs = none) :
    labelled? label cs = none := by
  rw [labelled?,unlabelled]
  rfl

/-- A mark with a sign that a text lacks does not start in this text, if what follows the text is no part
of the mark. -/
theorem after?_eq_none {mark front back : List Char} {sign stop : Char} (holds : sign ∈ mark)
    (lacks : sign ∉ front) (ends : stop ∉ mark) : after? mark (front ++ stop :: back) = none := by
  cases read : after? mark (front ++ stop :: back) with
  | none => rfl
  | some rest =>
    rcases List.append_eq_append_iff.mp (after?_eq_some.mp read) with ⟨more,rfl,split⟩ | ⟨more,rfl,_⟩
    · cases more with
      | nil => exact absurd (List.append_nil front ▸ holds) lacks
      | cons c more =>
        obtain ⟨rfl,_⟩ := List.cons.inj split
        exact absurd (List.mem_append_right _ (List.mem_cons_self ..)) ends
    · exact absurd (List.mem_append_left _ holds) lacks

/-- A label with a colon does not start inside a quoted text without one. -/
theorem misses_value {label : List Char} (colon : ':' ∈ label) (unquoted : '"' ∉ label)
    (value : Phrase allowed) (plain : allowed ':' = false) (before : Option Char) (back : List Char) :
    Misses (fun _ => labelled? label) before value.chars ('"' :: back) := by
  refine misses_of_suffixes fun _ c rest suffix => labelled?_of_after? ?_
  have lacks : ':' ∉ c :: rest := fun member => by
    have allowed_ := value.sound ':' (suffix.subset member)
    rw [plain] at allowed_
    cases allowed_
  exact after?_eq_none colon lacks unquoted

theorem quoteless_version (c : Char) (version : isVersionChar c = true) : isQuote c = false := by
  have double : c ≠ '"' := ne_of_class version (by decide)
  have single : c ≠ '\'' := ne_of_class version (by decide)
  simp [isQuote,double,single]

theorem quoteless_url (c : Char) (allowed : (!isQuote c) = true) : isQuote c = false := by
  rwa [Bool.not_eq_true'] at allowed

/-! Labels by their first character. -/

section

variable {label : List Char} {m : Char} (starts : label.head? = some m)
include starts

theorem after?_of_head?_ne {c : Char} (other : m ≠ c) (rest : List Char) :
    after? label (c :: rest) = none := by
  obtain ⟨ms,rfl⟩ := List.head?_eq_some_iff.mp starts
  exact after?_of_ne other ms rest

theorem silent_of_head?_not_mem {cs : List Char} (absent : m ∉ cs) :
    Silent (fun _ => labelled? label) cs :=
  silent_of_heads fun _ member _ rest =>
    labelled?_of_after? (after?_of_head?_ne starts (fun same => absent (same ▸ member)) rest)

theorem argument?_labelled (value : Phrase allowed)
    (quoteless : ∀ c, allowed c = true → isQuote c = false) (back : List Char) :
    argument? label (labelled label value.chars ++ back) = some (value.chars,back) := by
  obtain ⟨ms,rfl⟩ := List.head?_eq_some_iff.mp starts
  have read := labelled?_labelled (m :: ms) value quoteless back
  rw [labelled,List.cons_append,List.cons_append] at read ⊢
  rw [argument?,read]

/-- Behind the parenthesis that closes a declaration nothing is looked for. -/
theorem argument?_closed (other : m ≠ ')') (back : List Char) : argument? label (')' :: back) = none := by
  rw [argument?,labelled?_of_after? (after?_of_head?_ne starts other back)]
  exact if_pos rfl

theorem optionalArgument_closed (other : m ≠ ')') (back : List Char) :
    optionalArgument label (')' :: back) = (none,')' :: back) := by
  rw [optionalArgument,argument?_closed starts other]

theorem optionalArgument_labelled (other : m ∉ ", ".toList) (version : Phrase isVersionChar)
    (back : List Char) : optionalArgument label (", ".toList ++ labelled label version.chars ++ back) =
      (some version.chars,back) := by
  have passed := silent_of_head?_not_mem starts other none (labelled label version.chars ++ back)
  rw [optionalArgument,List.append_assoc,argument?_append (by decide) passed,
    argument?_labelled starts version quoteless_version]

end

end

/-- An exact version is not taken for a minimum, even where it reads like the label of one. -/
theorem optionalArgument_exact (version : Phrase isVersionChar) (back : List Char) :
    optionalArgument "from:".toList (", ".toList ++ labelled "exact:".toList version.chars ++ ')' :: back) =
      (none,", ".toList ++ labelled "exact:".toList version.chars ++ ')' :: back) := by
  have starts : "from:".toList.head? = some 'f' := by decide
  have spelled : ", ".toList ++ labelled "exact:".toList version.chars =
      ", exact: \"".toList ++ (version.chars ++ ['"']) := by
    simp [labelled]
  have passed : Misses (fun _ => labelled? "from:".toList) none
      (", exact: \"".toList ++ (version.chars ++ ['"'])) (')' :: back) := by
    refine (silent_of_head?_not_mem starts (by decide) _ _).append
      (Misses.append ?_ (silent_of_head?_not_mem starts (by decide) _ _))
    exact misses_value (by decide) (by decide) version (by decide) _ _
  have unclosed : ')' ∉ ", exact: \"".toList ++ (version.chars ++ ['"']) := by
    simp only [List.mem_append,not_or]
    exact ⟨by decide,fun member => absurd (version.sound ')' member) (by decide),by decide⟩
  rw [optionalArgument,spelled,argument?_append unclosed passed,argument?_closed starts (by decide)]

/-! Declarations. -/

theorem arguments?_eq {cs opened addressed between back url : List Char}
    {minimum exact_ : Option (List Char)}
    (opens : after? ".package(".toList cs = some opened)
    (address : argument? "url:".toList opened = some (url,addressed))
    (from_ : optionalArgument "from:".toList addressed = (minimum,between))
    (only : optionalArgument "exact:".toList between = (exact_,back)) (before : Option Char) :
    arguments? before cs = some (⟨url,minimum,exact_⟩,back) := by
  rw [arguments?,opens]
  dsimp only [Option.bind_eq_bind,Option.bind_some]
  rw [address]
  dsimp only [Option.bind_some]
  rw [from_]
  dsimp only
  rw [only]
  rfl

namespace Written

theorem opening_append (w : Written) (back : List Char) : w.opening ++ back =
    ".package(".toList ++ (labelled "url:".toList w.url.chars ++ (w.demand.chars ++ back)) :=
  (List.append_assoc _ _ back).trans (congrArg _ (List.append_assoc _ _ back))

theorem arguments?_opening (w : Written) (before : Option Char) (back : List Char) :
    arguments? before (w.opening ++ ')' :: back) = some (w.arguments,')' :: back) := by
  obtain ⟨url,demand⟩ := w
  have from_ : "from:".toList.head? = some 'f' := by decide
  have exact_ : "exact:".toList.head? = some 'e' := by decide
  have opens : after? ".package(".toList (opening ⟨url,demand⟩ ++ ')' :: back) =
      some (labelled "url:".toList url.chars ++ (demand.chars ++ ')' :: back)) := by
    rw [opening_append]
    exact after?_append ..
  have address : argument? "url:".toList (labelled "url:".toList url.chars ++ (demand.chars ++ ')' :: back)) =
      some (url.chars,demand.chars ++ ')' :: back) :=
    argument?_labelled (m := 'u') (by decide) url quoteless_url _
  cases demand with
  | any =>
    exact arguments?_eq opens address (optionalArgument_closed from_ (by decide) back)
      (optionalArgument_closed exact_ (by decide) back) before
  | minimum version =>
    exact arguments?_eq opens address (optionalArgument_labelled from_ (by decide) version _)
      (optionalArgument_closed exact_ (by decide) back) before
  | exact version =>
    exact arguments?_eq opens address (optionalArgument_exact version back)
      (optionalArgument_labelled exact_ (by decide) version _) before

theorem allFrom_chars (w : Written) (before : Option Char) (back : List Char) :
    allFrom arguments? before 0 (w.chars ++ back) =
      w.arguments :: allFrom arguments? (behind before w.chars) 0 back := by
  let tail := "package(".toList ++ (labelled "url:".toList w.url.chars ++ w.demand.chars)
  have closed : Misses arguments? (behind (some '.') tail) [')'] back := ⟨rfl,trivial⟩
  have spelled : w.chars ++ back = '.' :: (tail ++ ([')'] ++ back)) :=
    List.append_assoc w.opening [')'] back
  have reads : arguments? before ('.' :: (tail ++ ([')'] ++ back))) = some (w.arguments,[')'] ++ back) :=
    w.arguments?_opening before back
  rw [spelled,allFrom_of_reads reads,allFrom_of_misses closed,← behind_append]
  rfl

end Written

/-- All that a search finds in a document are the arguments of its declarations. -/
theorem all_document (ws : List Written) :
    Text.all arguments? (document ws).toList = ws.map Written.arguments := by
  have from_ (before : Option Char) :
      allFrom arguments? before 0 (",\n".toList.intercalate (ws.map Written.chars)) =
        ws.map Written.arguments := by
    induction ws generalizing before with
    | nil => rfl
    | cons w ws ih =>
      cases ws with
      | nil =>
        have alone := w.allFrom_chars before []
        rw [List.append_nil] at alone
        rw [List.map_singleton,List.intercalate_singleton,alone,allFrom]
        rfl
      | cons next ws =>
        have between (before : Option Char) (back : List Char) : Misses arguments? before ",\n".toList back :=
          ⟨rfl,rfl,trivial⟩
        rw [List.map_cons,List.map_cons,List.intercalate_cons_cons,List.append_assoc,w.allFrom_chars,
          allFrom_of_misses (between _ _)]
        exact congrArg (w.arguments :: ·) (ih _)
  rw [document,String.toList_ofList]
  exact from_ none

structure ReadsAs (w : Written) (d : Declaration) : Prop where
  name : Repository.packageName w.url.text = .ok d.name
  url : d.url = w.url.text
  requirement : d.requirement = w.demand.requirement
  isLocal : d.isLocal = true ↔ w.url.text.toList.head? = some '.' ∨ w.url.text.toList.head? = some '/'

theorem startsWith_singleton (text : String) (c : Char) :
    text.startsWith (String.singleton c) = true ↔ text.toList.head? = some c := by
  rw [String.startsWith_string_iff]
  cases text.toList with
  | nil => simp
  | cons d ds => simp [eq_comm]

theorem Written.url_arguments (w : Written) : w.arguments.url = w.url.chars := by
  rw [arguments]
  split <;> rfl

theorem declaration_eq_ok {w : Written} {d : Declaration} :
    w.arguments.declaration = .ok d ↔ ReadsAs w d := by
  have requirement : w.arguments.requirement = w.demand.requirement := by
    rw [Written.arguments,Arguments.requirement]
    cases w.demand <;> simp [Demand.requirement,Phrase.chars]
  have isLocal : (w.url.text.startsWith "." || w.url.text.startsWith "/") = true ↔
      w.url.text.toList.head? = some '.' ∨ w.url.text.toList.head? = some '/' := by
    rw [Bool.or_eq_true]
    exact or_congr (startsWith_singleton w.url.text '.') (startsWith_singleton w.url.text '/')
  rw [Arguments.declaration,w.url_arguments,Phrase.ofList_chars,bind_eq_ok,requirement]
  constructor
  · rintro ⟨name,named,same⟩
    obtain rfl := Except.ok.inj same
    exact ⟨named,rfl,rfl,isLocal⟩
  · rintro ⟨named,sameUrl,sameRequirement,sameLocal⟩
    refine ⟨d.name,named,congrArg Except.ok ?_⟩
    obtain ⟨name,_,_,local_⟩ := d
    obtain rfl := sameUrl
    obtain rfl := sameRequirement
    rw [Bool.eq_iff_iff.mpr (isLocal.trans sameLocal.symm)]

theorem declarations_document {ws : List Written} {ds : List Declaration} :
    declarations (document ws) = .ok ds ↔ List.Forall₂ ReadsAs ws ds := by
  rw [declarations,all_document,mapM_eq_ok,List.forall₂_map_left_iff]
  simp only [declaration_eq_ok]

/-- A manifest of declarations in their usual form is read as exactly these declarations, in their order,
as soon as their addresses have names: each with its own address and its own version, an address that
starts with a point or a slash as one of this machine. -/
theorem written_declarations_read_back (ws : List Written)
    (named : ∀ w ∈ ws, ∃ name, Repository.packageName w.url.text = .ok name) :
    ∃ ds, declarations (document ws) = .ok ds ∧ List.Forall₂ ReadsAs ws ds := by
  have each : ∀ w ∈ ws, ∃ d, ReadsAs w d := fun w member => by
    obtain ⟨name,read⟩ := named w member
    have url : String.ofList w.arguments.url = w.url.text := by rw [w.url_arguments,Phrase.ofList_chars]
    exact ⟨_,declaration_eq_ok.mp (bind_eq_ok.mpr ⟨name,url ▸ read,rfl⟩)⟩
  obtain ⟨ds,related⟩ := exists_forall₂ each
  exact ⟨ds,declarations_document.mpr related,related⟩

def trickyDeclarations : List Written := [
  ⟨⟨"https://a.b/x) , from: ",by decide,by decide⟩,.any⟩,
  ⟨⟨"./y\nexact:",by decide,by decide⟩,.exact ⟨"from",by decide,by decide⟩⟩,
  ⟨⟨"github.com/z.git",by decide,by decide⟩,.minimum ⟨"1.0.0-rc.1+5",by decide,by decide⟩⟩]

theorem tricky_declarations_read_back :
    (∀ w ∈ trickyDeclarations, ∃ name, Repository.packageName w.url.text = .ok name) ∧
    ∃ ds, declarations (document trickyDeclarations) = .ok ds ∧
      List.Forall₂ ReadsAs trickyDeclarations ds := by
  have named : ∀ w ∈ trickyDeclarations, ∃ name, Repository.packageName w.url.text = .ok name := by
    simp only [trickyDeclarations,List.forall_mem_cons]
    exact ⟨⟨"x) , from: ",by decide +kernel⟩,⟨"yexact:",by decide +kernel⟩,⟨"z",by decide +kernel⟩,
      nofun⟩
  exact ⟨named,written_declarations_read_back trickyDeclarations named⟩

end DepAudit.PackageManifest
