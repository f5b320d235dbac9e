import DepAudit.LockFile
import DepAudit.Proofs.Json.Texts
import Mathlib.Data.List.Forall2
import Mathlib.Data.Option.Basic

/-! What the pins of a lock file are read as. Each entry is read on its own, whatever stands around it,
and a pin says the same in either generation of the format. -/
namespace DepAudit.LockFile

/-- A document is read as this lock file, and so is every text that holds it. -/
def Accepts (document : Json) (file : LockFile) : Prop :=
  ofJson document = .ok file ∧
    ∀ text path, Json.read text = .ok document → read text path = .ok file

theorem accepts_of_ofJson {document : Json} {file : LockFile} (accepted : ofJson document = .ok file) :
    Accepts document file := by
  refine ⟨accepted,fun text path holds => ?_⟩
  rw [read,holds]
  change (ofJson document).mapError _ = _
  rw [accepted]
  rfl

/-- A text holds the document, and is read as this lock file, where the document is within the limits of the
reader: nested no deeper than it goes, with integers of no more than 4300 digits. -/
theorem Accepts.exists_text {document : Json} {file : LockFile} (accepts : Accepts document file)
    (within : document.Within Json.maxDepth) : ∃ text, ∀ path, read text path = .ok file := by
  obtain ⟨text,holds⟩ := Json.exists_read_iff.mpr within
  exact ⟨text,fun path => accepts.2 text path holds⟩

/-! Texts of a member. -/

theorem text?_of_get? {v : Json} {name s : String} (known : v.get? name = some (.str s))
    (filled : s ≠ "") : text? v name = some s := by
  rw [text?,known]
  exact if_neg fun empty => filled (String.isEmpty_iff.mp empty)

theorem ne_empty_of_text? {v : Json} {name s : String} (known : text? v name = some s) : s ≠ "" := by
  rw [text?] at known
  split at known
  · split at known
    · cases known
    · rename_i filled
      obtain rfl := Option.some.inj known
      exact fun empty => filled (String.isEmpty_iff.mpr empty)
  · cases known

/-! Single pins. -/

/-- A pin has a fact where it has a name and a location. -/
theorem pinFact?_eq_some {pin : Json} {f : Fact} : pinFact? pin = some f ↔ ∃ name location,
    (text? pin "package" <|> text? pin "identity") = some name ∧
    (text? pin "location" <|> text? (stateOf pin) "location") = some location ∧
    f = { name, version := versionOf (stateOf pin), location := some location
          kind := .ofLocation location, metadata := metadataOf pin (stateOf pin)
          importCount := none } := by
  rw [pinFact?]
  constructor
  · intro accepted
    obtain ⟨name,named,rest⟩ := Option.bind_eq_some_iff.mp accepted
    obtain ⟨location,located,same⟩ := Option.bind_eq_some_iff.mp rest
    exact ⟨name,location,named,located,(Option.some.inj same).symm⟩
  · rintro ⟨name,location,named,located,rfl⟩
    exact Option.bind_eq_some_iff.mpr ⟨name,named,Option.bind_eq_some_iff.mpr ⟨location,located,rfl⟩⟩

theorem pinLocal?_eq_some {pin : Json} {d : LocalDependency} : pinLocal? pin = some d ↔
    text? pin "package" = some d.name ∧ text? (stateOf pin) "location" = some d.path ∧
      isLocalPath d.path = true := by
  rw [pinLocal?]
  constructor
  · intro accepted
    obtain ⟨name,named,rest⟩ := Option.bind_eq_some_iff.mp accepted
    obtain ⟨location,located,rest⟩ := Option.bind_eq_some_iff.mp rest
    obtain ⟨_,isLocal,same⟩ := Option.bind_eq_some_iff.mp rest
    obtain rfl := Option.some.inj same
    exact ⟨named,located,(Option.guard_eq_some' _).mp isLocal⟩
  · rintro ⟨named,located,isLocal⟩
    refine Option.bind_eq_some_iff.mpr ⟨_,named,Option.bind_eq_some_iff.mpr ⟨_,located,?_⟩⟩
    exact Option.bind_eq_some_iff.mpr ⟨(),(Option.guard_eq_some' _).mpr isLocal,rfl⟩

theorem orElse_ne_empty {v w : Json} {name other s : String}
    (known : (text? v name <|> text? w other) = some s) : s ≠ "" := by
  rcases (Option.orElse_eq_some _ _ _).mp known with first | ⟨_,second⟩
  · exact ne_empty_of_text? first
  · exact ne_empty_of_text? second

theorem filled_of_pinFact? {pin : Json} {f : Fact} (accepted : pinFact? pin = some f) :
    f.name ≠ "" ∧ ∃ location, f.location = some location ∧ location ≠ "" := by
  obtain ⟨name,location,named,located,rfl⟩ := pinFact?_eq_some.mp accepted
  exact ⟨orElse_ne_empty named,location,rfl,orElse_ne_empty located⟩

/-- A pin that is listed as local also has a fact, of the same name. -/
theorem exists_fact_of_local {pin : Json} {d : LocalDependency} (listed : pinLocal? pin = some d) :
    ∃ f, pinFact? pin = some f ∧ f.name = d.name := by
  obtain ⟨named,located,_⟩ := pinLocal?_eq_some.mp listed
  have name : (text? pin "package" <|> text? pin "identity") = some d.name := by
    rw [named]
    rfl
  obtain ⟨location,own⟩ : ∃ location,
      (text? pin "location" <|> text? (stateOf pin) "location") = some location := by
    rw [located]
    cases text? pin "location" with
    | none => exact ⟨_,rfl⟩
    | some location => exact ⟨location,rfl⟩
  exact ⟨_,pinFact?_eq_some.mpr ⟨_,_,name,own,rfl⟩,rfl⟩

/-! Lists of pins. -/

def listing (entries : List Json) : Json := .obj [("pins",.arr entries)]

theorem accepts_listing (entries : List Json) : Accepts (listing entries) (ofPins entries) :=
  accepts_of_ofJson rfl

/-- The list and the document around it are two levels of those that the reader goes down. -/
theorem within_listing {entries : List Json} (within : ∀ entry ∈ entries, entry.Within (Json.maxDepth - 2)) :
    (listing entries).Within Json.maxDepth := by
  change Json.Within (988 + 1 + 1) (.obj [("pins",.arr entries)])
  refine ⟨List.nodup_singleton _,List.forall_mem_singleton.mpr ?_⟩
  exact within

def append (f g : LockFile) : LockFile :=
  ⟨f.facts ++ g.facts,f.locals ++ g.locals,f.skipped + g.skipped⟩

theorem ofPins_append (first second : List Json) :
    ofPins (first ++ second) = (ofPins first).append (ofPins second) := by
  rw [ofPins,List.filterMap_append,List.filterMap_append,List.countP_append]
  rfl

/-- What is taken of a list's pins stands in the order of the pins. -/
theorem flatMap_ofPins {α : Type} {part : LockFile → List α}
    (parts : ∀ f g, part (f.append g) = part f ++ part g) (none : part (ofPins []) = [])
    (entries : List Json) :
    part (ofPins entries) = (entries.map fun entry => ofPins [entry]).flatMap part := by
  induction entries with
  | nil => exact none
  | cons entry entries ih =>
    rw [List.map_cons,List.flatMap_cons,← ih,← parts,← ofPins_append,List.singleton_append]

/-- How the entries of a list were read: what each gives on its own stands in their order, each is a fact
or was skipped, and a local one has a fact as well. -/
structure ReadApart (entries : List Json) (file : LockFile) (parts : List LockFile) : Prop where
  alone : List.Forall₂ (fun entry part => Accepts (listing [entry]) part) entries parts
  facts_eq : file.facts = parts.flatMap facts
  locals_eq : file.locals = parts.flatMap locals
  counted : file.facts.length + file.skipped = entries.length
  filled : ∀ f ∈ file.facts, f.name ≠ "" ∧ ∃ location, f.location = some location ∧ location ≠ ""
  kept : ∀ part ∈ parts, ∀ d ∈ part.locals, ∃ f, part.facts = [f] ∧ f.name = d.name ∧ part.skipped = 0

theorem readApart_ofPins (entries : List Json) :
    ReadApart entries (ofPins entries) (entries.map fun entry => ofPins [entry]) where
  alone := by
    rw [List.forall₂_map_right_iff]
    exact List.forall₂_same.mpr fun entry _ => accepts_listing [entry]
  facts_eq := flatMap_ofPins (fun _ _ => rfl) rfl entries
  locals_eq := flatMap_ofPins (fun _ _ => rfl) rfl entries
  counted := length_filterMap_add_countP pinFact? entries
  filled f member := by
    obtain ⟨pin,_,accepted⟩ := List.mem_filterMap.mp member
    exact filled_of_pinFact? accepted
  kept part member d listed := by
    obtain ⟨entry,_,rfl⟩ := List.mem_map.mp member
    obtain ⟨pin,own,isLocal⟩ := List.mem_filterMap.mp listed
    obtain rfl := List.mem_singleton.mp own
    obtain ⟨f,accepted,named⟩ := exists_fact_of_local isLocal
    refine ⟨f,?_,named,?_⟩ <;> simp [ofPins,accepted]

/-- Pins are read independently of each other and none is lost: a longer list is read as its parts are,
down to the single entries, each of which is a fact with a name and a location or was skipped, and no
local pin was skipped. -/
theorem pins_are_read_apart (first second : List Json) : ∃ (a b : LockFile) (parts : List LockFile),
    Accepts (listing first) a ∧ Accepts (listing second) b ∧
      Accepts (listing (first ++ second)) (a.append b) ∧ ReadApart first a parts := by
  refine ⟨ofPins first,ofPins second,_,accepts_listing first,accepts_listing second,?_,
    readApart_ofPins first⟩
  rw [← ofPins_append]
  exact accepts_listing (first ++ second)

def sharedPin : Json :=
  .obj [("package",.str "Shared"),("state",.obj [("location",.str "../Shared")])]

/-- A local pin beside a number: the text that lists both is read as the two lists are. -/
theorem local_pin_and_number_are_read_apart : ∃ a b : LockFile,
    read "\x7b\"pins\":[\x7b\"package\":\"Shared\",\"state\":\x7b\"location\":\"../Shared\"\x7d\x7d,1]\x7d" none =
      .ok (a.append b) ∧ a.facts.map Fact.name = ["Shared"] ∧ a.locals = [⟨"Shared","../Shared"⟩] ∧
        a.skipped = 0 ∧ b.facts = [] ∧ b.skipped = 1 := by
  obtain ⟨a,b,parts,first,second,both,apart⟩ := pins_are_read_apart [sharedPin] [.int 1]
  obtain rfl := Except.ok.inj (first.1.symm.trans (accepts_listing [sharedPin]).1)
  obtain rfl := Except.ok.inj (second.1.symm.trans (accepts_listing [.int 1]).1)
  exact ⟨_,_,both.2 _ none (Json.read_eq_ok_of_isSame (by decide +kernel)),by decide +kernel,
    by decide +kernel,by decide +kernel,by decide +kernel,by decide +kernel⟩

/-! The two generations. -/

/-- What a document of either generation tells of a pin: a name, a location, and a state that holds no
location of its own. -/
structure Pinned where
  name : String
  location : String
  state : List (String × Json)
  named : name ≠ ""
  located : location ≠ ""
  unplaced : state.lookup "location" = none

namespace Pinned

def older (p : Pinned) : Json :=
  .obj [("package",.str p.name),("state",.obj (p.state ++ [("location",.str p.location)]))]

def newer (p : Pinned) : Json :=
  .obj [("identity",.str p.name),("location",.str p.location),("state",.obj p.state)]

def fact (p : Pinned) : Fact where
  name := p.name
  version := versionOf (.obj p.state)
  location := some p.location
  kind := .ofLocation p.location
  metadata := metadataOf .null (.obj p.state)
  importCount := none

theorem get?_older_state (p : Pinned) {member : String} (other : member ≠ "location") :
    Json.get? member (.obj (p.state ++ [("location",.str p.location)])) =
      Json.get? member (.obj p.state) := by
  have last : List.lookup member [("location",Json.str p.location)] = none := by
    rw [List.lookup_cons,beq_eq_false_iff_ne.mpr other]
    rfl
  rw [Json.get?,Json.get?,List.lookup_append,last,Option.or_none]

theorem text?_older_state (p : Pinned) {member : String} (other : member ≠ "location") :
    text? (.obj (p.state ++ [("location",.str p.location)])) member = text? (.obj p.state) member := by
  rw [text?,text?,p.get?_older_state other]

theorem versionOf_older_state (p : Pinned) :
    versionOf (.obj (p.state ++ [("location",.str p.location)])) = versionOf (.obj p.state) := by
  rw [versionOf,versionOf,p.text?_older_state (by decide),p.text?_older_state (by decide),
    p.text?_older_state (by decide)]

theorem metadataOf_older_state (p : Pinned) :
    metadataOf p.older (.obj (p.state ++ [("location",.str p.location)])) =
      metadataOf .null (.obj p.state) := by
  rw [metadataOf,metadataOf,branchOf?,branchOf?,p.text?_older_state (by decide),
    p.text?_older_state (by decide),p.text?_older_state (by decide)]
  rfl

theorem location_older (p : Pinned) : text? (stateOf p.older) "location" = some p.location := by
  refine text?_of_get? ?_ p.located
  change List.lookup "location" (p.state ++ [("location",.str p.location)]) = _
  rw [List.lookup_append,p.unplaced]
  rfl

theorem package_older (p : Pinned) : text? p.older "package" = some p.name :=
  text?_of_get? rfl p.named

theorem pinFact?_older (p : Pinned) : pinFact? p.older = some p.fact := by
  refine pinFact?_eq_some.mpr ⟨p.name,p.location,?_,?_,?_⟩
  · rw [p.package_older]
    rfl
  · rw [p.location_older]
    rfl
  · have state : stateOf p.older = .obj (p.state ++ [("location",.str p.location)]) := rfl
    rw [state,p.versionOf_older_state,p.metadataOf_older_state]
    rfl

theorem pinFact?_newer (p : Pinned) : pinFact? p.newer = some p.fact := by
  have identity : text? p.newer "identity" = some p.name := text?_of_get? rfl p.named
  have location : text? p.newer "location" = some p.location := text?_of_get? rfl p.located
  refine pinFact?_eq_some.mpr ⟨p.name,p.location,?_,?_,rfl⟩
  · rw [identity]
    rfl
  · rw [location]
    rfl

theorem pinLocal?_older (p : Pinned) :
    pinLocal? p.older = if isLocalPath p.location then some ⟨p.name,p.location⟩ else none := by
  rw [pinLocal?,p.package_older,p.location_older]
  cases isLocal : isLocalPath p.location <;> simp [isLocal]

/-- Pins that are written so that none is skipped. -/
theorem ofPins_map {written : Pinned → Json} (accepted : ∀ p, pinFact? (written p) = some p.fact)
    (pins : List Pinned) : ofPins (pins.map written) = {
      facts := pins.map fact
      locals := pins.filterMap fun p => pinLocal? (written p)
      skipped := 0 } := by
  have facts : pins.filterMap (pinFact? ∘ written) = pins.map fact := by
    rw [← List.filterMap_eq_map]
    exact List.filterMap_congr fun p _ => accepted p
  have skipped : pins.countP ((fun entry => (pinFact? entry).isNone) ∘ written) = 0 := by
    refine List.countP_eq_zero.mpr fun p _ => ?_
    rw [Function.comp_apply,accepted]
    exact Bool.false_ne_true
  rw [ofPins,List.filterMap_map,List.filterMap_map,List.countP_map,facts,skipped]
  rfl

theorem locals_older (pins : List Pinned) : pins.filterMap (fun p => pinLocal? p.older) =
    (pins.filter fun p => isLocalPath p.location).map fun p => ⟨p.name,p.location⟩ := by
  induction pins with
  | nil => rfl
  | cons p pins ih =>
    rw [List.filterMap_cons,List.filter_cons,p.pinLocal?_older,ih]
    cases isLocalPath p.location <;> rfl

end Pinned

def olderDocument (pins : List Pinned) : Json :=
  .obj [("object",.obj [("pins",.arr (pins.map Pinned.older))])]

def newerDocument (pins : List Pinned) : Json := listing (pins.map Pinned.newer)

/-- Both generations say the same of every pin, and no pin is skipped. Only the older one lists those
again that lie at a path of the file system. -/
theorem generations_agree (pins : List Pinned) :
    Accepts (olderDocument pins) {
      facts := pins.map Pinned.fact
      locals := (pins.filter fun p => isLocalPath p.location).map fun p => ⟨p.name,p.location⟩
      skipped := 0 } ∧
    Accepts (newerDocument pins) { facts := pins.map Pinned.fact, locals := [], skipped := 0 } := by
  have older : ofJson (olderDocument pins) = .ok (ofPins (pins.map Pinned.older)) := rfl
  have newer : ofJson (newerDocument pins) = .ok (ofPins (pins.map Pinned.newer)) := rfl
  have none : pins.filterMap (fun p => pinLocal? p.newer) = [] :=
    List.filterMap_eq_nil_iff.mpr fun p _ => rfl
  rw [Pinned.ofPins_map Pinned.pinFact?_older,Pinned.locals_older] at older
  rw [Pinned.ofPins_map Pinned.pinFact?_newer,none] at newer
  exact ⟨accepts_of_ofJson older,accepts_of_ofJson newer⟩

/-! Texts of both generations, where what the states hold is within the limits of the reader. -/

theorem exists_older_text {pins : List Pinned} (distinct : ∀ p ∈ pins, (Table.keys p.state).Nodup)
    (within : ∀ p ∈ pins, ∀ m ∈ p.state, m.2.Within (Json.maxDepth - 5)) :
    ∃ text, Json.read text = .ok (olderDocument pins) := by
  refine Json.exists_read_iff.mpr ?_
  change Json.Within (985 + 1 + 1 + 1 + 1 + 1) (.obj [("object",.obj [("pins",.arr (pins.map Pinned.older))])])
  refine ⟨List.nodup_singleton _,List.forall_mem_singleton.mpr ⟨List.nodup_singleton _,
    List.forall_mem_singleton.mpr (List.forall_mem_map.mpr fun p listed => ⟨?_,?_⟩)⟩⟩
  · exact (by decide : ["package","state"].Nodup)
  have placed : (Table.keys (p.state ++ [("location",Json.str p.location)])).Nodup := by
    rw [Table.keys,List.map_append,List.map_singleton,List.nodup_append]
    refine ⟨distinct p listed,List.nodup_singleton _,fun name known other last => ?_⟩
    obtain rfl := List.mem_singleton.mp last
    rintro rfl
    obtain ⟨m,member,same⟩ := List.mem_map.mp known
    have other := List.lookup_eq_none_iff.mp p.unplaced m member
    exact absurd same.symm (by simpa using other)
  have inner : ∀ m ∈ p.state ++ [("location",Json.str p.location)], m.2.Within 985 :=
    List.forall_mem_append.mpr ⟨within p listed,List.forall_mem_singleton.mpr (Json.within_str ..)⟩
  exact List.forall_mem_cons.mpr ⟨Json.within_str ..,List.forall_mem_singleton.mpr ⟨placed,inner⟩⟩

theorem exists_newer_text {pins : List Pinned} (distinct : ∀ p ∈ pins, (Table.keys p.state).Nodup)
    (within : ∀ p ∈ pins, ∀ m ∈ p.state, m.2.Within (Json.maxDepth - 4)) :
    ∃ text, Json.read text = .ok (newerDocument pins) := by
  refine Json.exists_read_iff.mpr (within_listing (List.forall_mem_map.mpr fun p listed => ?_))
  change Json.Within (986 + 1 + 1) p.newer
  have state : Json.Within (986 + 1) (.obj p.state) := ⟨distinct p listed,within p listed⟩
  exact ⟨(by decide : ["identity","location","state"].Nodup),List.forall_mem_cons.mpr
    ⟨Json.within_str ..,List.forall_mem_cons.mpr ⟨Json.within_str ..,List.forall_mem_singleton.mpr state⟩⟩⟩

def mixedPins : List Pinned := [
  ⟨"Kit","../Kit",[("version",.null),("revision",.str "0123456789")],by decide,by decide,rfl⟩,
  ⟨"Net","https://a/Net",[("branch",.str "main")],by decide,by decide,rfl⟩]

def mixedFacts : List Fact := [
  { name := "Kit", version := "revision: 0123456", location := some "../Kit", kind := .registry
    metadata := [("revision","0123456789")], importCount := none },
  { name := "Net", version := "branch: main", location := some "https://a/Net", kind := .sourceControl
    metadata := [("branch","main")], importCount := none }]

theorem mixed_pins_agree_in_texts :
    read ("\x7b\"object\":\x7b\"pins\":[\x7b\"package\":\"Kit\",\"state\":" ++
      "\x7b\"version\":null,\"revision\":\"0123456789\",\"location\":\"../Kit\"\x7d\x7d," ++
      "\x7b\"package\":\"Net\",\"state\":" ++
      "\x7b\"branch\":\"main\",\"location\":\"https://a/Net\"\x7d\x7d]\x7d\x7d") none =
        .ok ⟨mixedFacts,[⟨"Kit","../Kit"⟩],0⟩ ∧
    read ("\x7b\"pins\":[\x7b\"identity\":\"Kit\",\"location\":\"../Kit\",\"state\":" ++
      "\x7b\"version\":null,\"revision\":\"0123456789\"\x7d\x7d," ++
      "\x7b\"identity\":\"Net\",\"location\":\"https://a/Net\",\"state\":" ++
      "\x7b\"branch\":\"main\"\x7d\x7d]\x7d") none = .ok ⟨mixedFacts,[],0⟩ := by
  obtain ⟨older,newer⟩ := generations_agree mixedPins
  exact ⟨(older.2 _ none (Json.read_eq_ok_of_isSame (by decide +kernel))).trans (by decide +kernel),
    (newer.2 _ none (Json.read_eq_ok_of_isSame (by decide +kernel))).trans (by decide +kernel)⟩

end DepAudit.LockFile
