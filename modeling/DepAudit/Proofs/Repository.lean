import DepAudit.Proofs.Text.Slices
import DepAudit.Repository

/-! Names of packages against the names of their repositories. Where an address names the one host whose
addresses are cut by slashes alone, the name loses every `.git` in it, elsewhere only the one at its end. -/
namespace DepAudit

open Text

namespace Address

variable {host : List Char}

theorem splitHost_slash (unended : ∀ c ∈ host, endsHost c = false) (cs : List Char) :
    splitHost ('/' :: '/' :: (host ++ '/' :: cs)) = (host,'/' :: cs) := by
  have whole : ∀ c ∈ host, (!endsHost c) = true := fun c member => by rw [unended c member]; rfl
  rw [splitHost,List.takeWhile_append_of_pos whole,List.dropWhile_append_of_pos whole,
    List.takeWhile_cons_of_neg (by decide),List.dropWhile_cons_of_neg (by decide),List.append_nil]

/-- Only brackets and characters beyond ASCII can make a host unfit. -/
theorem checkHost_ok (ascii : ∀ c ∈ host, c.toNat < 0x80) (opening : '[' ∉ host)
    (closing : ']' ∉ host) : checkHost host = .ok () := by
  have compatible : host.any compatibilitySeparators.contains = false := by
    refine List.any_eq_false.mpr fun c member => ?_
    have low := ascii c member
    simp [Ranges.contains,compatibilitySeparators]
    omega
  simp [checkHost,opening,closing,compatible]

theorem clean_visible {cs : List Char} (visible : ∀ c ∈ cs, 0x20 < c.toNat) : clean cs = cs := by
  have start : cs.dropWhile (·.toNat ≤ 0x20) = cs := by
    cases cs with
    | nil => rfl
    | cons c cs => exact List.dropWhile_cons_of_neg (by simp [visible c])
  have kept : ∀ c ∈ cs, (c ≠ '\t' && c ≠ '\r' && c ≠ '\n') = true := by
    intro c member
    have low := visible c member
    have apart (d : Char) (below : d.toNat ≤ 0x20) : c ≠ d := fun same => by
      rw [same] at low
      omega
    simp [apart '\t' (by decide),apart '\r' (by decide),apart '\n' (by decide)]
  rw [clean,start,List.filter_eq_self.mpr kept]

theorem dropParameters_append {last : List Char} (slashless : '/' ∉ last) (plain : ';' ∉ last)
    (front : List Char) : dropParameters (front ++ '/' :: last) = front ++ '/' :: last := by
  have kept : last.takeWhile (· ≠ ';') = last :=
    List.takeWhile_eq_self_iff.mpr fun c member => decide_eq_true fun same => plain (same ▸ member)
  have size : (front ++ '/' :: last).length - last.length = (front ++ ['/']).length := by
    simp only [List.length_append,List.length_cons,List.length_nil]
    omega
  have split : front ++ '/' :: last = (front ++ ['/']) ++ last := by simp
  rw [dropParameters,afterLast_append slashless,kept,size,split,List.take_left]

end Address

namespace Repository

/-! What the parts of an address may hold. -/

def isHostChar (c : Char) : Bool := c.isLower || c.isDigit || c == '.' || c == '-'

def isOwnerChar (c : Char) : Bool := c.isAlphanum || c == '-'

def isNameChar (c : Char) : Bool := c.isAlphanum || c == '.' || c == '_' || c == '-'

def isAddressChar (c : Char) : Bool := isNameChar c || c == '/' || c == ':'

theorem isAddressChar_of_name {c : Char} (sound : isNameChar c = true) : isAddressChar c = true := by
  simp [isAddressChar,sound]

theorem isNameChar_of_owner {c : Char} (sound : isOwnerChar c = true) : isNameChar c = true := by
  simp only [isOwnerChar,isNameChar,Bool.or_eq_true] at sound ⊢
  tauto

theorem isNameChar_of_host {c : Char} (sound : isHostChar c = true) : isNameChar c = true := by
  simp only [isHostChar,isNameChar,Char.isAlphanum,Char.isAlpha,Bool.or_eq_true] at sound ⊢
  tauto

theorem isAddressChar_bounds {c : Char} (sound : isAddressChar c = true) :
    0x20 < c.toNat ∧ c.toNat < 0x80 := by
  simp only [isAddressChar,isNameChar,Bool.or_eq_true,beq_iff_eq] at sound
  rcases sound with ((((alphanum | rfl) | rfl) | rfl) | rfl) | rfl
  · simp only [Char.isAlphanum,Char.isAlpha,Char.isUpper,Char.isLower,Char.isDigit,Bool.or_eq_true,
      Bool.and_eq_true,decide_eq_true_eq,UInt32.le_iff_toNat_le,ge_iff_le] at alphanum
    have number : c.toNat = c.val.toNat := rfl
    have capitals : 'A'.val.toNat = 65 ∧ 'Z'.val.toNat = 90 := ⟨rfl,rfl⟩
    have letters : 'a'.val.toNat = 97 ∧ 'z'.val.toNat = 122 := ⟨rfl,rfl⟩
    have digits : '0'.val.toNat = 48 ∧ '9'.val.toNat = 57 := ⟨rfl,rfl⟩
    omega
  all_goals decide

structure Place where
  host : String
  owner : String
  name : String
  hostSound : ∀ c ∈ host.toList, isHostChar c = true
  ownerSound : ∀ c ∈ owner.toList, isOwnerChar c = true
  nameSound : ∀ c ∈ name.toList, isNameChar c = true
  named : name.toList ≠ []
  bare : ¬".git".toList <:+ name.toList

namespace Place

def ending (ended : Bool) : String := if ended then ".git" else ""

def address (p : Place) (ended : Bool) (slashes : Nat) : String :=
  "https://" ++ p.host ++ "/" ++ p.owner ++ "/" ++ p.name ++ ending ended ++
    String.ofList (List.replicate slashes '/')

def NamesCutHost (p : Place) : Prop :=
  "github.com".toList <:+: p.host.toList ∨ "github.com".toList <:+: p.name.toList

variable (p : Place) (ended : Bool)

def last : List Char := p.name.toList ++ (ending ended).toList

def path : List Char := '/' :: (p.owner.toList ++ '/' :: p.last ended)

def chars : List Char := "https:".toList ++ '/' :: '/' :: (p.host.toList ++ p.path ended)

theorem toList_address (slashes : Nat) :
    (p.address ended slashes).toList = p.chars ended ++ List.replicate slashes '/' := by
  simp [address,chars,path,last]

theorem sound_last : ∀ c ∈ p.last ended, isNameChar c = true := by
  refine List.forall_mem_append.mpr ⟨p.nameSound,?_⟩
  cases ended <;> decide

theorem slashless_last : '/' ∉ p.last ended :=
  fun member => ne_of_class (p.sound_last ended _ member) (by decide) rfl

theorem sound_path : ∀ c ∈ p.path ended, isAddressChar c = true := by
  have owner : ∀ c ∈ p.owner.toList, isAddressChar c = true := fun c member =>
    isAddressChar_of_name (isNameChar_of_owner (p.ownerSound c member))
  have last : ∀ c ∈ p.last ended, isAddressChar c = true := fun c member =>
    isAddressChar_of_name (p.sound_last ended c member)
  simp only [path,List.forall_mem_cons,List.forall_mem_append]
  exact ⟨by decide,owner,by decide,last⟩

theorem sound_chars : ∀ c ∈ p.chars ended, isAddressChar c = true := by
  have host : ∀ c ∈ p.host.toList, isAddressChar c = true := fun c member =>
    isAddressChar_of_name (isNameChar_of_host (p.hostSound c member))
  simp only [chars,List.forall_mem_cons,List.forall_mem_append]
  exact ⟨by decide,by decide,by decide,host,p.sound_path ended⟩

theorem checkHost_host : Address.checkHost p.host.toList = .ok () := by
  refine Address.checkHost_ok (fun c member => ?_) (fun member => ?_) fun member => ?_
  · exact (isAddressChar_bounds
      (isAddressChar_of_name (isNameChar_of_host (p.hostSound c member)))).2
  · exact ne_of_class (p.hostSound _ member) (by decide) rfl
  · exact ne_of_class (p.hostSound _ member) (by decide) rfl

theorem path_chars : Address.path (p.chars ended) = .ok (p.path ended) := by
  have visible : ∀ c ∈ p.chars ended, 0x20 < c.toNat := fun c member =>
    (isAddressChar_bounds (p.sound_chars ended c member)).1
  have unended : ∀ c ∈ p.host.toList, Address.endsHost c = false := fun c member => by
    have sound := p.hostSound c member
    have slash : c ≠ '/' := ne_of_class sound (by decide)
    have query : c ≠ '?' := ne_of_class sound (by decide)
    have fragment : c ≠ '#' := ne_of_class sound (by decide)
    simp [Address.endsHost,slash,query,fragment]
  have kept (sign : Char) (outside : isAddressChar sign = false) :
      (p.path ended).takeWhile (· ≠ sign) = p.path ended :=
    List.takeWhile_eq_self_iff.mpr fun c member =>
      decide_eq_true (ne_of_class (p.sound_path ended c member) outside)
  have plain : ';' ∉ p.last ended := fun member =>
    ne_of_class (p.sound_last ended _ member) (by decide) rfl
  have scheme : Address.splitScheme (p.chars ended) =
      ("https",'/' :: '/' :: (p.host.toList ++ p.path ended)) := rfl
  have parameters : Address.dropParameters (p.path ended) = p.path ended :=
    Address.dropParameters_append (p.slashless_last ended) plain ('/' :: p.owner.toList)
  have host : Address.splitHost ('/' :: '/' :: (p.host.toList ++ p.path ended)) =
      (p.host.toList,p.path ended) := Address.splitHost_slash unended _
  simp only [Address.path,Address.clean_visible visible,scheme,host,p.checkHost_host,kept '#' rfl,
    kept '?' rfl,parameters,ite_self]
  rfl

theorem trimmed (slashes : Nat) :
    dropEndWhile (· = '/') (p.address ended slashes).toList = p.chars ended := by
  have filled : p.last ended ≠ [] := List.append_ne_nil_of_left_ne_nil p.named _
  have kept : ∀ c ∈ p.last ended, decide (c = '/') = false := fun c member =>
    decide_eq_false (ne_of_class (p.sound_last ended c member) (by decide))
  have slash : ∀ c ∈ List.replicate slashes '/', decide (c = '/') = true := by simp
  have split : p.chars ended = ("https:".toList ++ '/' :: '/' :: (p.host.toList ++ '/' ::
      (p.owner.toList ++ ['/']))) ++ p.last ended := by simp [chars,path]
  rw [toList_address,dropEndWhile_append slash,split,dropEndWhile_append_of_none filled kept]

theorem afterLast_behind (front : List Char) : afterLast '/' (front ++ p.path ended) = p.last ended := by
  have split : front ++ p.path ended = (front ++ '/' :: p.owner.toList) ++ '/' :: p.last ended := by
    simp [path]
  rw [split,afterLast_append (p.slashless_last ended)]

theorem isSlashCut_iff : isSlashCut (p.chars ended) = true ↔ p.NamesCutHost := by
  have some_ : "github.com".toList ≠ [] := by decide
  have foreign : '/' ∉ "github.com".toList := by decide
  have slash : (p.chars ended).contains '/' = true := List.contains_iff_mem.mpr (by simp [chars])
  have split : p.chars ended = "https:".toList ++ '/' :: ([] ++ '/' :: (p.host.toList ++ '/' ::
      (p.owner.toList ++ '/' :: p.last ended))) := rfl
  have scheme : ¬"github.com".toList <:+: "https:".toList := by decide
  have owner : ¬"github.com".toList <:+: p.owner.toList := fun inside =>
    ne_of_class (p.ownerSound '.' (inside.subset (by decide))) (by decide) rfl
  have last : "github.com".toList <:+: p.last ended ↔ "github.com".toList <:+: p.name.toList := by
    have apart : Apart "github.com".toList (ending ended).toList := by cases ended <;> decide
    have longer : ¬"github.com".toList <:+: (ending ended).toList := by cases ended <;> decide
    rw [last,infix_append_iff_of_apart apart,or_iff_left longer]
  rw [isSlashCut,slash,Bool.and_true,occurs_iff,split,infix_around_sign some_ foreign,
    infix_around_sign some_ foreign,infix_around_sign some_ foreign,infix_around_sign some_ foreign,
    or_iff_right scheme,or_iff_right (by decide),or_iff_right owner,last]
  rfl

theorem dropEnd_last : dropEnd ".git".toList (p.last ended) = p.name.toList := by
  cases ended with
  | true => exact dropEnd_append ..
  | false =>
    have plain : p.last false = p.name.toList := List.append_nil _
    rw [plain,dropEnd_of_bare p.bare]

theorem nameOfPath_chars (address : List Char) :
    nameOfPath address (p.chars ended) = .ok p.name.toList := by
  have filled : (p.path ended).isEmpty = false := rfl
  have named : p.name.toList.isEmpty = false := List.isEmpty_eq_false_iff.mpr p.named
  have segment : afterLast '/' (p.path ended) = p.last ended := p.afterLast_behind ended []
  rw [nameOfPath,p.path_chars]
  change Except.ok (if (dropEnd _ (afterLast '/' (if (p.path ended).isEmpty then _ else _))).isEmpty
    then _ else _) = _
  simp only [filled,segment,p.dropEnd_last,named,Bool.false_eq_true,if_false]

end Place

/-- The name of a package is that of its repository, with or without `.git` and slashes behind it, unless `.git`
stands in the name and the address names the host whose addresses are cut by slashes. -/
theorem name_is_repository_iff (p : Place) (ended : Bool) (slashes : Nat) :
    packageName (p.address ended slashes) = .ok p.name ↔
      ¬(p.NamesCutHost ∧ ".git".toList <:+: p.name.toList) := by
  have kept : without ".git".toList (p.last ended) = p.name.toList ↔ ¬".git".toList <:+: p.name.toList := by
    refine without_ended_iff (by decide) (by decide) ?_ _
    cases ended
    · exact .inl rfl
    · exact .inr rfl
  rw [packageName,p.trimmed ended slashes]
  split
  · rename_i cut
    have last : afterLast '/' (p.chars ended) = p.last ended :=
      p.afterLast_behind ended ("https:".toList ++ '/' :: '/' :: p.host.toList)
    rw [last,Except.ok.injEq,← String.toList_inj,String.toList_ofList,kept,
      and_iff_right ((p.isSlashCut_iff ended).mp cut)]
  · rename_i uncut
    have elsewhere : ¬p.NamesCutHost := fun named => uncut ((p.isSlashCut_iff ended).mpr named)
    rw [p.nameOfPath_chars]
    simp [Except.map,elsewhere]

def pages : Place where
  host := "github.com"
  owner := "o"
  name := "a.github.io"
  hostSound := by decide
  ownerSound := by decide
  nameSound := by decide
  named := by decide
  bare := by decide

theorem pages_lose_their_name :
    pages.address false 0 = "https://github.com/o/a.github.io" ∧
      packageName "https://github.com/o/a.github.io" = .ok "ahub.io" := by
  decide +kernel

end Repository

end DepAudit
